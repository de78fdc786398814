import MagnumOpus.Lib.EventMachine
import MagnumOpus.Lib.ConsumerGroup
import MagnumOpus.Lib.KeyedWrites
import MagnumOpus.Lib.Strconv
import MagnumOpus.Lib.JsonDecode
import MagnumOpus.Aggregator.OrderBook
import MagnumOpus.Aggregator.Exchange
import MagnumOpus.Aggregator.KucoinParser
import MagnumOpus.Aggregator.BybitParser
import MagnumOpus.Aggregator.Reconnect
import MagnumOpus.Aggregator.Worker
import MagnumOpus.Aggregator.WorkerSteps
import MagnumOpus.Aggregator.MarketMessage
import MagnumOpus.Aggregator.BatchApply
import MagnumOpus.Aggregator.RedisWriter
import MagnumOpus.Candle.Messages
import MagnumOpus.Candle.OrderBook
import MagnumOpus.Candle.Accumulator
import MagnumOpus.Stream.WireAgreement
import MagnumOpus.Lib.SeqTracker
import MagnumOpus.Aggregator.GapMarkers
import MagnumOpus.Aggregator.Resync
import MagnumOpus.Aggregator.GoingLive
import MagnumOpus.Lib.LossyQueue
import MagnumOpus.Aggregator.TickPipeline
import MagnumOpus.Aggregator.TickLoss
import MagnumOpus.Stream.BookReplay
import MagnumOpus.Lib.KeyedSum
import MagnumOpus.Bot.Orders
import MagnumOpus.Bot.OrderWorker
import MagnumOpus.Bot.OrderWorkerSteps
import MagnumOpus.Bot.FillBooking
import MagnumOpus.Bot.Exposure
import MagnumOpus.Bot.FileWatcher
import MagnumOpus.Bot.ServiceSteps
import MagnumOpus.Bot.Halt
import MagnumOpus.Lib.UtcTime
import MagnumOpus.Lib.Ohlcv
import MagnumOpus.Lib.FloatText
import MagnumOpus.Candle.Bar
import MagnumOpus.Candle.FullBar
import MagnumOpus.Candle.GapIsolation
import MagnumOpus.Candle.BarIsolation
import MagnumOpus.Candle.Cascade
import MagnumOpus.Candle.CascadeHash
import MagnumOpus.Candle.CascadeHierarchy
import MagnumOpus.Candle.CascadeWindows
import MagnumOpus.Candle.AccWriter
import MagnumOpus.Candle.Consumer
import MagnumOpus.Candle.FullConsumer
import MagnumOpus.Candle.Publisher
import MagnumOpus.Candle.GapEntries
import MagnumOpus.Candle.GapDedup
import MagnumOpus.Candle.Restart
import MagnumOpus.Candle.Shadow
import MagnumOpus.Candle.Promotion
import MagnumOpus.Candle.PromotionOrder
import MagnumOpus.Stream.GapIdentity
import MagnumOpus.Candle.ColdStart
import MagnumOpus.Candle.Flusher
import MagnumOpus.Candle.ArchiveRow
import MagnumOpus.Candle.ArchiveRoundTrip
import MagnumOpus.Candle.WalBuffer
import MagnumOpus.Candle.WalVolume
import MagnumOpus.Lib.Balance
import MagnumOpus.Candle.StoredVolume
import MagnumOpus.Candle.RunningCvd
import MagnumOpus.Candle.ParallelBars
import MagnumOpus.Lib.JsonText
import MagnumOpus.Lib.QueryText
import MagnumOpus.Bot.SignedRequests
import MagnumOpus.Bot.WorkerSurvival
import MagnumOpus.Bot.RestRetry
import MagnumOpus.Bot.RecordedOutcome
import MagnumOpus.Lib.LatestBy
import MagnumOpus.Bot.Reconciliation
import MagnumOpus.Bot.Recovery
import MagnumOpus.Bot.Positions
import MagnumOpus.Bot.PrivateFeeds
import MagnumOpus.Bot.PartialFills
import MagnumOpus.Bot.StreamEvents
import MagnumOpus.Stream.BusAgreement
import MagnumOpus.Bot.EventBus
import MagnumOpus.Bot.GapGating
import MagnumOpus.Bot.BusOverflow
import MagnumOpus.Aggregator.BybitMux
import MagnumOpus.Bot.StreamKeys
import MagnumOpus.Bot.StrategyThreads
import MagnumOpus.Bot.ThreadSteps
import MagnumOpus.Bot.ThreadTracking
import MagnumOpus.Aggregator.PanicProtocol
import MagnumOpus.Aggregator.BybitAcks
import MagnumOpus.Aggregator.KucoinAcks
import MagnumOpus.Aggregator.AddSymbol
import MagnumOpus.Bot.Backtest
import MagnumOpus.Bot.TradeLog
import MagnumOpus.Bot.PaperTrading
import MagnumOpus.Bot.PaperBacktest
import MagnumOpus.Bot.EmergencyClose
import MagnumOpus.Bot.Barrier
import MagnumOpus.Bot.BarrierFiring
import MagnumOpus.Ml.Labels
import MagnumOpus.Ml.WalkForward
import MagnumOpus.Lib.Reach
import MagnumOpus.Ml.Extractor
import MagnumOpus.Ml.FeatureCausality
import MagnumOpus.Lib.Kalman
import MagnumOpus.Lib.LogSquare
import MagnumOpus.Ml.Spread
import MagnumOpus.Ml.SpreadAgreement
import MagnumOpus.Gateway.Hub
import MagnumOpus.Gateway.Provenance
import MagnumOpus.Aggregator.ReconnectLaw
import MagnumOpus.Candle.BookLog
import MagnumOpus.Candle.StartUp
import MagnumOpus.Candle.StartUpOrder
import MagnumOpus.Candle.BarTrades
import MagnumOpus.Candle.MidReturns
import MagnumOpus.Candle.TradeStats
import MagnumOpus.Candle.TradeOffsets
import MagnumOpus.Gateway.SendOrder
import MagnumOpus.Candle.Migrator
import MagnumOpus.Candle.MigrationRuns
import MagnumOpus.Bot.RollingFrames
import MagnumOpus.Candle.Boundaries
import MagnumOpus.Bot.CostBasis
import MagnumOpus.Bot.DailyLoss
import MagnumOpus.Bot.OrderEncoding
import MagnumOpus.Bot.PaperPrices
import MagnumOpus.Bot.RescanLoop
import MagnumOpus.Bot.Validation
import MagnumOpus.Lib.GreedySpan
import MagnumOpus.Lib.SliceSort
import MagnumOpus.Candle.DepthViews
import MagnumOpus.Candle.ValueArea
import MagnumOpus.Lib.ByteLayout
import MagnumOpus.Lib.JsonScan
import MagnumOpus.Lib.JsonUnmarshal
import MagnumOpus.Gateway.Codec
import MagnumOpus.Gateway.Routing
import MagnumOpus.Aggregator.KucoinBackoff
import MagnumOpus.Aggregator.SymbolNames
import MagnumOpus.Aggregator.GapWindow
import MagnumOpus.Bot.FillMemory
import MagnumOpus.Candle.BlockTrades
import MagnumOpus.Bot.DataSegments
import MagnumOpus.Aggregator.TickWriter
import MagnumOpus.Aggregator.DepthPublisher
import MagnumOpus.Lib.Interrupts
import MagnumOpus.Ml.Inference
import MagnumOpus.Stream.DepthWire
import MagnumOpus.Bot.FallbackReach
import MagnumOpus.Candle.FootprintSignals
import MagnumOpus.Candle.Regime
import MagnumOpus.Stream.RegimeGate
import MagnumOpus.Aggregator.KucoinConnection
import MagnumOpus.Aggregator.KucoinSignals
import MagnumOpus.Aggregator.SnapshotDispatch
import MagnumOpus.Aggregator.Shutdown
import MagnumOpus.Lib.KeyedFiles
import MagnumOpus.Ml.ClusterFrames
