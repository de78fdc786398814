import MagnumOpus.Lib.EventMachine
import MagnumOpus.Candle.FullBar
import MagnumOpus.Candle.StoredVolume

/-! # What a gap leaves behind

A gap event raises the gap count of the running bar and nothing else, and the end of a bar carries
the last known quote and the last mid price over to the next.  So the bars after a gap depend on
what came before it through these two, until a tick with a valid quote or a reset replaces them.

`laterBars_eq_iff` compares two runs with different pasts: the bars after the one with the gap are
the same, apart from the bar count and the tick intensity, exactly when the rest of that bar
replaces the last known quote, or it was the same in both. -/

namespace MagnumOpus.Candle

open EventMachine

/-- What an accumulator is told. -/
inductive AccEvent where
  | tick (price size : String) (isTrade : Bool) (side : String) (tsMs : Int64)
      (prevQuote currQuote : BestQuote)
  | blockTrade (side : String) (size : ℚ)
  | openDepth (d : DepthSnapshot)
  | closeDepth (d : DepthSnapshot)
  | gap
  | obAdd (side : String) (size : ℚ)
  | obCancel (side : String)
  | obModify
  /-- The bar ends, or a part of it. -/
  | boundary (tsSecMs : Int64) (isPartial : Bool)
  | reset
deriving DecidableEq

/-- The bar without what goes on across gaps. -/
def FullBar.apart (b : FullBar) : FullBar := { b with barCount := 0, hawkesIntensity := none }

namespace FullAccumulator

variable (N : Numerics) (F : Features)

/-- Shows the bar that ends. -/
def step : Step FullAccumulator AccEvent FullBar := fun a e =>
  match e with
  | .tick price size isTrade side tsMs prevQuote currQuote =>
      (a.apply N price size isTrade side tsMs prevQuote currQuote, [])
  | .blockTrade side size => (a.applyBlockTrade side size, [])
  | .openDepth d => (a.setOpenDepth d, [])
  | .closeDepth d => (a.setCloseDepth d, [])
  | .gap => (a.incrementGap, [])
  | .obAdd side size => (a.incrementOBAdd side size, [])
  | .obCancel side => (a.incrementOBCancel side, [])
  | .obModify => (a.incrementOBModify, [])
  | .boundary tsSecMs isPartial =>
      (a.seedFromLastKnown.barReset, [a.seedFromLastKnown.currentBar F tsSecMs isPartial])
  | .reset => (a.reset, [])

/-- The bars after the one with the gap, which ends at `boundary`. -/
def laterBars (a : FullAccumulator) (rest : List AccEvent) (boundary : Int64 × Bool)
    (post : List AccEvent) : List FullBar :=
  let run := .gap :: rest ++ [.boundary boundary.1 boundary.2]
  (trace (step N F) (final (step N F) a run) post).map FullBar.apart

/-- The last known quote. -/
def lastKnown (a : FullAccumulator) : Option (ℚ × ℚ) :=
  if a.quotes.hasLastKnownOB then some (a.quotes.lastKnownBid, a.quotes.lastKnownAsk) else none

/-- The event replaces the last known quote: a tick with a valid quote, or a reset. -/
def ReplacesQuote : AccEvent → Prop
  | .tick _ _ _ _ _ _ currQuote => (Accumulator.parseQuote N currQuote).isSome
  | .reset => True
  | _ => False

instance (e : AccEvent) : Decidable (ReplacesQuote N e) := by
  unfold ReplacesQuote
  cases e <;> infer_instance

/-! ### What bars depend on -/

/-- The accumulator without what goes on across gaps. -/
def apart (a : FullAccumulator) : FullAccumulator :=
  { a with flow := { a.flow with hawkesDecaySum := 0, lastTickTsMs := 0 }, barCount := 0 }

variable {N F} {a b : FullAccumulator}

/-- No event makes what goes on matter for anything else. -/
theorem apart_step (a : FullAccumulator) (e : AccEvent) :
    (step N F a e).1.apart = (step N F a.apart e).1.apart ∧
      (step N F a e).2.map FullBar.apart = (step N F a.apart e).2.map FullBar.apart := by
  cases e with
  | tick price size isTrade side tsMs prevQuote currQuote => exact ⟨rfl, rfl⟩
  | blockTrade side size => exact ⟨rfl, rfl⟩
  | openDepth d => exact ⟨rfl, rfl⟩
  | closeDepth d => exact ⟨rfl, rfl⟩
  | gap => exact ⟨rfl, rfl⟩
  | obAdd side size => exact ⟨rfl, rfl⟩
  | obCancel side => exact ⟨rfl, rfl⟩
  | obModify => exact ⟨rfl, rfl⟩
  | reset => exact ⟨rfl, rfl⟩
  | boundary tsSecMs isPartial =>
      have hseed : a.apart.seedFromLastKnown = a.seedFromLastKnown.apart := by
        unfold seedFromLastKnown BarAccumulator.seedFromLastKnown apart
        dsimp only
        split <;> rfl
      simp only [step, hseed]
      exact ⟨rfl, rfl⟩

theorem laterBars_congr (h : a.apart = b.apart) (es : List AccEvent) :
    (trace (step N F) a es).map FullBar.apart = (trace (step N F) b es).map FullBar.apart := by
  refine trace_map_congr (R := fun a b => a.apart = b.apart) (fun a b e hab => ?_) es h
  obtain ⟨hnext, hshown⟩ := apart_step (N := N) (F := F) a e
  obtain ⟨hnext', hshown'⟩ := apart_step (N := N) (F := F) b e
  rw [hnext, hshown, hnext', hshown', hab]
  exact ⟨rfl, rfl⟩

/-! ### What goes on at the end of a bar -/

/-- The last mid price is that of the last known quote. -/
structure Carried (a : FullAccumulator) : Prop where
  hasLastMid : a.moments.hasLastMid = a.quotes.hasLastKnownOB
  lastMidPrice : a.moments.lastMidPrice =
    if a.quotes.hasLastKnownOB then midPrice a.quotes.lastKnownBid a.quotes.lastKnownAsk else 0
  unknown : a.quotes.hasLastKnownOB = false →
    a.quotes.lastKnownBid = 0 ∧ a.quotes.lastKnownAsk = 0

theorem carried_new (exchange symbol : String) : (new exchange symbol).Carried :=
  ⟨rfl, rfl, fun _ => ⟨rfl, rfl⟩⟩

theorem Carried.of_eq (h : a.Carried) (hquotes : b.quotes.hasLastKnownOB = a.quotes.hasLastKnownOB ∧
      b.quotes.lastKnownBid = a.quotes.lastKnownBid ∧ b.quotes.lastKnownAsk = a.quotes.lastKnownAsk)
    (hmoments : b.moments.hasLastMid = a.moments.hasLastMid ∧
      b.moments.lastMidPrice = a.moments.lastMidPrice) : b.Carried := by
  obtain ⟨hhas, hbid, hask⟩ := hquotes
  obtain ⟨hmid, hprice⟩ := hmoments
  refine ⟨hmid.trans (h.hasLastMid.trans hhas.symm), ?_, ?_⟩
  · rw [hprice, hhas, hbid, hask]
    exact h.lastMidPrice
  · rw [hhas, hbid, hask]
    exact h.unknown

theorem seedFromLastKnown_quotes (a : FullAccumulator) :
    (a.seedFromLastKnown.quotes.hasLastKnownOB = a.quotes.hasLastKnownOB ∧
      a.seedFromLastKnown.quotes.lastKnownBid = a.quotes.lastKnownBid ∧
      a.seedFromLastKnown.quotes.lastKnownAsk = a.quotes.lastKnownAsk) ∧
    a.seedFromLastKnown.moments = a.moments ∧ a.seedFromLastKnown.exchange = a.exchange ∧
      a.seedFromLastKnown.symbol = a.symbol := by
  unfold seedFromLastKnown BarAccumulator.seedFromLastKnown
  dsimp only
  split <;> exact ⟨⟨rfl, rfl, rfl⟩, rfl, rfl, rfl⟩

/-- What one event does to the last known quote. -/
def quoteAfter (N : Numerics) (known : Option (ℚ × ℚ)) : AccEvent → Option (ℚ × ℚ)
  | .tick _ _ _ _ _ _ currQuote => (Accumulator.parseQuote N currQuote).or known
  | .reset => none
  | _ => known

theorem carried_step (h : a.Carried) (e : AccEvent) : (step N F a e).1.Carried := by
  cases e with
  | tick price size isTrade side tsMs prevQuote currQuote =>
      simp only [step, apply, BarAccumulator.apply, Accumulator.apply]
      cases Accumulator.parseQuote N currQuote with
      | none => exact h.of_eq ⟨rfl, rfl, rfl⟩ ⟨rfl, rfl⟩
      | some quote => exact ⟨rfl, rfl, fun hno => Bool.noConfusion hno⟩
  | boundary tsSecMs isPartial =>
      obtain ⟨hquotes, hmoments, -⟩ := a.seedFromLastKnown_quotes
      have hmid : a.seedFromLastKnown.moments.hasLastMid = a.moments.hasLastMid := by rw [hmoments]
      have hprice : a.seedFromLastKnown.moments.lastMidPrice = a.moments.lastMidPrice := by
        rw [hmoments]
      exact h.of_eq hquotes ⟨hmid, hprice⟩
  | reset => exact ⟨rfl, rfl, fun _ => ⟨rfl, rfl⟩⟩
  | blockTrade side size => exact h.of_eq ⟨rfl, rfl, rfl⟩ ⟨rfl, rfl⟩
  | openDepth d => exact h.of_eq ⟨rfl, rfl, rfl⟩ ⟨rfl, rfl⟩
  | closeDepth d => exact h.of_eq ⟨rfl, rfl, rfl⟩ ⟨rfl, rfl⟩
  | gap => exact h.of_eq ⟨rfl, rfl, rfl⟩ ⟨rfl, rfl⟩
  | obAdd side size => exact h.of_eq ⟨rfl, rfl, rfl⟩ ⟨rfl, rfl⟩
  | obCancel side => exact h.of_eq ⟨rfl, rfl, rfl⟩ ⟨rfl, rfl⟩
  | obModify => exact h.of_eq ⟨rfl, rfl, rfl⟩ ⟨rfl, rfl⟩

theorem lastKnown_congr (hhas : b.quotes.hasLastKnownOB = a.quotes.hasLastKnownOB)
    (hbid : b.quotes.lastKnownBid = a.quotes.lastKnownBid)
    (hask : b.quotes.lastKnownAsk = a.quotes.lastKnownAsk) : b.lastKnown = a.lastKnown := by
  rw [lastKnown, lastKnown, hhas, hbid, hask]

theorem lastKnown_step (a : FullAccumulator) (e : AccEvent) :
    (step N F a e).1.lastKnown = quoteAfter N a.lastKnown e := by
  cases e with
  | tick price size isTrade side tsMs prevQuote currQuote =>
      simp only [step, apply, BarAccumulator.apply, Accumulator.apply, quoteAfter]
      cases Accumulator.parseQuote N currQuote with
      | none => exact lastKnown_congr rfl rfl rfl
      | some quote => rfl
  | boundary tsSecMs isPartial =>
      obtain ⟨⟨hhas, hbid, hask⟩, -⟩ := a.seedFromLastKnown_quotes
      exact lastKnown_congr hhas hbid hask
  | reset => rfl
  | blockTrade side size => rfl
  | openDepth d => rfl
  | closeDepth d => rfl
  | gap => rfl
  | obAdd side size => rfl
  | obCancel side => rfl
  | obModify => rfl

theorem exchange_step (a : FullAccumulator) (e : AccEvent) :
    (step N F a e).1.exchange = a.exchange ∧ (step N F a e).1.symbol = a.symbol := by
  cases e with
  | boundary tsSecMs isPartial => exact a.seedFromLastKnown_quotes.2.2
  | tick price size isTrade side tsMs prevQuote currQuote => exact ⟨rfl, rfl⟩
  | blockTrade side size => exact ⟨rfl, rfl⟩
  | openDepth d => exact ⟨rfl, rfl⟩
  | closeDepth d => exact ⟨rfl, rfl⟩
  | gap => exact ⟨rfl, rfl⟩
  | obAdd side size => exact ⟨rfl, rfl⟩
  | obCancel side => exact ⟨rfl, rfl⟩
  | obModify => exact ⟨rfl, rfl⟩
  | reset => exact ⟨rfl, rfl⟩

/-- An accumulator between two bars. -/
def between (exchange symbol : String) (known : Option (ℚ × ℚ)) : FullAccumulator where
  exchange := exchange
  symbol := symbol
  quotes := known.elim {} fun q =>
    { lastKnownBid := q.1, lastKnownAsk := q.2, hasLastKnownOB := true }
  moments := known.elim {} fun q => { lastMidPrice := midPrice q.1 q.2, hasLastMid := true }

theorem apart_barReset (h : a.Carried) :
    a.barReset.apart = between a.exchange a.symbol a.lastKnown := by
  obtain ⟨hmid, hprice, hunknown⟩ := h
  simp only [barReset, BarAccumulator.barReset, Accumulator.barReset, apart, between, lastKnown, hmid,
    hprice]
  cases hknown : a.quotes.hasLastKnownOB with
  | true => rfl
  | false =>
      obtain ⟨hbid, hask⟩ := hunknown hknown
      rw [hbid, hask]
      rfl

/-- All that the end of a bar leaves is the last known quote. -/
theorem apart_boundary (h : a.Carried) (tsSecMs : Int64) (isPartial : Bool) :
    (step N F a (.boundary tsSecMs isPartial)).1.apart =
      between a.exchange a.symbol a.lastKnown := by
  obtain ⟨⟨hhas, hbid, hask⟩, hmoments, hexchange, hsymbol⟩ := a.seedFromLastKnown_quotes
  have hseeded : a.seedFromLastKnown.Carried :=
    h.of_eq ⟨hhas, hbid, hask⟩ ⟨by rw [hmoments], by rw [hmoments]⟩
  rw [← lastKnown_congr hhas hbid hask, ← hexchange, ← hsymbol]
  exact apart_barReset hseeded

/-! ### Two pasts -/

theorem foldl_quoteAfter_of_replaced {es : List AccEvent} (h : ∃ e ∈ es, ReplacesQuote N e)
    (known known' : Option (ℚ × ℚ)) :
    es.foldl (quoteAfter N) known = es.foldl (quoteAfter N) known' := by
  induction es generalizing known known' with
  | nil =>
      obtain ⟨e, he, -⟩ := h
      exact absurd he List.not_mem_nil
  | cons e es ih =>
      obtain ⟨e', he', hreplaces⟩ := h
      rcases List.mem_cons.mp he' with rfl | hmem
      · have heq : quoteAfter N known e' = quoteAfter N known' e' := by
          cases e' with
          | tick price size isTrade side tsMs prevQuote currQuote =>
              obtain ⟨q, hq⟩ := Option.isSome_iff_exists.mp hreplaces
              rw [quoteAfter, quoteAfter, hq, Option.some_or, Option.some_or]
          | reset => rfl
          | _ => cases hreplaces
        rw [List.foldl_cons, List.foldl_cons, heq]
      · exact ih ⟨e', hmem, hreplaces⟩ _ _

theorem foldl_quoteAfter_of_kept {es : List AccEvent} (h : ¬ ∃ e ∈ es, ReplacesQuote N e)
    (known : Option (ℚ × ℚ)) : es.foldl (quoteAfter N) known = known := by
  induction es with
  | nil => rfl
  | cons e es ih =>
      have hkeeps : ¬ ReplacesQuote N e := fun he => h ⟨e, List.mem_cons_self, he⟩
      have heq : quoteAfter N known e = known := by
        cases e with
        | tick price size isTrade side tsMs prevQuote currQuote =>
            have hnone := Option.not_isSome_iff_eq_none.mp hkeeps
            rw [quoteAfter, hnone, Option.none_or]
        | reset => exact absurd trivial hkeeps
        | _ => rfl
      rw [List.foldl_cons, heq]
      exact ih fun ⟨e', he', hreplaces⟩ => h ⟨e', List.mem_cons_of_mem e he', hreplaces⟩

theorem final_facts (N : Numerics) (F : Features) (h : a.Carried) (es : List AccEvent) :
    (final (step N F) a es).Carried ∧ (final (step N F) a es).exchange = a.exchange ∧
      (final (step N F) a es).symbol = a.symbol ∧
      (final (step N F) a es).lastKnown = es.foldl (quoteAfter N) a.lastKnown := by
  induction es generalizing a with
  | nil => exact ⟨h, rfl, rfl, rfl⟩
  | cons e es ih =>
      obtain ⟨hcarried, hexchange, hsymbol, hknown⟩ := ih (carried_step (F := F) (N := N) h e)
      obtain ⟨hexchange', hsymbol'⟩ := exchange_step (N := N) (F := F) a e
      rw [lastKnown_step] at hknown
      exact ⟨hcarried, hexchange.trans hexchange', hsymbol.trans hsymbol', hknown⟩

/-- An empty bar opens at the last known quote. -/
theorem openQuote_between (F : Features) (exchange symbol : String) (known : Option (ℚ × ℚ)) :
    let bar := (between exchange symbol known).seedFromLastKnown.currentBar F 0 false
    bar.bestBidOpen = known.map Prod.fst ∧ bar.bestAskOpen = known.map Prod.snd := by
  cases known with
  | none => exact ⟨rfl, rfl⟩
  | some q => exact ⟨rfl, rfl⟩

theorem known_of_bars (N : Numerics) {exchange symbol : String} {known known' : Option (ℚ × ℚ)}
    (ha : a.apart = between exchange symbol known) (hb : b.apart = between exchange symbol known')
    (h : (step N F a (.boundary 0 false)).2.map FullBar.apart =
      (step N F b (.boundary 0 false)).2.map FullBar.apart) : known = known' := by
  rw [(apart_step a _).2, (apart_step b _).2, ha, hb] at h
  have hbar := (List.cons.inj h).1
  have hbid := congrArg (fun bar : FullBar => bar.bestBidOpen) hbar
  have hask := congrArg (fun bar : FullBar => bar.bestAskOpen) hbar
  obtain ⟨hopen, hopen'⟩ := openQuote_between F exchange symbol known
  obtain ⟨hopen₁, hopen₁'⟩ := openQuote_between F exchange symbol known'
  simp only [FullBar.apart] at hbid hask
  rw [hopen, hopen₁] at hbid
  rw [hopen', hopen₁'] at hask
  cases known with
  | none => exact (Option.map_eq_none_iff.mp hbid.symm).symm
  | some q =>
      obtain ⟨q', rfl, hfst⟩ := Option.map_eq_some_iff.mp hbid.symm
      rw [Option.map_some, Option.map_some, Option.some.injEq] at hask
      exact congrArg some (Prod.ext hfst.symm hask)

/-- The bars after the one with the gap are the same for every way to go on exactly when the last
known quote is when that bar ends. -/
theorem laterBars_eq_iff_lastKnown (ha : a.Carried) (hb : b.Carried)
    (hexchange : a.exchange = b.exchange) (hsymbol : a.symbol = b.symbol) (rest : List AccEvent)
    (boundary : Int64 × Bool) :
    (∀ post, laterBars N F a rest boundary post = laterBars N F b rest boundary post) ↔
      rest.foldl (quoteAfter N) a.lastKnown = rest.foldl (quoteAfter N) b.lastKnown := by
  obtain ⟨hcarried, hex, hsym, hknown⟩ := final_facts N F ha (.gap :: rest)
  obtain ⟨hcarried', hex', hsym', hknown'⟩ := final_facts N F hb (.gap :: rest)
  have hstart := apart_boundary (N := N) (F := F) hcarried boundary.1 boundary.2
  have hstart' := apart_boundary (N := N) (F := F) hcarried' boundary.1 boundary.2
  rw [hex, hsym, hknown] at hstart
  rw [hex', hsym', hknown', ← hexchange, ← hsymbol] at hstart'
  simp only [List.foldl_cons, quoteAfter] at hstart hstart'
  simp only [laterBars, final_append, final_cons, final_nil] at hstart hstart' ⊢
  constructor
  · intro h
    have hempty := h [.boundary 0 false]
    simp only [trace_cons, trace_nil, List.append_nil] at hempty
    exact known_of_bars N hstart hstart' hempty
  · intro heq post
    exact laterBars_congr (hstart.trans (heq ▸ hstart'.symm)) post

/-- **The later bars of two pasts are the same exactly when the rest of the bar with the gap
replaces the last known quote, or both pasts leave the same one.** -/
theorem laterBars_eq_iff (N : Numerics) (F : Features) (exchange symbol : String)
    (pre pre' rest : List AccEvent) (boundary : Int64 × Bool) :
    (∀ post, laterBars N F (final (step N F) (new exchange symbol) pre) rest boundary post =
        laterBars N F (final (step N F) (new exchange symbol) pre') rest boundary post) ↔
      (∃ e ∈ rest, ReplacesQuote N e) ∨
        (final (step N F) (new exchange symbol) pre).lastKnown =
          (final (step N F) (new exchange symbol) pre').lastKnown := by
  obtain ⟨hcarried, hexchange, hsymbol, -⟩ := final_facts N F (carried_new exchange symbol) pre
  obtain ⟨hcarried', hexchange', hsymbol', -⟩ := final_facts N F (carried_new exchange symbol) pre'
  rw [laterBars_eq_iff_lastKnown hcarried hcarried' (hexchange.trans hexchange'.symm)
    (hsymbol.trans hsymbol'.symm)]
  by_cases hreplaced : ∃ e ∈ rest, ReplacesQuote N e
  · exact iff_of_true (foldl_quoteAfter_of_replaced hreplaced _ _) (.inl hreplaced)
  · rw [foldl_quoteAfter_of_kept hreplaced, foldl_quoteAfter_of_kept hreplaced,
      or_iff_right hreplaced]

/-- No roots, and nothing computed from a footprint. -/
def noFeatures : Features where
  sqrt _ := 0
  pow _ _ := 0
  footprintJSON _ := none
  computeValueArea _ := none
  computeImbalance _ := {}
  computeAuctionSignals _ _ _ := {}

/-- A tick with a bid of this price. -/
def bidAt (price : String) : AccEvent :=
  .tick price "1" false "buy" 60100 ⟨"", "", "", ""⟩ ⟨price, "1", "9", "1"⟩

/-- The second after the one with the gap has no ticks, and opens at the quote from before it. -/
theorem quote_crosses_gap :
    laterBars Ledger.fractions noFeatures
        (final (step Ledger.fractions noFeatures) (new "bybit" "BTC-USDT") [bidAt "7"]) []
        (61000, false) [.boundary 62000 false] ≠
      laterBars Ledger.fractions noFeatures
        (final (step Ledger.fractions noFeatures) (new "bybit" "BTC-USDT") [bidAt "8"]) []
        (61000, false) [.boundary 62000 false] := by
  intro h
  have hbids := congrArg (List.map fun bar : FullBar => bar.bestBidOpen) h
  exact absurd hbids (by decide +kernel)

end FullAccumulator

end MagnumOpus.Candle
