import MagnumOpus.Candle.Consumer

/-! # Two ways to a minute

The bar of a minute, and that of a quarter of an hour, is made twice: by an accumulator that sees
every tick, and by the cascade out of the finished 1s bars.

* **The hope.** `Agrees`: whenever the timeframe closes, both bars have the same prices, volumes and
  number of trades.
* **When it holds.** Exactly when no timeframe closes that is torn (`bars_agree_iff`): a snapshot
  starts the accumulators over and leaves the cascade alone, so trades that the cascade has taken in
  before are missing from the other bar. -/

namespace MagnumOpus.Candle

open EventMachine Cascade

/-- Same prices, volumes and number of trades; what is absent counts as nothing. -/
structure SameBar (b : Bar) (closed : Cascade.Bar) : Prop where
  openPrice : b.openPrice = closed.openPrice
  high : b.high = closed.high
  low : b.low = closed.low
  close : b.close = closed.close
  volume : b.volume.getD 0 = closed.volume
  quoteVol : b.quoteVolume.getD 0 = closed.quoteVol
  tradeCount : b.tradeCount = closed.tradeCount
  buyVolume : b.buyVolume.getD 0 = closed.buyVolume
  sellVolume : b.sellVolume.getD 0 = closed.sellVolume

instance : DecidableRel SameBar := fun b closed =>
  decidable_of_iff
    (b.openPrice = closed.openPrice ∧ b.high = closed.high ∧ b.low = closed.low ∧
      b.close = closed.close ∧ b.volume.getD 0 = closed.volume ∧
      b.quoteVolume.getD 0 = closed.quoteVol ∧ b.tradeCount = closed.tradeCount ∧
      b.buyVolume.getD 0 = closed.buyVolume ∧ b.sellVolume.getD 0 = closed.sellVolume)
    ⟨fun h => by obtain ⟨h1, h2, h3, h4, h5, h6, h7, h8, h9⟩ := h; constructor <;> assumption,
      fun h => ⟨h.1, h.2, h.3, h.4, h.5, h.6, h.7, h.8, h.9⟩⟩

/-- The two paths close together, with the same bar. -/
def Flushed.Agrees (f : Flushed) (p : ParallelTF) : Prop :=
  List.Forall₂ SameBar (f.parallel p).toList (f.closed.filter (·.tf = p.tf))

instance (f : Flushed) (p : ParallelTF) : Decidable (f.Agrees p) :=
  inferInstanceAs (Decidable (List.Forall₂ _ _ _))

/-- Every flush of the outputs agrees. -/
def Output.Agrees : Output → Prop
  | .flushed f => ∀ p, f.Agrees p
  | .applied _ | .final _ _ _ => True

instance : (o : Output) → Decidable o.Agrees
  | .flushed f => decidable_of_iff (f.Agrees .tf1m ∧ f.Agrees .tf15m)
      ⟨fun h p => by cases p; exacts [h.1, h.2], fun h => ⟨h .tf1m, h .tf15m⟩⟩
  | .applied _ | .final _ _ _ => isTrue trivial

/-- The consumer, and which timeframes are torn. -/
structure Watched where
  consumer : Consumer
  torn : ParallelTF → Bool := fun _ => false

namespace Watched

variable (N : Numerics) (bestQuote : OrderBook → BestQuote)

def new (exchange symbol : String) (coldBufSize : ℕ) : Watched where
  consumer := .new exchange symbol coldBufSize

/-- The timeframe closes with this event. -/
def closes (c : Consumer) (ev : Event) (p : ParallelTF) : Bool :=
  match ev with
  | .barClose _ _ => (c.writesAt ev).any (isBarClose · p.tf)
  | _ => false

/-- A snapshot tears a timeframe of which the cascade holds trades; a close mends it. -/
def next (s : Watched) (ev : Event) (consumer : Consumer) : Watched where
  consumer := consumer
  torn := fun p =>
    if s.consumer.takesSnapshot ev then s.torn p || (s.consumer.aw.engine.accs p.tf).volume ≠ 0
    else if closes s.consumer ev p then false
    else s.torn p

def step : Step Watched Event Output := fun s ev =>
  let out := Consumer.step N bestQuote s.consumer ev
  (s.next ev out.1, out.2)

/-- No timeframe that closes is torn. -/
def Untorn (s : Watched) (ev : Event) : Prop :=
  ∀ p, closes s.consumer ev p = true → s.torn p = false

/-! ### Volumes of summaries -/

/-- A summary without negative volume, and without volume only where nothing has been traded. -/
structure Proper (x : Ohlcv ℚ Int64) : Prop where
  nonneg : 0 ≤ x.volume
  eq_zero : x.volume = 0 → x = 0

theorem proper_zero : Proper 0 := ⟨le_refl _, fun _ => rfl⟩

theorem Proper.add {x y : Ohlcv ℚ Int64} (hx : Proper x) (hy : Proper y) : Proper (x + y) where
  nonneg := add_nonneg hx.nonneg hy.nonneg
  eq_zero h := by
    obtain ⟨h1, h2⟩ := (add_eq_zero_iff_of_nonneg hx.nonneg hy.nonneg).mp h
    rw [hx.eq_zero h1, hy.eq_zero h2, add_zero]

theorem proper_trade {price size : ℚ} (h : 0 < size) (side : String) :
    Proper (tradeOhlcv price size side) := ⟨h.le, fun h0 => absurd h0 h.ne'⟩

/-! ### The two paths -/

/-- What has gone the two ways since the timeframe's last close: `whole` into the accumulator of the
timeframe, `folded` into the cascade and `running` into the bar of the second. -/
structure InStep (torn : Bool) (whole folded running : Ohlcv ℚ Int64) : Prop where
  properRunning : Proper running
  properFolded : Proper folded
  same : torn = false → whole = folded + running
  less : torn = true → 0 < folded.volume ∧ whole.volume < folded.volume + running.volume

section InStep

variable {torn : Bool} {whole folded running : Ohlcv ℚ Int64}

theorem inStep_zero : InStep false 0 0 0 where
  properRunning := proper_zero
  properFolded := proper_zero
  same _ := (add_zero 0).symm
  less h := Bool.noConfusion h

theorem InStep.tick (h : InStep torn whole folded running) {x : Ohlcv ℚ Int64} (hx : Proper x) :
    InStep torn (whole + x) folded (running + x) where
  properRunning := h.properRunning.add hx
  properFolded := h.properFolded
  same ht := by rw [h.same ht, add_assoc]
  less ht := by
    obtain ⟨hpos, hlt⟩ := h.less ht
    refine ⟨hpos, ?_⟩
    rw [Ohlcv.add_volume, Ohlcv.add_volume, ← add_assoc]
    exact add_lt_add_left hlt _

theorem InStep.fold (h : InStep torn whole folded running) :
    InStep torn whole (folded + running) 0 where
  properRunning := proper_zero
  properFolded := h.properFolded.add h.properRunning
  same ht := by rw [h.same ht, add_zero]
  less ht := by
    obtain ⟨hpos, hlt⟩ := h.less ht
    refine ⟨add_pos_of_pos_of_nonneg hpos h.properRunning.nonneg, ?_⟩
    rw [Ohlcv.add_volume, Ohlcv.zero_volume, add_zero]
    exact hlt

/-- A snapshot starts over what is not in the cascade. -/
theorem InStep.snapshot (h : InStep torn whole folded running) :
    InStep (torn || decide (folded.volume ≠ 0)) 0 folded 0 where
  properRunning := proper_zero
  properFolded := h.properFolded
  same ht := by
    have hzero : folded.volume = 0 := by
      simpa using (Bool.or_eq_false_iff.mp ht).2
    rw [h.properFolded.eq_zero hzero, add_zero]
  less ht := by
    have hpos : 0 < folded.volume := by
      rcases (Bool.or_eq_true _ _).mp ht with ht | ht
      · exact (h.less ht).1
      · exact lt_of_le_of_ne h.properFolded.nonneg (Ne.symm (of_decide_eq_true ht))
    refine ⟨hpos, ?_⟩
    rw [Ohlcv.zero_volume, add_zero]
    exact hpos

/-- The two ways have led to the same only if the timeframe is whole. -/
theorem InStep.volume_eq_iff (h : InStep torn whole folded running) :
    whole.volume = (folded + running).volume ↔ torn = false := by
  constructor
  · intro heq
    by_contra ht
    exact (h.less (Bool.eq_true_of_not_eq_false ht)).2.ne heq
  · intro ht
    rw [h.same ht]

end InStep

/-! ### One step -/

structure Inv (s : Watched) : Prop where
  started : s.consumer.aw.Started
  inStep : ∀ p, InStep (s.torn p) (s.consumer.aw.parallel p).trades.ohlcv
    (s.consumer.aw.engine.accs p.tf).content.1 s.consumer.aw.acc.trades.ohlcv

variable {N bestQuote} {s : Watched} {ev : Event}

theorem inv_new (exchange symbol : String) (coldBufSize : ℕ) :
    Inv (new exchange symbol coldBufSize) where
  started := AccWriter.started_new exchange symbol
  inStep p := by cases p <;> exact inStep_zero

theorem apply_parallel {aw : AccWriter} (h : aw.Started) (t : Tick) (prev curr : BestQuote) :
    let aw' := aw.apply N t.price t.size (t.level = 0) t.side t.tsMs prev curr
    ∃ x, Proper x ∧ aw'.acc.trades.ohlcv = aw.acc.trades.ohlcv + x ∧
      (∀ p, (aw'.parallel p).trades.ohlcv = (aw.parallel p).trades.ohlcv + x) ∧
      aw'.engine = aw.engine := by
  have htick : ∀ a : BarAccumulator, a.trades.Started → _ := fun a ha =>
    (apply_trades (N := N) a t.price t.size (t.level = 0) t.side t.tsMs prev curr ha).2
  refine ⟨_, ?_, htick _ h.acc, ?_, rfl⟩
  · split
    next hcounts =>
      split at hcounts
      · exact proper_trade (Accumulator.parseTrade_eq_some.mp hcounts).2.2 _
      · cases hcounts
    next => exact proper_zero
  · intro p
    cases p
    · exact htick _ (h.parallel .tf1m)
    · exact htick _ (h.parallel .tf15m)

theorem sellVolume_currentBar (a : BarAccumulator) (tsSecMs : Int64) (isPartial : Bool) :
    (a.currentBar tsSecMs isPartial).sellVolume.getD 0 =
      max 0 ((a.currentBar tsSecMs isPartial).volume.getD 0 -
        (a.currentBar tsSecMs isPartial).buyVolume.getD 0) := by
  simp only [BarAccumulator.currentBar, Accumulator.sellVolume]
  split <;> simp

theorem sameBar_iff {b : Bar} {closed : Cascade.Bar}
    (hb : b.sellVolume.getD 0 = max 0 (b.volume.getD 0 - b.buyVolume.getD 0))
    (hclosed : closed.sellVolume = max 0 (closed.volume - closed.buyVolume)) :
    SameBar b closed ↔ b.ohlcv = closed.content.1 := by
  constructor
  · intro h
    exact Ohlcv.ext h.openPrice h.high h.low h.close h.volume h.quoteVol h.buyVolume h.tradeCount
  · intro h
    have hvolume : b.volume.getD 0 = closed.volume := congrArg Ohlcv.volume h
    have hbuy : b.buyVolume.getD 0 = closed.buyVolume := congrArg Ohlcv.buyVolume h
    constructor
    case openPrice => exact congrArg Ohlcv.openPrice h
    case high => exact congrArg Ohlcv.high h
    case low => exact congrArg Ohlcv.low h
    case close => exact congrArg Ohlcv.close h
    case volume => exact hvolume
    case quoteVol => exact congrArg Ohlcv.quoteVolume h
    case tradeCount => exact congrArg Ohlcv.tradeCount h
    case buyVolume => exact hbuy
    case sellVolume => rw [hb, hclosed, hvolume, hbuy]

/-- The bar that a closing accumulator makes has the summary of its trades. -/
theorem flushTF_of_close {a : BarAccumulator} (h : a.trades.Started) {tf : TF} {tsSecMs : Int64}
    (hclose : isBarClose tsSecMs tf = true) :
    (AccWriter.flushTF a tf tsSecMs).1.trades = {} ∧
      ∃ b, (AccWriter.flushTF a tf tsSecMs).2 = some b ∧ b.ohlcv = a.trades.ohlcv ∧
        b.sellVolume.getD 0 = max 0 (b.volume.getD 0 - b.buyVolume.getD 0) := by
  rw [AccWriter.flushTF, if_pos hclose]
  refine ⟨rfl, _, rfl, ?_, ?_⟩
  case refine_2 => exact sellVolume_currentBar a.seedFromLastKnown tsSecMs false
  have hbar := ohlcv_currentBar (a := a.seedFromLastKnown)
    (by rwa [AccWriter.trades_seedFromLastKnown]) tsSecMs false
  rw [AccWriter.trades_seedFromLastKnown] at hbar
  exact hbar

/-- Of a closing timeframe the two bars are the same exactly when the same has gone both ways. -/
theorem agrees_iff {aw : AccWriter} {nowMs : Int64} {f : Flushed} (h : aw.Started)
    (hf : (aw.flush false nowMs true).2 = some f) (p : ParallelTF) :
    f.Agrees p ↔ (isBarClose (truncateSecond nowMs) p.tf = true → (aw.parallel p).trades.ohlcv =
      (aw.engine.accs p.tf).content.1 + aw.acc.trades.ohlcv) := by
  obtain ⟨f', hf', hcleared, -, hclosed, hparallel⟩ := AccWriter.flush_full h.acc nowMs
  obtain rfl := Option.some.inj (hf.symm.trans hf')
  rw [Flushed.Agrees, (hparallel p).2, hclosed, Engine.filter_fold]
  cases hc : isBarClose (truncateSecond nowMs) p.tf with
  | false =>
      rw [AccWriter.flushTF, hc, if_neg Bool.false_ne_true, if_neg Bool.false_ne_true]
      exact iff_of_true .nil fun h => Bool.noConfusion h
  | true =>
      obtain ⟨-, b, hb, hohlcv, hsell⟩ := flushTF_of_close (h.parallel p) hc
      rw [hb, if_pos rfl, Option.toList_some, List.forall₂_cons, and_iff_left .nil,
        sameBar_iff hsell rfl, hohlcv, content_toBar, CascadeAcc.content_fold, Prod.fst_add]
      have hrow : (CascadeAcc.secondContent f.row).1 = aw.acc.trades.ohlcv := hcleared.row.ohlcv
      rw [hrow]
      exact ⟨fun h _ => h, fun h => h rfl⟩

theorem closes_eq_false (h : ∀ calls nowMs, ev ≠ .barClose calls nowMs) (p : ParallelTF) :
    closes s.consumer ev p = false := by
  cases ev with
  | barClose calls nowMs => exact absurd rfl (h calls nowMs)
  | message m calls nowMs => rfl
  | partialPublish => rfl
  | shutdown calls nowMs => rfl

theorem closes_eq_false_of_none (h : s.consumer.writesAt ev = none) (p : ParallelTF) :
    closes s.consumer ev p = false := by
  unfold closes
  rw [h]
  split <;> rfl

theorem closes_eq_false_of_snapshot (h : s.consumer.takesSnapshot ev = true) (p : ParallelTF) :
    closes s.consumer ev p = false := by
  apply closes_eq_false
  rintro calls nowMs rfl
  exact Bool.noConfusion h

theorem untorn_of_not_closes (h : ∀ p, closes s.consumer ev p = false) : s.Untorn ev := by
  intro p hp
  rw [h p] at hp
  exact Bool.noConfusion hp

theorem torn_next (hsnapshot : s.consumer.takesSnapshot ev = false) (c' : Consumer)
    (p : ParallelTF) :
    (s.next ev c').torn p = if closes s.consumer ev p then false else s.torn p := by
  rw [next, hsnapshot]
  rfl

theorem inv_snapshot (h : Inv s) (hsnapshot : s.consumer.takesSnapshot ev = true) {c' : Consumer}
    {aw : AccWriter} (haw : c'.aw = aw.reset) (hengine : aw.engine = s.consumer.aw.engine) :
    Inv (s.next ev c') := by
  have hstarted : c'.aw.Started := by
    rw [haw]
    exact AccWriter.started_reset aw
  refine ⟨hstarted, fun p => ?_⟩
  have htorn : (s.next ev c').torn p =
      (s.torn p || decide ((s.consumer.aw.engine.accs p.tf).content.1.volume ≠ 0)) := by
    rw [next, hsnapshot]
    rfl
  have hengine' : c'.aw.engine = s.consumer.aw.engine := by
    rw [haw]
    exact hengine
  have hparallel : (c'.aw.parallel p).trades.ohlcv = 0 := by
    rw [haw]
    cases p <;> rfl
  have hacc : c'.aw.acc.trades.ohlcv = 0 := by
    rw [haw]
    rfl
  rw [htorn]
  show InStep _ (c'.aw.parallel p).trades.ohlcv (c'.aw.engine.accs p.tf).content.1
    c'.aw.acc.trades.ohlcv
  rw [hparallel, hengine', hacc]
  exact (h.inStep p).snapshot

/-- A step that makes no bars and leaves the cascade alone. -/
theorem inv_of_not_closes (hsnapshot : s.consumer.takesSnapshot ev = false)
    (hcloses : ∀ p, closes s.consumer ev p = false) {c' : Consumer} (hstarted : c'.aw.Started)
    (hengine : c'.aw.engine = s.consumer.aw.engine)
    (hinStep : ∀ p, InStep (s.torn p) (c'.aw.parallel p).trades.ohlcv
      (s.consumer.aw.engine.accs p.tf).content.1 c'.aw.acc.trades.ohlcv) :
    Inv (s.next ev c') := by
  refine ⟨hstarted, fun p => ?_⟩
  rw [torn_next hsnapshot, hcloses p, if_neg Bool.false_ne_true]
  show InStep _ _ (c'.aw.engine.accs p.tf).content.1 _
  rw [hengine]
  exact hinStep p

theorem agrees_of_partial {f : Flushed} (hclosed : f.closed = [])
    (hparallel : ∀ p, f.parallel p = none) (p : ParallelTF) : f.Agrees p := by
  rw [Flushed.Agrees, hclosed, hparallel p]
  exact .nil

theorem closes_barClose {calls : Calls} {nowMs : Int64} (hev : ev = .barClose calls nowMs)
    (hwrites : s.consumer.writesAt ev = some (truncateSecond nowMs)) (p : ParallelTF) :
    closes s.consumer ev p = isBarClose (truncateSecond nowMs) p.tf := by
  subst hev
  rw [closes, hwrites, Option.any_some]

theorem inv_barClose (h : Inv s) (hsnapshot : s.consumer.takesSnapshot ev = false) {nowMs : Int64}
    (hcloses : ∀ p, closes s.consumer ev p = isBarClose (truncateSecond nowMs) p.tf)
    {c' : Consumer} (hstarted : c'.aw.Started) {f : Flushed}
    (haw : s.consumer.aw.flush false nowMs true = (c'.aw, some f)) : Inv (s.next ev c') := by
  obtain ⟨f', hf, hcleared, hengine, -, hparallel⟩ := AccWriter.flush_full h.started.acc nowMs
  rw [haw] at hf hcleared hengine hparallel
  obtain rfl := Option.some.inj hf
  have hacc : c'.aw.acc.trades.ohlcv = 0 := by
    rw [hcleared.acc]
    rfl
  refine ⟨hstarted, fun p => ?_⟩
  rw [torn_next hsnapshot, hcloses p]
  show InStep _ (c'.aw.parallel p).trades.ohlcv (c'.aw.engine.accs p.tf).content.1
    c'.aw.acc.trades.ohlcv
  rw [hacc, (hparallel p).1, hengine]
  cases hc : isBarClose (truncateSecond nowMs) p.tf with
  | true =>
      rw [Engine.accs_fold_of_close hc, (flushTF_of_close (h.started.parallel p) hc).1]
      exact inStep_zero
  | false =>
      have hrow : (CascadeAcc.secondContent f.row).1 = s.consumer.aw.acc.trades.ohlcv :=
        hcleared.row.ohlcv
      rw [Engine.accs_fold_of_not_close hc, CascadeAcc.content_fold, Prod.fst_add, hrow,
        AccWriter.flushTF, hc, if_neg Bool.false_ne_true]
      exact (h.inStep p).fold

/-- The bars of a bar close agree when no closing timeframe is torn. -/
theorem agrees_barClose_iff (h : Inv s) {nowMs : Int64}
    (hcloses : ∀ p, closes s.consumer ev p = isBarClose (truncateSecond nowMs) p.tf)
    {f : Flushed} (hf : (s.consumer.aw.flush false nowMs true).2 = some f) (p : ParallelTF) :
    f.Agrees p ↔ (closes s.consumer ev p = true → s.torn p = false) := by
  rw [agrees_iff h.started hf p, hcloses p]
  refine imp_congr_right fun _ => ⟨fun heq => ?_, (h.inStep p).same⟩
  exact (h.inStep p).volume_eq_iff.mp (congrArg Ohlcv.volume heq)

theorem step_next (h : Inv s) {c' : Consumer} {outs : List Output}
    (hstep : Consumer.Stepped N s.consumer ev c' outs) :
    Inv (s.next ev c') ∧ ((∀ o ∈ outs, o.Agrees) ↔ s.Untorn ev) := by
  have hstarted := hstep.started h.started
  cases hstep with
  | quiet hsnapshot hwrites _ haw =>
      have hcloses := closes_eq_false_of_none (s := s) hwrites
      refine ⟨inv_of_not_closes hsnapshot hcloses hstarted haw.engine fun p => ?_,
        iff_of_true (fun o ho => absurd ho List.not_mem_nil) (untorn_of_not_closes hcloses)⟩
      rw [haw.parallel p, haw.acc]
      exact h.inStep p
  | tick t prev curr hsnapshot hwrites _ haw =>
      have hcloses := closes_eq_false_of_none (s := s) hwrites
      obtain ⟨x, hx, hacc, hparallel, hengine⟩ := apply_parallel (N := N) h.started t prev curr
      rw [← haw] at hacc hparallel hengine
      refine ⟨inv_of_not_closes hsnapshot hcloses hstarted hengine fun p => ?_,
        iff_of_true (fun o ho => ?_) (untorn_of_not_closes hcloses)⟩
      · rw [hacc, hparallel p]
        exact (h.inStep p).tick hx
      · rw [List.mem_singleton.mp ho]
        trivial
  | @barClose f calls nowMs hev hsnapshot hwrites _ haw =>
      have hcloses := closes_barClose hev hwrites
      refine ⟨inv_barClose h hsnapshot hcloses hstarted haw, ?_⟩
      have hf : (s.consumer.aw.flush false nowMs true).2 = some f := by rw [haw]
      rw [List.forall_mem_singleton]
      exact forall_congr' (agrees_barClose_iff h hcloses hf)
  | @snapshot f nowMs hsnapshot hwrites _ hf haw =>
      obtain ⟨f', hf', -, hclosed, hparallel, hengine, -⟩ :=
        AccWriter.flush_partial h.started.acc nowMs
      obtain rfl := Option.some.inj (hf.symm.trans hf')
      refine ⟨inv_snapshot h hsnapshot haw hengine, iff_of_true ?_
        (untorn_of_not_closes (closes_eq_false_of_snapshot hsnapshot))⟩
      rw [List.forall_mem_singleton]
      exact agrees_of_partial hclosed hparallel
  | snapshotOnly hsnapshot hwrites _ hsame haw =>
      exact ⟨inv_snapshot h hsnapshot haw hsame.engine,
        iff_of_true (fun o ho => absurd ho List.not_mem_nil)
          (untorn_of_not_closes (closes_eq_false_of_snapshot hsnapshot))⟩
  | @shutdown row bar1m bar15m calls nowMs hev hsnapshot _ _ _ _ haw =>
      have hcloses : ∀ p, closes s.consumer ev p = false := closes_eq_false fun _ _ h => by
        rw [hev] at h
        exact Event.noConfusion h
      refine ⟨inv_of_not_closes hsnapshot hcloses hstarted (by rw [haw]) fun p => ?_,
        iff_of_true (fun o ho => ?_) (untorn_of_not_closes hcloses)⟩
      · rw [haw]
        exact h.inStep p
      · rw [List.mem_singleton.mp ho]
        trivial

/-! ### Runs -/

/-- **In every run of the consumer, the bars of the parallel accumulators are those of the cascade,
exactly when no timeframe closes since whose last close a snapshot found trades in the cascade.** -/
theorem bars_agree_iff (N : Numerics) (bestQuote : OrderBook → BestQuote)
    (exchange symbol : String) (coldBufSize : ℕ) (events : List Event) :
    (∀ o ∈ trace (step N bestQuote) (new exchange symbol coldBufSize) events, o.Agrees) ↔
      Along (step N bestQuote) Untorn (new exchange symbol coldBufSize) events :=
  forall_trace_iff_along (I := Inv) (fun _ _ h => step_next h (Consumer.stepped_step _ _ _ _))
    events (inv_new exchange symbol coldBufSize)

/-- A trade that is folded, a snapshot, and another trade before the minute ends. -/
def tornMinute : List Event :=
  let trade (id size : String) (nowMs : Int64) : Event :=
    .message ⟨id, [("type", "tick"), ("event_type", "trade"), ("price", "7"), ("size", size)]⟩ {}
      nowMs
  [trade "1" "3" 100, .barClose {} 900, .message ⟨"2", [("type", "snapshot")]⟩ {} 20000,
    trade "3" "5" 20100, .barClose {} 59900]

/-- The minute's own accumulator has forgotten the first trade, the cascade has not. -/
theorem tornMinute_disagrees :
    ¬ ∀ o ∈ trace
      (step ⟨FloatText.fraction.parse, fun _ => 1, fun _ => 0⟩ fun _ => ⟨"", "", "", ""⟩)
      (new "bybit" "BTC-USDT" 10) tornMinute, o.Agrees := by
  decide +kernel

end Watched

end MagnumOpus.Candle
