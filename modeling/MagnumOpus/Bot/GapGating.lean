import MagnumOpus.Lib.EventMachine
import MagnumOpus.Bot.StreamEvents

/-! # Gaps and the bar handlers of a strategy

`BaseStrategy` in `base.py`: every bar is appended to the rolling frame of its symbol and timeframe,
and the handler that is registered for the two is called behind a lookback gate and a NaN guard.  A
gap marker invalidates the signals of its symbol, until enough bars of the symbol have come.

* **The flag.** `signalInvalid` is set exactly while fewer than `minLookback` bars of the symbol, of
  any timeframe, have come since its last gap (`signalInvalid_iff`).
* **The hope.** `Handled.Right`: a handler is not run before `minLookback` bars of its own symbol
  and timeframe have come since the last gap, and is run from then on unless a guard stops it.
* **When it holds.** No handler asks for the flag, so it holds exactly when a guard happens to stop
  every bar that comes too early (`right_iff_gated`).

What a strategy's own code does to its frames is a parameter (`StrategyCode`). -/

namespace MagnumOpus.Bot

open EventMachine

/-! ### Frames -/

/-- A row of a rolling frame; a cell that holds NaN is `none`. -/
structure Row where
  ts : Option ℤ
  openPrice : Option ℚ
  high : Option ℚ
  low : Option ℚ
  close : Option ℚ
  volume : Option ℚ
  quoteVolume : Option ℚ
  tradeCount : Option ℤ
  isComplete : Option Bool
  hasGap : Option Bool
  indicators : List (String × Option ℚ) := []
deriving DecidableEq

/-- `isnull().any()` -/
def Row.hasNull (row : Row) : Bool :=
  row.ts.isNone || row.openPrice.isNone || row.high.isNone || row.low.isNone || row.close.isNone ||
    row.volume.isNone || row.quoteVolume.isNone || row.tradeCount.isNone ||
    row.isComplete.isNone || row.hasGap.isNone || row.indicators.any (·.2.isNone)

/-- The newest row is the last one. -/
structure Frame where
  /-- The columns that the indicators have added. -/
  columns : List String := []
  rows : List Row := []
deriving DecidableEq

namespace Frame

/-- Appends the row of a bar; the indicators have not been computed for it. -/
def append (df : Frame) (bar : BarClose) : Frame :=
  { df with rows := df.rows ++ [{
      ts := some bar.ts
      openPrice := some bar.openPrice
      high := some bar.high
      low := some bar.low
      close := some bar.close
      volume := some bar.volume
      quoteVolume := some bar.quoteVolume
      tradeCount := some bar.tradeCount
      isComplete := some bar.isComplete
      hasGap := some false
      indicators := df.columns.map fun column => (column, none) }] }

/-- Marks the newest row. -/
def markGap (df : Frame) : Frame :=
  { df with rows := df.rows.modify (df.rows.length - 1) fun row => { row with hasGap := some true } }

def newestHasNull (df : Frame) : Bool := df.rows.getLast?.any Row.hasNull

end Frame

/-! ### Strategies -/

/-- A symbol and a timeframe. -/
abbrev BarKey := String × String

/-- The code of a strategy; what it is handed it may change in place. -/
structure StrategyCode where
  minLookback : ℤ
  addIndicators : Frame → Frame := id
  handler : BarKey → Frame → Frame := fun _ df => df

structure Strategy where
  dfs : BarKey → Option Frame := fun _ => none
  /-- The registered handlers, each with the lookback at its registration. -/
  barHandlers : BarKey → Option ℤ := fun _ => none
  signalInvalid : String → Bool := fun _ => false
  cleanBarCount : String → ℕ := fun _ => 0
  /-- The bars since the last gap of the symbol, when there was one. -/
  since : BarKey → Option ℕ := fun _ => none
  /-- The same over all timeframes. -/
  sinceAny : String → Option ℕ := fun _ => none

inductive StrategyInput where
  | registerBarHandler (key : BarKey)
  /-- A query for older bars has answered. -/
  | history (key : BarKey) (df : Frame)
  | bar (bar : BarClose)
  | gap (gap : GapMarker)

/-- A registered handler at a bar: what it was handed, and whether it was run. -/
structure Handled where
  key : BarKey
  minLookback : ℤ
  df : Frame
  ran : Bool
  /-- The bars since the last gap, this one included. -/
  since : Option ℕ

namespace Strategy

variable (C : StrategyCode)

def registerBarHandler (s : Strategy) (key : BarKey) : Strategy :=
  { s with barHandlers := Function.update s.barHandlers key (some C.minLookback) }

/-- The wrapper around a handler: the frame that it leaves behind, and whether the handler ran. -/
def wrapped (minLb : ℤ) (key : BarKey) (df : Frame) : Frame × Bool :=
  if df.rows.length < minLb then (df, false)
  else if df.newestHasNull then (df, false)
  else (C.handler key df, true)

def onCleanBar (s : Strategy) (symbol : String) : Strategy :=
  if s.signalInvalid symbol then
    let count : ℕ := s.cleanBarCount symbol + 1
    if C.minLookback ≤ (count : ℤ) then
      { s with
        signalInvalid := Function.update s.signalInvalid symbol false
        cleanBarCount := Function.update s.cleanBarCount symbol 0 }
    else { s with cleanBarCount := Function.update s.cleanBarCount symbol count }
  else s

def keyOf (bar : BarClose) : BarKey := (bar.symbol, bar.tf)

/-- The frame that the handler of a bar is handed. -/
def frameAt (s : Strategy) (bar : BarClose) : Frame :=
  C.addIndicators (((s.dfs (keyOf bar)).getD {}).append bar)

def countBar (s : Strategy) (bar : BarClose) : Strategy :=
  { s with
    since := Function.update s.since (keyOf bar) ((s.since (keyOf bar)).map (· + 1))
    sinceAny := Function.update s.sinceAny bar.symbol ((s.sinceAny bar.symbol).map (· + 1)) }

def onBar (s : Strategy) (bar : BarClose) : Strategy × List Handled :=
  let key := keyOf bar
  let df := s.frameAt C bar
  let counted := (s.onCleanBar C bar.symbol).countBar bar
  match s.barHandlers key with
  | none => ({ counted with dfs := Function.update s.dfs key (some df) }, [])
  | some minLb =>
      let (left, ran) := wrapped C minLb key df
      ({ counted with dfs := Function.update s.dfs key (some left) },
        [{ key, minLookback := minLb, df, ran, since := counted.since key }])

def handleGap (s : Strategy) (gap : GapMarker) : Strategy :=
  { s with
    signalInvalid := Function.update s.signalInvalid gap.symbol true
    cleanBarCount := Function.update s.cleanBarCount gap.symbol 0
    dfs := fun key => if key.1 = gap.symbol then (s.dfs key).map Frame.markGap else s.dfs key
    since := fun key => if key.1 = gap.symbol then some 0 else s.since key
    sinceAny := Function.update s.sinceAny gap.symbol (some 0) }

@[simp] theorem handleGap_signalInvalid (s : Strategy) (gap : GapMarker) :
    (s.handleGap gap).signalInvalid = Function.update s.signalInvalid gap.symbol true := rfl

def step : Step Strategy StrategyInput Handled := fun s e =>
  match e with
  | .registerBarHandler key => (s.registerBarHandler C key, [])
  | .history key df => ({ s with dfs := Function.update s.dfs key (some df) }, [])
  | .bar bar => s.onBar C bar
  | .gap gap => (s.handleGap gap, [])

variable {C} {s : Strategy}

/-! ### The flag -/

/-- The flag and its count tell how many bars of the symbol have come since its last gap. -/
structure FlagInv (C : StrategyCode) (s : Strategy) (symbol : String) : Prop where
  set : s.signalInvalid symbol = true → s.sinceAny symbol = some (s.cleanBarCount symbol) ∧
    (0 < s.cleanBarCount symbol → s.cleanBarCount symbol < C.minLookback)
  unset : s.signalInvalid symbol = false →
    s.cleanBarCount symbol = 0 ∧ ∀ n ∈ s.sinceAny symbol, 0 < n ∧ C.minLookback ≤ n

theorem flagInv_of_eq {t : Strategy} {symbol : String} (h : FlagInv C s symbol)
    (hflag : t.signalInvalid symbol = s.signalInvalid symbol)
    (hcount : t.cleanBarCount symbol = s.cleanBarCount symbol)
    (hsince : t.sinceAny symbol = s.sinceAny symbol) : FlagInv C t symbol := by
  constructor
  · intro hset
    rw [hsince, hcount]
    exact h.set (hflag.symm.trans hset)
  · intro hunset
    rw [hsince, hcount]
    exact h.unset (hflag.symm.trans hunset)

theorem onBar_flag (s : Strategy) (bar : BarClose) :
    (s.onBar C bar).1.signalInvalid = (s.onCleanBar C bar.symbol).signalInvalid ∧
      (s.onBar C bar).1.cleanBarCount = (s.onCleanBar C bar.symbol).cleanBarCount ∧
      (s.onBar C bar).1.sinceAny =
        Function.update s.sinceAny bar.symbol ((s.sinceAny bar.symbol).map (· + 1)) := by
  have hsince : (s.onCleanBar C bar.symbol).sinceAny = s.sinceAny := by
    unfold onCleanBar
    split
    · dsimp only
      split <;> rfl
    · rfl
  rw [← hsince]
  cases hhandler : s.barHandlers (keyOf bar) with
  | none =>
      simp only [onBar, hhandler]
      exact ⟨rfl, rfl, rfl⟩
  | some minLb =>
      simp only [onBar, hhandler]
      exact ⟨rfl, rfl, rfl⟩

theorem onCleanBar_other {symbol symbol' : String} (hne : symbol' ≠ symbol) :
    (s.onCleanBar C symbol).signalInvalid symbol' = s.signalInvalid symbol' ∧
      (s.onCleanBar C symbol).cleanBarCount symbol' = s.cleanBarCount symbol' := by
  unfold onCleanBar
  split
  · dsimp only
    split
    · exact ⟨Function.update_of_ne hne _ _, Function.update_of_ne hne _ _⟩
    · exact ⟨rfl, Function.update_of_ne hne _ _⟩
  · exact ⟨rfl, rfl⟩

theorem onCleanBar_self (s : Strategy) (symbol : String) :
    (s.signalInvalid symbol = false ∧ s.onCleanBar C symbol = s) ∨
      (s.signalInvalid symbol = true ∧ C.minLookback ≤ ((s.cleanBarCount symbol + 1 : ℕ) : ℤ) ∧
        (s.onCleanBar C symbol).signalInvalid symbol = false ∧
        (s.onCleanBar C symbol).cleanBarCount symbol = 0) ∨
      (s.signalInvalid symbol = true ∧ ((s.cleanBarCount symbol + 1 : ℕ) : ℤ) < C.minLookback ∧
        (s.onCleanBar C symbol).signalInvalid symbol = true ∧
        (s.onCleanBar C symbol).cleanBarCount symbol = s.cleanBarCount symbol + 1) := by
  unfold onCleanBar
  cases hset : s.signalInvalid symbol with
  | false => exact .inl ⟨rfl, if_neg Bool.false_ne_true⟩
  | true =>
      rw [if_pos rfl]
      by_cases hfull : C.minLookback ≤ ((s.cleanBarCount symbol + 1 : ℕ) : ℤ)
      · simp only [if_pos hfull]
        exact .inr (.inl ⟨trivial, hfull, Function.update_self _ _ _, Function.update_self _ _ _⟩)
      · simp only [if_neg hfull]
        exact .inr (.inr ⟨trivial, not_le.mp hfull, hset, Function.update_self _ _ _⟩)

theorem FlagInv.bar {bar : BarClose} (h : FlagInv C s bar.symbol) :
    FlagInv C (s.onBar C bar).1 bar.symbol := by
  obtain ⟨hflag, hcount, hsince⟩ := s.onBar_flag (C := C) bar
  have hany : (s.onBar C bar).1.sinceAny bar.symbol =
      (s.sinceAny bar.symbol).map (· + 1) := by rw [hsince, Function.update_self]
  replace hflag := congrFun hflag bar.symbol
  replace hcount := congrFun hcount bar.symbol
  rcases onCleanBar_self (C := C) s bar.symbol with
    ⟨hset, hclean⟩ | ⟨hset, hfull, hflag', hcount'⟩ | ⟨hset, hfull, hflag', hcount'⟩
  · rw [hclean] at hflag hcount
    obtain ⟨hzero, hall⟩ := h.unset hset
    constructor
    · intro hset'
      rw [hflag, hset] at hset'
      cases hset'
    · intro _
      rw [hcount, hany]
      refine ⟨hzero, ?_⟩
      intro n hn
      obtain ⟨m, hm, rfl⟩ := Option.mem_map.mp hn
      obtain ⟨hpos, hle⟩ := hall m hm
      push_cast
      omega
  · -- The bar completes the window.
    obtain ⟨hold, -⟩ := h.set hset
    constructor
    · intro hset'
      rw [hflag, hflag'] at hset'
      cases hset'
    · intro _
      rw [hcount, hcount', hany, hold]
      refine ⟨rfl, ?_⟩
      intro n hn
      cases hn
      exact ⟨Nat.succ_pos _, hfull⟩
  · obtain ⟨hold, -⟩ := h.set hset
    constructor
    · intro _
      rw [hcount, hcount', hany, hold]
      exact ⟨rfl, fun _ => hfull⟩
    · intro hunset
      rw [hflag, hflag'] at hunset
      cases hunset

theorem FlagInv.step {symbol : String} (h : FlagInv C s symbol) (e : StrategyInput) :
    FlagInv C (step C s e).1 symbol := by
  cases e with
  | registerBarHandler key => exact flagInv_of_eq h rfl rfl rfl
  | history key df => exact flagInv_of_eq h rfl rfl rfl
  | bar bar =>
      by_cases hsymbol : symbol = bar.symbol
      · subst hsymbol
        exact h.bar
      · obtain ⟨hflag, hcount, hsince⟩ := s.onBar_flag (C := C) bar
        obtain ⟨hflag', hcount'⟩ := onCleanBar_other (C := C) (s := s) hsymbol
        refine flagInv_of_eq h ?_ ?_ ?_
        · exact (congrFun hflag symbol).trans hflag'
        · exact (congrFun hcount symbol).trans hcount'
        · exact (congrFun hsince symbol).trans (Function.update_of_ne hsymbol _ _)
  | gap gap =>
      by_cases hsymbol : symbol = gap.symbol
      · subst hsymbol
        constructor
        · intro _
          simp [Strategy.step, handleGap]
        · intro hunset
          simp [Strategy.step, handleGap] at hunset
      · refine flagInv_of_eq h ?_ ?_ ?_ <;> exact Function.update_of_ne hsymbol _ _

/-- After every run the signals of a symbol are invalid exactly when there was a gap and fewer than
`minLookback` of its bars have come since, or none at all. -/
theorem signalInvalid_iff (es : List StrategyInput) (symbol : String) :
    (final (step C) {} es).signalInvalid symbol = true ↔
      ∃ n ∈ (final (step C) {} es).sinceAny symbol, n = 0 ∨ n < C.minLookback := by
  have hinv : FlagInv C (final (step C) {} es) symbol := by
    refine final_invariant (I := fun s => FlagInv C s symbol) (fun s e h => h.step e) es ⟨?_, ?_⟩
    · intro hset
      cases hset
    · intro _
      exact ⟨rfl, fun n hn => by cases hn⟩
  constructor
  · intro hset
    obtain ⟨hany, hlt⟩ := hinv.set hset
    refine ⟨_, hany, ?_⟩
    rcases Nat.eq_zero_or_pos ((final (step C) {} es).cleanBarCount symbol) with hzero | hpos
    · exact .inl hzero
    · exact .inr (hlt hpos)
  · rintro ⟨n, hn, hearly⟩
    by_contra hunset
    obtain ⟨-, hall⟩ := hinv.unset (Bool.eq_false_of_not_eq_true hunset)
    obtain ⟨hpos, hle⟩ := hall n hn
    omega

/-! ### The handlers -/

/-- Neither the lookback gate nor the NaN guard stops the handler. -/
def Permits (minLb : ℤ) (df : Frame) : Prop := minLb ≤ df.rows.length ∧ df.newestHasNull = false

instance (minLb : ℤ) (df : Frame) : Decidable (Permits minLb df) :=
  inferInstanceAs (Decidable (minLb ≤ df.rows.length ∧ df.newestHasNull = false))

end Strategy

/-- The handler is not run too early after a gap, and is run afterwards when the guards permit. -/
structure Handled.Right (o : Handled) : Prop where
  blocked : o.ran = true → ∀ n ∈ o.since, o.minLookback ≤ n
  runs : (∀ n ∈ o.since, o.minLookback < n) → Strategy.Permits o.minLookback o.df → o.ran = true

namespace Strategy

/-- A bar that comes too early for its handler is stopped by a guard. -/
def Gated (C : StrategyCode) (s : Strategy) : StrategyInput → Prop
  | .bar bar => ∀ minLb ∈ s.barHandlers (keyOf bar), ∀ n ∈ s.since (keyOf bar),
      ((n + 1 : ℕ) : ℤ) < minLb → ¬ Permits minLb (s.frameAt C bar)
  | _ => True

/-- The handler runs exactly when the guards permit. -/
theorem wrapped_ran (minLb : ℤ) (key : BarKey) (df : Frame) :
    (wrapped C minLb key df).2 = true ↔ Permits minLb df := by
  unfold wrapped Permits
  by_cases hshort : df.rows.length < minLb
  · rw [if_pos hshort]
    exact iff_of_false Bool.false_ne_true fun h => absurd h.1 (not_le.mpr hshort)
  · rw [if_neg hshort]
    cases hnull : df.newestHasNull with
    | true =>
        rw [if_pos rfl]
        exact iff_of_false Bool.false_ne_true fun h => Bool.true_eq_false.mp h.2
    | false =>
        rw [if_neg Bool.false_ne_true]
        exact iff_of_true rfl ⟨not_lt.mp hshort, rfl⟩

theorem countBar_since (s : Strategy) (bar : BarClose) :
    ((s.onCleanBar C bar.symbol).countBar bar).since (keyOf bar) =
      (s.since (keyOf bar)).map (· + 1) := by
  have hsince : (s.onCleanBar C bar.symbol).since = s.since := by
    unfold onCleanBar
    split
    · dsimp only
      split <;> rfl
    · rfl
  rw [← hsince]
  exact Function.update_self _ _ _

/-- A bar is handled right exactly when it is gated. -/
theorem right_onBar (s : Strategy) (bar : BarClose) :
    (∀ o ∈ (s.onBar C bar).2, o.Right) ↔ s.Gated C (.bar bar) := by
  cases hhandler : s.barHandlers (keyOf bar) with
  | none =>
      simp only [onBar, hhandler]
      refine iff_of_true (fun o ho => absurd ho List.not_mem_nil) ?_
      intro minLb hminLb
      rw [hhandler] at hminLb
      cases hminLb
  | some minLb =>
      have hran := wrapped_ran (C := C) minLb (keyOf bar) (s.frameAt C bar)
      simp only [onBar, hhandler, List.forall_mem_singleton, countBar_since]
      constructor
      · intro hright minLb' hminLb' n hn hearly hpermits
        rw [hhandler] at hminLb'
        cases hminLb'
        have hle := hright.blocked (hran.mpr hpermits) (n + 1) (Option.mem_map_of_mem _ hn)
        exact absurd hle (not_le.mpr hearly)
      · intro hgated
        refine ⟨?_, fun _ hpermits => hran.mpr hpermits⟩
        intro hyes n' hn'
        obtain ⟨n, hn, rfl⟩ := Option.mem_map.mp hn'
        by_contra hearly
        exact hgated minLb hhandler n hn (not_le.mp hearly) (hran.mp hyes)

/-- In every run the handlers are run after gaps as they should be exactly when a guard stops every
bar that comes too early. -/
theorem right_iff_gated (C : StrategyCode) (es : List StrategyInput) :
    (∀ o ∈ trace (step C) {} es, o.Right) ↔ Along (step C) (Gated C) {} es := by
  refine forall_trace_iff_along (I := fun _ => True) ?_ es trivial
  intro s e _
  refine ⟨trivial, ?_⟩
  cases e with
  | registerBarHandler key => exact iff_of_true (fun o ho => absurd ho List.not_mem_nil) trivial
  | history key df => exact iff_of_true (fun o ho => absurd ho List.not_mem_nil) trivial
  | bar bar => exact right_onBar s bar
  | gap gap => exact iff_of_true (fun o ho => absurd ho List.not_mem_nil) trivial

def sampleBar (tf : String) (ts : ℤ) : BarClose :=
  { exchange := "kucoin", symbol := "BTC", tf, ts, openPrice := 1, high := 1, low := 1, close := 1,
    volume := 1, quoteVolume := 1, tradeCount := 1, isComplete := true }

theorem firstBarAfterGap_runs :
    ¬ ∀ o ∈ trace (step { minLookback := 2 }) {}
      [.registerBarHandler ("BTC", "1m"), .bar (sampleBar "1m" 1), .bar (sampleBar "1m" 2),
        .gap ⟨"kucoin", "BTC", "external_disconnect", 3⟩, .bar (sampleBar "1m" 4)], o.Right := by
  intro h
  have hlast := h _ (List.mem_of_getLast? (a := ⟨("BTC", "1m"), 2, _, true, some 1⟩) rfl)
  exact absurd (hlast.blocked rfl 1 rfl) (by decide)

end Strategy
end MagnumOpus.Bot
