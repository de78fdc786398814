import MagnumOpus.Candle.CascadeHash

/-! # The windows of the cascade

Every bar of a timeframe should hold the 1s bars of one UTC period, and be labelled with a time in
it.  A period ends in the engine when its last second is folded, so this depends on which seconds
are folded at all.

* **The system.** The engine of the service folds 1s bars, its hashes are written to Redis, and a
  restart builds a new engine from the hashes that are there and can be read.  Next to every
  accumulator and every hash stands what has gone into it (`Memory`); a bar that `fold` returns is
  observed with the 1s bars it holds (`Window`), whose sum it is (`content_eq`).
* **When it holds.** `Follows`: a folded second lies in the period of the second after the one
  folded before it.  When every fold of a run does, all windows are pure (`windows_pure`). -/

namespace MagnumOpus.Candle.Cascade.Windows

open EventMachine Engine

/-- What an accumulator has seen. -/
structure Memory where
  /-- The 1s bars folded since the last close. -/
  held : List Candle.Bar := []
  /-- The second folded last. -/
  last : Option ℤ := none

/-- The engine of the service, and the hashes in Redis. -/
structure Service where
  engine : Engine
  hashes : TF → List (String × String) := fun _ => []
  memory : TF → Memory := fun _ => {}
  saved : TF → Memory := fun _ => {}

inductive Event where
  | fold (bar : Candle.Bar)
  /-- The hash of a timeframe is written. -/
  | save (tf : TF)
  /-- The process starts again, and can read the hashes of some timeframes. -/
  | restart (readable : TF → Bool)

/-- A bar that was returned, with the 1s bars it holds. -/
structure Window where
  bar : Bar
  seconds : List Candle.Bar
deriving DecidableEq

/-- The hash describes an accumulator that has opened. -/
def hasOpened (fields : List (String × String)) : Bool :=
  0 < fields.length ∧ getString fields "open_ts" ≠ "" ∧ getString fields "open_ts" ≠ "0"

variable (C : FloatText)

/-- Cascade reconstruction at startup. -/
def reconstruct (readable : TF → Bool) (hashes : TF → List (String × String)) (e : Engine) :
    Engine :=
  allTFs.foldl (fun e tf =>
    if readable tf ∧ hasOpened (hashes tf) then e.restoreFromHash C tf (hashes tf) else e) e

def Memory.fold (m : Memory) (tf : TF) (bar : Candle.Bar) : Memory where
  held := if isBarClose bar.tsSecMs tf then [] else m.held ++ [bar]
  last := some (unixSec bar.tsSecMs)

def step : Step Service Event Window := fun s ev =>
  match ev with
  | .fold bar =>
      ({ s with
         engine := (s.engine.fold bar bar.tsSecMs).1
         memory := fun tf => (s.memory tf).fold tf bar },
       (s.engine.fold bar bar.tsSecMs).2.map fun b => ⟨b, (s.memory b.tf).held ++ [bar]⟩)
  | .save tf =>
      ({ s with
         hashes := Function.update s.hashes tf (s.engine.toHash C tf)
         saved := Function.update s.saved tf (s.memory tf) }, [])
  | .restart readable =>
      ({ s with
         engine := reconstruct C readable s.hashes (.new s.engine.exchange s.engine.symbol)
         memory := fun tf => if readable tf ∧ hasOpened (s.hashes tf) then s.saved tf else {} }, [])

def init (exchange symbol : String) : Service where
  engine := .new exchange symbol

/-- The 1s bars of a window and its opening lie in one UTC period of its timeframe. -/
def Window.Pure (w : Window) : Prop :=
  ∀ bar ∈ w.seconds, w.bar.tf.period (unixSec bar.tsSecMs) = w.bar.tf.period (unixSec w.bar.openTs)

instance (w : Window) : Decidable w.Pure := List.decidableBAll _ _

/-- A folded second lies in the period that the second after the one folded before it lies in. -/
def Follows (tf : TF) (s : Service) : Event → Prop
  | .fold bar =>
      ∀ p ∈ (s.memory tf).last, tf.period (unixSec bar.tsSecMs) = tf.period (p + 1)
  | .save _ | .restart _ => True

instance (tf : TF) (s : Service) : (ev : Event) → Decidable (Follows tf s ev)
  | .fold _ => inferInstanceAs (Decidable (∀ p ∈ (s.memory tf).last, _))
  | .save _ | .restart _ => isTrue trivial

variable {C} {s : Service} {tf : TF}

/-! ### Accumulators and what they have seen -/

theorem accs_reconstruct (readable : TF → Bool) (hashes : TF → List (String × String))
    (exchange symbol : String) (tf : TF) :
    (reconstruct C readable hashes (.new exchange symbol)).accs tf =
      if readable tf ∧ hasOpened (hashes tf) then accOfHash C (hashes tf) else {} := by
  have hfoldl : ∀ (tfs : List TF), tfs.Nodup → ∀ e : Engine,
      (tfs.foldl (fun e tf => if readable tf ∧ hasOpened (hashes tf) then
        e.restoreFromHash C tf (hashes tf) else e) e).accs tf =
        if tf ∈ tfs ∧ readable tf ∧ hasOpened (hashes tf) then accOfHash C (hashes tf)
        else e.accs tf := by
    intro tfs
    induction tfs with
    | nil => intro _ e; simp
    | cons tf' tfs ih =>
        intro hnodup e
        obtain ⟨hnot, hrest⟩ := List.nodup_cons.mp hnodup
        rw [List.foldl_cons, ih hrest]
        by_cases htf : tf = tf'
        · subst htf
          by_cases hread : readable tf ∧ hasOpened (hashes tf) <;>
            simp [hnot, hread, accs_restoreFromHash]
        · by_cases hread : readable tf' ∧ hasOpened (hashes tf') <;>
            simp [htf, hread, accs_restoreFromHash]
  rw [reconstruct, hfoldl allTFs (by decide)]
  simp only [mem_allTFs, true_and]
  rfl

/-- The accumulator is the sum of what it has seen since the last close. -/
def Holds (a : CascadeAcc) (m : Memory) : Prop :=
  a.content = (m.held.map CascadeAcc.secondContent).sum

/-- What an accumulator holds lies in the period that it opened in, and so does the next second. -/
structure InPeriod (tf : TF) (a : CascadeAcc) (m : Memory) : Prop where
  held : ∀ bar ∈ m.held, tf.period (unixSec bar.tsSecMs) = tf.period (unixSec a.openTs)
  next : ∀ p ∈ m.last, tf.period (p + 1) = tf.period (unixSec a.openTs)
  new : m.last = none → m.held = [] ∧ a.openTs = 0

theorem inPeriod_empty (tf : TF) : InPeriod tf {} {} where
  held := fun _ h => absurd h List.not_mem_nil
  next := fun _ h => absurd h (Option.not_mem_none _)
  new := fun _ => ⟨rfl, rfl⟩

/-- A relation of accumulators and what they have seen, which the spreads play no part in, holds of
the engine and of the hashes. -/
structure Throughout (C : FloatText) (R : TF → CascadeAcc → Memory → Prop) (s : Service) :
    Prop where
  engine : ∀ tf, R tf (s.engine.accs tf) (s.memory tf)
  hashes : ∀ tf, R tf (accOfHash C (s.hashes tf)) (s.saved tf)

theorem Throughout.step {R : TF → CascadeAcc → Memory → Prop} (hs : Throughout C R s)
    (hempty : ∀ tf, R tf {} {}) (hspread : ∀ tf a m, R tf a m → R tf (withoutSpread a) m)
    (ev : Event)
    (hfold : ∀ bar, ev = .fold bar → ∀ tf,
      R tf ((s.engine.fold bar bar.tsSecMs).1.accs tf) ((s.memory tf).fold tf bar)) :
    Throughout C R (Windows.step C s ev).1 := by
  cases ev with
  | fold bar => exact ⟨hfold bar rfl, hs.hashes⟩
  | save tf' =>
      refine ⟨hs.engine, fun tf => ?_⟩
      show R tf (accOfHash C (Function.update s.hashes tf' _ tf)) (Function.update s.saved tf' _ tf)
      by_cases htf : tf = tf'
      · subst htf
        rw [Function.update_self, Function.update_self, accOfHash_toHash]
        exact hspread tf _ _ (hs.engine tf)
      · rw [Function.update_of_ne htf, Function.update_of_ne htf]
        exact hs.hashes tf
  | restart readable =>
      refine ⟨fun tf => ?_, hs.hashes⟩
      show R tf ((reconstruct C readable s.hashes _).accs tf) (if _ then _ else _)
      rw [accs_reconstruct]
      split
      · exact hs.hashes tf
      · exact hempty tf

theorem throughout_init {R : TF → CascadeAcc → Memory → Prop} (hempty : ∀ tf, R tf {} {})
    (exchange symbol : String) : Throughout C R (init exchange symbol) :=
  ⟨hempty, hempty⟩

/-! ### Contents -/

theorem holds_fold {a : CascadeAcc} {m : Memory} (h : Holds a m) (bar : Candle.Bar) :
    Holds (a.fold bar) { m with held := m.held ++ [bar] } := by
  rw [Holds, CascadeAcc.content_fold, h, List.map_append, List.sum_append, List.map_singleton,
    List.sum_singleton]

theorem throughout_holds (ev : Event) (hs : Throughout C (fun _ => Holds) s) :
    Throughout C (fun _ => Holds) (step C s ev).1 := by
  refine hs.step (fun _ => rfl) (fun _ _ _ h => h) ev fun bar _ tf => ?_
  cases hc : isBarClose bar.tsSecMs tf with
  | true =>
      rw [accs_fold_of_close hc, Memory.fold, hc, if_pos rfl]
      rfl
  | false =>
      rw [accs_fold_of_not_close hc, Memory.fold, hc, if_neg Bool.false_ne_true]
      exact holds_fold (hs.engine tf) bar

/-- A bar that is returned is the sum of the 1s bars it holds. -/
theorem content_eq (exchange symbol : String) (events : List Event) :
    ∀ w ∈ trace (step C) (init exchange symbol) events,
      w.bar.content = (w.seconds.map CascadeAcc.secondContent).sum := by
  have hrun : Along (step C) (fun _ _ => True) (init exchange symbol) events :=
    along_of_forall fun _ _ => trivial
  refine trace_invariant_along (I := Throughout C fun _ => Holds) ?_ events
    (throughout_init (fun _ => rfl) exchange symbol) hrun
  intro s ev hs _
  refine ⟨throughout_holds ev hs, fun w hw => ?_⟩
  cases ev with
  | fold bar =>
      obtain ⟨b, hb, rfl⟩ := List.mem_map.mp hw
      obtain ⟨-, hbar⟩ := mem_fold.mp hb
      have hcontent : b.content = ((s.engine.accs b.tf).fold bar).content := by
        rw [hbar]
        rfl
      exact hcontent.trans (holds_fold (hs.engine b.tf) bar)
  | save _ => exact absurd hw List.not_mem_nil
  | restart _ => exact absurd hw List.not_mem_nil

/-! ### Periods -/

theorem unixSec_eq_tdiv (tsMs : Int64) : unixSec tsMs = tsMs.toInt.tdiv 1000 :=
  Int64.toInt_div_of_ne_right tsMs 1000 (by decide)

theorem tdiv_thousand (x : ℤ) : x.tdiv 1000 = if 0 ≤ x then x / 1000 else -(-x / 1000) := by
  split
  · exact Int.tdiv_eq_ediv_of_nonneg ‹_›
  · have hneg := Int.neg_tdiv (a := -x) (b := 1000)
    rw [neg_neg] at hneg
    rw [hneg, Int.tdiv_eq_ediv_of_nonneg (by omega)]

/-- The timestamp that a closed accumulator opens with is that of the next second. -/
theorem unixSec_add_second {tsSecMs : Int64} (h : isBarClose tsSecMs tf = true) :
    unixSec (tsSecMs + 1000) = unixSec tsSecMs + 1 := by
  -- No period ends with one of the last seconds that a machine integer can count.
  have hdvd : (60 : ℤ) ∣ unixSec tsSecMs + 1 - UtcTime.zeroTime :=
    (TF.minute_dvd tf).trans (isBarClose_iff_dvd.mp h)
  have hadd : (tsSecMs + 1000).toInt = (tsSecMs.toInt + 1000).bmod (2 ^ 64) := Int64.toInt_add _ _
  have hlow := tsSecMs.le_toInt
  have hhigh := tsSecMs.toInt_lt
  simp only [unixSec_eq_tdiv, hadd, UtcTime.zeroTime, tdiv_thousand, Int.bmod_def] at hdvd ⊢
  generalize tsSecMs.toInt = x at *
  split at hdvd <;> split <;> omega

theorem inPeriod_fold {a : CascadeAcc} {m : Memory} {bar : Candle.Bar} (h : InPeriod tf a m)
    (hfollows : ∀ p ∈ m.last, tf.period (unixSec bar.tsSecMs) = tf.period (p + 1)) :
    (∀ b ∈ m.held ++ [bar],
      tf.period (unixSec b.tsSecMs) = tf.period (unixSec (a.fold bar).openTs)) := by
  -- The window opens with the bar, or opened in the period that the bar follows into.
  have hbar : tf.period (unixSec bar.tsSecMs) = tf.period (unixSec (a.fold bar).openTs) := by
    by_cases hopen : a.openTs = 0
    · rw [CascadeAcc.fold, if_pos hopen]
    · obtain ⟨p, hp⟩ := Option.ne_none_iff_exists'.mp fun hnone => hopen (h.new hnone).2
      rw [CascadeAcc.fold, if_neg hopen, hfollows p hp, h.next p hp]
  have hheld : ∀ b ∈ m.held, tf.period (unixSec b.tsSecMs) = tf.period (unixSec bar.tsSecMs) := by
    intro b hb
    obtain ⟨p, hp⟩ := Option.ne_none_iff_exists'.mp fun hnone =>
      List.ne_nil_of_mem hb (h.new hnone).1
    rw [hfollows p hp, h.next p hp, h.held b hb]
  intro b hb
  rcases List.mem_append.mp hb with hb | hb
  · rw [hheld b hb, hbar]
  · rw [List.mem_singleton.mp hb, hbar]

/-- A fold that follows keeps the timeframe in its period. -/
theorem inPeriod_step (bar : Candle.Bar)
    (h : InPeriod tf (s.engine.accs tf) (s.memory tf)) (hfollows : Follows tf s (.fold bar)) :
    InPeriod tf ((s.engine.fold bar bar.tsSecMs).1.accs tf) ((s.memory tf).fold tf bar) := by
  have hwindow := inPeriod_fold h hfollows
  cases hc : isBarClose bar.tsSecMs tf with
  | true =>
      rw [accs_fold_of_close hc, Memory.fold, hc, if_pos rfl]
      refine ⟨fun _ hb => absurd hb List.not_mem_nil, fun p hp => ?_,
        fun h => absurd h (Option.some_ne_none _)⟩
      rw [← Option.some.inj hp, CascadeAcc.reset, unixSec_add_second hc]
  | false =>
      rw [accs_fold_of_not_close hc, Memory.fold, hc, if_neg Bool.false_ne_true]
      refine ⟨hwindow, fun p hp => ?_, fun h => absurd h (Option.some_ne_none _)⟩
      have hsame : tf.period (unixSec bar.tsSecMs + 1) = tf.period (unixSec bar.tsSecMs) := by
        by_contra hne
        rw [isBarClose_iff_period.mpr hne] at hc
        exact Bool.noConfusion hc
      rw [← Option.some.inj hp, hsame]
      exact hwindow bar (List.mem_append_right _ List.mem_cons_self)

/-- The timeframe is in its period in the engine and in its hash. -/
abbrev KeepsPeriod (C : FloatText) (tf : TF) : Service → Prop :=
  Throughout C fun tf' a m => tf' = tf → InPeriod tf' a m

theorem keepsPeriod_step (ev : Event) (hs : KeepsPeriod C tf s) (hfollows : Follows tf s ev) :
    KeepsPeriod C tf (step C s ev).1 := by
  refine hs.step (fun tf' _ => inPeriod_empty tf')
    (fun _ _ _ h htf => ⟨(h htf).held, (h htf).next, (h htf).new⟩) ev ?_
  rintro bar rfl tf' rfl
  exact inPeriod_step bar (hs.engine tf' rfl) hfollows

/-- **When every fold of a run follows the one before it, all the bars of the timeframe that the
folds return hold 1s bars of a single UTC period, and opened in that period**, through all restarts
from hashes that were written at any time. -/
theorem windows_pure (C : FloatText) (exchange symbol : String) (events : List Event) (tf : TF)
    (h : Along (step C) (Follows tf) (init exchange symbol) events) :
    ∀ w ∈ trace (step C) (init exchange symbol) events, w.bar.tf = tf → w.Pure := by
  refine trace_invariant_along (I := KeepsPeriod C tf) ?_ events
    (throughout_init (fun tf' _ => inPeriod_empty tf') exchange symbol) h
  intro s ev hs hfollows
  refine ⟨keepsPeriod_step ev hs hfollows, fun w hw htf => ?_⟩
  cases ev with
  | fold bar =>
      obtain ⟨b, hb, rfl⟩ := List.mem_map.mp hw
      obtain ⟨-, hbar⟩ := mem_fold.mp hb
      have hwindow := inPeriod_fold (hs.engine b.tf htf) (by rw [htf]; exact hfollows)
      have hopen : b.openTs = ((s.engine.accs b.tf).fold bar).openTs := by
        rw [hbar]
        rfl
      rw [Window.Pure, hopen]
      exact hwindow
  | save _ => exact absurd hw List.not_mem_nil
  | restart _ => exact absurd hw List.not_mem_nil

/-- A minute with all its seconds from the 58th on, and a restart in between. -/
theorem windows_pure_restart :
    let events : List Event := [.fold { tsSecMs := 58000 }, .save .tf1m, .restart fun _ => true,
      .fold { tsSecMs := 59000 }]
    ∀ w ∈ trace (step .fraction) (init "bybit" "BTC-USDT") events, w.bar.tf = .tf1m → w.Pure :=
  windows_pure .fraction "bybit" "BTC-USDT" _ .tf1m (by decide +kernel)

/-- When the last second of a minute is skipped, its bar runs on into the next minute. -/
theorem skipped_second_mixes_minutes :
    let events : List Event := [.fold { tsSecMs := 58000 }, .fold { tsSecMs := 119000 }]
    ¬ ∀ w ∈ trace (step .fraction) (init "bybit" "BTC-USDT") events, w.Pure := by
  decide +kernel

end MagnumOpus.Candle.Cascade.Windows
