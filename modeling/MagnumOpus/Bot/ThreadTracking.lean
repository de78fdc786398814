import MagnumOpus.Bot.ThreadSteps

/-! # Every running thread is tracked

`Registry.Inv` says for the tables what the methods keep, and for each task what it is about to
load: a name that the rescan loop loads does not wait for a restart, what waits for a restart is
what the watchdog is about, and one of the two tasks is always waiting.  Every safe step keeps it
(`Inv.step`), and with it `Right` holds in every safe run (`right_of_safe`). -/

namespace MagnumOpus.Bot.StrategyThreads

open EventMachine KeyedSum Tables

/-! ### The invariant -/

/-- The names that the rescan loop loads or may load again. -/
def Watcher.target (w : Watcher) : List String :=
  match w.current with
  | some (.load name _) => [name]
  | some (.unload name true _) => [name]
  | _ => []

/-- What the rescan loop is going to load is not loaded, and does not wait for a restart. -/
structure WatcherInv (t : Tables) (w : Watcher) : Prop where
  nodup : (w.target ++ w.loads ++ w.compares).Nodup
  waiting : ∀ name ∈ w.loads, t.loaded.lookup name = none ∧ name ∉ t.pendingRestart
  loading : ∀ name stage, w.current = some (.load name stage) →
    name ∉ t.pendingRestart ∧ stage.Vacant t name ∧ stage.Fresh t
  unloading : ∀ name reload stage, w.current = some (.unload name reload stage) →
    (reload = true → name ∉ t.pendingRestart) ∧ stage.Vacant t name

/-- The stage comes after the entry has been taken out. -/
def Tables.CrashStage.Popped : CrashStage → Prop
  | .pop => False
  | _ => True

/-- What waits for a restart is what the watchdog is about. -/
structure WatchdogInv (t : Tables) (d : Watchdog) : Prop where
  pending : ∀ name ∈ t.pendingRestart, ∃ stage, d.current = some (name, stage) ∧ stage.Popped
  current : ∀ name stage, d.current = some (name, stage) → stage.Vacant t name
  loading : ∀ name stage, d.current = some (name, .load stage) → stage.Fresh t

/-- A load is about to register its thread. -/
def Registry.Registers (s : Registry) (name : String) (i : ℕ) : Prop :=
  s.watcher.current = some (.load name (.register i)) ∨
    s.watchdog.current = some (name, .load (.register i))

structure Registry.Inv (s : Registry) : Prop where
  accounted : s.tables.Accounted s.InHand
  one : s.tables.One
  failed : s.tables.FailedInv
  /-- A thread that is no longer tracked is about to be stopped. -/
  registering : ∀ name i, s.Registers name i → s.tables.Runs name i →
    s.tables.loaded.lookup name = some i ∨ ∃ k, (s.stoppers k).Holds name i
  watcher : WatcherInv s.tables s.watcher
  watchdog : WatchdogInv s.tables s.watchdog
  apart : s.watcher.Suspended ∨ s.watchdog.Suspended

section Actors

variable {t t' : Tables} {w : Watcher} {d : Watchdog} {name : String} {i : ℕ}

theorem WatcherInv.removes (h : WatcherInv t w) (hr : Removes t t')
    (hpending : t'.pendingRestart = t.pendingRestart) : WatcherInv t' w where
  nodup := h.nodup
  waiting n hn := by
    rw [hpending]
    exact ⟨hr.lookup_none (h.waiting n hn).1, (h.waiting n hn).2⟩
  loading n stage hcurrent := by
    obtain ⟨hnot, hvacant, hfresh⟩ := h.loading n stage hcurrent
    rw [hpending]
    exact ⟨hnot, hr.loadVacant hvacant, hr.fresh hfresh⟩
  unloading n reload stage hcurrent := by
    obtain ⟨hnot, hvacant⟩ := h.unloading n reload stage hcurrent
    rw [hpending]
    exact ⟨hnot, hr.unloadVacant hvacant⟩

theorem WatcherInv.died : WatcherInv t .died :=
  ⟨List.nodup_nil, fun _ hn => (by cases hn), fun _ _ h => (by cases h), fun _ _ _ h => by cases h⟩

theorem WatchdogInv.removes (h : WatchdogInv t d) (hr : Removes t t')
    (hpending : t'.pendingRestart = t.pendingRestart) : WatchdogInv t' d where
  pending n hn := h.pending n (hpending ▸ hn)
  current n stage hcurrent := by
    have hvacant := h.current n stage hcurrent
    cases stage with
    | pop => trivial
    | discard => trivial
    | load stage => exact And.intro (hpending ▸ hvacant.1) (hr.loadVacant hvacant.2)
    | _ => exact And.intro (hpending ▸ hvacant.1) (hr.lookup_none hvacant.2)
  loading n stage hcurrent := hr.fresh (h.loading n stage hcurrent)

theorem Watcher.suspended_cases (h : w.Suspended) :
    w.current = none ∧ w.loads = [] ∨ ∃ n, w.current = some (.load n .reconcile) := by
  rcases h with ⟨hcurrent, -, hloads, -⟩ | hwaits
  · exact .inl ⟨Option.isNone_iff_eq_none.mp hcurrent, hloads⟩
  · unfold Watcher.waits at hwaits
    split at hwaits
    · next n hcurrent => exact .inr ⟨n, hcurrent⟩
    · cases hwaits

theorem Watchdog.suspended_cases (h : d.Suspended) :
    d.current = none ∨ (∃ n, d.current = some (n, .sleep)) ∨
      ∃ n, d.current = some (n, .load .reconcile) := by
  rcases h with ⟨hcurrent, -⟩ | hwaits
  · exact .inl (Option.isNone_iff_eq_none.mp hcurrent)
  · unfold Watchdog.waits at hwaits
    split at hwaits
    · next n hcurrent => exact .inr (.inl ⟨n, hcurrent⟩)
    · next n hcurrent => exact .inr (.inr ⟨n, hcurrent⟩)
    · cases hwaits

theorem Watcher.Suspended.not_holds (h : w.Suspended) : ¬ w.Holds name i := by
  unfold Watcher.Holds
  rcases Watcher.suspended_cases h with ⟨hcurrent, -⟩ | ⟨n, hcurrent⟩
  · rw [hcurrent]
    exact id
  · rw [hcurrent]
    rintro ⟨-, hholds⟩
    cases hholds

theorem Watchdog.Suspended.not_holds (h : d.Suspended) : ¬ d.Holds name i := by
  unfold Watchdog.Holds
  rcases Watchdog.suspended_cases h with hcurrent | ⟨n, hcurrent⟩ | ⟨n, hcurrent⟩
  · rw [hcurrent]
    exact id
  · rw [hcurrent]
    rintro ⟨-, hholds⟩
    cases hholds
  · rw [hcurrent]
    rintro ⟨-, hholds⟩
    cases hholds

theorem Watcher.Suspended.not_registers (h : w.Suspended) :
    w.current ≠ some (.load name (.register i)) := by
  rcases Watcher.suspended_cases h with ⟨hcurrent, -⟩ | ⟨n, hcurrent⟩ <;> simp [hcurrent]

theorem Watchdog.Suspended.not_registers (h : d.Suspended) :
    d.current ≠ some (name, .load (.register i)) := by
  rcases Watchdog.suspended_cases h with hcurrent | ⟨n, hcurrent⟩ | ⟨n, hcurrent⟩ <;>
    simp [hcurrent]

/-- While the rescan loop waits, the watchdog loads nothing that it is about. -/
theorem WatcherInv.of_suspended (h : WatcherInv t w) (hsuspended : w.Suspended)
    (hothers : ∀ n, t.loaded.lookup n = none → n ∉ t.pendingRestart →
      t'.loaded.lookup n = none ∧ n ∉ t'.pendingRestart) : WatcherInv t' w where
  nodup := h.nodup
  waiting n hn := hothers n (h.waiting n hn).1 (h.waiting n hn).2
  loading n stage hcurrent := by
    obtain ⟨hnot, hvacant, -⟩ := h.loading n stage hcurrent
    rcases Watcher.suspended_cases hsuspended with ⟨hnone, -⟩ | ⟨n', hwaits⟩
    · rw [hnone] at hcurrent
      cases hcurrent
    · rw [hwaits] at hcurrent
      cases hcurrent
      obtain ⟨hvacant', hnot'⟩ := hothers n hvacant hnot
      exact ⟨hnot', hvacant', fun i hi => by cases hi⟩
  unloading n reload stage hcurrent := by
    rcases Watcher.suspended_cases hsuspended with ⟨hnone, -⟩ | ⟨n', hwaits⟩
    · rw [hnone] at hcurrent
      cases hcurrent
    · rw [hwaits] at hcurrent
      cases hcurrent

/-- While the watchdog waits, nothing is loaded that waits for a restart. -/
theorem WatchdogInv.of_suspended (h : WatchdogInv t d) (hsuspended : d.Suspended)
    (hpending : t'.pendingRestart = t.pendingRestart)
    (hothers : ∀ n ∈ t.pendingRestart, t.loaded.lookup n = none → t'.loaded.lookup n = none) :
    WatchdogInv t' d where
  pending n hn := h.pending n (hpending ▸ hn)
  current n stage hcurrent := by
    have hvacant := h.current n stage hcurrent
    rcases Watchdog.suspended_cases hsuspended with hnone | ⟨n', hsleeps⟩ | ⟨n', hwaits⟩
    · rw [hnone] at hcurrent
      cases hcurrent
    · rw [hsleeps] at hcurrent
      cases hcurrent
      exact And.intro (hpending ▸ hvacant.1) (hothers n hvacant.1 hvacant.2)
    · rw [hwaits] at hcurrent
      cases hcurrent
      exact And.intro (hpending ▸ hvacant.1) (hothers n hvacant.1 hvacant.2)
  loading n stage hcurrent := by
    rcases Watchdog.suspended_cases hsuspended with hnone | ⟨n', hsleeps⟩ | ⟨n', hwaits⟩
    · rw [hnone] at hcurrent
      cases hcurrent
    · rw [hsleeps] at hcurrent
      cases hcurrent
    · rw [hwaits] at hcurrent
      cases hcurrent
      exact fun i hi => by cases hi

theorem WatchdogInv.idle (hcurrent : d.current = none) (hpending : ∀ n, n ∉ t.pendingRestart) :
    WatchdogInv t d :=
  ⟨fun n hn => absurd hn (hpending n), fun _ _ h => (by cases hcurrent.symm.trans h),
    fun _ _ h => by cases hcurrent.symm.trans h⟩

/-- The watchdog has come to a stage after it has taken out the entry. -/
theorem WatchdogInv.next {stage : CrashStage} (hcurrent : d.current = some (name, stage))
    (hpending : ∀ n ∈ t.pendingRestart, n = name) (hpopped : stage.Popped)
    (hvacant : stage.Vacant t name) (hfresh : ∀ stage', stage = .load stage' → stage'.Fresh t) :
    WatchdogInv t d where
  pending n hn := by
    rw [hpending n hn]
    exact ⟨stage, hcurrent, hpopped⟩
  current n stage' hstage' := by
    cases hcurrent.symm.trans hstage'
    exact hvacant
  loading n stage' hstage' := by
    cases hcurrent.symm.trans hstage'
    exact hfresh stage' rfl

/-- While the watchdog waits, what is loaded does not wait for a restart. -/
theorem WatchdogInv.not_pending (h : WatchdogInv t d) (hsuspended : d.Suspended)
    (hloaded : name ∈ t.loaded) : name ∉ t.pendingRestart := by
  intro hpending
  obtain ⟨stage, hcurrent, hpopped⟩ := h.pending name hpending
  have hvacant := h.current name stage hcurrent
  refine absurd hloaded (AList.lookup_eq_none.mp ?_)
  rcases Watchdog.suspended_cases hsuspended with hnone | ⟨n, hsleeps⟩ | ⟨n, hwaits⟩
  · rw [hnone] at hcurrent
    cases hcurrent
  · rw [hsleeps] at hcurrent
    cases hcurrent
    exact hvacant.2
  · rw [hwaits] at hcurrent
    cases hcurrent
    exact hvacant.2

end Actors

namespace Registry

variable {s : Registry} {name : String} {how : How}

theorem Inv.none_runs (h : Inv s) (hloaded : s.tables.loaded.lookup name = none)
    (hwatcher : ∀ i, ¬ s.watcher.Holds name i) (hwatchdog : ∀ i, ¬ s.watchdog.Holds name i)
    (hstoppers : ∀ k i, (s.stoppers k).Holds name i → ¬ s.tables.Runs name i) (i : ℕ) :
    ¬ s.tables.Runs name i := by
  intro hrun
  rcases h.accounted name i hrun with htracked | hholds | hholds | ⟨k, hholds⟩
  · exact not_tracked_of_lookup hloaded i htracked
  · exact hwatcher i hholds
  · exact hwatchdog i hholds
  · exact hstoppers k i hholds hrun

/-! ### The rescan loop -/

theorem Inv.watchLoad {stage : LoadStage} (h : Inv s)
    (hcurrent : s.watcher.current = some (.load name stage)) (hother : s.watchdog.Suspended)
    (hsafe : s.LoadSafe name s.watcher.preStart stage how) : Inv (s.watchLoad name stage how) := by
  obtain ⟨hnot, hvacant, hfresh⟩ := h.watcher.loading name stage hcurrent
  have hstep := loadNew_stepped s.tables name s.watcher.preStart stage how
  have hholds : ∀ n i, s.watcher.Holds n i ↔ n = name ∧ stage.holds = some i := by
    intro n i
    rw [Watcher.Holds, hcurrent]
  have hloaded := hstep.loaded
  have hkept := hstep.failedInv hfresh hsafe.leavesNothing h.failed
  unfold Registry.watchLoad
  dsimp only
  revert hstep hloaded hkept
  generalize (s.tables.loadNew name s.watcher.preStart stage how).1 = t'
  generalize (s.tables.loadNew name s.watcher.preStart stage how).2.stage? = next
  intro hstep ⟨hpending, hlookup⟩ ⟨hfailed, hnextFresh⟩
  have hholds' : ∀ n i, Watcher.Holds { s.watcher with current := next.map (.load name) } n i ↔
      n = name ∧ next.bind LoadStage.holds = some i := by
    intro n i
    cases next with
    | none => simp [Watcher.Holds]
    | some stage' => exact Iff.rfl
  refine ⟨?_, ?_, hfailed, ?_, ?_, ?_, .inr hother⟩
  · have haccounted : t'.Accounted fun n i => n = name ∧ next.bind LoadStage.holds = some i ∨
        (s.watchdog.Holds n i ∨ ∃ k, (s.stoppers k).Holds n i) := by
      refine hstep.accounted hvacant hsafe.leavesNothing ?_ ?_
      · rintro i rfl hrun
        exact (h.registering name i (.inl hcurrent) hrun).imp id Or.inr
      · intro n i hrun
        exact (h.accounted n i hrun).imp id (Or.imp (hholds n i).mp id)
    intro n i hrun
    exact (haccounted n i hrun).imp id (Or.imp (hholds' n i).mpr id)
  · refine hstep.one ?_ h.one
    rintro rfl hgoes
    refine h.none_runs hvacant (fun i hi => ?_) (fun i => hother.not_holds)
      (hsafe.notStopping rfl hgoes)
    cases ((hholds name i).mp hi).2
  · rintro n i (hregisters | hregisters) -
    · obtain ⟨stage', hstage', heq⟩ := Option.map_eq_some_iff.mp hregisters
      cases heq
      exact .inl (hstep.registers hstage')
    · exact absurd hregisters hother.not_registers
  · have hnodup : ([name] ++ s.watcher.loads ++ s.watcher.compares).Nodup := by
      have hnodup := h.watcher.nodup
      rwa [Watcher.target, hcurrent] at hnodup
    refine ⟨?_, ?_, ?_, ?_⟩
    · cases next with
      | none => exact (List.nodup_cons.mp hnodup).2
      | some stage' => exact hnodup
    · intro n hn
      obtain ⟨hnone, hnotPending⟩ := h.watcher.waiting n hn
      have hne : n ≠ name := by
        rintro rfl
        exact (List.nodup_cons.mp hnodup).1 (List.mem_append_left _ hn)
      rw [hpending, hlookup n hne]
      exact ⟨hnone, hnotPending⟩
    · intro n stage' hnext
      obtain ⟨stage'', hstage'', heq⟩ := Option.map_eq_some_iff.mp hnext
      cases heq
      exact ⟨hpending ▸ hnot, hstep.vacant hvacant _ hstage'', hnextFresh _ hstage''⟩
    · intro n reload stage' hnext
      obtain ⟨stage'', -, heq⟩ := Option.map_eq_some_iff.mp hnext
      cases heq
  · refine h.watchdog.of_suspended hother hpending fun n hn hnone => ?_
    rw [hlookup n (fun hname => hnot (hname ▸ hn))]
    exact hnone

theorem Inv.watchUnload {reload : Bool} {stage : UnloadStage} (h : Inv s)
    (hcurrent : s.watcher.current = some (.unload name reload stage))
    (hother : s.watchdog.Suspended) : Inv (s.watchUnload name reload stage how) := by
  obtain ⟨hnot, hvacant⟩ := h.watcher.unloading name reload stage hcurrent
  obtain ⟨hremoves, hpending, hnextVacant, hdone⟩ := unload_spec s.tables name stage how
  have haccounted : (s.tables.unload name stage how).1.Accounted fun n i =>
      n = name ∧ (s.tables.unload name stage how).2.stage?.bind UnloadStage.holds = some i ∨
        (s.watchdog.Holds n i ∨ ∃ k, (s.stoppers k).Holds n i) := by
    refine unload_accounted hvacant ?_
    intro n i hrun
    refine (h.accounted n i hrun).imp id (Or.imp (fun hholds => ?_) id)
    rwa [Watcher.Holds, hcurrent] at hholds
  unfold Registry.watchUnload
  dsimp only
  revert hremoves hpending hnextVacant hdone haccounted
  generalize (s.tables.unload name stage how).1 = t'
  generalize (s.tables.unload name stage how).2 = next
  intro hremoves hpending hnextVacant hdone haccounted
  have hrest := h.watcher.removes hremoves hpending
  -- the rescan loop has a new call, and registers nothing
  have hassemble : ∀ w' : Watcher, (∀ n i, n = name → next.stage?.bind UnloadStage.holds = some i →
      w'.Holds n i) → (∀ n i, w'.current ≠ some (.load n (.register i))) → WatcherInv t' w' →
      Inv { s with tables := t', watcher := w' } := by
    intro w' hholds hregisters hwatcher
    refine ⟨?_, h.one.of hremoves.runs, hremoves.failedInv h.failed, ?_, hwatcher,
      h.watchdog.removes hremoves hpending, .inr hother⟩
    · intro n i hrun
      exact (haccounted n i hrun).imp id (Or.imp (fun hh => hholds n i hh.1 hh.2) id)
    · rintro n i (hregister | hregister) -
      · exact absurd hregister (hregisters n i)
      · exact absurd hregister hother.not_registers
  have hnodup := hrest.nodup
  rw [Watcher.target, hcurrent] at hnodup
  cases next with
  | goOn stage' =>
      refine hassemble _ (fun n i hname hheld => And.intro hname hheld) (fun _ _ h => by cases h) ?_
      refine ⟨by cases reload <;> exact hnodup, hrest.waiting, fun _ _ h => (by cases h), ?_⟩
      intro n reload' stage'' hnext
      cases hnext
      rw [hpending]
      exact ⟨hnot, hnextVacant stage' rfl hvacant⟩
  | done =>
      cases reload with
      | false =>
          refine hassemble _ (fun _ _ _ h => by cases h) (fun _ _ h => by cases h) ?_
          exact ⟨hnodup, hrest.waiting, fun _ _ h => (by cases h), fun _ _ _ h => by cases h⟩
      | true =>
          refine hassemble _ (fun _ _ _ h => by cases h) (fun _ _ h => by cases h) ?_
          refine ⟨hnodup, hrest.waiting, ?_, fun _ _ _ h => by cases h⟩
          intro n stage' hnext
          cases hnext
          rw [hpending]
          exact ⟨hnot rfl, hdone rfl hvacant, fun _ h => by cases h⟩
  | raised =>
      exact hassemble _ (fun _ _ _ h => by cases h) (fun _ _ h => by cases h) .died

theorem Inv.turns {w' : Watcher} (h : Inv s) (hheld : ∀ n i, ¬ s.watcher.Holds n i)
    (hwatcher : WatcherInv s.tables w')
    (hregisters : ∀ n i, w'.current ≠ some (.load n (.register i)))
    (hother : s.watchdog.Suspended) : Inv { s with watcher := w' } := by
  refine ⟨?_, h.one, h.failed, ?_, hwatcher, h.watchdog, .inr hother⟩
  · intro n i hrun
    exact (h.accounted n i hrun).imp id (Or.imp (fun hh => absurd hh (hheld n i)) id)
  · rintro n i (hregister | hregister) -
    · exact absurd hregister (hregisters n i)
    · exact absurd hregister hother.not_registers

theorem Inv.watchNext (h : Inv s) (hcurrent : s.watcher.current = none)
    (hother : s.watchdog.Suspended) : Inv (s.watchNext how) := by
  have hheld : ∀ n i, ¬ s.watcher.Holds n i := by
    intro n i
    rw [Watcher.Holds, hcurrent]
    exact id
  have hnodup := h.watcher.nodup
  rw [Watcher.target, hcurrent, List.nil_append] at hnodup
  have hwaiting := h.watcher.waiting
  unfold Registry.watchNext
  dsimp only
  split
  · refine h.turns hheld ⟨hnodup, hwaiting, fun _ _ h => (by cases h), ?_⟩
      (fun _ _ h => by cases h) hother
    intro n reload stage hnext
    cases hnext
    exact ⟨fun hfalse => (by cases hfalse), trivial⟩
  · next name' loads hunloads hloads =>
      rw [hloads] at hnodup hwaiting
      refine h.turns hheld ⟨hnodup, fun n hn => hwaiting n (List.mem_cons_of_mem _ hn), ?_,
        fun _ _ _ h => by cases h⟩ (fun _ _ h => by cases h) hother
      intro n stage hnext
      cases hnext
      obtain ⟨hnone, hnotPending⟩ := hwaiting name' List.mem_cons_self
      exact ⟨hnotPending, hnone, fun _ h => by cases h⟩
  · next name' compares hunloads hloads hcompares =>
      rw [hloads, hcompares, List.nil_append] at hnodup
      split
      · exact h.turns hheld .died (fun _ _ h => by cases h) hother
      · next hmem =>
          rw [not_not] at hmem
          split
          · refine h.turns hheld ⟨?_, hwaiting, ?_, ?_⟩ ?_ hother
            · rw [Watcher.target]
              simp only [hcurrent, hloads]
              exact (List.nodup_cons.mp hnodup).2
            · intro n stage hnext
              cases hcurrent.symm.trans hnext
            · intro n reload stage hnext
              cases hcurrent.symm.trans hnext
            · intro n i hnext
              cases hcurrent.symm.trans hnext
          · refine h.turns hheld ⟨?_, hwaiting, fun _ _ h => (by cases h), ?_⟩
              (fun _ _ h => by cases h) hother
            · rw [Watcher.target]
              simp only [hloads]
              exact hnodup
            · intro n reload stage hnext
              cases hnext
              exact ⟨fun _ hpending => h.watchdog.not_pending hother hmem hpending, trivial⟩
  · exact h

/-! ### The watchdog -/

theorem Inv.crashes {t' : Tables} {d' : Watchdog} (h : Inv s) (hother : s.watcher.Suspended)
    (haccounted : t'.Accounted fun n i =>
      s.watcher.Holds n i ∨ d'.Holds n i ∨ ∃ k, (s.stoppers k).Holds n i)
    (hone : t'.One) (hfailed : t'.FailedInv)
    (hregisters : ∀ n i, d'.current = some (n, .load (.register i)) →
      t'.loaded.lookup n = some i)
    (hothers : ∀ n, s.tables.loaded.lookup n = none → n ∉ s.tables.pendingRestart →
      t'.loaded.lookup n = none ∧ n ∉ t'.pendingRestart)
    (hwatchdog : WatchdogInv t' d') : Inv { s with tables := t', watchdog := d' } := by
  refine ⟨haccounted, hone, hfailed, ?_, h.watcher.of_suspended hother hothers, hwatchdog,
    .inl hother⟩
  rintro n i (hregister | hregister) -
  · exact absurd hregister hother.not_registers
  · exact .inl (hregisters n i hregister)

theorem Inv.crashes_removes {t' : Tables} {d' : Watchdog} (h : Inv s)
    (hother : s.watcher.Suspended)
    (hremoves : Removes s.tables t')
    (haccounted : t'.Accounted fun n i => s.watcher.Holds n i ∨ ∃ k, (s.stoppers k).Holds n i)
    (hregisters : ∀ n i, d'.current ≠ some (n, .load (.register i)))
    (hothers : ∀ n, s.tables.loaded.lookup n = none → n ∉ s.tables.pendingRestart →
      n ∉ t'.pendingRestart)
    (hwatchdog : WatchdogInv t' d') : Inv { s with tables := t', watchdog := d' } := by
  refine h.crashes hother ?_ (h.one.of hremoves.runs) (hremoves.failedInv h.failed) ?_ ?_ hwatchdog
  · intro n i hrun
    exact (haccounted n i hrun).imp id (Or.imp id Or.inr)
  · exact fun n i hregister => absurd hregister (hregisters n i)
  · exact fun n hnone hnot => ⟨hremoves.lookup_none hnone, hothers n hnone hnot⟩

theorem runWatchdog_eq (how : How) {stage : CrashStage}
    (hcurrent : s.watchdog.current = some (name, stage)) :
    s.runWatchdog how = { s with
      tables := (s.tables.handleCrash name stage how).1
      watchdog := { s.watchdog with
        current := (s.tables.handleCrash name stage how).2.stage?.map (Prod.mk name) } } := by
  simp only [Registry.runWatchdog, hcurrent]

/-- Nothing but the strategy that the watchdog is about waits for a restart. -/
theorem Inv.crash_pending {stage : CrashStage} (h : Inv s)
    (hcurrent : s.watchdog.current = some (name, stage)) :
    ∀ n ∈ s.tables.pendingRestart, n = name ∧ stage.Popped := by
  intro n hn
  obtain ⟨stage', hstage', hpopped⟩ := h.watchdog.pending n hn
  cases hcurrent.symm.trans hstage'
  exact ⟨rfl, hpopped⟩

/-- The other actors have in hand what is not tracked, while the watchdog has nothing. -/
theorem Inv.crash_rest {stage : CrashStage} (h : Inv s)
    (hcurrent : s.watchdog.current = some (name, stage)) (hnone : stage.holds = none) :
    s.tables.Accounted fun n i => s.watcher.Holds n i ∨ ∃ k, (s.stoppers k).Holds n i := by
  refine h.accounted.weaken fun n i => Or.imp id fun hh => ?_
  rw [Watchdog.Holds, hcurrent] at hh
  exact hh.resolve_left fun hheld => by cases hnone.symm.trans hheld.2

theorem Inv.crashLoad {stage : LoadStage} (h : Inv s)
    (hcurrent : s.watchdog.current = some (name, .load stage)) (hother : s.watcher.Suspended)
    (hsafe : s.LoadSafe name false stage how) : Inv (s.runWatchdog how) := by
  obtain ⟨hpendingMem, hvacant⟩ := h.watchdog.current name _ hcurrent
  have hfresh := h.watchdog.loading name stage hcurrent
  have hstep := loadNew_stepped s.tables name false stage how
  have hholds : ∀ n i, s.watchdog.Holds n i ↔ n = name ∧ stage.holds = some i := by
    intro n i
    rw [Watchdog.Holds, hcurrent]
    rfl
  have hloaded := hstep.loaded
  have hkept := hstep.failedInv hfresh hsafe.leavesNothing h.failed
  have hr := runWatchdog_eq how hcurrent
  have hload : s.tables.handleCrash name (.load stage) how =
      ((s.tables.loadNew name false stage how).1,
        .goOn ((s.tables.loadNew name false stage how).2.stage?.elim .discard .load)) := rfl
  rw [hload] at hr
  rw [hr]
  revert hstep hloaded hkept
  generalize (s.tables.loadNew name false stage how).1 = t'
  generalize (s.tables.loadNew name false stage how).2.stage? = next
  intro hstep ⟨hpending, hlookup⟩ ⟨hfailed, hnextFresh⟩
  have hholds' : ∀ n i, Watchdog.Holds
      { s.watchdog with current := some (name, next.elim .discard .load) } n i ↔
      n = name ∧ next.bind LoadStage.holds = some i := by
    intro n i
    cases next <;> exact Iff.rfl
  refine h.crashes hother ?_ ?_ hfailed ?_ ?_ ?_
  · have haccounted : t'.Accounted fun n i => n = name ∧ next.bind LoadStage.holds = some i ∨
        (s.watcher.Holds n i ∨ ∃ k, (s.stoppers k).Holds n i) := by
      refine hstep.accounted hvacant hsafe.leavesNothing ?_ ?_
      · rintro i rfl hrun
        exact (h.registering name i (.inr hcurrent) hrun).imp id Or.inr
      · intro n i hrun
        rcases h.accounted n i hrun with htracked | hh | hh | hh
        · exact .inl htracked
        · exact .inr (.inr (.inl hh))
        · exact .inr (.inl ((hholds n i).mp hh))
        · exact .inr (.inr (.inr hh))
    intro n i hrun
    rcases haccounted n i hrun with htracked | hh | hh | hh
    · exact .inl htracked
    · exact .inr (.inr (.inl ((hholds' n i).mpr hh)))
    · exact .inr (.inl hh)
    · exact .inr (.inr (.inr hh))
  · refine hstep.one ?_ h.one
    rintro rfl hgoes
    refine h.none_runs hvacant (fun i => hother.not_holds) (fun i hi => ?_)
      (hsafe.notStopping rfl hgoes)
    cases ((hholds name i).mp hi).2
  · intro n i hregister
    cases next with
    | none => cases hregister
    | some stage' =>
        cases hregister
        exact hstep.registers rfl
  · intro n hnone hnot
    have hne : n ≠ name := by
      rintro rfl
      exact hnot hpendingMem
    rw [hlookup n hne, hpending]
    exact ⟨hnone, hnot⟩
  · refine .next rfl ?_ ?_ ?_ ?_
    · intro n hn
      rw [hpending] at hn
      exact (h.crash_pending hcurrent n hn).1
    · cases next <;> trivial
    · cases next with
      | none => trivial
      | some stage' => exact And.intro (hpending ▸ hpendingMem) (hstep.vacant hvacant stage' rfl)
    · intro stage' hnext
      cases next with
      | none => cases hnext
      | some stage'' =>
          cases hnext
          exact hnextFresh _ rfl

theorem Inv.crashPop (h : Inv s) (hcurrent : s.watchdog.current = some (name, .pop))
    (hother : s.watcher.Suspended)
    (hsafe : ∀ i ∈ s.tables.loaded.lookup name, ¬ s.tables.Runs name i) :
    Inv (s.runWatchdog how) := by
  have hnames := h.crash_pending hcurrent
  have hrest := h.crash_rest hcurrent rfl
  rw [runWatchdog_eq how hcurrent]
  cases hlookup : s.tables.loaded.lookup name with
  | none =>
      have hpop : s.tables.handleCrash name .pop how = (s.tables, .done) := by
        simp only [handleCrash, hlookup]
      rw [hpop]
      exact h.crashes_removes hother (.refl _) hrest (fun _ _ h => by cases h)
        (fun _ _ hnot => hnot) (.idle rfl fun n hn => (hnames n hn).2)
  | some i =>
      have hpop : s.tables.handleCrash name .pop how =
          ({ s.tables with
             loaded := s.tables.loaded.erase name
             pendingRestart := name :: s.tables.pendingRestart }, .goOn .deprovision) := by
        simp only [handleCrash, hlookup]
      rw [hpop]
      refine h.crashes_removes hother ?_ ?_ (fun _ _ h => by cases h) ?_
        (.next rfl ?_ trivial ?_ fun _ h => by cases h)
      · exact ⟨fun _ _ => (runs_threads rfl).mp, (removes_erase _ name).loaded, fun _ _ => id, rfl,
          rfl⟩
      · refine (hrest.erase (fun _ _ _ => id) fun j hrun hj => ?_).same rfl rfl rfl
        exact absurd hrun (hsafe j hj)
      · intro n hnone hnot hmem
        rcases List.mem_cons.mp hmem with rfl | hmem
        · cases hlookup.symm.trans hnone
        · exact hnot hmem
      · intro n hn
        rcases List.mem_cons.mp hn with rfl | hn
        · rfl
        · exact (hnames n hn).1
      · exact And.intro List.mem_cons_self (AList.lookup_erase _ _)

theorem Inv.runWatchdog (h : Inv s) (hother : s.watcher.Suspended)
    (hsafe : s.Safe (.runWatchdog how)) : Inv (s.runWatchdog how) := by
  cases hcurrent : s.watchdog.current with
  | none =>
      have hheld : s.tables.Accounted fun n i =>
          s.watcher.Holds n i ∨ ∃ k, (s.stoppers k).Holds n i := by
        intro n i hrun
        refine (h.accounted n i hrun).imp id (Or.imp id fun hh => ?_)
        rw [Watchdog.Holds, hcurrent] at hh
        exact hh.resolve_left id
      simp only [Registry.runWatchdog, hcurrent]
      split
      · exact h
      · refine h.crashes_removes hother (.refl _) hheld (fun _ _ h => by cases h)
          (fun _ _ hnot => hnot) ⟨?_, ?_, fun _ _ h => by cases h⟩
        · intro n hn
          obtain ⟨stage, hstage, -⟩ := h.watchdog.pending n hn
          cases hcurrent.symm.trans hstage
        · intro n stage hnext
          cases hnext
          trivial
  | some call =>
      obtain ⟨name, stage⟩ := call
      have hvacant := h.watchdog.current name stage hcurrent
      simp only [Registry.Safe, hcurrent] at hsafe
      have hrest := h.crash_rest hcurrent
      have hname := fun n hn => (h.crash_pending hcurrent n hn).1
      have hr := runWatchdog_eq how hcurrent
      cases stage with
      | load stage => exact h.crashLoad hcurrent hother hsafe
      | pop => exact h.crashPop hcurrent hother hsafe
      | deprovision =>
          rw [hr]
          refine h.crashes_removes hother (removes_pubsub _ name) ?_ (fun _ _ h => by cases h)
            (fun _ _ hnot => hnot) (.next rfl hname trivial hvacant fun _ h => by cases h)
          exact (hrest rfl).same rfl rfl rfl
      | deregister =>
          rw [hr]
          refine h.crashes_removes hother (removes_handle _ name) ?_ (fun _ _ h => by cases h)
            (fun _ _ hnot => hnot) (.next rfl hname trivial hvacant fun _ h => by cases h)
          exact (hrest rfl).deregister fun i _ => not_tracked_of_lookup hvacant.2 i
      | sleep =>
          rw [hr]
          exact h.crashes_removes hother (.refl _) (hrest rfl) (fun _ _ h => by cases h)
            (fun _ _ hnot => hnot) (.next rfl hname trivial hvacant fun _ h => by cases h)
      | restart =>
          rw [hr]
          by_cases hraises : how = .raises
          · simp only [handleCrash, if_pos hraises]
            exact h.crashes_removes hother (.refl _) (hrest rfl) (fun _ _ h => by cases h)
              (fun _ _ hnot => hnot) (.next rfl hname trivial trivial fun _ h => by cases h)
          · simp only [handleCrash, if_neg hraises]
            refine h.crashes_removes hother (.refl _) (hrest rfl) (fun _ _ h => by cases h)
              (fun _ _ hnot => hnot) (.next rfl hname trivial hvacant ?_)
            intro stage' hstage' i hi
            cases hstage'
            cases hi
      | discard =>
          rw [hr]
          refine h.crashes_removes hother ⟨fun _ _ => (runs_threads rfl).mp, fun _ _ => id,
            fun _ _ => id, rfl, rfl⟩ ?_ (fun _ _ h => by cases h) ?_ (.idle rfl ?_)
          · exact (hrest rfl).same rfl rfl rfl
          · exact fun n _ hnot hmem => hnot (List.mem_of_mem_filter hmem)
          · intro n hn
            obtain ⟨hmem, hne⟩ := List.mem_filter.mp hn
            exact absurd (hname n hmem) (by simpa using hne)

/-! ### `stop_all` -/

theorem setStopper_self (s : Registry) (k : ℕ) (c : Stopper) : (s.setStopper k c).stoppers k = c :=
  Function.update_self _ _ _

theorem setStopper_of_ne (s : Registry) {k k' : ℕ} (c : Stopper) (h : k' ≠ k) :
    (s.setStopper k c).stoppers k' = s.stoppers k' :=
  Function.update_of_ne h _ _

theorem exists_holds_setStopper {k : ℕ} {c : Stopper} {n : String} {i : ℕ} :
    (∃ k', ((s.setStopper k c).stoppers k').Holds n i) ↔
      c.Holds n i ∨ ∃ k', k' ≠ k ∧ (s.stoppers k').Holds n i := by
  constructor
  · rintro ⟨k', hholds⟩
    by_cases hk : k' = k
    · subst hk
      rw [setStopper_self] at hholds
      exact .inl hholds
    · rw [setStopper_of_ne s c hk] at hholds
      exact .inr ⟨k', hk, hholds⟩
  · rintro (hholds | ⟨k', hk, hholds⟩)
    · exact ⟨k, by rwa [setStopper_self]⟩
    · exact ⟨k', by rwa [setStopper_of_ne s c hk]⟩

/-- A call of `stop_all` goes on with `c`; what it had in hand has been told to stop. -/
theorem Inv.stops {k : ℕ} {c : Stopper} {t' : Tables} (h : Inv s) (hremoves : Removes s.tables t')
    (hpending : t'.pendingRestart = s.tables.pendingRestart)
    (haccounted : t'.Accounted fun n i => c.Holds n i ∨
      (s.watcher.Holds n i ∨ s.watchdog.Holds n i ∨ ∃ k', k' ≠ k ∧ (s.stoppers k').Holds n i))
    (hloaded : ∀ n i, s.tables.loaded.lookup n = some i →
      t'.loaded.lookup n = some i ∨ c.Holds n i)
    (hstops : ∀ n i, (s.stoppers k).Holds n i → ¬ t'.Runs n i) :
    Inv ({ s with tables := t' }.setStopper k c) := by
  refine ⟨?_, h.one.of hremoves.runs, hremoves.failedInv h.failed, ?_,
    h.watcher.removes hremoves hpending, h.watchdog.removes hremoves hpending, h.apart⟩
  · refine haccounted.weaken ?_
    rintro n i (hh | hh | hh | hh)
    · exact .inr (.inr (exists_holds_setStopper.mpr (.inl hh)))
    · exact .inl hh
    · exact .inr (.inl hh)
    · exact .inr (.inr (exists_holds_setStopper.mpr (.inr hh)))
  · intro n i hregister hrun
    rcases h.registering n i hregister (hremoves.runs n i hrun) with hloaded' | ⟨k', hh⟩
    · exact (hloaded n i hloaded').imp id fun hheld => exists_holds_setStopper.mpr (.inl hheld)
    · refine .inr (exists_holds_setStopper.mpr (.inr ⟨k', ?_, hh⟩))
      rintro rfl
      exact hstops n i hh hrun

theorem Inv.setStopper {k : ℕ} {c : Stopper} (h : Inv s)
    (hheld : ∀ n i, ¬ (s.stoppers k).Holds n i) : Inv (s.setStopper k c) := by
  refine h.stops (.refl _) rfl (h.accounted.weaken ?_) (fun _ _ => .inl)
    fun n i hh => absurd hh (hheld n i)
  rintro n i (hh | hh | ⟨k', hh⟩)
  · exact .inr (.inl hh)
  · exact .inr (.inr (.inl hh))
  · refine .inr (.inr (.inr ⟨k', ?_, hh⟩))
    rintro rfl
    exact hheld n i hh

theorem Inv.runStopper {k : ℕ} (h : Inv s) (hsafe : s.Safe (.runStopper k how)) :
    Inv (s.runStopper k how) := by
  cases hcurrent : (s.stoppers k).current with
  | none =>
      have hheld : ∀ n i, ¬ (s.stoppers k).Holds n i := by
        intro n i
        rw [Stopper.Holds, hcurrent]
        exact id
      simp only [Registry.runStopper, hcurrent]
      split
      · exact h
      · exact h.setStopper hheld
  | some call =>
      obtain ⟨name, stage⟩ := call
      simp only [Registry.Safe, hcurrent] at hsafe
      have hholds : ∀ n i, (s.stoppers k).Holds n i ↔ n = name ∧ stage.holds = some i := by
        intro n i
        rw [Stopper.Holds, hcurrent]
      obtain ⟨hremoves, hpending⟩ := stopAll_spec s.tables name stage how
      have haccounted : (s.tables.stopAll name stage how).1.Accounted fun n i =>
          n = name ∧ (s.tables.stopAll name stage how).2.stage?.bind StopAllStage.holds = some i ∨
            (s.watcher.Holds n i ∨ s.watchdog.Holds n i ∨
              ∃ k', k' ≠ k ∧ (s.stoppers k').Holds n i) := by
        refine stopAll_accounted ?_ (h.accounted.weaken ?_)
        · rintro rfl
          exact hsafe
        · rintro n i (hh | hh | ⟨k', hh⟩)
          · exact .inr (.inl hh)
          · exact .inr (.inr (.inl hh))
          · by_cases hk : k' = k
            · subst hk
              exact .inl ((hholds n i).mp hh)
            · exact .inr (.inr (.inr ⟨k', hk, hh⟩))
      -- the next stage is the one in hand, if there is one
      have hgoes : ∀ c : Stopper,
          (∀ n i, n = name ∧
            (s.tables.stopAll name stage how).2.stage?.bind StopAllStage.holds = some i →
              c.Holds n i) →
          Inv ({ s with tables := (s.tables.stopAll name stage how).1 }.setStopper k c) := by
        intro c hnext
        refine h.stops hremoves hpending (haccounted.weaken fun n i => Or.imp (hnext n i) id)
          (fun n i hloaded => ?_) fun n i hh => ?_
        · exact (stopAll_lookup s.tables name stage how hloaded).imp id (hnext n i)
        · exact stopAll_stops s.tables name stage how ((hholds n i).mp hh).2
      simp only [Registry.runStopper, hcurrent]
      revert hgoes
      generalize s.tables.stopAll name stage how = r
      obtain ⟨t', next⟩ := r
      intro hgoes
      cases next with
      | goOn stage' => exact hgoes _ fun _ _ => id
      | done => exact hgoes _ fun _ _ hheld => by cases hheld.2
      | raised => exact hgoes _ fun _ _ hheld => by cases hheld.2

/-! ### Every step -/

theorem Inv.shrinks {t' : Tables} (h : Inv s) (hruns : ∀ n i, t'.Runs n i → s.tables.Runs n i)
    (hloaded : t'.loaded = s.tables.loaded) (hhandles : t'.handles = s.tables.handles)
    (hpubsub : t'.pubsub = s.tables.pubsub) (hpending : t'.pendingRestart = s.tables.pendingRestart)
    (hfailed : t'.failed = s.tables.failed)
    (hthreads : t'.threads.length = s.tables.threads.length) : Inv { s with tables := t' } := by
  have hremoves : Removes s.tables t' :=
    ⟨hruns, fun n i hn => hloaded ▸ hn, fun n i hn => hpubsub ▸ hn, hfailed, hthreads⟩
  refine ⟨?_, h.one.of hruns, hremoves.failedInv h.failed, ?_, h.watcher.removes hremoves hpending,
    h.watchdog.removes hremoves hpending, h.apart⟩
  · intro n i hrun
    refine (h.accounted n i (hruns n i hrun)).imp (fun htracked => ?_) id
    exact ⟨by rw [hloaded]; exact htracked.loaded, by rw [hhandles]; exact htracked.registered⟩
  · intro n i hregister hrun
    rw [hloaded]
    exact h.registering n i hregister (hruns n i hrun)

theorem Inv.rescan {names valid : List String} (h : Inv s) (hidle : s.watcher.Idle)
    (hother : s.watchdog.Suspended) (hnames : names.Nodup) :
    Inv { s with watcher := s.rescan names valid } := by
  refine h.turns (fun n i => Watcher.Suspended.not_holds (.inl hidle)) ⟨?_, ?_, ?_, ?_⟩
    (fun _ _ h => by cases h) hother
  · refine List.nodup_append.mpr ⟨hnames.filter _, hnames.filter _, ?_⟩
    rintro n hload _ hcompare rfl
    have hload' := (List.mem_filter.mp hload).2
    have hcompare' := (List.mem_filter.mp hcompare).2
    simp only [decide_eq_true_eq] at hload' hcompare'
    exact hload'.2.1 hcompare'.2
  · intro n hn
    have hn' := (List.mem_filter.mp hn).2
    simp only [decide_eq_true_eq] at hn'
    exact ⟨AList.lookup_eq_none.mpr hn'.2.1, hn'.2.2⟩
  · exact fun _ _ h => by cases h
  · exact fun _ _ _ h => by cases h

theorem Inv.detect {crashed : List String} (h : Inv s) (hidle : s.watchdog.Idle)
    (hother : s.watcher.Suspended) : Inv { s with watchdog := { crashed } } := by
  have hcurrent : s.watchdog.current = none := Option.isNone_iff_eq_none.mp hidle.1
  refine h.crashes_removes hother (.refl _) ?_ (fun _ _ h => by cases h) (fun _ _ hnot => hnot)
    (.idle rfl ?_)
  · intro n i hrun
    refine (h.accounted n i hrun).imp id (Or.imp id fun hh => hh.resolve_left ?_)
    exact Watchdog.Suspended.not_holds (.inl hidle)
  · intro n hn
    obtain ⟨stage, hstage, -⟩ := h.watchdog.pending n hn
    cases hcurrent.symm.trans hstage

theorem Inv.cancelWatchdog (h : Inv s) (hother : s.watcher.Suspended)
    (hself : s.watchdog.Suspended) : Inv s.cancelWatchdog := by
  refine h.crashes_removes hother (.refl _) ?_ ?_ (fun _ _ hnot => hnot) ⟨?_, ?_, ?_⟩
  · intro n i hrun
    refine (h.accounted n i hrun).imp id (Or.imp id fun hh => hh.resolve_left ?_)
    exact Watchdog.Suspended.not_holds hself
  · intro n i hregister
    obtain ⟨call, -, heq⟩ := Option.map_eq_some_iff.mp hregister
    cases heq
  · intro n hn
    obtain ⟨stage, hstage, -⟩ := h.watchdog.pending n hn
    exact ⟨.discard, by simp only [hstage, Option.map_some], trivial⟩
  · intro n stage hstage
    obtain ⟨call, -, heq⟩ := Option.map_eq_some_iff.mp hstage
    cases heq
    trivial
  · intro n stage hstage
    obtain ⟨call, -, heq⟩ := Option.map_eq_some_iff.mp hstage
    cases heq

theorem inv_start (names : List String) : Inv (start names) := by
  refine ⟨?_, ?_, fun _ h => (by cases h), ?_, ⟨?_, ?_, ?_, ?_⟩, .idle rfl fun _ h => (by cases h),
    .inr (.inl ⟨rfl, rfl⟩)⟩
  · rintro n i ⟨th, hth, -⟩
    cases hth
  · rintro n i j ⟨th, hth, -⟩
    cases hth
  · rintro n i - ⟨th, hth, -⟩
    cases hth
  · have hnodup : (names.dedup ++ []).Nodup := by
      rw [List.append_nil]
      exact names.nodup_dedup
    exact hnodup
  · exact fun n _ => ⟨rfl, fun h => by cases h⟩
  · exact fun _ _ h => by cases h
  · exact fun _ _ _ h => by cases h

theorem Inv.step (h : Inv s) (e : RegistryInput) (hsafe : s.Safe e) : Inv (step s e).1 := by
  cases e with
  | startBus =>
      simp only [Registry.step]
      split
      · exact h.shrinks (fun _ _ => (runs_threads rfl).mp) rfl rfl rfl rfl rfl rfl
      · exact h
  | rescan names valid =>
      simp only [Registry.step]
      split
      · next hguard =>
          obtain ⟨-, -, hidle, hother, hnames, -⟩ := hguard
          exact h.rescan hidle hother hnames
      · exact h
  | detect names =>
      simp only [Registry.step]
      split
      · next hguard =>
          obtain ⟨-, -, hidle, hother, -⟩ := hguard
          exact h.detect hidle hother
      · exact h
  | stopAll k names =>
      simp only [Registry.step]
      split
      · next hguard =>
          refine h.setStopper fun n i => ?_
          rw [Stopper.Holds, Option.isNone_iff_eq_none.mp hguard.1.1]
          exact id
      · exact h
  | runWatcher how =>
      simp only [Registry.step]
      split
      · next hother =>
          simp only [Registry.runWatcher]
          split
          · next name stage hcurrent =>
              simp only [Registry.Safe, hcurrent] at hsafe
              exact h.watchLoad hcurrent hother hsafe
          · next name reload stage hcurrent => exact h.watchUnload hcurrent hother
          · next hcurrent => exact h.watchNext hcurrent hother
      · exact h
  | runWatchdog how =>
      simp only [Registry.step]
      split
      · next hother => exact h.runWatchdog hother hsafe
      · exact h
  | runStopper k how => exact h.runStopper hsafe
  | cancelWatcher =>
      simp only [Registry.step]
      split
      · next hguard =>
          exact h.turns (fun _ _ => hguard.1.not_holds) .died (fun _ _ h => by cases h) hguard.2
      · exact h
  | cancelWatchdog =>
      simp only [Registry.step]
      split
      · next hguard => exact h.cancelWatchdog hguard.1 hguard.2
      · exact h
  | exit i =>
      exact h.shrinks (fun _ _ => runs_exit rfl) rfl rfl rfl rfl rfl (List.length_modify _ _ _)

theorem Inv.right (h : Inv s) : s.Right where
  one := h.one
  tracked name i hrun := (h.accounted name i hrun).symm
  clean i hi := (h.failed i hi).1

/-- At any time of a run of safe steps, every running thread is the only one of its strategy, and
tracked unless an actor is just starting or stopping it; failed loads have left nothing. -/
theorem right_of_safe (names : List String) (es : List RegistryInput)
    (hsafe : Along step Safe (start names) es) : (final step (start names) es).Right :=
  Inv.right <| final_invariant_along (I := Inv) (fun _ e h => h.step e) es (inv_start names) hsafe

theorem safe_goes (hbus : s.tables.busStarted = false)
    (hstoppers : ∀ k, (s.stoppers k).current = none) : s.Safe (.runWatcher .goes) := by
  simp only [Safe]
  split
  · refine ⟨?_, ?_⟩
    · intro i hi hfails
      rename_i stage _
      cases stage with
      | register j =>
          rcases hfails with h | ⟨-, h⟩
          · cases h
          · cases hbus.symm.trans h
      | _ => cases hfails
    · intro _ _ k i hholds
      rw [Stopper.Holds, hstoppers k] at hholds
      exact hholds.elim
  · trivial

theorem safe_watchdog_goes (hstoppers : ∀ k, (s.stoppers k).current = none)
    (hpop : ∀ name, s.watchdog.current = some (name, .pop) →
      ∀ i ∈ s.tables.loaded.lookup name, ¬ s.tables.Runs name i) : s.Safe (.runWatchdog .goes) := by
  simp only [Safe]
  split
  · next name hcurrent => exact hpop name hcurrent
  · next name stage hcurrent =>
      refine ⟨?_, ?_⟩
      · intro i hi hfails
        cases stage with
        | register j =>
            rcases hfails with h | ⟨h, -⟩
            · cases h
            · cases h
        | _ => cases hfails
      · intro _ _ k i hholds
        rw [Stopper.Holds, hstoppers k] at hholds
        exact hholds.elim
  · trivial

/-- A strategy is loaded, its thread ends, and the watchdog starts it again. -/
def restarting : List RegistryInput :=
  List.replicate 8 (.runWatcher .goes) ++ [.startBus, .exit 0, .detect ["Trend"]] ++
    List.replicate 14 (.runWatchdog .goes)

set_option maxRecDepth 4000 in
theorem right_restarted :
    (final step (start ["Trend"]) restarting).Right ∧
      (final step (start ["Trend"]) restarting).tables.Tracked "Trend" 1 := by
  refine ⟨right_of_safe ["Trend"] restarting ?_, rfl, rfl⟩
  have hload : ∀ s : Registry, s.tables.busStarted = false → (∀ k, (s.stoppers k).current = none) →
      s.Safe (.runWatcher .goes) := fun s => safe_goes
  have hcrash : ∀ s : Registry, (∀ k, (s.stoppers k).current = none) →
      (∀ name, s.watchdog.current ≠ some (name, .pop)) → s.Safe (.runWatchdog .goes) :=
    fun s hstoppers hpop => safe_watchdog_goes hstoppers fun name h => absurd h (hpop name)
  have hstopped : ∀ s : Registry, (∀ k, (s.stoppers k).current = none) →
      s.tables.threads = [{ name := "Trend", alive := false }] → s.Safe (.runWatchdog .goes) := by
    intro s hstoppers hthreads
    refine safe_watchdog_goes hstoppers fun name _ i _ ⟨th, hth, hrunning, _⟩ => ?_
    rw [hthreads] at hth
    have hmem := List.mem_of_getElem? hth
    rw [List.mem_singleton.mp hmem] at hrunning
    cases hrunning.1
  refine ⟨hload _ rfl fun _ => rfl, hload _ rfl fun _ => rfl, hload _ rfl fun _ => rfl,
    hload _ rfl fun _ => rfl, hload _ rfl fun _ => rfl, hload _ rfl fun _ => rfl,
    hload _ rfl fun _ => rfl, hload _ rfl fun _ => rfl, trivial, trivial, trivial,
    hcrash _ (fun _ => rfl) fun _ h => (by cases h), hstopped _ (fun _ => rfl) rfl, ?_⟩
  refine ⟨?_, ?_, ?_, ?_, ?_, ?_, ?_, ?_, ?_, ?_, ?_, ?_, trivial⟩
  all_goals exact hcrash _ (fun _ => rfl) fun _ h => by cases h

/-- A load that raises after the start of its thread leaves the thread running, with its callbacks
and without an entry: the strategy registers a handler while its handlers are read, say. -/
theorem raises_orphans : ¬ (final step (start ["Trend"])
    (List.replicate 5 (.runWatcher .goes) ++ [.runWatcher .raises])).Right := by
  intro h
  rcases h.tracked "Trend" 0 ⟨_, rfl, ⟨rfl, rfl⟩, rfl⟩ with (hh | hh | ⟨k, hh⟩) | htracked
  · exact hh
  · exact hh
  · exact hh
  · cases htracked.loaded

set_option maxRecDepth 4000 in
/-- The watchdog has a list of two crashed strategies.  While it waits for the first one, the rescan
loop reloads the second one, whose file has changed; the watchdog then starts it once more. -/
example : ¬ (final step (start ["Mean", "Trend"])
    (List.replicate 16 (.runWatcher .goes) ++ [.startBus, .exit 0, .exit 1, .detect ["Mean", "Trend"]]
      ++ List.replicate 4 (.runWatchdog .goes) ++ [.rescan ["Mean", "Trend"] ["Mean", "Trend"]]
      ++ List.replicate 14 (.runWatcher .goes) ++ List.replicate 19 (.runWatchdog .goes))).Right :=
  fun h => absurd (h.one "Trend" 2 4 ⟨_, rfl, ⟨rfl, rfl⟩, rfl⟩ ⟨_, rfl, ⟨rfl, rfl⟩, rfl⟩)
    (by decide)

end Registry

end MagnumOpus.Bot.StrategyThreads
