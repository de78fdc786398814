import MagnumOpus.Bot.StrategyThreads

/-! # The rescan loop

What can end `run_loop` (`registry.py`), which has no handler.  A run is one of the registry in
which nobody cancels the loop (`rescanStep`); the main thread waits for other threads only, so its
waits for them do not raise.

* **The files.** A rescan imports them all (`scanDirectory`).  An import error is logged; an import
  that exits is not, since `SystemExit` is no `Exception`.  The same is true of a constructor.
* **The table.** The names of loaded strategies are taken once.  The watchdog takes entries out
  while the loop waits for a reconciliation, and `stop_all` at any time.

The loop goes on exactly along the runs whose steps do none of this to a name that the loop has
still to look up (`watching_iff`).  A rescan ends after a bounded number of its steps
(`idle_of_left`). -/

namespace MagnumOpus.Bot.StrategyThreads

open EventMachine KeyedSum Tables

/-! ### The files -/

/-- What the import of a file comes to. -/
inductive ImportResult where
  | strategy (className : String)
  /-- It fails, or does not define just one strategy. -/
  | rejected
  | exits
deriving DecidableEq

/-- The class that was found. -/
def ImportResult.className? : ImportResult → Option String
  | strategy className => some className
  | _ => none

/-- The names of the valid files; those of more than one file are rejected.  There is no result when
an import exits. -/
def scanDirectory (files : List ImportResult) : Option (List String) :=
  if .exits ∈ files then none
  else
    let candidates := files.filterMap ImportResult.className?
    some (candidates.filter fun className => candidates.count className = 1)

/-! ### Runs -/

/-- Something that happens while the loop is not cancelled. -/
inductive RescanEvent where
  /-- The loop wakes up; `names` is the order in which it takes the names. -/
  | rescan (names : List String) (files : List ImportResult)
  /-- The constructor of the strategy that is being loaded exits. -/
  | constructorExits
  | stopAll (k : ℕ) (names : List String)
  | detect (names : List String)
  | startBus
  | runWatcher (how : How)
  | runWatchdog (how : How)
  | runStopper (k : ℕ) (how : How)
  | exit (i : ℕ)

/-- The loop waits for a thread. -/
def Watcher.joins (w : Watcher) : Bool :=
  match w.current with
  | some (.unload _ _ (.stopping .join)) => true
  | _ => false

/-- The loop is about to make the strategy. -/
def Watcher.constructs (w : Watcher) : Bool :=
  match w.current with
  | some (.load _ .construct) => true
  | _ => false

namespace Registry

/-- The loop is asleep, and nothing else runs on the main thread. -/
def Asleep (s : Registry) : Prop :=
  s.tables.busStarted = true ∧ s.watcher.watching = true ∧ s.watcher.Idle ∧ s.watchdog.Suspended

instance (s : Registry) : Decidable s.Asleep :=
  inferInstanceAs (Decidable (s.tables.busStarted = true ∧ s.watcher.watching = true ∧
    s.watcher.Idle ∧ s.watchdog.Suspended))

def rescanStep : Step Registry RescanEvent Empty := fun s e =>
  match e with
  | .rescan names files =>
      match scanDirectory files with
      | some valid => s.step (.rescan names valid)
      | none => (if s.Asleep then { s with watcher := .died } else s, [])
  | .constructorExits =>
      (if s.watcher.constructs = true ∧ s.watchdog.Suspended then { s with watcher := .died }
        else s, [])
  | .runWatcher how => s.step (.runWatcher (if s.watcher.joins then .goes else how))
  | .stopAll k names => s.step (.stopAll k names)
  | .detect names => s.step (.detect names)
  | .startBus => s.step .startBus
  | .runWatchdog how => s.step (.runWatchdog how)
  | .runStopper k how => s.step (.runStopper k how)
  | .exit i => s.step (.exit i)

/-- The strategy that the loop looks up next is in the table. -/
def LooksUp (s : Registry) : Prop :=
  match s.watcher.current with
  | some (.unload name _ .pop) => name ∈ s.tables.loaded
  | some _ => True
  | none =>
      s.watcher.unloads = [] → s.watcher.loads = [] →
        ∀ name ∈ s.watcher.compares.head?, name ∈ s.tables.loaded

/-- Nothing exits, and the strategy that the loop looks up is in the table. -/
def KeepsLoop (s : Registry) : RescanEvent → Prop
  | .rescan _ files => s.Asleep → .exits ∉ files
  | .constructorExits => ¬ (s.watcher.constructs = true ∧ s.watchdog.Suspended)
  | .runWatcher _ => s.watchdog.Suspended → s.LooksUp
  | _ => True

variable {s : Registry} {e : RescanEvent}

/-! ### What ends the loop -/

theorem scanDirectory_of_mem {files : List ImportResult} (h : .exits ∈ files) :
    scanDirectory files = none := if_pos h

theorem scanDirectory_of_not_mem {files : List ImportResult} (h : .exits ∉ files) :
    ∃ valid, scanDirectory files = some valid := ⟨_, if_neg h⟩

theorem watching_rescan (h : s.watcher.watching = true) (names : List String)
    (files : List ImportResult) :
    (rescanStep s (.rescan names files)).1.watcher.watching = true ↔
      s.KeepsLoop (.rescan names files) := by
  by_cases hexits : ImportResult.exits ∈ files
  · simp only [rescanStep, scanDirectory_of_mem hexits, KeepsLoop]
    by_cases hasleep : s.Asleep
    · rw [if_pos hasleep]
      exact iff_of_false (by simp [Watcher.died]) fun hkeeps => hkeeps hasleep hexits
    · rw [if_neg hasleep]
      exact iff_of_true h fun hasleep' => absurd hasleep' hasleep
  · obtain ⟨valid, hvalid⟩ := scanDirectory_of_not_mem hexits
    refine iff_of_true ?_ fun _ => hexits
    simp only [rescanStep, hvalid, step]
    split
    · rfl
    · exact h

/-- An unload fails at the entry that is not there any more. -/
theorem watching_watchUnload (h : s.watcher.watching = true) (name : String) (reload : Bool)
    (stage : UnloadStage) {how : How} (hjoin : stage = .stopping .join → how = .goes) :
    (s.watchUnload name reload stage how).watcher.watching = true ↔
      (stage = .pop → name ∈ s.tables.loaded) := by
  cases stage with
  | check =>
      refine iff_of_true ?_ fun hpop => by cases hpop
      by_cases hname : name ∈ s.tables.loaded <;> simp [watchUnload, unload, hname, h]
  | pop =>
      simp only [watchUnload, unload, forall_const]
      cases hlookup : s.tables.loaded.lookup name with
      | none =>
          refine iff_of_false (by simp [Watcher.died]) fun hname => ?_
          exact absurd hname (AList.lookup_eq_none.mp hlookup)
      | some i => exact iff_of_true h (AList.lookup_isSome.mp (by rw [hlookup]; rfl))
  | deprovision i => exact iff_of_true h fun hpop => by cases hpop
  | stopping stage =>
      refine iff_of_true ?_ fun hpop => by cases hpop
      cases stage with
      | setEvent i => exact h
      | deregister => exact h
      | join =>
          rw [hjoin rfl]
          exact h

theorem watching_watchNext (h : s.watcher.watching = true) (how : How) :
    (s.watchNext how).watcher.watching = true ↔
      (s.watcher.unloads = [] → s.watcher.loads = [] →
        ∀ name ∈ s.watcher.compares.head?, name ∈ s.tables.loaded) := by
  cases hunloads : s.watcher.unloads with
  | cons name unloads =>
      refine iff_of_true ?_ fun hnil => by cases hnil
      simp only [watchNext, hunloads]
      exact h
  | nil =>
      cases hloads : s.watcher.loads with
      | cons name loads =>
          refine iff_of_true ?_ fun _ hnil => by cases hnil
          simp only [watchNext, hunloads, hloads]
          exact h
      | nil =>
          cases hcompares : s.watcher.compares with
          | nil =>
              refine iff_of_true ?_ fun _ _ name hname => by cases hname
              simp only [watchNext, hunloads, hloads, hcompares]
              exact h
          | cons name compares =>
              simp only [watchNext, hunloads, hloads, hcompares, List.head?_cons, Option.mem_def,
                Option.some.injEq, forall_eq', forall_const]
              by_cases hname : name ∈ s.tables.loaded
              · refine iff_of_true ?_ hname
                rw [if_neg (not_not.mpr hname)]
                split <;> exact h
              · rw [if_pos hname]
                exact iff_of_false (by simp [Watcher.died]) hname

theorem watching_runWatcher (h : s.watcher.watching = true) (how : How) :
    (rescanStep s (.runWatcher how)).1.watcher.watching = true ↔
      s.KeepsLoop (.runWatcher how) := by
  simp only [rescanStep, step, KeepsLoop]
  by_cases hsuspended : s.watchdog.Suspended
  · rw [if_pos hsuspended]
    simp only [forall_const, hsuspended]
    obtain ⟨current, hcurrent⟩ : ∃ current, s.watcher.current = current := ⟨_, rfl⟩
    cases current with
    | none =>
        simp only [runWatcher, LooksUp, Watcher.joins, hcurrent]
        exact watching_watchNext h _
    | some call =>
        cases call with
        | load name stage =>
            simp only [runWatcher, LooksUp, hcurrent]
            exact iff_of_true h trivial
        | unload name reload stage =>
            have hjoin : stage = .stopping .join →
                (if s.watcher.joins then How.goes else how) = .goes := by
              rintro rfl
              simp [Watcher.joins, hcurrent]
            simp only [runWatcher, hcurrent]
            rw [watching_watchUnload h name reload stage hjoin]
            simp only [LooksUp, hcurrent]
            cases stage <;> simp
  · rw [if_neg hsuspended]
    exact iff_of_true h fun hs => absurd hs hsuspended

theorem watcher_rescanStep (s : Registry) {e : RescanEvent}
    (hrescan : ∀ names files, e ≠ .rescan names files) (hexits : e ≠ .constructorExits)
    (hrun : ∀ how, e ≠ .runWatcher how) : (rescanStep s e).1.watcher = s.watcher := by
  cases e with
  | rescan names files => exact absurd rfl (hrescan names files)
  | constructorExits => exact absurd rfl hexits
  | runWatcher how => exact absurd rfl (hrun how)
  | exit i => rfl
  | runWatchdog how =>
      simp only [rescanStep, step]
      split
      · simp only [runWatchdog]
        split
        · rfl
        · split <;> rfl
      · rfl
  | runStopper k how =>
      simp only [rescanStep, step, runStopper]
      split
      · rfl
      · split <;> rfl
  | _ =>
      simp only [rescanStep, step]
      split <;> rfl

theorem watching_step (h : s.watcher.watching = true) (e : RescanEvent) :
    (rescanStep s e).1.watcher.watching = true ↔ s.KeepsLoop e := by
  cases e with
  | rescan names files => exact watching_rescan h names files
  | runWatcher how => exact watching_runWatcher h how
  | constructorExits =>
      simp only [rescanStep, KeepsLoop]
      split
      · next hexits => exact iff_of_false (by simp [Watcher.died]) fun hnot => hnot hexits
      · next hnot => exact iff_of_true h hnot
  | _ =>
      rw [watcher_rescanStep s (by simp) (by simp) (by simp)]
      exact iff_of_true h trivial

/-- A loop that has ended does not start again. -/
theorem not_watching_step (h : ¬ s.watcher.watching = true) (e : RescanEvent) :
    ¬ (rescanStep s e).1.watcher.watching = true := by
  cases e with
  | rescan names files =>
      simp only [rescanStep]
      split
      · simp only [step]
        split
        · next hscan => exact absurd hscan.2.1 h
        · exact h
      · split
        · next hasleep => exact absurd hasleep.2.1 h
        · exact h
  | constructorExits =>
      simp only [rescanStep]
      split
      · simp [Watcher.died]
      · exact h
  | runWatcher how =>
      simp only [rescanStep, step]
      generalize (if s.watcher.joins = true then How.goes else how) = how'
      split
      · simp only [runWatcher]
        split
        · exact h
        · simp only [watchUnload]
          split
          · exact h
          · exact h
          · simp [Watcher.died]
        · simp only [watchNext]
          split
          · exact h
          · exact h
          · split
            · simp [Watcher.died]
            · split <;> exact h
          · exact h
      · exact h
  | _ =>
      rw [watcher_rescanStep s (by simp) (by simp) (by simp)]
      exact h

/-! ### A rescan ends -/

/-- The steps that are left of `_load_new`. -/
def loadLeft : LoadStage → ℕ
  | .construct => 7
  | .reconcile => 6
  | .start => 5
  | .provision _ => 4
  | .readKeys _ => 3
  | .track _ => 2
  | .register _ => 1

def stopLeft : StopStage → ℕ
  | .setEvent _ => 3
  | .join => 2
  | .deregister => 1

def unloadLeft : UnloadStage → ℕ
  | .check => 6
  | .pop => 5
  | .deprovision _ => 4
  | .stopping stage => stopLeft stage

/-- At most as many steps are left of the call. -/
def callLeft : WatcherCall → ℕ
  | .load _ stage => loadLeft stage
  | .unload _ reload stage => unloadLeft stage + if reload then 7 else 0

/-- At most as many steps are left of the rescan. -/
def watcherLeft (w : Watcher) : ℕ :=
  w.current.elim 0 callLeft + 7 * w.unloads.length + 8 * w.loads.length + 14 * w.compares.length

/-- The steps that are left after one. -/
def nextLeft {α : Type} (left : α → ℕ) (next : Next α) : ℕ := next.stage?.elim 0 left

theorem loadNew_left (t : Tables) (name : String) (preStart : Bool) (stage : LoadStage)
    (how : How) : nextLeft loadLeft (t.loadNew name preStart stage how).2 < loadLeft stage := by
  cases stage <;> simp only [loadNew, failLoad] <;> split <;>
    simp [nextLeft, Next.stage?, loadLeft]

theorem stopThread_left (t : Tables) (name : String) (stage : StopStage) (how : How) :
    nextLeft stopLeft (t.stopThread name stage how).2 < stopLeft stage := by
  cases stage with
  | join =>
      simp only [stopThread]
      split <;> simp [nextLeft, Next.stage?, stopLeft]
  | _ => simp [stopThread, nextLeft, Next.stage?, stopLeft]

theorem unload_left (t : Tables) (name : String) (stage : UnloadStage) (how : How) :
    nextLeft unloadLeft (t.unload name stage how).2 < unloadLeft stage := by
  cases stage with
  | check =>
      simp only [unload]
      split <;> simp [nextLeft, Next.stage?, unloadLeft]
  | pop =>
      simp only [unload]
      split <;> simp [nextLeft, Next.stage?, unloadLeft]
  | deprovision i => simp [unload, nextLeft, Next.stage?, unloadLeft, stopLeft]
  | stopping stage =>
      have hstop := stopThread_left t name stage how
      simp only [unload]
      cases hnext : (t.stopThread name stage how).2 with
      | goOn stage' =>
          rw [hnext] at hstop
          exact hstop
      | done => exact Nat.lt_of_le_of_lt (Nat.zero_le _) hstop
      | raised => exact Nat.lt_of_le_of_lt (Nat.zero_le _) hstop

theorem left_watchLoad {name : String} {stage : LoadStage} (how : How)
    (hcurrent : s.watcher.current = some (.load name stage)) :
    watcherLeft (s.watchLoad name stage how).watcher < watcherLeft s.watcher := by
  have hload := loadNew_left s.tables name s.watcher.preStart stage how
  simp only [hcurrent, watchLoad, watcherLeft, Option.elim_some, callLeft, Option.elim_map]
  exact Nat.add_lt_add_right (Nat.add_lt_add_right (Nat.add_lt_add_right hload _) _) _

theorem left_watchUnload {name : String} {reload : Bool} {stage : UnloadStage} (how : How)
    (hcurrent : s.watcher.current = some (.unload name reload stage)) :
    watcherLeft (s.watchUnload name reload stage how).watcher < watcherLeft s.watcher := by
  have hunload := unload_left s.tables name stage how
  have hpos : 0 < unloadLeft stage := Nat.lt_of_le_of_lt (Nat.zero_le _) hunload
  simp only [watchUnload]
  cases hnext : (s.tables.unload name stage how).2 with
  | goOn stage' =>
      rw [hnext] at hunload
      have hlt : unloadLeft stage' < unloadLeft stage := hunload
      simp only [watcherLeft, hcurrent, Option.elim_some, callLeft]
      omega
  | done =>
      cases reload <;>
        simp only [watcherLeft, hcurrent, Option.elim_some, Option.elim_none, callLeft,
          loadLeft, if_true, Bool.false_eq_true, if_false] <;> omega
  | raised =>
      have hdied : watcherLeft Watcher.died = 0 := rfl
      rw [hdied]
      simp only [watcherLeft, hcurrent, Option.elim_some, callLeft]
      omega

theorem left_watchNext (hidle : ¬ s.watcher.Idle) (how : How)
    (hcurrent : s.watcher.current = none) :
    watcherLeft (s.watchNext how).watcher < watcherLeft s.watcher := by
  cases hunloads : s.watcher.unloads with
  | cons name unloads =>
      simp only [watchNext, watcherLeft, hcurrent, hunloads, Option.elim_some,
        Option.elim_none, callLeft, unloadLeft, List.length_cons, Bool.false_eq_true, if_false]
      omega
  | nil =>
      cases hloads : s.watcher.loads with
      | cons name loads =>
          simp only [watchNext, watcherLeft, hcurrent, hunloads, hloads, Option.elim_some,
            Option.elim_none, callLeft, loadLeft, List.length_cons]
          omega
      | nil =>
          cases hcompares : s.watcher.compares with
          | nil => exact absurd ⟨by rw [hcurrent]; rfl, hunloads, hloads, hcompares⟩ hidle
          | cons name compares =>
              have hleft : watcherLeft s.watcher = 14 * (compares.length + 1) := by
                simp [watcherLeft, hcurrent, hunloads, hloads, hcompares]
              rw [hleft]
              simp only [watchNext, hunloads, hloads, hcompares]
              split
              · exact Nat.succ_pos _
              · split
                · simp only [watcherLeft, hcurrent, Option.elim_none, List.length_nil]
                  omega
                · simp only [watcherLeft, Option.elim_some, callLeft, unloadLeft, if_true,
                    List.length_nil]
                  omega

theorem left_runWatcher (hidle : ¬ s.watcher.Idle) (how : How) :
    watcherLeft (s.runWatcher how).watcher < watcherLeft s.watcher := by
  obtain ⟨current, hcurrent⟩ : ∃ current, s.watcher.current = current := ⟨_, rfl⟩
  rw [runWatcher, hcurrent]
  cases current with
  | none => exact left_watchNext hidle how hcurrent
  | some call =>
      cases call with
      | load name stage => exact left_watchLoad how hcurrent
      | unload name reload stage => exact left_watchUnload how hcurrent

theorem watchdog_runWatcher (s : Registry) (how : How) :
    (rescanStep s (.runWatcher how)).1.watchdog = s.watchdog := by
  simp only [rescanStep, step]
  generalize (if s.watcher.joins = true then How.goes else how) = how'
  split
  · simp only [runWatcher]
    split
    · rfl
    · simp only [watchUnload]
      split <;> rfl
    · simp only [watchNext]
      split
      · rfl
      · rfl
      · split
        · rfl
        · split <;> rfl
      · rfl
  · rfl

/-- A loop that sleeps does nothing until it wakes up. -/
theorem runWatcher_of_idle (h : s.watcher.Idle) (how : How) : s.runWatcher how = s := by
  obtain ⟨hcurrent, hunloads, hloads, hcompares⟩ := h
  have hnone : s.watcher.current = none := Option.isNone_iff_eq_none.mp hcurrent
  simp only [runWatcher, hnone, watchNext, hunloads, hloads, hcompares]

/-- A rescan has ended once the loop has made enough steps. -/
theorem idle_of_left : ∀ (hows : List How) {s : Registry}, s.watchdog.Suspended →
    watcherLeft s.watcher ≤ hows.length →
      (final rescanStep s (hows.map .runWatcher)).watcher.Idle
  | [], s, _, hle => by
      by_contra hidle
      have hlt := left_runWatcher hidle .goes
      exact absurd (Nat.lt_of_lt_of_le hlt hle) (Nat.not_lt_zero _)
  | how :: hows, s, hsuspended, hle => by
      rw [List.map_cons, final_cons]
      refine idle_of_left hows (by rwa [watchdog_runWatcher]) ?_
      simp only [rescanStep, step, if_pos hsuspended]
      by_cases hidle : s.watcher.Idle
      · rw [runWatcher_of_idle hidle]
        obtain ⟨hcurrent, hunloads, hloads, hcompares⟩ := hidle
        have hnone : s.watcher.current = none := Option.isNone_iff_eq_none.mp hcurrent
        simp [watcherLeft, hnone, hunloads, hloads, hcompares]
      · exact Nat.le_of_lt_succ (Nat.lt_of_lt_of_le (left_runWatcher hidle _) hle)

/-- **What ends the rescan loop.**  After any run the loop still polls exactly when every step of
the run kept it, and a rescan that is under way comes to its end. -/
theorem watching_iff (names : List String) (es : List RescanEvent) :
    ((final rescanStep (start names) es).watcher.watching = true ↔
      Along rescanStep KeepsLoop (start names) es) ∧
    ((final rescanStep (start names) es).watchdog.Suspended → ∀ hows : List How,
      watcherLeft (final rescanStep (start names) es).watcher ≤ hows.length →
        (final rescanStep (start names) (es ++ hows.map .runWatcher)).watcher.Idle) := by
  constructor
  · exact final_iff_along (I := fun s : Registry => s.watcher.watching = true) (p := fun _ => True)
      (fun s e h => not_watching_step h e) (fun s e h _ => watching_step h e) es rfl
      fun _ _ => trivial
  · intro hsuspended hows hle
    rw [final_append]
    exact idle_of_left hows hsuspended hle

/-! ### A crash during a reload -/

/-- While the loop reloads one strategy and waits for its reconciliation, the thread of the other
one is found dead. -/
def crashInReload : List RescanEvent :=
  List.replicate 16 (.runWatcher .goes) ++
    [.startBus, .rescan ["a", "b"] [.strategy "a", .strategy "b"], .exit 1] ++
    List.replicate 8 (.runWatcher .goes) ++ [.detect ["a", "b"]] ++
    List.replicate 4 (.runWatchdog .goes) ++ List.replicate 7 (.runWatcher .goes)

theorem not_watching_after_crash : ¬ ∀ (names : List String) (es : List RescanEvent),
    (final rescanStep (start names) es).watcher.watching = true := by
  intro h
  exact absurd (h ["a", "b"] crashInReload) (by decide +kernel)

end Registry

end MagnumOpus.Bot.StrategyThreads
