import MagnumOpus.Bot.StrategyThreads

/-! # What the methods of the registry do to its tables

One inversion lemma for a step of `_load_new` (`LoadStepped`), and what the steps that take
something out have in common (`Removes`).  From these: what keeps every running thread tracked or
in hand (`Accounted`), what starts no second thread of a name (`One`), and what leaves nothing of a
failed load (`FailedInv`). -/

namespace MagnumOpus.Bot.StrategyThreads

open EventMachine KeyedSum

namespace Tables

variable {t t' : Tables} {name : String} {i : ℕ} {how : How} {held : String → ℕ → Prop}

/-- Every running thread is tracked or held by an actor. -/
def Accounted (t : Tables) (held : String → ℕ → Prop) : Prop :=
  ∀ name i, t.Runs name i → t.Tracked name i ∨ held name i

/-- What a stage needs of the table of loaded strategies. -/
def LoadStage.Vacant (t : Tables) (name : String) : LoadStage → Prop
  | .register i => ∀ j, t.loaded.lookup name = some j → j = i
  | _ => t.loaded.lookup name = none

def UnloadStage.Vacant (t : Tables) (name : String) : UnloadStage → Prop
  | .check => True
  | .pop => True
  | _ => t.loaded.lookup name = none

def CrashStage.Vacant (t : Tables) (name : String) : CrashStage → Prop
  | .pop => True
  | .load stage => name ∈ t.pendingRestart ∧ stage.Vacant t name
  | .discard => True
  | _ => name ∈ t.pendingRestart ∧ t.loaded.lookup name = none

theorem runs_threads (h : t'.threads = t.threads) : t'.Runs name i ↔ t.Runs name i := by
  rw [Runs, Runs, h]

theorem runs_setEvent {j : ℕ}
    (h : t'.threads = t.threads.modify j fun th => { th with stopEvent := true }) :
    t'.Runs name i → t.Runs name i ∧ i ≠ j := by
  rintro ⟨th, hth, hrunning, hname⟩
  rw [h, List.getElem?_modify] at hth
  split at hth
  · obtain ⟨th', -, rfl⟩ := Option.map_eq_some_iff.mp hth
    exact absurd hrunning.2 (by simp)
  · next hne =>
      obtain ⟨th', hth', rfl⟩ := Option.map_eq_some_iff.mp hth
      exact ⟨⟨_, hth', hrunning, hname⟩, Ne.symm hne⟩

theorem runs_exit {j : ℕ}
    (h : t'.threads = t.threads.modify j fun th => { th with alive := false }) :
    t'.Runs name i → t.Runs name i := by
  rintro ⟨th, hth, hrunning, hname⟩
  rw [h, List.getElem?_modify] at hth
  split at hth
  · obtain ⟨th', -, rfl⟩ := Option.map_eq_some_iff.mp hth
    exact absurd hrunning.1 (by simp)
  · obtain ⟨th', hth', rfl⟩ := Option.map_eq_some_iff.mp hth
    exact ⟨_, hth', hrunning, hname⟩

theorem runs_start {name' : String} (h : t'.threads = t.threads ++ [{ name := name' }]) :
    t'.Runs name i ↔ t.Runs name i ∨ name = name' ∧ i = t.threads.length := by
  rw [Runs, h]
  constructor
  · rintro ⟨th, hth, hrunning, rfl⟩
    rcases lt_trichotomy i t.threads.length with hlt | rfl | hgt
    · rw [List.getElem?_append_left hlt] at hth
      exact .inl ⟨th, hth, hrunning, rfl⟩
    · rw [List.getElem?_concat_length] at hth
      cases hth
      exact .inr ⟨rfl, rfl⟩
    · rw [List.getElem?_eq_none (by simp; omega)] at hth
      cases hth
  · rintro (⟨th, hth, hrunning, rfl⟩ | ⟨rfl, rfl⟩)
    · exact ⟨th, by rw [List.getElem?_append_left (List.getElem?_eq_some_iff.mp hth).1, hth],
        hrunning, rfl⟩
    · exact ⟨_, List.getElem?_concat_length, ⟨rfl, rfl⟩, rfl⟩

/-- The thread has not been started yet. -/
def LoadStage.Early (stage : LoadStage) : Prop :=
  stage = .construct ∨ stage = .reconcile ∨ stage = .start

theorem LoadStage.Early.holds {stage : LoadStage} (h : stage.Early) : stage.holds = none := by
  rcases h with rfl | rfl | rfl <;> rfl

theorem LoadStage.Early.vacant {stage : LoadStage} (h : stage.Early) :
    stage.Vacant t name ↔ t.loaded.lookup name = none := by
  rcases h with rfl | rfl | rfl <;> exact Iff.rfl

/-- What a step of `_load_new` can do. -/
inductive LoadStepped (t : Tables) (name : String) (preStart : Bool) (how : How) :
    LoadStage → Tables → Option LoadStage → Prop
  | early (stage : LoadStage) (next : Option LoadStage) (hstage : stage.Early)
      (hnext : ∀ stage' ∈ next, stage'.Early) : LoadStepped t name preStart how stage t next
  | started (hgoes : how ≠ .raises) : LoadStepped t name preStart how .start
      { t with threads := t.threads ++ [{ name }] } (some (.provision t.threads.length))
  | provisioned (i : ℕ) (pubsub : String → Option ℕ)
      (hpubsub : pubsub = t.pubsub ∨ pubsub = Function.update t.pubsub name (some i)) :
      LoadStepped t name preStart how (.provision i) { t with pubsub } (some (.readKeys i))
  | keysRead (i : ℕ) : LoadStepped t name preStart how (.readKeys i) t (some (.track i))
  | tracked (i : ℕ) : LoadStepped t name preStart how (.track i)
      { t with loaded := t.loaded.insert name i } (some (.register i))
  | registered (i : ℕ) : LoadStepped t name preStart how (.register i)
      { t with handles := Function.update t.handles name (some i) } none
  | failed (stage : LoadStage) (i : ℕ) (hholds : stage.holds = some i)
      (hfails : stage.Fails t preStart how) :
      LoadStepped t name preStart how stage { t with failed := i :: t.failed } none

theorem loadNew_stepped (t : Tables) (name : String) (preStart : Bool) (stage : LoadStage)
    (how : How) : LoadStepped t name preStart how stage
      (t.loadNew name preStart stage how).1 (t.loadNew name preStart stage how).2.stage? := by
  cases stage with
  | construct =>
      refine .early _ _ (.inl rfl) ?_
      cases how <;> simp [loadNew, Next.stage?, LoadStage.Early]
  | reconcile =>
      refine .early _ _ (.inr (.inl rfl)) ?_
      cases how <;> simp [loadNew, Next.stage?, LoadStage.Early]
  | start =>
      by_cases hraises : how = .raises
      · simp only [loadNew, if_pos hraises]
        exact .early _ _ (.inr (.inr rfl)) fun _ h => by cases h
      · simp only [loadNew, if_neg hraises]
        exact .started hraises
  | provision i =>
      cases how with
      | goes => exact .provisioned i _ (.inr rfl)
      | skips => exact .provisioned i _ (.inl rfl)
      | raises => exact .failed _ i rfl rfl
  | readKeys i =>
      by_cases hraises : how = .raises
      · simp only [loadNew, if_pos hraises]
        exact .failed _ i rfl hraises
      · simp only [loadNew, if_neg hraises]
        exact .keysRead i
  | track i =>
      by_cases hraises : how = .raises
      · simp only [loadNew, if_pos hraises]
        exact .failed _ i rfl hraises
      · simp only [loadNew, if_neg hraises]
        exact .tracked i
  | register i =>
      by_cases hfails : how = .raises ∨ preStart = true ∧ t.busStarted = true
      · simp only [loadNew, if_pos hfails]
        exact .failed _ i rfl hfails
      · simp only [loadNew, if_neg hfails]
        exact .registered i

/-! ### Running threads -/

theorem Accounted.of {held' : String → ℕ → Prop} (h : Accounted t held)
    (hruns : ∀ name i, t'.Runs name i → t.Runs name i)
    (htracked : ∀ name i, t'.Runs name i → t.Tracked name i → t'.Tracked name i ∨ held' name i)
    (hheld : ∀ name i, t'.Runs name i → held name i → t'.Tracked name i ∨ held' name i) :
    Accounted t' held' := by
  intro name i hrun
  rcases h name i (hruns name i hrun) with h | h
  · exact htracked name i hrun h
  · exact hheld name i hrun h

theorem Accounted.same (h : Accounted t held) (hthreads : t'.threads = t.threads)
    (hloaded : t'.loaded = t.loaded) (hhandles : t'.handles = t.handles) : Accounted t' held := by
  refine h.of (fun _ _ => (runs_threads hthreads).mp) (fun n i _ htracked => .inl ?_)
    fun _ _ _ => .inr
  exact ⟨by rw [hloaded]; exact htracked.loaded, by rw [hhandles]; exact htracked.registered⟩

/-- A stage that holds nothing does not count. -/
theorem Accounted.released {holds : Option ℕ}
    (h : Accounted t fun n i => n = name ∧ holds = some i ∨ held n i) (hnone : holds = none) :
    Accounted t held := by
  refine h.of (fun _ _ => id) (fun _ _ _ => .inl) ?_
  rintro n i - (⟨-, hi⟩ | hheld)
  · cases hnone.symm.trans hi
  · exact .inr hheld

theorem Accounted.weaken {held' : String → ℕ → Prop} (h : Accounted t held)
    (hheld : ∀ n i, held n i → held' n i) : Accounted t held' :=
  fun n i hrun => (h n i hrun).imp id (hheld n i)

theorem One.of (h : One t) (hruns : ∀ name i, t'.Runs name i → t.Runs name i) : One t' :=
  fun name i j hi hj => h name i j (hruns name i hi) (hruns name j hj)

/-- A load keeps its thread in hand until it is tracked and registered. -/
theorem LoadStepped.accounted {preStart : Bool} {stage : LoadStage} {next : Option LoadStage}
    (hstep : LoadStepped t name preStart how stage t' next) (hvacant : stage.Vacant t name)
    (hclean : ∀ i ∈ stage.holds, stage.Fails t preStart how → t.Clean i)
    (hregister : ∀ i, stage = .register i → t.Runs name i →
      t.loaded.lookup name = some i ∨ held name i)
    (h : Accounted t fun n i => n = name ∧ stage.holds = some i ∨ held n i) :
    Accounted t' fun n i => n = name ∧ next.bind LoadStage.holds = some i ∨ held n i := by
  cases hstep with
  | early stage next hstage hnext =>
      exact (h.released hstage.holds).weaken fun _ _ => .inr
  | started hgoes =>
      intro n i hrun
      rcases (runs_start rfl).mp hrun with hrun | ⟨rfl, rfl⟩
      · rcases h n i hrun with h | ⟨-, hholds⟩ | hheld
        · exact .inl ⟨h.loaded, h.registered⟩
        · cases hholds
        · exact .inr (.inr hheld)
      · exact .inr (.inl ⟨rfl, rfl⟩)
  | provisioned i pubsub hpubsub =>
      exact h.same rfl rfl rfl
  | keysRead i => exact h
  | tracked i =>
      refine h.of (fun _ _ => (runs_threads rfl).mp) ?_ fun _ _ _ => .inr
      intro n j _ htracked
      have hne : n ≠ name := by
        rintro rfl
        exact absurd (htracked.loaded.symm.trans hvacant) (Option.some_ne_none j)
      exact .inl ⟨(AList.lookup_insert_ne hne).trans htracked.loaded, htracked.registered⟩
  | registered i =>
      refine h.of (fun _ _ => (runs_threads rfl).mp) ?_ ?_
      · intro n j _ htracked
        by_cases hname : n = name
        · subst hname
          obtain rfl := hvacant j htracked.loaded
          exact .inl ⟨htracked.loaded, Function.update_self _ _ _⟩
        · exact .inl ⟨htracked.loaded, (Function.update_of_ne hname _ _).trans htracked.registered⟩
      · rintro n j hrun (⟨rfl, hholds⟩ | hheld)
        · cases hholds
          rcases hregister i rfl ((runs_threads rfl).mp hrun) with hloaded | hheld
          · exact .inl ⟨hloaded, Function.update_self _ _ _⟩
          · exact .inr (.inr hheld)
        · exact .inr (.inr hheld)
  | failed stage i hholds hfails =>
      refine h.of (fun _ _ => (runs_threads rfl).mp)
        (fun _ _ _ h => .inl ⟨h.loaded, h.registered⟩) ?_
      rintro n j hrun (⟨-, hj⟩ | hheld)
      · rw [hholds, Option.some_inj] at hj
        subst hj
        exact absurd ((runs_threads rfl).mp hrun) ((hclean i hholds hfails).ended n)
      · exact .inr (.inr hheld)

/-- A load starts a thread when none of the name runs. -/
theorem LoadStepped.one {preStart : Bool} {stage : LoadStage} {next : Option LoadStage}
    (hstep : LoadStepped t name preStart how stage t' next)
    (hstart : stage = .start → how ≠ .raises → ∀ i, ¬ t.Runs name i) (h : One t) : One t' := by
  cases hstep with
  | started hgoes =>
      intro n i j hi hj
      rcases (runs_start rfl).mp hi with hold | ⟨rfl, rfl⟩
      · rcases (runs_start rfl).mp hj with hold' | ⟨rfl, rfl⟩
        · exact h n i j hold hold'
        · exact absurd hold (hstart rfl hgoes i)
      · rcases (runs_start rfl).mp hj with hold' | ⟨-, rfl⟩
        · exact absurd hold' (hstart rfl hgoes j)
        · rfl
  | _ => exact h.of fun _ _ => (runs_threads rfl).mp

theorem LoadStepped.loaded {preStart : Bool} {stage : LoadStage} {next : Option LoadStage}
    (hstep : LoadStepped t name preStart how stage t' next) :
    t'.pendingRestart = t.pendingRestart ∧
      ∀ n ≠ name, t'.loaded.lookup n = t.loaded.lookup n := by
  cases hstep with
  | tracked i => exact ⟨rfl, fun n hne => AList.lookup_insert_ne hne⟩
  | _ => exact ⟨rfl, fun _ _ => rfl⟩

theorem LoadStepped.vacant {preStart : Bool} {stage : LoadStage} {next : Option LoadStage}
    (hstep : LoadStepped t name preStart how stage t' next) (hvacant : stage.Vacant t name) :
    ∀ stage' ∈ next, stage'.Vacant t' name := by
  cases hstep with
  | early stage next hstage hnext =>
      intro stage' hstage'
      exact (hnext stage' hstage').vacant.mpr (hstage.vacant.mp hvacant)
  | tracked i =>
      intro stage' hstage'
      cases hstage'
      intro j hj
      exact (Option.some.inj ((AList.lookup_insert _).symm.trans hj)).symm
  | registered i => exact fun _ h => by cases h
  | failed stage i hholds hfails => exact fun _ h => by cases h
  | _ =>
      intro stage' hstage'
      cases hstage'
      exact hvacant

theorem LoadStepped.registers {preStart : Bool} {stage : LoadStage} {next : Option LoadStage}
    (hstep : LoadStepped t name preStart how stage t' next) (hnext : next = some (.register i)) :
    t'.loaded.lookup name = some i := by
  cases hstep with
  | early stage next hstage hearly => rcases hearly _ hnext with h | h | h <;> cases h
  | tracked j =>
      cases hnext
      exact AList.lookup_insert _
  | _ => cases hnext

/-! ### Failed loads -/

/-- Nothing is left of the loads that have failed. -/
def FailedInv (t : Tables) : Prop := ∀ i ∈ t.failed, t.Clean i ∧ i < t.threads.length

/-- The thread of the load exists, and its load has not failed. -/
def LoadStage.Fresh (t : Tables) (stage : LoadStage) : Prop :=
  ∀ i ∈ stage.holds, i < t.threads.length ∧ i ∉ t.failed

/-- Threads, entries and callbacks only go away. -/
structure Removes (t t' : Tables) : Prop where
  runs : ∀ name i, t'.Runs name i → t.Runs name i
  loaded : ∀ name i, t'.loaded.lookup name = some i → t.loaded.lookup name = some i
  pubsub : ∀ name i, t'.pubsub name = some i → t.pubsub name = some i
  failed : t'.failed = t.failed
  threads : t'.threads.length = t.threads.length

theorem Removes.refl (t : Tables) : Removes t t :=
  ⟨fun _ _ => id, fun _ _ => id, fun _ _ => id, rfl, rfl⟩

theorem Clean.of (h : t.Clean i) (hruns : ∀ name, t'.Runs name i → t.Runs name i)
    (hpubsub : ∀ name, t'.pubsub name = some i → t.pubsub name = some i) : t'.Clean i :=
  ⟨fun name hrun => h.ended name (hruns name hrun),
    fun name hname => h.deprovisioned name (hpubsub name hname)⟩

theorem Removes.failedInv (hr : Removes t t') (h : FailedInv t) : FailedInv t' := by
  intro i hi
  rw [hr.failed] at hi
  rw [hr.threads]
  exact ⟨(h i hi).1.of (fun name => hr.runs name i) fun name => hr.pubsub name i, (h i hi).2⟩

theorem Removes.fresh (hr : Removes t t') {stage : LoadStage} (h : stage.Fresh t) :
    stage.Fresh t' := by
  intro i hi
  rw [hr.failed, hr.threads]
  exact h i hi

theorem Removes.lookup_none (hr : Removes t t') (h : t.loaded.lookup name = none) :
    t'.loaded.lookup name = none := by
  cases hname : t'.loaded.lookup name with
  | none => rfl
  | some i => exact absurd ((hr.loaded name i hname).symm.trans h) (Option.some_ne_none i)

theorem Removes.loadVacant (hr : Removes t t') {stage : LoadStage} (h : stage.Vacant t name) :
    stage.Vacant t' name := by
  cases stage with
  | register i => exact fun j hj => h j (hr.loaded name j hj)
  | _ => exact hr.lookup_none h

theorem Removes.unloadVacant (hr : Removes t t') {stage : UnloadStage} (h : stage.Vacant t name) :
    stage.Vacant t' name := by
  cases stage with
  | check => trivial
  | pop => trivial
  | _ => exact hr.lookup_none h

theorem LoadStepped.failedInv {preStart : Bool} {stage : LoadStage} {next : Option LoadStage}
    (hstep : LoadStepped t name preStart how stage t' next) (hfresh : stage.Fresh t)
    (hclean : ∀ i ∈ stage.holds, stage.Fails t preStart how → t.Clean i) (h : FailedInv t) :
    FailedInv t' ∧ ∀ stage' ∈ next, stage'.Fresh t' := by
  cases hstep with
  | early stage next hstage hnext =>
      refine ⟨h, ?_⟩
      intro stage' hstage' i hi
      rw [(hnext stage' hstage').holds] at hi
      cases hi
  | started hgoes =>
      have hlength :
          (t.threads ++ [({ name } : StrategyThread)]).length = t.threads.length + 1 := by
        simp
      constructor
      · intro i hi
        obtain ⟨hold, hlt⟩ := h i hi
        refine ⟨hold.of (fun n hrun => ?_) fun _ => id, by rw [hlength]; omega⟩
        rcases (runs_start rfl).mp hrun with hrun | ⟨-, rfl⟩
        · exact hrun
        · exact absurd hlt (lt_irrefl _)
      · intro stage' hstage' i hi
        cases hstage'
        cases hi
        exact ⟨by rw [hlength]; omega, fun hmem => absurd (h _ hmem).2 (lt_irrefl _)⟩
  | provisioned i pubsub hpubsub =>
      constructor
      · intro j hj
        refine ⟨(h j hj).1.of (fun _ => (runs_threads rfl).mp) fun n hn => ?_, (h j hj).2⟩
        rcases hpubsub with rfl | rfl
        · exact hn
        · by_cases hname : n = name
          · subst hname
            have hn' : Function.update t.pubsub n (some i) n = some j := hn
            rw [Function.update_self, Option.some_inj] at hn'
            exact absurd (hn' ▸ hj) (hfresh i rfl).2
          · exact (Function.update_of_ne hname _ _).symm.trans hn
      · intro stage' hstage' j hj
        cases hstage'
        exact hfresh j hj
  | keysRead i =>
      refine ⟨h, ?_⟩
      intro stage' hstage' j hj
      cases hstage'
      exact hfresh j hj
  | tracked i =>
      refine ⟨fun j hj => ⟨(h j hj).1.of (fun _ => (runs_threads rfl).mp) fun _ => id, (h j hj).2⟩,
        ?_⟩
      intro stage' hstage' j hj
      cases hstage'
      exact hfresh j hj
  | registered i =>
      exact ⟨fun j hj => ⟨(h j hj).1.of (fun _ => (runs_threads rfl).mp) fun _ => id, (h j hj).2⟩,
        fun _ h => by cases h⟩
  | failed stage i hholds hfails =>
      refine ⟨?_, fun _ h => by cases h⟩
      intro j hj
      rcases List.mem_cons.mp hj with rfl | hj
      · exact ⟨(hclean j hholds hfails).of (fun _ => (runs_threads rfl).mp) fun _ => id,
          (hfresh j hholds).1⟩
      · exact ⟨(h j hj).1.of (fun _ => (runs_threads rfl).mp) fun _ => id, (h j hj).2⟩

/-! ### Taking out -/

theorem removes_erase (t : Tables) (name : String) :
    Removes t { t with loaded := t.loaded.erase name } := by
  refine ⟨fun _ _ => (runs_threads rfl).mp, ?_, fun _ _ => id, rfl, rfl⟩
  intro n i hi
  by_cases hname : n = name
  · subst hname
    exact absurd ((AList.lookup_erase _ _).symm.trans hi) (Option.some_ne_none i).symm
  · exact (AList.lookup_erase_ne hname).symm.trans hi

theorem removes_pubsub (t : Tables) (name : String) :
    Removes t { t with pubsub := Function.update t.pubsub name none } := by
  refine ⟨fun _ _ => (runs_threads rfl).mp, fun _ _ => id, ?_, rfl, rfl⟩
  intro n i hi
  by_cases hname : n = name
  · subst hname
    exact absurd ((Function.update_self _ _ _).symm.trans hi) (Option.some_ne_none i).symm
  · exact (Function.update_of_ne hname _ _).symm.trans hi

theorem removes_handle (t : Tables) (name : String) :
    Removes t { t with handles := Function.update t.handles name none } :=
  ⟨fun _ _ => (runs_threads rfl).mp, fun _ _ => id, fun _ _ => id, rfl, rfl⟩

/-- An entry that is taken out is in hand from then on. -/
theorem Accounted.erase {held' : String → ℕ → Prop} (h : Accounted t held)
    (hheld : ∀ n i, t.Runs n i → held n i → held' n i)
    (htaken : ∀ i, t.Runs name i → t.loaded.lookup name = some i → held' name i) :
    Accounted { t with loaded := t.loaded.erase name } held' := by
  refine h.of (fun _ _ => (runs_threads rfl).mp) ?_ fun n i hrun hold =>
    .inr (hheld n i ((runs_threads rfl).mp hrun) hold)
  intro n i hrun htracked
  by_cases hname : n = name
  · subst hname
    exact .inr (htaken i ((runs_threads rfl).mp hrun) htracked.loaded)
  · exact .inl ⟨(AList.lookup_erase_ne hname).trans htracked.loaded, htracked.registered⟩

/-- A handle goes that no running thread is tracked with. -/
theorem Accounted.deregister (h : Accounted t held)
    (hname : ∀ i, t.Runs name i → ¬ t.Tracked name i) :
    Accounted { t with handles := Function.update t.handles name none } held := by
  refine h.of (fun _ _ => (runs_threads rfl).mp) ?_ fun _ _ _ => .inr
  intro n i hrun htracked
  by_cases hne : n = name
  · subst hne
    exact absurd htracked (hname i ((runs_threads rfl).mp hrun))
  · exact .inl ⟨htracked.loaded, (Function.update_of_ne hne _ _).trans htracked.registered⟩

theorem not_tracked_of_lookup (h : t.loaded.lookup name = none) (i : ℕ) : ¬ t.Tracked name i :=
  fun htracked => absurd (htracked.loaded.symm.trans h) (Option.some_ne_none i)

theorem removes_setEvent (t : Tables) (i : ℕ) :
    Removes t { t with threads := t.threads.modify i fun th => { th with stopEvent := true } } :=
  ⟨fun _ _ hrun => (runs_setEvent rfl hrun).1, fun _ _ => id, fun _ _ => id, rfl,
    List.length_modify _ _ _⟩

theorem stopThread_spec (t : Tables) (name : String) (stage : StopStage) (how : How) :
    Removes t (t.stopThread name stage how).1 ∧
      (t.stopThread name stage how).1.pendingRestart = t.pendingRestart := by
  cases stage with
  | setEvent i => exact ⟨removes_setEvent t i, rfl⟩
  | join => exact ⟨.refl t, rfl⟩
  | deregister => exact ⟨removes_handle t name, rfl⟩

/-- A thread that has been told to stop is out of hand. -/
theorem stopThread_accounted {stage : StopStage}
    (hname : stage = .deregister → ∀ i, t.Runs name i → ¬ t.Tracked name i)
    (h : Accounted t fun n i => n = name ∧ stage.holds = some i ∨ held n i) :
    Accounted (t.stopThread name stage how).1 held := by
  cases stage with
  | setEvent i =>
      refine h.of (removes_setEvent t i).runs (fun _ _ _ h => .inl ⟨h.loaded, h.registered⟩) ?_
      rintro n j hrun (⟨-, hj⟩ | hheld)
      · exact absurd (Option.some.inj hj).symm (runs_setEvent rfl hrun).2
      · exact .inr hheld
  | join => exact h.released rfl
  | deregister => exact (h.released rfl).deregister (hname rfl)

theorem stage?_map {α β : Type} (f : α → β) (next : Next α) :
    (next.map f).stage? = next.stage?.map f := by
  cases next <;> rfl

theorem unload_pop_none (hlookup : t.loaded.lookup name = none) :
    t.unload name .pop how = (t, .raised) := by
  simp only [unload, hlookup]

theorem unload_pop_some (hlookup : t.loaded.lookup name = some i) :
    t.unload name .pop how =
      ({ t with loaded := t.loaded.erase name }, .goOn (.deprovision i)) := by
  simp only [unload, hlookup]

theorem unload_spec (t : Tables) (name : String) (stage : UnloadStage) (how : How) :
    Removes t (t.unload name stage how).1 ∧
      (t.unload name stage how).1.pendingRestart = t.pendingRestart ∧
      (∀ stage' ∈ (t.unload name stage how).2.stage?, stage.Vacant t name →
        stage'.Vacant (t.unload name stage how).1 name) ∧
      ((t.unload name stage how).2 = .done → stage.Vacant t name →
        (t.unload name stage how).1.loaded.lookup name = none) := by
  cases stage with
  | check =>
      refine ⟨.refl t, rfl, ?_, ?_⟩
      · intro stage' hstage' _
        simp only [unload] at hstage'
        split at hstage'
        · cases hstage'
          trivial
        · cases hstage'
      · intro hdone _
        simp only [unload] at hdone
        split at hdone
        · cases hdone
        · next hname => exact AList.lookup_eq_none.mpr hname
  | pop =>
      cases hlookup : t.loaded.lookup name with
      | none =>
          rw [unload_pop_none hlookup]
          exact ⟨.refl t, rfl, fun _ h => (by cases h), fun h => by cases h⟩
      | some i =>
          rw [unload_pop_some hlookup]
          refine ⟨removes_erase t name, rfl, ?_, fun h => by cases h⟩
          intro stage' hstage' _
          cases hstage'
          exact AList.lookup_erase _ _
  | deprovision i =>
      refine ⟨removes_pubsub t name, rfl, ?_, fun h => by cases h⟩
      intro stage' hstage' hvacant
      cases hstage'
      exact hvacant
  | stopping stage =>
      obtain ⟨hremoves, hpending⟩ := stopThread_spec t name stage how
      refine ⟨hremoves, hpending, ?_, ?_⟩
      · intro stage' hstage' hvacant
        simp only [unload, stage?_map] at hstage'
        obtain ⟨stage'', -, rfl⟩ := Option.map_eq_some_iff.mp hstage'
        exact hremoves.lookup_none hvacant
      · exact fun _ hvacant => hremoves.lookup_none hvacant

theorem unload_accounted {stage : UnloadStage} (hvacant : stage.Vacant t name)
    (h : Accounted t fun n i => n = name ∧ stage.holds = some i ∨ held n i) :
    Accounted (t.unload name stage how).1 fun n i =>
      n = name ∧ (t.unload name stage how).2.stage?.bind UnloadStage.holds = some i ∨ held n i := by
  cases stage with
  | check => exact (h.released rfl).weaken fun _ _ => .inr
  | pop =>
      cases hlookup : t.loaded.lookup name with
      | none =>
          rw [unload_pop_none hlookup]
          exact (h.released rfl).weaken fun _ _ => .inr
      | some i =>
          rw [unload_pop_some hlookup]
          refine (h.released rfl).erase (fun _ _ _ => .inr) ?_
          intro j _ hj
          rw [hlookup] at hj
          exact .inl ⟨rfl, hj⟩
  | deprovision i =>
      exact h.same rfl rfl rfl
  | stopping stage =>
      have hstopped : Accounted (t.stopThread name stage how).1 held :=
        stopThread_accounted (fun _ i _ => not_tracked_of_lookup hvacant i) h
      exact hstopped.weaken fun _ _ => .inr

theorem stopAll_pop_none (hlookup : t.loaded.lookup name = none) :
    t.stopAll name .pop how = (t, .raised) := by
  simp only [stopAll, hlookup]

theorem stopAll_pop_some (hlookup : t.loaded.lookup name = some i) :
    t.stopAll name .pop how =
      ({ t with loaded := t.loaded.erase name }, .goOn (.stopping (.setEvent i))) := by
  simp only [stopAll, hlookup]

theorem stopAll_spec (t : Tables) (name : String) (stage : StopAllStage) (how : How) :
    Removes t (t.stopAll name stage how).1 ∧
      (t.stopAll name stage how).1.pendingRestart = t.pendingRestart := by
  cases stage with
  | deprovision => exact ⟨removes_pubsub t name, rfl⟩
  | pop =>
      cases hlookup : t.loaded.lookup name with
      | none =>
          rw [stopAll_pop_none hlookup]
          exact ⟨.refl t, rfl⟩
      | some i =>
          rw [stopAll_pop_some hlookup]
          exact ⟨removes_erase t name, rfl⟩
  | stopping stage => exact stopThread_spec t name stage how

theorem stopAll_accounted {stage : StopAllStage}
    (hname : stage = .stopping .deregister → ∀ i, t.Runs name i → ¬ t.Tracked name i)
    (h : Accounted t fun n i => n = name ∧ stage.holds = some i ∨ held n i) :
    Accounted (t.stopAll name stage how).1 fun n i =>
      n = name ∧ (t.stopAll name stage how).2.stage?.bind StopAllStage.holds = some i ∨
        held n i := by
  cases stage with
  | deprovision =>
      exact h.same rfl rfl rfl
  | pop =>
      cases hlookup : t.loaded.lookup name with
      | none =>
          rw [stopAll_pop_none hlookup]
          exact h
      | some i =>
          rw [stopAll_pop_some hlookup]
          refine (h.released rfl).erase (fun _ _ _ => .inr) ?_
          intro j _ hj
          rw [hlookup] at hj
          exact .inl ⟨rfl, hj⟩
  | stopping stage =>
      have hstopped : Accounted (t.stopThread name stage how).1 held :=
        stopThread_accounted (fun hstage => hname (by rw [hstage])) h
      exact hstopped.weaken fun _ _ => .inr

/-- An entry that `stop_all` takes out is in its hand. -/
theorem stopAll_lookup (t : Tables) (name : String) (stage : StopAllStage) (how : How) {n : String}
    (hloaded : t.loaded.lookup n = some i) :
    (t.stopAll name stage how).1.loaded.lookup n = some i ∨
      n = name ∧ (t.stopAll name stage how).2.stage?.bind StopAllStage.holds = some i := by
  cases stage with
  | deprovision => exact .inl hloaded
  | pop =>
      cases hlookup : t.loaded.lookup name with
      | none =>
          rw [stopAll_pop_none hlookup]
          exact .inl hloaded
      | some j =>
          rw [stopAll_pop_some hlookup]
          by_cases hname : n = name
          · subst hname
            exact .inr ⟨rfl, hlookup.symm.trans hloaded⟩
          · exact .inl ((AList.lookup_erase_ne hname).trans hloaded)
  | stopping stage => cases stage <;> exact .inl hloaded

/-- A thread that `stop_all` has in hand is told to stop in the next step. -/
theorem stopAll_stops (t : Tables) (name : String) (stage : StopAllStage) (how : How) {n : String}
    (hholds : stage.holds = some i) : ¬ (t.stopAll name stage how).1.Runs n i := by
  cases stage with
  | stopping stage =>
      cases stage with
      | setEvent j =>
          cases hholds
          exact fun hrun => absurd rfl (runs_setEvent (t := t) rfl hrun).2
      | _ => cases hholds
  | _ => cases hholds

end Tables

end MagnumOpus.Bot.StrategyThreads
