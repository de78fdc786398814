import MagnumOpus.Bot.ServiceSteps

/-! # Halting after a trip

When the losses of the day exceed the limit, the callback of the fill is to stop every strategy.

* **The purpose.** `Halts`: after the trip no entry order reaches the exchange, no callback raises,
  one that completes has told every running strategy to stop, and no strategy that was stopped is
  loaded again.  The trip counts for good, also when later fills bring the profit up again.
* **When it holds.** Exactly in the runs whose steps are `Orderly`: no callback comes to the
  strategy on whose thread it runs, or to one that is gone; no rescan finds the file of a strategy
  that was stopped; after the trip no queue hands over an entry that passes the tests of its
  worker; and when a callback has come to the end of its list, no strategy loaded since the trip
  runs (`halts_iff_orderly`).
* **The invariant.** `Guarded`: what runs and was not told to stop is loaded, what is loaded after
  a trip is on the list of each callback or was loaded since, and nothing that was stopped is
  loaded or waits for a restart. -/

namespace MagnumOpus.Bot.Service

open EventMachine KeyedSum OrderQueueWorker

/-- What has happened because of trips. -/
structure Watch where
  /-- The breaker has tripped. -/
  tripped : Bool
  /-- The strategies that callbacks have stopped. -/
  halted : List String
  /-- The strategies that have been loaded since the trip. -/
  late : List String

/-- The strategies that callbacks stop. -/
def stoppedIn (effects : List ServiceEffect) : List String :=
  effects.filterMap fun
    | .stopped name => some name
    | _ => none

/-- A step with what trips have caused. -/
def watchedStep : Step (Service × Watch) ServiceEvent ServiceEffect := fun p e =>
  (((p.1.step e).1,
    { tripped := p.2.tripped || (p.1.step e).1.breaker.isTripped
      halted := p.2.halted ++ stoppedIn (p.1.step e).2
      late := p.2.late ++ if p.2.tripped then (loads p.1 e).toList else [] }), (p.1.step e).2)

/-- A service without strategies. -/
def watchedStart (limitUsd : ℚ) : Service × Watch := (.new limitUsd, ⟨false, [], []⟩)

/-- The trip halts the trading. -/
structure Halts (p : Service × Watch) (e : ServiceEvent) : Prop where
  no_entry : p.2.tripped = true → ∀ i req, .order i (.placeOrder req) ∈ (p.1.step e).2 →
    req.orderRole ≠ .entry
  completes : ∀ i, .callbackRaised i ∉ (p.1.step e).2
  stops_all : ∀ i, .callbackCompleted i ∈ (p.1.step e).2 →
    ∀ inst ∈ (p.1.step e).1.instances, inst.alive = true → inst.stop = true
  not_again : ∀ name, .loaded name ∈ (p.1.step e).2 → name ∉ p.2.halted

/-! ### Conditions of a step -/

/-- The instance whose worker takes an entry order from its queue that passes its tests. -/
def takesEntry (s : Service) : ServiceEvent → Option Instance
  | .worker i .take => (s.acting i).filter fun inst => (admittedEntry inst.worker .take).isSome
  | _ => none

/-- The strategy whose file a rescan finds. -/
def offers : ServiceEvent → Option String
  | .load name _ => some name
  | _ => none

/-- The callback that goes on has come to the end of its list. -/
def comesToEnd (s : Service) : ServiceEvent → Bool
  | .stopNext i => (s.callbackOn i).any fun cb => cb.todo.isEmpty
  | _ => false

/-- The thread of a loaded strategy runs. -/
def runs (s : Service) (name : String) : Bool :=
  ((s.loaded.lookup name).bind fun j => s.instances[j]?).any (·.alive)

/-- A step in which the halt goes its way. -/
structure Orderly (p : Service × Watch) (e : ServiceEvent) : Prop where
  others : comesToNone p.1 e = false
  files : ∀ name ∈ offers e, name ∉ p.2.halted
  drained : p.2.tripped = true → takesEntry p.1 e = none
  alone : comesToEnd p.1 e = true → ∀ name ∈ p.2.late, p.1.runs name = false

instance (p : Service × Watch) (e : ServiceEvent) : Decidable (Orderly p e) :=
  decidable_of_iff (comesToNone p.1 e = false ∧ (∀ name ∈ offers e, name ∉ p.2.halted) ∧
      (p.2.tripped = true → (takesEntry p.1 e).isNone = true) ∧
      (comesToEnd p.1 e = true → ∀ name ∈ p.2.late, p.1.runs name = false))
    ⟨fun h => ⟨h.1, h.2.1, fun ht => Option.isNone_iff_eq_none.mp (h.2.2.1 ht), h.2.2.2⟩,
      fun h => ⟨h.others, h.files, fun ht => Option.isNone_iff_eq_none.mpr (h.drained ht), h.alone⟩⟩

/-! ### The invariant -/

/-- What is known of a service in which the halt goes its way. -/
structure Guarded (p : Service × Watch) : Prop where
  named : ∀ name j, p.1.loaded.lookup name = some j →
    ∃ alive, p.1.thread j = some (name, false, alive)
  running : ∀ name j, p.1.thread j = some (name, false, true) → p.1.loaded.lookup name = some j
  waiting : ∀ name ∈ p.1.pendingRestart, name ∉ p.1.loaded
  gone : ∀ name ∈ p.2.halted, name ∉ p.1.loaded ∧ name ∉ p.1.pendingRestart
  listed : ∀ cb ∈ p.1.callbacks, ∀ name ∈ p.1.loaded, name ∈ cb.todo ∨ name ∈ p.2.late
  called : p.1.callbacks ≠ [] → p.2.tripped = true

variable {s s' : Service} {i j k : ℕ} {name : String} {e : ServiceEvent}
variable {g g' : Watch}

theorem Guarded.fewer (h : Guarded (s, g)) (htrip : g.tripped = true → g'.tripped = true)
    (hhalted : ∀ n ∈ g'.halted, n ∈ g.halted) (hlate : ∀ n ∈ g.late, n ∈ g'.late)
    (hloaded : s'.loaded = s.loaded) (hpend : ∀ name ∈ s'.pendingRestart, name ∈ s.pendingRestart)
    (hcall : ∀ cb ∈ s'.callbacks, cb ∈ s.callbacks)
    (hnamed : ∀ name j stop alive, s.thread j = some (name, stop, alive) →
      ∃ alive', s'.thread j = some (name, stop, alive'))
    (hrun : ∀ name j, s'.thread j = some (name, false, true) →
      s.thread j = some (name, false, true)) :
    Guarded (s', g') := by
  refine ⟨fun name j hl => ?_, fun name j ht => ?_, fun name hn => ?_, fun name hn => ?_, ?_, ?_⟩
  · rw [hloaded] at hl
    obtain ⟨alive, ht⟩ := h.named name j hl
    exact hnamed name j false alive ht
  · rw [hloaded]
    exact h.running name j (hrun name j ht)
  · rw [hloaded]
    exact h.waiting name (hpend name hn)
  · obtain ⟨hnot, hnor⟩ := h.gone name (hhalted name hn)
    rw [hloaded]
    exact ⟨hnot, fun hin => hnor (hpend name hin)⟩
  · intro cb hcb name hn
    rw [hloaded] at hn
    exact (h.listed cb (hcall cb hcb) name hn).imp_right (hlate name)
  · intro hne
    obtain ⟨cb, hcb⟩ := List.exists_mem_of_ne_nil _ hne
    exact htrip (h.called (List.ne_nil_of_mem (hcall cb hcb)))

theorem Guarded.erase (h : Guarded (s, g)) (htrip : g.tripped = true → g'.tripped = true)
    (hlate : ∀ n ∈ g.late, n ∈ g'.late)
    (hj : s.loaded.lookup name = some j) (hloaded : s'.loaded = s.loaded.erase name)
    (hpend : ∀ n ∈ s'.pendingRestart, n = name ∨ n ∈ s.pendingRestart)
    (hhalted : ∀ n ∈ g'.halted, n ∈ g.halted ∨ n = name ∧ s'.pendingRestart = s.pendingRestart)
    (hnamed : ∀ n k stop alive, k ≠ j → s.thread k = some (n, stop, alive) →
      s'.thread k = some (n, stop, alive))
    (hrun : ∀ n k, s'.thread k = some (n, false, true) → k ≠ j ∧ s.thread k = some (n, false, true))
    (hlisted : ∀ cb ∈ s'.callbacks, ∀ n ∈ s.loaded, n ≠ name → n ∈ cb.todo ∨ n ∈ g.late)
    (hcall : s'.callbacks ≠ [] → s.callbacks ≠ []) :
    Guarded (s', g') := by
  have hmem : ∀ n, n ∈ s'.loaded ↔ n ≠ name ∧ n ∈ s.loaded := by
    intro n
    rw [hloaded]
    exact AList.mem_erase
  have hin : name ∈ s.loaded := mem_loaded.mpr ⟨j, hj⟩
  refine ⟨fun n k hl => ?_, fun n k ht => ?_, fun n hn hn' => ?_, fun n hn => ?_, ?_, ?_⟩
  · have hne : n ≠ name := ((hmem n).mp (mem_loaded.mpr ⟨k, hl⟩)).1
    rw [hloaded, AList.lookup_erase_ne hne] at hl
    obtain ⟨alive, ht⟩ := h.named n k hl
    refine ⟨alive, hnamed n k false alive ?_ ht⟩
    -- Another strategy has another thread.
    rintro rfl
    obtain ⟨alive', ht'⟩ := h.named name k hj
    rw [ht'] at ht
    exact hne (congrArg Prod.fst (Option.some.inj ht)).symm
  · obtain ⟨hne, ht⟩ := hrun n k ht
    have hl := h.running n k ht
    have hn : n ≠ name := by
      rintro rfl
      exact hne (Option.some.inj (hl.symm.trans hj))
    rw [hloaded, AList.lookup_erase_ne hn]
    exact hl
  · obtain ⟨hne, hold⟩ := (hmem n).mp hn'
    rcases hpend n hn with rfl | hn
    · exact hne rfl
    · exact h.waiting n hn hold
  · rcases hhalted n hn with hold | ⟨rfl, hpending⟩
    · obtain ⟨hnot, hnor⟩ := h.gone n hold
      refine ⟨fun hn' => hnot ((hmem n).mp hn').2, fun hn' => ?_⟩
      rcases hpend n hn' with rfl | hn'
      · exact hnot hin
      · exact hnor hn'
    · refine ⟨fun hn' => ((hmem n).mp hn').1 rfl, fun hn' => ?_⟩
      rw [hpending] at hn'
      exact h.waiting n hn' hin
  · intro cb hcb n hn
    obtain ⟨hne, hold⟩ := (hmem n).mp hn
    exact (hlisted cb hcb n hold hne).imp_right (hlate n)
  · exact fun hne => htrip (h.called (hcall hne))

theorem Guarded.load (h : Guarded (s, g)) (htrip : g.tripped = true → g'.tripped = true)
    (hhalted : g'.halted = g.halted) (hlate : ∀ n ∈ g.late, n ∈ g'.late)
    (hnew : g.tripped = true → name ∈ g'.late) (hname : name ∉ s.loaded)
    (hstopped : name ∉ g.halted) (pending : List String)
    (hpend : ∀ n ∈ pending, n ≠ name ∧ n ∈ s.pendingRestart) (w : OrderQueueWorker) :
    Guarded ((({ s with pendingRestart := pending } : Service).loadNew name w).1, g') := by
  have hthread : ∀ k, (({ s with pendingRestart := pending } : Service).loadNew name w).1.thread k =
      if k = s.instances.length then some (name, false, true) else s.thread k := by
    intro k
    unfold thread loadNew
    by_cases hk : k = s.instances.length
    · subst hk
      simp
    · rw [if_neg hk]
      by_cases hlt : k < s.instances.length
      · rw [List.getElem?_append_left hlt]
      · rw [List.getElem?_eq_none (by simp; omega), List.getElem?_eq_none (by omega)]
  have hfresh : s.thread s.instances.length = none := by
    rw [thread, List.getElem?_eq_none (le_refl _)]
    rfl
  have hlookup : ∀ n, n ≠ name →
      (s.loaded.insert name s.instances.length).lookup n = s.loaded.lookup n :=
    fun n hn => AList.lookup_insert_ne hn
  have hmem : ∀ {n}, n ∈ (s.loaded.insert name s.instances.length) → n = name ∨ n ∈ s.loaded :=
    fun hn => (AList.mem_insert _).mp hn
  refine ⟨fun n k hl => ?_, fun n k hk => ?_, fun n hn hn' => ?_, fun n hn => ?_, ?_,
    fun hne => htrip (h.called hne)⟩
  · rw [hthread]
    by_cases hn : n = name
    · subst hn
      have hk : k = s.instances.length :=
        (Option.some.inj (hl.symm.trans (AList.lookup_insert s.loaded)))
      exact ⟨true, by rw [if_pos hk]⟩
    · obtain ⟨alive, hk⟩ := h.named n k ((hlookup n hn).symm.trans hl)
      refine ⟨alive, ?_⟩
      have hne : k ≠ s.instances.length := by
        rintro rfl
        rw [hfresh] at hk
        cases hk
      rw [if_neg hne]
      exact hk
  · rw [hthread] at hk
    by_cases hlast : k = s.instances.length
    · rw [if_pos hlast] at hk
      cases hk
      subst hlast
      exact AList.lookup_insert s.loaded
    · rw [if_neg hlast] at hk
      have hl := h.running n k hk
      have hn : n ≠ name := by
        rintro rfl
        exact hname (mem_loaded.mpr ⟨k, hl⟩)
      exact (hlookup n hn).trans hl
  · obtain ⟨hne, hin⟩ := hpend n hn
    rcases hmem hn' with heq | hl
    · exact hne heq
    · exact h.waiting n hin hl
  · rw [hhalted] at hn
    obtain ⟨hnot, hnor⟩ := h.gone n hn
    refine ⟨fun hn' => ?_, fun hn' => hnor (hpend n hn').2⟩
    rcases hmem hn' with rfl | hl
    · exact hstopped hn
    · exact hnot hl
  · intro cb hcb n hn
    rcases hmem hn with rfl | hl
    · exact .inr (hnew (h.called (List.ne_nil_of_mem hcb)))
    · exact (h.listed cb hcb n hl).imp_right (hlate n)

theorem Guarded.same (h : Guarded (s, g)) (htrip : g.tripped = true → g'.tripped = true)
    (hhalted : ∀ n ∈ g'.halted, n ∈ g.halted) (hlate : ∀ n ∈ g.late, n ∈ g'.late) :
    Guarded (s, g') :=
  h.fewer htrip hhalted hlate rfl (fun _ hn => hn) (fun _ hcb => hcb)
    (fun _ _ _ alive ht => ⟨alive, ht⟩) fun _ _ ht => ht

theorem Guarded.told (h : Guarded (s, g)) (htrip : g.tripped = true → g'.tripped = true)
    (hlate : ∀ n ∈ g.late, n ∈ g'.late) (hj : s.loaded.lookup name = some j)
    (hhalted : ∀ n ∈ g'.halted, n ∈ g.halted ∨ n = name) {callbacks : List Callback}
    (hlisted : ∀ cb ∈ callbacks, ∀ n ∈ s.loaded, n ≠ name → n ∈ cb.todo ∨ n ∈ g.late)
    (hcall : callbacks ≠ [] → s.callbacks ≠ []) :
    Guarded (({ s.tellToStop j with loaded := s.loaded.erase name, callbacks } : Service), g') := by
  refine h.erase htrip hlate hj rfl (fun _ hn => .inr hn)
    (fun n hn => (hhalted n hn).imp_right fun hn => ⟨hn, rfl⟩) ?_ ?_ hlisted hcall
  · intro n k stop alive hne ht
    rw [thread_told, if_neg hne]
    exact ht
  · intro n k ht
    rw [thread_told] at ht
    by_cases hk : k = j
    · exfalso
      rw [if_pos hk] at ht
      obtain ⟨t', -, ht'⟩ := Option.map_eq_some_iff.mp ht
      cases ht'
    · rw [if_neg hk] at ht
      exact ⟨hk, ht⟩

/-! ### One step -/

/-- What is known of the watch after an event. -/
structure Watched (s : Service) (g : Watch) (e : ServiceEvent) (g' : Watch) : Prop where
  tripped : g.tripped = true → g'.tripped = true
  noticed : (s.step e).1.breaker.isTripped = true → g'.tripped = true
  halted : g'.halted = g.halted ++ stoppedIn (s.step e).2
  late : ∀ n ∈ g.late, n ∈ g'.late
  loaded : g.tripped = true → ∀ n ∈ loads s e, n ∈ g'.late

theorem watched_step (s : Service) (g : Watch) (e : ServiceEvent) :
    Watched s g e (watchedStep (s, g) e).1.2 where
  tripped ht := Bool.or_eq_true_iff.mpr (.inl ht)
  noticed ht := Bool.or_eq_true_iff.mpr (.inr ht)
  halted := rfl
  late _ hn := List.mem_append_left _ hn
  loaded ht n hn := by
    refine List.mem_append_right _ ?_
    rw [if_pos ht]
    exact Option.mem_toList.mpr hn

/-- Only callbacks stop strategies. -/
theorem Watched.halted_eq (hw : Watched s g e g') (h : ∀ i, e ≠ .stopNext i) :
    g'.halted = g.halted := by
  have hnone : stoppedIn (s.step e).2 = [] := by
    refine List.filterMap_eq_nil_iff.mpr fun f hf => ?_
    cases f with
    | stopped name =>
        obtain ⟨k, cb, hk, -⟩ := callbackOn_of_step hf (by simp) (by simp)
        exact absurd hk (h k)
    | _ => rfl
  rw [hw.halted, hnone, List.append_nil]

theorem Watched.same (hw : Watched s g e g') (hne : ∀ i, e ≠ .stopNext i) (h : Guarded (s, g)) :
    Guarded (s, g') :=
  h.same hw.tripped (fun _ hn => hw.halted_eq hne ▸ hn) hw.late

/-- A step of an order worker changes no thread; a trip puts all loaded strategies on a list. -/
theorem guarded_worker (h : Guarded (s, g)) {input : Input}
    (hw : Watched s g (.worker i input) g') : Guarded ((s.step (.worker i input)).1, g') := by
  have hhalted := hw.halted_eq (by simp)
  have hnoticed := hw.noticed
  simp only [step, stepWorker] at hnoticed ⊢
  cases hact : s.acting i with
  | none => exact hw.same (by simp) h
  | some inst =>
      simp only [hact] at hnoticed ⊢
      have hset : ∀ w', (s.setInstance i { inst with worker := w' }).thread = s.thread := by
        intro w'
        have hinst := (of_acting hact).1
        funext j
        rw [thread_setInstance hinst]
        split
        · next hj =>
            subst hj
            rw [thread, hinst]
            rfl
        · rfl
      obtain ⟨hl, hp, hth, hc⟩ := recorded_recordPnls i
        (inst.worker.step (heed inst input)).2
        (s.setInstance i { inst with worker := (inst.worker.step (heed inst input)).1 })
      rw [hset] at hth
      generalize Service.recordPnls _ i _ = s' at *
      refine ⟨?_, ?_, ?_, ?_, ?_, ?_⟩
      · rw [hl, hth]
        exact h.named
      · rw [hl, hth]
        exact h.running
      · rw [hl, hp]
        exact h.waiting
      · rw [hl, hp, hhalted]
        exact h.gone
      · rw [hl]
        rcases hc with ⟨hc, -⟩ | ⟨hc, -⟩
        · rw [hc]
          exact fun cb hcb n hn => (h.listed cb hcb n hn).imp_right (hw.late n)
        · rw [hc]
          intro cb hcb name hname
          rcases List.mem_cons.mp hcb with rfl | hcb
          · exact .inl (List.mem_reverse.mpr (AList.mem_keys.mp hname))
          · exact (h.listed cb hcb name hname).imp_right (hw.late name)
      · intro hne
        rcases hc with ⟨hc, -⟩ | ⟨-, ht⟩
        · rw [hc] at hne
          exact hw.tripped (h.called hne)
        · exact hnoticed ht

theorem guarded_stopNext (h : Guarded (s, g)) (hok : comesToNone s (.stopNext i) = false)
    (hw : Watched s g (.stopNext i) g') : Guarded ((s.step (.stopNext i)).1, g') := by
  have hhalted : g'.halted = g.halted ++ stoppedIn (s.stopNext i).2 := hw.halted
  show Guarded ((s.stopNext i).1, g')
  cases hcb : s.callbackOn i with
  | none =>
      rw [stopNext_none hcb] at hhalted ⊢
      exact h.same hw.tripped (fun n hn => by simpa [hhalted, stoppedIn] using hn) hw.late
  | some cb =>
      have hmem : cb ∈ s.callbacks := List.mem_of_find?_eq_some hcb
      have hsub : ∀ cb' ∈ (s.dropCallback i).callbacks, cb' ∈ s.callbacks :=
        fun cb' hcb' => List.mem_of_mem_filter hcb'
      obtain ⟨t, todo⟩ := cb
      cases todo with
      | nil =>
          rw [stopNext_nil hcb] at hhalted ⊢
          exact h.fewer hw.tripped (fun n hn => by simpa [hhalted, stoppedIn] using hn) hw.late rfl
            (fun _ hn => hn) hsub (fun _ _ _ alive ht => ⟨alive, ht⟩) fun _ _ ht => ht
      | cons name rest =>
          obtain ⟨j, hj, hne⟩ := lookup_of_comes hcb hok
          rw [stopNext_other hcb hj hne] at hhalted ⊢
          refine h.told hw.tripped hw.late hj (fun n hn => ?_) ?_ fun _ => List.ne_nil_of_mem hmem
          · simpa [hhalted, stoppedIn] using hn
          · intro cb' hcb' n hn hnn
            rcases List.mem_cons.mp hcb' with rfl | hcb'
            · refine (h.listed _ hmem n hn).imp_left fun hin => ?_
              exact (List.mem_cons.mp hin).resolve_left hnn
            · exact h.listed cb' (hsub cb' hcb') n hn

theorem guarded_exit (h : Guarded (s, g)) (hw : Watched s g (.exit i) g') :
    Guarded ((s.step (.exit i)).1, g') := by
  have hhalted := hw.halted_eq (by simp)
  simp only [step]
  cases hact : s.acting i with
  | none => exact hw.same (by simp) h
  | some inst =>
      have hinst := (of_acting hact).1
      have hthread := thread_setInstance hinst
        { inst with alive := false, worker := (inst.worker.step .cancel).1 }
      refine h.fewer hw.tripped (fun _ hn => hhalted ▸ hn) hw.late rfl (fun _ hn => hn)
        (fun _ hcb => hcb) ?_ ?_
      · intro n k stop alive ht
        rw [hthread]
        by_cases hk : k = i
        · subst hk
          rw [thread, hinst, Option.map_some, Option.some.injEq, Prod.mk.injEq, Prod.mk.injEq] at ht
          obtain ⟨rfl, rfl, -⟩ := ht
          exact ⟨false, by rw [if_pos rfl]⟩
        · exact ⟨alive, by rw [if_neg hk]; exact ht⟩
      · intro n k ht
        rw [hthread] at ht
        by_cases hk : k = i
        · rw [if_pos hk] at ht
          simp at ht
        · rw [if_neg hk] at ht
          exact ht

theorem guarded_crash (h : Guarded (s, g)) (hw : Watched s g (.crash name) g') :
    Guarded ((s.step (.crash name)).1, g') := by
  have hhalted := hw.halted_eq (by simp)
  simp only [step]
  by_cases hc : s.hasCrashed name = true
  · rw [if_pos hc]
    obtain ⟨inst, hbind, hdead⟩ := (Option.any_eq_true _ _).mp hc
    obtain ⟨j, hj, hinst⟩ := Option.bind_eq_some_iff.mp hbind
    have halive : inst.alive = false := by
      simp only [Bool.and_eq_true, Bool.not_eq_true'] at hdead
      exact hdead.1
    refine h.erase hw.tripped hw.late hj rfl (fun _ hn => List.mem_cons.mp hn)
      (fun n hn => .inl (hhalted ▸ hn)) (fun n k stop alive _ ht => ht) ?_
      (fun cb hcb n hn _ => h.listed cb hcb n hn) fun hne => hne
    intro n k ht
    refine ⟨?_, ht⟩
    rintro rfl
    have hthread : s.thread k = some (n, false, true) := ht
    rw [thread, hinst, Option.map_some, halive] at hthread
    simp at hthread
  · rw [if_neg hc]
    exact hw.same (by simp) h

theorem guarded_unload (h : Guarded (s, g)) (hw : Watched s g (.unload name) g') :
    Guarded ((s.step (.unload name)).1, g') := by
  have hhalted := hw.halted_eq (by simp)
  simp only [step, unload]
  cases hj : s.loaded.lookup name with
  | none => exact hw.same (by simp) h
  | some j =>
      exact h.told hw.tripped hw.late hj (fun n hn => .inl (hhalted ▸ hn))
        (fun cb hcb n hn _ => h.listed cb hcb n hn) fun hne => hne

theorem guarded_load (h : Guarded (s, g)) {w : OrderQueueWorker} (hfile : name ∉ g.halted)
    (hw : Watched s g (.load name w) g') : Guarded ((s.step (.load name w)).1, g') := by
  simp only [step]
  by_cases hin : name ∈ s.loaded ∨ name ∈ s.pendingRestart
  · rw [if_pos hin]
    exact hw.same (by simp) h
  · have hloads : loads s (.load name w) = some name := by rw [loads, if_neg hin]
    rw [if_neg hin]
    rw [not_or] at hin
    refine h.load hw.tripped (hw.halted_eq (by simp)) hw.late (fun ht => hw.loaded ht name hloads)
      hin.1 hfile s.pendingRestart (fun n hn => ⟨?_, hn⟩) w
    rintro rfl
    exact hin.2 hn

theorem guarded_restart (h : Guarded (s, g)) {w : Option OrderQueueWorker}
    (hw : Watched s g (.restart name w) g') : Guarded ((s.step (.restart name w)).1, g') := by
  have hhalted := hw.halted_eq (by simp)
  simp only [step]
  by_cases hin : name ∈ s.pendingRestart
  · rw [if_pos hin]
    have hsub : ∀ n ∈ s.pendingRestart.filter (· ≠ name), n ≠ name ∧ n ∈ s.pendingRestart := by
      intro n hn
      have := List.mem_filter.mp hn
      exact ⟨by simpa using this.2, this.1⟩
    cases w with
    | none =>
        exact h.fewer hw.tripped (fun _ hn => hhalted ▸ hn) hw.late rfl (fun n hn => (hsub n hn).2)
          (fun _ hcb => hcb) (fun _ _ _ alive ht => ⟨alive, ht⟩) fun _ _ ht => ht
    | some w =>
        have hloads : loads s (.restart name (some w)) = some name := by rw [loads, if_pos hin]
        exact h.load hw.tripped hhalted hw.late (fun ht => hw.loaded ht name hloads)
          (h.waiting name hin) (fun hstopped => (h.gone name hstopped).2 hin) _ hsub w
  · rw [if_neg hin]
    exact hw.same (by simp) h

theorem guarded_step {p : Service × Watch} (h : Guarded p) (hok : Orderly p e) :
    Guarded (watchedStep p e).1 := by
  obtain ⟨s, g⟩ := p
  have hw := watched_step s g e
  show Guarded ((s.step e).1, (watchedStep (s, g) e).1.2)
  cases e with
  | worker i input => exact guarded_worker h hw
  | stopNext i => exact guarded_stopNext h hok.others hw
  | exit i => exact guarded_exit h hw
  | crash name => exact guarded_crash h hw
  | restart name w => exact guarded_restart h hw
  | unload name => exact guarded_unload h hw
  | load name w => exact guarded_load h (hok.files name rfl) hw

/-! ### What halts the trading -/

/-- A callback completes exactly when it has come to the end of its list. -/
theorem completed_iff : (∃ k, .callbackCompleted k ∈ (s.step e).2) ↔ comesToEnd s e = true := by
  constructor
  · rintro ⟨k, h⟩
    obtain ⟨i, cb, rfl, hcb, hf⟩ := callbackOn_of_step h (by simp) (by simp)
    obtain ⟨t, todo⟩ := cb
    cases todo with
    | nil => simp [comesToEnd, hcb]
    | cons name rest =>
        exfalso
        simp only [stopNext, hcb] at hf
        split at hf
        · cases List.mem_singleton.mp hf
        · split at hf <;> simp at hf
  · intro h
    unfold comesToEnd at h
    split at h
    · next i =>
        obtain ⟨⟨t, todo⟩, hcb, htodo⟩ := (Option.any_eq_true _ _).mp h
        obtain rfl : todo = [] := List.isEmpty_iff.mp htodo
        exact ⟨i, by rw [step, stopNext_nil hcb]; exact List.mem_singleton_self _⟩
    · cases h

theorem instances_of_comesToEnd (h : comesToEnd s e = true) :
    (s.step e).1.instances = s.instances ∧ ∃ cb ∈ s.callbacks, cb.todo = [] := by
  unfold comesToEnd at h
  split at h
  · next i =>
      obtain ⟨⟨t, todo⟩, hcb, htodo⟩ := (Option.any_eq_true _ _).mp h
      obtain rfl : todo = [] := List.isEmpty_iff.mp htodo
      rw [step, stopNext_nil hcb]
      exact ⟨rfl, _, List.mem_of_find?_eq_some hcb, rfl⟩
  · cases h

/-- An entry reaches the exchange exactly when the queue of its worker hands it over. -/
theorem places_iff : (∃ i req, .order i (.placeOrder req) ∈ (s.step e).2 ∧ req.orderRole = .entry) ↔
    takesEntry s e ≠ none := by
  constructor
  · rintro ⟨i, req, hmem, hrole⟩
    obtain ⟨input, inst, rfl, hact, hf⟩ := order_of_step hmem
    obtain ⟨hinput, hstage, hqueue, hadm⟩ := placeOrder_of_step hf
    have htake : input = .take := by
      cases input <;> first | rfl | cases hinput
    subst htake
    have hadmitted : admittedEntry inst.worker .take = some req :=
      admittedEntry_eq rfl hstage hqueue hadm hrole
    rw [takesEntry, hact, Option.filter_some, hadmitted]
    simp
  · intro h
    obtain ⟨inst, htakes⟩ := Option.ne_none_iff_exists'.mp h
    unfold takesEntry at htakes
    split at htakes
    · next i =>
        obtain ⟨hact, hsome⟩ := Option.filter_eq_some_iff.mp htakes
        obtain ⟨req, hreq⟩ := Option.isSome_iff_exists.mp hsome
        obtain ⟨hplace, hrole⟩ := placeOrder_of_admittedEntry hreq
        refine ⟨i, req, ?_, hrole⟩
        simp only [step, stepWorker, hact]
        exact List.mem_map_of_mem hplace
    · cases htakes

/-- What runs and was not told to stop is what is loaded and runs. -/
theorem Guarded.runs_iff (h : Guarded (s, g)) (name : String) :
    s.runs name = true ↔ ∃ j, s.thread j = some (name, false, true) := by
  simp only [runs, Option.any_eq_true, Option.bind_eq_some_iff]
  constructor
  · rintro ⟨inst, ⟨j, hj, hinst⟩, halive⟩
    obtain ⟨alive, ht⟩ := h.named name j hj
    refine ⟨j, ht.trans ?_⟩
    rw [thread, hinst, Option.map_some, halive] at ht
    obtain rfl : true = alive := congrArg (fun t => t.2.2) (Option.some.inj ht)
    rfl
  · rintro ⟨j, ht⟩
    obtain ⟨inst, hinst, heq⟩ := Option.map_eq_some_iff.mp ht
    exact ⟨inst, ⟨j, h.running name j ht, hinst⟩, congrArg (fun t => t.2.2) heq⟩

/-- Under the guard a rescan loads the file of a strategy that was stopped. -/
theorem Guarded.loads_of_offers (h : Guarded (s, g)) (hname : name ∈ offers e)
    (hin : name ∈ g.halted) : loads s e = some name := by
  unfold offers at hname
  split at hname
  · next name' w =>
      obtain rfl := Option.mem_some_iff.mp hname
      obtain ⟨hnot, hnor⟩ := h.gone name' hin
      rw [loads, if_neg (not_or.mpr ⟨hnot, hnor⟩)]
  · cases hname

/-- What is loaded is offered, or waits for its restart. -/
theorem offers_or_waits (h : loads s e = some name) :
    name ∈ offers e ∨ name ∈ s.pendingRestart := by
  unfold loads at h
  split at h
  · split at h
    · cases h
    · exact .inl h
  · split at h
    · next hin =>
        cases h
        exact .inr hin
    · cases h
  · cases h

theorem halts_iff {p : Service × Watch} (h : Guarded p) : Halts p e ↔ Orderly p e := by
  obtain ⟨s, g⟩ := p
  constructor
  · intro hhalts
    refine ⟨?_, fun name hname hin => ?_, fun ht => ?_, fun hend name _ => ?_⟩
    · refine Bool.eq_false_iff.mpr fun hc => ?_
      obtain ⟨k, hk⟩ := raises_iff.mpr hc
      exact hhalts.completes k hk
    · exact hhalts.not_again name (step_loads (h.loads_of_offers hname hin)) hin
    · by_contra htakes
      obtain ⟨i, req, hmem, hrole⟩ := places_iff.mpr htakes
      exact hhalts.no_entry ht i req hmem hrole
    · refine Bool.eq_false_iff.mpr fun hruns => ?_
      obtain ⟨j, hj⟩ := (h.runs_iff name).mp hruns
      obtain ⟨inst, hinst, heq⟩ := Option.map_eq_some_iff.mp hj
      obtain ⟨k, hk⟩ := completed_iff.mpr hend
      have hmem : inst ∈ (s.step e).1.instances := by
        rw [(instances_of_comesToEnd hend).1]
        exact List.mem_of_getElem? hinst
      have hstop := hhalts.stops_all k hk inst hmem (congrArg (fun t => t.2.2) heq)
      rw [show inst.stop = false from congrArg (fun t => t.2.1) heq] at hstop
      cases hstop
  · intro hok
    refine ⟨fun ht i req hmem hrole => ?_, fun i hmem => ?_, fun i hmem inst hinst halive => ?_,
      fun name hmem hin => ?_⟩
    · exact places_iff.mp ⟨i, req, hmem, hrole⟩ (hok.drained ht)
    · have hraises := raises_iff.mp ⟨i, hmem⟩
      rw [show comesToNone s e = false from hok.others] at hraises
      cases hraises
    · -- What still runs and was not told to stop is loaded, but not on the list, which is empty.
      have hend : comesToEnd s e = true := completed_iff.mp ⟨i, hmem⟩
      obtain ⟨hsame, cb, hcb, htodo⟩ := instances_of_comesToEnd hend
      rw [show ((s, g) : Service × Watch).1 = s from rfl, hsame] at hinst
      obtain ⟨j, hj⟩ := List.mem_iff_getElem?.mp hinst
      by_contra hstop
      have hthread : s.thread j = some (inst.name, false, true) := by
        rw [thread, hj, Option.map_some, halive, Bool.eq_false_iff.mpr hstop]
      have hloaded : inst.name ∈ s.loaded := mem_loaded.mpr ⟨j, h.running _ _ hthread⟩
      have hlate : inst.name ∈ g.late := (h.listed cb hcb _ hloaded).resolve_left (by simp [htodo])
      have hruns : s.runs inst.name = true := (h.runs_iff _).mpr ⟨j, hthread⟩
      rw [show s.runs inst.name = false from hok.alone hend _ hlate] at hruns
      cases hruns
    · rcases offers_or_waits (loads_of_step hmem) with hoffered | hwaits
      · exact hok.files name hoffered hin
      · exact (h.gone name hin).2 hwaits

/-! ### The run -/

theorem completes_of_turns : ∀ (es : List ServiceEvent) {p : Service × Watch} {cb : Callback},
    p.1.callbackOn k = some cb → Along watchedStep Orderly p es →
      cb.todo.length < es.countP (isTurn k) → .callbackCompleted k ∈ trace watchedStep p es
  | [], _, _, _, _, hlt => by simp at hlt
  | e :: es, p, cb, hcb, h, hlt => by
      rw [trace_cons, List.mem_append]
      rcases callbackOn_step hcb h.1.others with hdone | ⟨cb', hcb', hlen⟩
      · exact .inl hdone
      · refine .inr (completes_of_turns es hcb' h.2 ?_)
        rw [List.countP_cons] at hlt
        omega

theorem guarded_start (limitUsd : ℚ) : Guarded (watchedStart limitUsd) := by
  refine ⟨?_, ?_, ?_, ?_, ?_, fun h => absurd rfl h⟩
  · intro name j h
    cases h
  · intro name j h
    cases h
  · intro name h
    cases h
  · intro name h
    cases h
  · intro cb h
    cases h

/-- A callback that gets a turn for each strategy on its list, and one more, completes. -/
def CallbacksComplete (p : Service × Watch) (es : List ServiceEvent) : Prop :=
  ∀ earlier later k cb, es = earlier ++ later →
    (final watchedStep p earlier).1.callbackOn k = some cb →
      cb.todo.length < later.countP (isTurn k) →
        .callbackCompleted k ∈ trace watchedStep (final watchedStep p earlier) later

theorem rescan_reloads {p : Service × Watch} {valid : List ValidFile} {f : ValidFile}
    (h : Guarded p) (hf : f ∈ valid) (hhalted : f.className ∈ p.2.halted) :
    ∃ e ∈ p.1.rescan valid, ¬ Halts p e := by
  obtain ⟨hnot, hnor⟩ := h.gone _ hhalted
  refine ⟨.load f.className f.worker, ?_, fun hhalts => ?_⟩
  · unfold rescan
    refine List.mem_append_left _ (List.mem_append_right _ (List.mem_map_of_mem ?_))
    exact List.mem_filter.mpr ⟨hf, by simp [hnot, hnor]⟩
  · exact ((halts_iff h).mp hhalts).files _ rfl hhalted

/-! ### Two runs -/

/-- A worker that has been restored with a position and the order that closes it. -/
def closing (strategy : String) : OrderQueueWorker :=
  (((halfOfThousand strategy).restoreOpenOrder "o1" (tenthOrder strategy .exit .sell)
    ⟨"o1", "", .placed, 0⟩).restorePosition "BTCUSDT" 1 100)

/-- Two strategies; one of them holds a position, the other one has an entry order in its queue. -/
def twoStrategies : List ServiceEvent :=
  [.load "MACrossBot" (closing "MACrossBot"), .load "GridBot" (halfOfThousand "GridBot"),
    .worker 1 (.post (tenthOrder "GridBot" .entry .buy))]

/-- The position is closed at a loss, and the profit recorded. -/
def loss : List ServiceEvent :=
  [.worker 0 (.fill ⟨"o1", "bybit", "BTCUSDT", .sell, 40, 1, 0, 0⟩), .worker 0 (.booked 0)]

end MagnumOpus.Bot.Service
