import MagnumOpus.Bot.FileWatcher

/-! # What each step of the bot service does

The state of the threads, and where each effect of a step comes from: orders from the worker that
the event is about (`order_of_step`), the effects of callbacks from a callback that goes on
(`callbackOn_of_step`), loads from events that load (`loads_of_step`).  A callback that does not
raise loses one strategy at each of its turns (`callbackOn_step`). -/

namespace MagnumOpus.Bot.Service

open EventMachine KeyedSum OrderQueueWorker

/-! ### Kinds of events -/

/-- The callback that goes on comes to the strategy on whose thread it runs, or to one that is not
loaded any more. -/
def comesToNone (s : Service) : ServiceEvent → Bool
  | .stopNext i =>
      match s.callbackOn i with
      | some ⟨_, name :: _⟩ => (s.loaded.lookup name).all (· = i)
      | _ => false
  | _ => false

/-- The strategy that the event loads. -/
def loads (s : Service) : ServiceEvent → Option String
  | .load name _ => if name ∈ s.loaded ∨ name ∈ s.pendingRestart then none else some name
  | .restart name (some _) => if name ∈ s.pendingRestart then some name else none
  | _ => none

/-- The callback on the thread goes on. -/
def isTurn (k : ℕ) : ServiceEvent → Bool
  | .stopNext i => i = k
  | _ => false

/-! ### Threads -/

/-- The name of an instance, and whether it has been told to stop and its thread runs. -/
def thread (s : Service) (j : ℕ) : Option (String × Bool × Bool) :=
  s.instances[j]?.map fun inst => (inst.name, inst.stop, inst.alive)

variable {s s' : Service} {i j : ℕ} {name : String} {e : ServiceEvent}

theorem of_acting {inst : Instance} (h : s.acting i = some inst) :
    s.instances[i]? = some inst ∧ inst.alive = true := by
  unfold acting at h
  split at h
  · cases h
  · exact ⟨(Option.filter_eq_some_iff.mp h).1, (Option.filter_eq_some_iff.mp h).2⟩

theorem thread_setInstance {inst : Instance} (h : s.instances[i]? = some inst) (inst' : Instance)
    (j : ℕ) : (s.setInstance i inst').thread j =
      if j = i then some (inst'.name, inst'.stop, inst'.alive) else s.thread j := by
  have hlt : i < s.instances.length := (List.getElem?_eq_some_iff.mp h).1
  unfold thread setInstance
  rw [List.getElem?_set]
  by_cases hj : j = i
  · subst hj
    simp [hlt]
  · rw [if_neg (Ne.symm hj), if_neg hj]

theorem thread_modify (f : Instance → Instance) (j : ℕ) :
    ({ s with instances := s.instances.modify i f } : Service).thread j =
      if j = i then (s.instances[j]?.map f).map fun inst => (inst.name, inst.stop, inst.alive)
      else s.thread j := by
  unfold thread
  rw [List.getElem?_modify]
  by_cases hj : j = i
  · subst hj
    simp
  · simp [hj, Ne.symm hj]

theorem thread_tellToStop (s : Service) (i j : ℕ) : (s.tellToStop i).thread j =
    if j = i then (s.thread j).map fun t => (t.1, true, t.2.2) else s.thread j := by
  unfold tellToStop
  rw [thread_modify]
  simp only [thread, Option.map_map]
  rfl

theorem mem_loaded : name ∈ s.loaded ↔ ∃ j, s.loaded.lookup name = some j := by
  rw [← AList.lookup_isSome, Option.isSome_iff_exists]

/-! ### Order workers -/

/-- What the profits of a step change: the breaker, and a new callback when it trips. -/
structure Recorded (s : Service) (i : ℕ) (s' : Service) : Prop where
  loaded : s'.loaded = s.loaded
  pendingRestart : s'.pendingRestart = s.pendingRestart
  thread : s'.thread = s.thread
  callbacks : (s'.callbacks = s.callbacks ∧
      (s'.breaker.isTripped = true → s.breaker.isTripped = true)) ∨
    (s'.callbacks = ⟨i, s.loaded.keys.reverse⟩ :: s.callbacks ∧ s'.breaker.isTripped = true)

theorem recorded_recordPnls (i : ℕ) : ∀ (effects : List OrderEffect) (s : Service),
    Recorded s i (s.recordPnls i effects)
  | [], s => ⟨rfl, rfl, rfl, .inl ⟨rfl, fun h => h⟩⟩
  | .placeOrder _ :: effects, s => recorded_recordPnls i effects s
  | .writeOrderEvent _ :: effects, s => recorded_recordPnls i effects s
  | .recordPnl pnl :: effects, s => by
      simp only [recordPnls]
      by_cases ht : (s.breaker.recordPnl pnl).isTripped = true
      · rw [if_pos ht]
        refine ⟨rfl, rfl, ?_, .inr ⟨rfl, ht⟩⟩
        funext j
        show ({ s with instances := s.instances.modify i _ } : Service).thread j = s.thread j
        rw [thread_modify]
        split
        · next hj =>
            subst hj
            rw [Option.map_map]
            rfl
        · rfl
      · rw [if_neg ht]
        obtain ⟨hl, hp, hth, hc⟩ := recorded_recordPnls i effects
          { s with breaker := s.breaker.recordPnl pnl }
        refine ⟨hl, hp, hth, hc.imp (fun hc => ⟨hc.1, fun h => absurd (hc.2 h) ht⟩) fun hc => hc⟩

/-! ### Callbacks -/

section StopNext

variable {t : ℕ} {rest : List String}

theorem stopNext_none (h : s.callbackOn i = none) : s.stopNext i = (s, []) := by
  simp only [stopNext, h]

theorem stopNext_nil (h : s.callbackOn i = some ⟨t, []⟩) :
    s.stopNext i = (s.dropCallback i, [.callbackCompleted i]) := by
  simp only [stopNext, h]

theorem stopNext_gone (h : s.callbackOn i = some ⟨t, name :: rest⟩)
    (hl : s.loaded.lookup name = none) :
    s.stopNext i = (s.dropCallback i, [.callbackRaised i]) := by
  simp only [stopNext, h, hl]

theorem stopNext_self (h : s.callbackOn i = some ⟨t, name :: rest⟩)
    (hl : s.loaded.lookup name = some i) :
    (s.stopNext i).2 = [.stopped name, .callbackRaised i] := by
  simp only [stopNext, h, hl, if_true]

theorem stopNext_other (h : s.callbackOn i = some ⟨t, name :: rest⟩)
    (hl : s.loaded.lookup name = some j) (hne : j ≠ i) :
    s.stopNext i = ({ s.tellToStop j with
      loaded := s.loaded.erase name
      callbacks := ⟨i, rest⟩ :: (s.dropCallback i).callbacks }, [.stopped name]) := by
  simp only [stopNext, h, hl, if_neg hne]
  rfl

end StopNext

theorem thread_told {loaded : Entries String ℕ} {callbacks : List Callback} (k : ℕ) :
    ({ s.tellToStop j with loaded, callbacks } : Service).thread k =
      if k = j then (s.thread k).map fun t => (t.1, true, t.2.2) else s.thread k :=
  thread_tellToStop s j k

/-- A callback that does not raise comes to a strategy on another thread. -/
theorem lookup_of_comes {t : ℕ} {rest : List String} (h : s.callbackOn i = some ⟨t, name :: rest⟩)
    (hok : comesToNone s (.stopNext i) = false) : ∃ j, s.loaded.lookup name = some j ∧ j ≠ i := by
  have hother : (s.loaded.lookup name).all (· = i) = false := by
    simpa only [comesToNone, h] using hok
  cases hj : s.loaded.lookup name with
  | none =>
      rw [hj] at hother
      cases hother
  | some j =>
      rw [hj] at hother
      exact ⟨j, rfl, by simpa using hother⟩

/-! ### What a step does -/

/-- Where an effect of the event comes from. -/
inductive Caused (s : Service) (e : ServiceEvent) : ServiceEffect → Prop
  | worker {i : ℕ} {f : OrderEffect} (input : Input) (inst : Instance) (he : e = .worker i input)
      (hact : s.acting i = some inst) (hf : f ∈ (inst.worker.step (heed inst input)).2) :
      Caused s e (.order i f)
  | callback {f : ServiceEffect} (k : ℕ) (cb : Callback) (he : e = .stopNext k)
      (hcb : s.callbackOn k = some cb) (hf : f ∈ (s.stopNext k).2)
      (horder : ∀ i o, f ≠ .order i o) (hloaded : ∀ name, f ≠ .loaded name) : Caused s e f
  | load {name : String} (h : loads s e = some name) : Caused s e (.loaded name)

/-- A callback places no order and loads nothing. -/
theorem ne_of_stopNext {k : ℕ} {f : ServiceEffect} (h : f ∈ (s.stopNext k).2) :
    (∀ i o, f ≠ .order i o) ∧ ∀ name, f ≠ .loaded name := by
  simp only [stopNext] at h
  split at h
  · cases h
  · rw [List.mem_singleton.mp h]
    exact ⟨fun _ _ => nofun, fun _ => nofun⟩
  · split at h
    · rw [List.mem_singleton.mp h]
      exact ⟨fun _ _ => nofun, fun _ => nofun⟩
    · split at h
      · rcases List.mem_pair.mp h with rfl | rfl
        · exact ⟨fun _ _ => nofun, fun _ => nofun⟩
        · exact ⟨fun _ _ => nofun, fun _ => nofun⟩
      · rw [List.mem_singleton.mp h]
        exact ⟨fun _ _ => nofun, fun _ => nofun⟩

theorem caused_of_step {f : ServiceEffect} (h : f ∈ (s.step e).2) : Caused s e f := by
  cases e with
  | worker k input =>
      simp only [step, stepWorker] at h
      split at h
      · cases h
      · next inst hact =>
          obtain ⟨o, ho, rfl⟩ := List.mem_map.mp h
          exact .worker input inst rfl hact ho
  | stopNext k =>
      cases hcb : s.callbackOn k with
      | none =>
          rw [step, stopNext_none hcb] at h
          cases h
      | some cb => exact .callback k cb rfl hcb h (ne_of_stopNext h).1 (ne_of_stopNext h).2
  | exit k =>
      simp only [step] at h
      split at h <;> cases h
  | unload n => cases h
  | load n w =>
      simp only [step] at h
      split at h
      · cases h
      · next hin =>
          cases List.mem_singleton.mp h
          exact .load (if_neg hin)
  | crash n =>
      simp only [step] at h
      split at h <;> cases h
  | restart n w =>
      simp only [step] at h
      split at h
      · next hin =>
          cases w with
          | none => cases h
          | some w =>
              cases List.mem_singleton.mp h
              exact .load (if_pos hin)
      · cases h

theorem order_of_step {f : OrderEffect} (h : .order i f ∈ (s.step e).2) :
    ∃ input inst, e = .worker i input ∧ s.acting i = some inst ∧
      f ∈ (inst.worker.step (heed inst input)).2 := by
  cases caused_of_step h with
  | worker input inst he hact hf => exact ⟨input, inst, he, hact, hf⟩
  | callback k cb he hcb hf horder hloaded => exact absurd rfl (horder i f)

theorem callbackOn_of_step {f : ServiceEffect} (h : f ∈ (s.step e).2)
    (hf : ∀ k o, f ≠ .order k o) (hl : ∀ name, f ≠ .loaded name) :
    ∃ k cb, e = .stopNext k ∧ s.callbackOn k = some cb ∧ f ∈ (s.stopNext k).2 := by
  cases caused_of_step h with
  | worker input inst he hact ho => exact absurd rfl (hf _ _)
  | callback k cb he hcb hmem horder hloaded => exact ⟨k, cb, he, hcb, hmem⟩
  | load hloads => exact absurd rfl (hl _)

theorem loads_of_step (h : .loaded name ∈ (s.step e).2) : loads s e = some name := by
  cases caused_of_step h with
  | callback k cb he hcb hf horder hloaded => exact absurd rfl (hloaded name)
  | load hloads => exact hloads

/-- A callback raises exactly when it comes to its own strategy or to one that is gone. -/
theorem raises_iff : (∃ k, .callbackRaised k ∈ (s.step e).2) ↔ comesToNone s e = true := by
  constructor
  · rintro ⟨k, h⟩
    obtain ⟨i, cb, rfl, hcb, h⟩ := callbackOn_of_step h (by simp) (by simp)
    obtain ⟨t, todo⟩ := cb
    cases todo with
    | nil =>
        rw [stopNext_nil hcb] at h
        cases List.mem_singleton.mp h
    | cons name rest =>
        simp only [comesToNone, hcb]
        cases hj : s.loaded.lookup name with
        | none => rfl
        | some j =>
            by_cases hne : j = i
            · rw [hne]
              exact decide_eq_true rfl
            · rw [stopNext_other hcb hj hne] at h
              cases List.mem_singleton.mp h
  · intro h
    unfold comesToNone at h
    split at h
    · next i =>
        split at h
        · next t name rest hcb =>
            refine ⟨i, ?_⟩
            rw [step]
            cases hj : s.loaded.lookup name with
            | none =>
                rw [stopNext_gone hcb hj]
                exact List.mem_singleton_self _
            | some j =>
                have hji : j = i := by
                  rw [hj] at h
                  simpa using h
                subst hji
                rw [stopNext_self hcb hj]
                simp
        · cases h
    · cases h

theorem step_loads (h : loads s e = some name) : .loaded name ∈ (s.step e).2 := by
  unfold loads at h
  split at h
  · next n w =>
      split at h
      · cases h
      · next hin =>
          cases h
          rw [step, if_neg hin]
          exact List.mem_singleton_self _
  · next n w =>
      split at h
      · next hin =>
          cases h
          rw [step, if_pos hin]
          exact List.mem_singleton_self _
      · cases h
  · cases h

/-! ### The turns of a callback -/

section Turns

variable {k : ℕ} {cb : Callback}

theorem find?_dropCallback (hk : k ≠ i) :
    (s.dropCallback i).callbacks.find? (·.thread = k) = s.callbackOn k := by
  unfold dropCallback callbackOn
  rw [List.find?_filter]
  congr 1
  funext cb
  by_cases hcb : cb.thread = k
  · simp [hcb, hk]
  · simp [hcb]

theorem find?_cons_other (hk : i ≠ k) (todo : List String) (callbacks : List Callback) :
    (⟨i, todo⟩ :: callbacks : List Callback).find? (·.thread = k) =
      callbacks.find? (·.thread = k) := by
  rw [List.find?_cons_of_neg]
  simpa using hk

theorem callbackOn_worker (hcb : s.callbackOn k = some cb) (i : ℕ) (input : Input) :
    (s.stepWorker i input).1.callbackOn k = some cb := by
  unfold stepWorker
  cases hact : s.acting i with
  | none => exact hcb
  | some inst =>
      have hk : i ≠ k := by
        rintro rfl
        rw [acting, hcb] at hact
        cases hact
      obtain ⟨-, -, -, hc⟩ := recorded_recordPnls i
        (inst.worker.step (heed inst input)).2
        (s.setInstance i { inst with worker := (inst.worker.step (heed inst input)).1 })
      rw [← hcb]
      rcases hc with ⟨hc, -⟩ | ⟨hc, -⟩
      · exact congrArg (·.find? (·.thread = k)) hc
      · exact (congrArg (·.find? (·.thread = k)) hc).trans (find?_cons_other hk _ _)

theorem callbackOn_stopNext (hcb : s.callbackOn k = some cb) (hk : i ≠ k) :
    (s.stopNext i).1.callbackOn k = some cb := by
  have hdrop : (s.dropCallback i).callbacks.find? (·.thread = k) = some cb :=
    (find?_dropCallback hk.symm).trans hcb
  unfold stopNext
  split
  · exact hcb
  · exact hdrop
  · split
    · exact hdrop
    · split
      · exact hdrop
      · exact (find?_cons_other hk _ _).trans hdrop

/-- A callback loses one strategy at each of its turns, and completes when none is left. -/
theorem callbackOn_step (hcb : s.callbackOn k = some cb) (hok : comesToNone s e = false) :
    .callbackCompleted k ∈ (s.step e).2 ∨
      ∃ cb', (s.step e).1.callbackOn k = some cb' ∧
        cb'.todo.length + (if isTurn k e then 1 else 0) = cb.todo.length := by
  cases e with
  | worker i input => exact .inr ⟨cb, callbackOn_worker hcb i input, rfl⟩
  | stopNext i =>
      by_cases hk : i = k
      · subst hk
        obtain ⟨t, todo⟩ := cb
        cases todo with
        | nil =>
            rw [step, stopNext_nil hcb]
            exact .inl (List.mem_singleton_self _)
        | cons name rest =>
            obtain ⟨j, hj, hne⟩ := lookup_of_comes hcb hok
            rw [step, stopNext_other hcb hj hne]
            refine .inr ⟨⟨i, rest⟩, ?_, by simp [isTurn]⟩
            exact List.find?_cons_of_pos (by simp)
      · exact .inr ⟨cb, callbackOn_stopNext hcb hk, by simp [isTurn, hk]⟩
  | exit i =>
      refine .inr ⟨cb, ?_, rfl⟩
      simp only [step]
      split <;> exact hcb
  | unload name =>
      refine .inr ⟨cb, ?_, rfl⟩
      simp only [step, unload]
      split <;> exact hcb
  | load name w =>
      refine .inr ⟨cb, ?_, rfl⟩
      simp only [step]
      split <;> exact hcb
  | crash name =>
      refine .inr ⟨cb, ?_, rfl⟩
      simp only [step]
      split <;> exact hcb
  | restart name w =>
      refine .inr ⟨cb, ?_, rfl⟩
      simp only [step]
      split
      · cases w <;> exact hcb
      · exact hcb

end Turns

end MagnumOpus.Bot.Service
