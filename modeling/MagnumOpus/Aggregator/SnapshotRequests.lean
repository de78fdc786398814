import MagnumOpus.Aggregator.PanicProtocol

/-! # Snapshot requests of a worker

`Run` with its requests: what a worker waits for, and what it has taken.

* **Waiting.** While the context is live, a worker that waits for a snapshot has an answer on its
  way (`provided_run`).
* **Answers.** Every request has a number of its own; its result is taken once at most
  (`numbered_run`). -/

namespace MagnumOpus.Aggregator.PanicProtocol

open EventMachine Reconnect Run

/-! ### What a worker waits for -/

/-- An answer is on its way. -/
def Run.Pending (s : Run) : Prop := s.resultCh.isSome = true ∨ s.fetching ≠ []

/-- A program that leaves the worker buffering leaves it with an answer on its way; `pending` tells
whether there is one now. -/
def Provides : Prop → List Line → Worker → Prop
  | pending, [], w => w.recon.state = .buffering → pending
  | _, .drain :: rest, w => Provides False rest w
  | pending, .work stmt :: rest, w =>
      Provides (pending ∨ (stmt w).2.any isRequest = true) rest (stmt w).1

/-- The worker does not wait in vain, and will not. -/
def Provided (s : Run) : Prop :=
  match s.code with
  | .selecting => s.worker.recon.state = .buffering → s.Pending
  | .running _ rest => Provides s.Pending rest s.worker
  | .returned => True

theorem Provides.mono {p q : Prop} (hpq : p → q) : ∀ {rest : List Line} {w : Worker},
    Provides p rest w → Provides q rest w
  | [], _, h => fun hbuffering => hpq (h hbuffering)
  | .drain :: _, _, h => h
  | .work _ :: rest, _, h => @Provides.mono _ _ (Or.imp_left hpq) rest _ h

/-- A program without a drain. -/
theorem provides_map {p : Prop} : ∀ {body : Worker.Body} {w : Worker},
    ((exec body w).1.recon.state = .buffering → p ∨ (exec body w).2.any isRequest = true) →
      Provides p (body.map .work) w
  | [], _, h => fun hbuffering => (h hbuffering).resolve_right (by simp)
  | stmt :: body, w, h => by
      refine @provides_map _ body _ fun hbuffering => ?_
      rw [exec_cons, List.any_append, Bool.or_eq_true] at h
      rw [or_assoc]
      exact h hbuffering

theorem provides_entry {p : Prop} {w : Worker} (h : w.recon.state = .buffering → p) :
    Provides p ((entry w).map .work) w := by
  refine provides_map ?_
  unfold entry
  split
  · exact fun _ => .inr rfl
  · exact fun hbuffering => .inl (h hbuffering)

theorem provides_recovery (p : Prop) (now : Int64) (v w : Worker) :
    Provides p (recovery now v) w :=
  fun _ => .inr rfl

/-- A handler leaves the worker buffering only if it found it so, or asks for a snapshot. -/
theorem provides_tick {p : Prop} {w : Worker} (h : w.recon.state = .buffering → p) (t : Tick)
    (now : Int64) : Provides p ((Worker.handleTick t now w).map .work) w := by
  refine provides_map fun hbuffering => .inl (h ?_)
  by_cases ht : t.type = .trade
  · rw [Worker.exec_handleTick_trade ht] at hbuffering
    exact hbuffering
  · by_cases hs : w.recon.state = .buffering
    · exact hs
    · rw [Worker.exec_handleTick hs ht] at hbuffering
      have htrack : (Worker.track t w).recon = w.recon := by
        unfold Worker.track
        split <;> rfl
      rw [← htrack]
      split at hbuffering <;> exact hbuffering

theorem provides_snapshot {p : Prop} {w : Worker} (r : SnapshotResult) (now : Int64) :
    Provides p ((Worker.handleSnapshot r now w).map .work) w := by
  refine provides_map fun hbuffering => .inr ?_
  by_cases hs : w.recon.state = .buffering
  · cases hstale : w.recon.stale r.seq with
    | true =>
        rw [Worker.exec_handleSnapshot_stale hs hstale]
        simp [isRequest]
    | false =>
        rw [Worker.exec_handleSnapshot_merged hs hstale] at hbuffering
        cases hbuffering
  · rw [Worker.exec_handleSnapshot_unexpected hs] at hbuffering
    exact absurd hbuffering hs

theorem Provided.of_pending {s s' : Run} (hcode : s'.code = s.code) (hworker : s'.worker = s.worker)
    (hpending : s.Pending → s'.Pending) (h : Provided s) : Provided s' := by
  unfold Provided at h ⊢
  rw [hcode, hworker]
  split
  · next hs =>
      rw [hs] at h
      exact fun hbuffering => hpending (h hbuffering)
  · next hs =>
      rw [hs] at h
      exact h.mono hpending
  · trivial

theorem live_of_step {s : Run} {e : RunInput} (h : (step s e).1.live = true) : s.live = true := by
  have hstep := step_stepped s e
  revert h hstep
  generalize (step s e).1 = s'
  generalize (step s e).2 = seen
  intro h hstep
  cases hstep with
  | idle _ hworker hcode hlive hch =>
      refine Bool.eq_true_of_not_eq_false fun hdead => ?_
      rw [hlive hdead] at h
      cases h
  | returned task rest _ hcode htask hrest hcode' hlive hch => exact hlive ▸ h
  | _ => exact h

theorem provided_goOn {s : Run} (h : Provided s) (hlive : s.live = true) (refused : Bool) :
    Provided (s.goOn refused).1 := by
  unfold goOn
  split
  · next task line rest hcode =>
      split
      · exact h
      · next hrefused =>
          obtain rfl : refused = false :=
            Bool.eq_false_of_not_eq_true fun hr => hrefused ⟨hr, hlive⟩
          unfold Provided at h
          rw [hcode] at h
          cases line with
          | drain => exact Provides.mono False.elim h
          | work stmt =>
              unfold execute
              dsimp only
              split
              · exact Provides.mono (fun _ => .inr (List.cons_ne_nil _ _)) h
              · next hquiet => exact Provides.mono (fun hp => hp.resolve_right hquiet) h
  · next task hcode =>
      unfold Provided at h
      rw [hcode] at h
      cases task with
      | entering => exact h
      | handling input =>
          cases input with
          | done => trivial
          | tick t => exact h
          | snapshot r k => exact h
      | recovering =>
          unfold finish
          rw [if_pos hlive]
          exact provides_entry h
  · exact h

/-- No step leaves the worker waiting in vain. -/
theorem provided_step {s : Run} {e : RunInput} (h : Provided s)
    (hlive : (step s e).1.live = true) : Provided (step s e).1 := by
  have hbefore := live_of_step hlive
  cases e with
  | cancel => cases hlive
  | arrive r k =>
      unfold step
      dsimp only
      split
      · exact Provided.of_pending (s := s) rfl rfl (fun _ => .inl rfl) h
      · exact h
  | tick t now =>
      unfold step
      dsimp only
      split
      · next hs =>
          unfold Provided at h
          rw [selecting_iff.mp hs] at h
          exact provides_tick h t now
      · exact h
  | result now =>
      unfold step
      dsimp only
      split
      · next r k hch =>
          split
          · exact provides_snapshot r now
          · exact h
      · exact h
  | done now =>
      unfold step
      dsimp only
      split
      · next hs => exact absurd (hbefore.symm.trans hs.2) (by decide)
      · exact h
  | goOn refused => exact provided_goOn h hbefore refused
  | panics book recon now =>
      unfold step
      dsimp only
      split
      · exact provides_recovery s.Pending now _ _
      · exact h

theorem provided_start {w : Worker} (hw : w.recon.state = .initial) : Provided (start w) :=
  provides_entry fun hbuffering => by
    rw [hw] at hbuffering
    cases hbuffering

theorem provided_run {w : Worker} (hw : w.recon.state = .initial) (es : List RunInput) :
    (final step (start w) es).live = true → Provided (final step (start w) es) :=
  final_invariant (I := fun s => s.live = true → Provided s)
    (fun _ _ h hlive => provided_step (h (live_of_step hlive)) hlive) es
    fun _ => provided_start hw

/-! ### Answers -/

/-- The numbers of the requests whose results the worker has taken. -/
def answers (seen : List RunOutput) : List ℕ :=
  seen.filterMap fun o =>
    match o with
    | .took (.snapshot _ k) => some k
    | _ => none

/-- Every request has a number of its own, which is in one place. -/
structure Numbered (s : Run) (taken : List ℕ) : Prop where
  fetching : s.fetching.Nodup
  asked : ∀ k ∈ s.fetching, k < s.requests ∧ k ∉ taken
  arrived : ∀ r k, s.resultCh = some (r, k) → k < s.requests ∧ k ∉ s.fetching ∧ k ∉ taken
  once : taken.Nodup
  answered : ∀ k ∈ taken, k < s.requests

theorem answers_did (effects : List Effect) : answers (effects.map .did) = [] := by
  rw [answers, List.filterMap_map]
  exact List.filterMap_eq_nil_iff.mpr fun _ _ => rfl

theorem Numbered.same {s s' : Run} {taken : List ℕ} (h : Numbered s taken)
    (hfetching : s'.fetching = s.fetching) (hrequests : s'.requests = s.requests)
    (hch : ∀ x, s'.resultCh = some x → s.resultCh = some x) : Numbered s' taken := by
  refine ⟨?_, ?_, ?_, h.once, ?_⟩
  · rw [hfetching]
    exact h.fetching
  · rw [hfetching, hrequests]
    exact h.asked
  · rw [hfetching, hrequests]
    exact fun r k hr => h.arrived r k (hch _ hr)
  · rw [hrequests]
    exact h.answered

/-- A request gets the next number. -/
theorem Numbered.request {s s' : Run} {taken : List ℕ} (h : Numbered s taken)
    (hfetching : s'.fetching = s.requests :: s.fetching) (hrequests : s'.requests = s.requests + 1)
    (hch : s'.resultCh = s.resultCh) : Numbered s' taken := by
  refine ⟨?_, ?_, ?_, h.once, fun k hk => hrequests ▸ (h.answered k hk).trans (Nat.lt_succ_self _)⟩
  · rw [hfetching]
    exact List.nodup_cons.mpr ⟨fun hk => (h.asked _ hk).1.false, h.fetching⟩
  · rw [hfetching, hrequests]
    refine List.forall_mem_cons.mpr ⟨⟨Nat.lt_succ_self _, fun hk => (h.answered _ hk).false⟩, ?_⟩
    exact fun k hk => (h.asked k hk).imp_left fun hlt => hlt.trans (Nat.lt_succ_self _)
  · intro r k hr
    obtain ⟨hlt, hout, htaken⟩ := h.arrived r k (hch ▸ hr)
    rw [hfetching, hrequests]
    refine ⟨hlt.trans (Nat.lt_succ_self _), fun hk => ?_, htaken⟩
    exact (List.mem_cons.mp hk).elim (fun hk => hlt.ne hk) hout

theorem numbered_goOn {s : Run} {taken : List ℕ} (h : Numbered s taken) (refused : Bool) :
    Numbered (s.goOn refused).1 taken ∧ answers (s.goOn refused).2 = [] := by
  unfold goOn
  split
  · next task line rest hcode =>
      split
      · exact ⟨h, rfl⟩
      · cases line with
        | drain => exact ⟨h.same rfl rfl fun _ hx => (by cases hx), rfl⟩
        | work stmt =>
            unfold execute
            dsimp only
            split
            · split
              · split
                · exact ⟨h.same rfl rfl fun _ => id, rfl⟩
                · exact ⟨h.same rfl rfl fun _ => id, answers_did _⟩
              · exact ⟨h.request rfl rfl rfl, answers_did _⟩
            · exact ⟨h.same rfl rfl fun _ => id, answers_did _⟩
  · next task hcode =>
      unfold finish
      split
      · exact ⟨h.same rfl rfl fun _ => id, rfl⟩
      · exact ⟨h.same rfl rfl fun _ => id, rfl⟩
      · exact ⟨h.same rfl rfl fun _ => id, rfl⟩
      · split
        · exact ⟨h.same rfl rfl fun _ => id, rfl⟩
        · exact ⟨h.same rfl rfl fun _ => id, rfl⟩
  · exact ⟨h, rfl⟩

theorem numbered_step {s : Run} {taken : List ℕ} (e : RunInput) (h : Numbered s taken) :
    Numbered (step s e).1 (taken ++ answers (step s e).2) := by
  cases e with
  | cancel => exact (List.append_nil taken).symm ▸ h.same rfl rfl fun _ => id
  | arrive r k =>
      unfold step
      dsimp only
      rw [show answers [] = [] from rfl, List.append_nil]
      split
      · next hk =>
          refine ⟨h.fetching.erase k, fun k' hk' => h.asked k' (List.mem_of_mem_erase hk'), ?_,
            h.once, h.answered⟩
          intro r' k' hr
          cases hr
          exact ⟨(h.asked k hk.1).1, h.fetching.not_mem_erase, (h.asked k hk.1).2⟩
      · exact h
  | tick t now =>
      unfold step
      dsimp only
      split
      · exact (List.append_nil taken).symm ▸ h.same rfl rfl fun _ => id
      · exact (List.append_nil taken).symm ▸ h
  | result now =>
      unfold step
      dsimp only
      split
      · next r k hch =>
          split
          · obtain ⟨hlt, hout, htaken⟩ := h.arrived r k hch
            refine ⟨h.fetching, fun k' hk' => ?_, fun _ _ hr => (by cases hr), ?_, ?_⟩
            · obtain ⟨hlt', htaken'⟩ := h.asked k' hk'
              refine ⟨hlt', fun hmem => ?_⟩
              rcases List.mem_append.mp hmem with hmem | hmem
              · exact htaken' hmem
              · exact hout (List.mem_singleton.mp hmem ▸ hk')
            · refine List.nodup_append'.mpr ⟨h.once, List.nodup_singleton k, ?_⟩
              exact List.disjoint_singleton.mpr htaken
            · intro k' hk'
              rcases List.mem_append.mp hk' with hk' | hk'
              · exact h.answered k' hk'
              · exact List.mem_singleton.mp hk' ▸ hlt
          · exact (List.append_nil taken).symm ▸ h
      · exact (List.append_nil taken).symm ▸ h
  | done now =>
      unfold step
      dsimp only
      split
      · exact (List.append_nil taken).symm ▸ h.same rfl rfl fun _ => id
      · exact (List.append_nil taken).symm ▸ h
  | goOn refused =>
      obtain ⟨hnext, hnone⟩ := numbered_goOn h refused
      show Numbered (s.goOn refused).1 (taken ++ answers (s.goOn refused).2)
      rw [hnone, List.append_nil]
      exact hnext
  | panics book recon now =>
      unfold step
      dsimp only
      split
      · exact (List.append_nil taken).symm ▸ h.same rfl rfl fun _ => id
      · exact (List.append_nil taken).symm ▸ h

theorem numbered_run (w : Worker) (es : List RunInput) :
    Numbered (final step (start w) es) (answers (trace step (start w) es)) := by
  refine history_invariant
    (I := fun es s => Numbered s (answers (trace step (start w) es))) ?_ (fun es e ih => ?_) es
  · exact ⟨List.nodup_nil, fun _ hk => absurd hk List.not_mem_nil, fun _ _ hr => (by cases hr),
      List.nodup_nil, fun _ hk => absurd hk List.not_mem_nil⟩
  · have hsplit : answers (trace step (start w) (es ++ [e])) =
        answers (trace step (start w) es) ++ answers (step (final step (start w) es) e).2 := by
      rw [trace_append, trace_cons, trace_nil, List.append_nil, answers, List.filterMap_append]
      rfl
    rw [hsplit]
    exact numbered_step e ih

end MagnumOpus.Aggregator.PanicProtocol
