import Mathlib.Data.List.Basic
import Mathlib.Data.List.Induction
import Mathlib.Logic.Basic

/-! # Event machines

A machine consumes events one after another; every event takes the state to the next one and
emits a list of observations, in the order in which they are made.

* **Runs.** `final step s es` is the state after the events `es`, `trace step s es` the
  observations of the whole run.  Both are structural recursions on `es`, so a run on a concrete
  list evaluates.
* **Conditions along a run.** `Along step ok s es` says that every event of the run meets
  `ok s' e`, where `s'` is the state the event finds.
* **Invariants.** `final_invariant` and `final_invariant_along` are the induction rules: what one
  step preserves (under `ok`, in the second) holds at the end of every run.  `along_of_invariant`
  is the rule for what holds at every step of a run, `trace_invariant_along` that for what is
  observed, and `final_iff_along` that for what a run can lose.  `foldl_trace_invariant` keeps the
  state beside a summary of what was observed.
* **Ends.** `length_add_rank_le` bounds the length of a run whose steps lower a rank.
* **Straight-line programs.** A handler body is a list of statements (`Stmt`), each of which
  changes the state and emits observations; `exec` runs it.  A body that is interrupted after `k`
  statements is `exec (body.take k)`, and what it has emitted by then is a prefix of what the
  whole body emits (`exec_take_isPrefix`). -/

namespace MagnumOpus.EventMachine

variable {σ ε ω : Type*}

/-- What one event does: the next state and the observations emitted, in order. -/
abbrev Step (σ ε ω : Type*) := σ → ε → σ × List ω

/-- The state after the events `es`. -/
def final (step : Step σ ε ω) : σ → List ε → σ
  | s, [] => s
  | s, e :: es => final step (step s e).1 es

/-- The observations of the run over `es`. -/
def trace (step : Step σ ε ω) : σ → List ε → List ω
  | _, [] => []
  | s, e :: es => (step s e).2 ++ trace step (step s e).1 es

/-- Every event of the run meets `ok` in the state it finds. -/
def Along (step : Step σ ε ω) (ok : σ → ε → Prop) : σ → List ε → Prop
  | _, [] => True
  | s, e :: es => ok s e ∧ Along step ok (step s e).1 es

variable {step : Step σ ε ω} {ok : σ → ε → Prop}

instance decidableAlong [∀ s e, Decidable (ok s e)] :
    ∀ (es : List ε) (s : σ), Decidable (Along step ok s es)
  | [], _ => isTrue trivial
  | e :: es, s => @instDecidableAnd _ _ _ (decidableAlong es (step s e).1)

@[simp] theorem final_nil (s : σ) : final step s [] = s := rfl

@[simp] theorem final_cons (s : σ) (e : ε) (es : List ε) :
    final step s (e :: es) = final step (step s e).1 es := rfl

@[simp] theorem trace_nil (s : σ) : trace step s [] = [] := rfl

@[simp] theorem trace_cons (s : σ) (e : ε) (es : List ε) :
    trace step s (e :: es) = (step s e).2 ++ trace step (step s e).1 es := rfl

@[simp] theorem along_nil (s : σ) : Along step ok s [] := trivial

@[simp] theorem along_cons {s : σ} {e : ε} {es : List ε} :
    Along step ok s (e :: es) ↔ ok s e ∧ Along step ok (step s e).1 es := Iff.rfl

theorem final_append (s : σ) (es fs : List ε) :
    final step s (es ++ fs) = final step (final step s es) fs := by
  induction es generalizing s with
  | nil => rfl
  | cons e es ih => exact ih _

theorem trace_append (s : σ) (es fs : List ε) :
    trace step s (es ++ fs) = trace step s es ++ trace step (final step s es) fs := by
  induction es generalizing s with
  | nil => rfl
  | cons e es ih => simp only [List.cons_append, trace_cons, final_cons, ih, List.append_assoc]

theorem along_append {s : σ} {es fs : List ε} :
    Along step ok s (es ++ fs) ↔ Along step ok s es ∧ Along step ok (final step s es) fs := by
  induction es generalizing s with
  | nil => simp
  | cons e es ih => simp only [List.cons_append, along_cons, final_cons, ih, and_assoc]

/-- What every step preserves holds at the end of every run. -/
theorem final_invariant {I : σ → Prop} (hstep : ∀ s e, I s → I (step s e).1) :
    ∀ (es : List ε) {s : σ}, I s → I (final step s es)
  | [], _, hs => hs
  | e :: es, s, hs => final_invariant hstep es (hstep s e hs)

/-- What every step that meets `ok` preserves holds at the end of every run along `ok`. -/
theorem final_invariant_along {I : σ → Prop} (hstep : ∀ s e, I s → ok s e → I (step s e).1) :
    ∀ (es : List ε) {s : σ}, I s → Along step ok s es → I (final step s es)
  | [], _, hs, _ => hs
  | e :: es, s, hs, h => final_invariant_along hstep es (hstep s e hs h.1) h.2

/-- What every step preserves of the state and of a summary of what was observed so far holds at
the end of every run. -/
theorem foldl_trace_invariant {α : Type*} {f : α → ω → α} {I : α → σ → Prop}
    (hstep : ∀ a s e, I a s → I ((step s e).2.foldl f a) (step s e).1) :
    ∀ (es : List ε) {a : α} {s : σ}, I a s → I ((trace step s es).foldl f a) (final step s es)
  | [], _, _, hs => hs
  | e :: es, a, s, hs => by
      rw [trace_cons, List.foldl_append, final_cons]
      exact foldl_trace_invariant hstep es (hstep a s e hs)

/-- A run whose every step lowers a rank is no longer than the rank it starts from. -/
theorem length_add_rank_le {I : σ → Prop} {rank : σ → ℕ}
    (hstep : ∀ s e, I s → ok s e → I (step s e).1 ∧ rank (step s e).1 < rank s) :
    ∀ (es : List ε) {s : σ}, I s → Along step ok s es → es.length + rank (final step s es) ≤ rank s
  | [], s, _, _ => Nat.le_of_eq (Nat.zero_add (rank s))
  | e :: es, s, hs, h => by
      obtain ⟨hnext, hlt⟩ := hstep s e hs h.1
      have hrest := length_add_rank_le hstep es hnext h.2
      rw [final_cons, List.length_cons]
      omega

/-- When an invariant and `ok` give what holds at a step, it holds along every run along `ok`. -/
theorem along_of_invariant {I : σ → Prop} {ok' : σ → ε → Prop}
    (hstep : ∀ s e, I s → ok s e → ok' s e ∧ I (step s e).1) :
    ∀ (es : List ε) {s : σ}, I s → Along step ok s es → Along step ok' s es
  | [], _, _, _ => trivial
  | e :: es, s, hs, h =>
      have hse := hstep s e hs h.1
      ⟨hse.1, along_of_invariant hstep es hse.2 h.2⟩

/-- What an invariant and `ok` give of the observations of a step holds of a whole trace. -/
theorem trace_invariant_along {I : σ → Prop} {P : ω → Prop}
    (hstep : ∀ s e, I s → ok s e → I (step s e).1 ∧ ∀ o ∈ (step s e).2, P o) :
    ∀ (es : List ε) {s : σ}, I s → Along step ok s es → ∀ o ∈ trace step s es, P o
  | [], _, _, _, _, ho => absurd ho List.not_mem_nil
  | e :: es, s, hs, h, o, ho =>
      have hse := hstep s e hs h.1
      (List.mem_append.mp ho).elim (hse.2 o) (trace_invariant_along hstep es hse.1 h.2 o)

/-- What a step keeps of the state and of the events so far holds at the end of every run. -/
theorem history_invariant {I : List ε → σ → Prop} {s : σ} (hs : I [] s)
    (hstep : ∀ es e, I es (final step s es) → I (es ++ [e]) (step (final step s es) e).1)
    (es : List ε) : I es (final step s es) := by
  induction es using List.reverseRecOn with
  | nil => exact hs
  | append_singleton es e ih =>
      rw [final_append]
      exact hstep es e ih

/-- What a step keeps of the state and of the observations so far holds at the end of every run. -/
theorem seen_invariant {I : List ω → σ → Prop} {s : σ} (hs : I [] s)
    (hstep : ∀ seen s e, I seen s → I (seen ++ (step s e).2) (step s e).1) (es : List ε) :
    I (trace step s es) (final step s es) := by
  refine history_invariant (I := fun es s' => I (trace step s es) s') hs (fun es e ih => ?_) es
  have hsplit : trace step s (es ++ [e]) = trace step s es ++ (step (final step s es) e).2 := by
    rw [trace_append, trace_cons, trace_nil, List.append_nil]
  rw [hsplit]
  exact hstep _ _ e ih

/-- A relation between the states of two machines that every step keeps, for events that meet `p`.
-/
theorem final_rel {σ' ω' : Type*} {step' : Step σ' ε ω'} {R : σ → σ' → Prop} {p : ε → Prop}
    (hstep : ∀ s s' e, R s s' → p e → R (step s e).1 (step' s' e).1) :
    ∀ (es : List ε) {s : σ} {s' : σ'}, R s s' → (∀ e ∈ es, p e) →
      R (final step s es) (final step' s' es)
  | [], _, _, h, _ => h
  | e :: es, s, s', h, hes =>
      final_rel hstep es (hstep s s' e h (hes e List.mem_cons_self))
        fun e' he' => hes e' (List.mem_cons_of_mem e he')

/-- When an invariant makes `ok` the condition for the observations of a step to be good, all the
observations of a run are good exactly along `ok`. -/
theorem forall_trace_iff_along {I : σ → Prop} {P : ω → Prop}
    (hstep : ∀ s e, I s → I (step s e).1 ∧ ((∀ o ∈ (step s e).2, P o) ↔ ok s e)) :
    ∀ (es : List ε) {s : σ}, I s → ((∀ o ∈ trace step s es, P o) ↔ Along step ok s es)
  | [], _, _ => iff_of_true (fun _ h => absurd h List.not_mem_nil) trivial
  | e :: es, s, hs => by
      obtain ⟨hnext, hiff⟩ := hstep s e hs
      rw [trace_cons, List.forall_mem_append, hiff, forall_trace_iff_along hstep es hnext,
        along_cons]

/-- When what is lost is never regained, and a step keeps it exactly under `ok`, a run keeps it
exactly along `ok`. -/
theorem final_iff_along {I : σ → Prop} {p : ε → Prop} (hlost : ∀ s e, ¬ I s → ¬ I (step s e).1)
    (hstep : ∀ s e, I s → p e → (I (step s e).1 ↔ ok s e)) :
    ∀ (es : List ε) {s : σ}, I s → (∀ e ∈ es, p e) → (I (final step s es) ↔ Along step ok s es)
  | [], _, hs, _ => iff_of_true hs trivial
  | e :: es, s, hs, hes => by
      have hse := hstep s e hs (hes e List.mem_cons_self)
      rw [final_cons, along_cons, ← hse]
      by_cases hnext : I (step s e).1
      · rw [final_iff_along hlost hstep es hnext fun e' he' => hes e' (List.mem_cons_of_mem e he')]
        exact (and_iff_right hnext).symm
      · exact iff_of_false (final_invariant hlost es hnext) fun h => hnext h.1

/-- The same beside an invariant `J` of all runs. -/
theorem final_iff_along_of_invariant {I J : σ → Prop} (hJ : ∀ s e, J s → J (step s e).1)
    (hlost : ∀ s e, J s → ¬ I s → ¬ I (step s e).1)
    (hstep : ∀ s e, J s → I s → (I (step s e).1 ↔ ok s e)) :
    ∀ (es : List ε) {s : σ}, J s → I s → (I (final step s es) ↔ Along step ok s es)
  | [], _, _, hs => iff_of_true hs trivial
  | e :: es, s, hj, hs => by
      have hj' := hJ s e hj
      rw [final_cons, along_cons, ← hstep s e hj hs]
      by_cases hnext : I (step s e).1
      · rw [final_iff_along_of_invariant hJ hlost hstep es hj' hnext]
        exact (and_iff_right hnext).symm
      · refine iff_of_false (fun h => ?_) fun h => hnext h.1
        have hboth := final_invariant (I := fun s => J s ∧ ¬ I s)
          (fun s e hs => ⟨hJ s e hs.1, hlost s e hs.1 hs.2⟩) es ⟨hj', hnext⟩
        exact hboth.2 h

/-- When an invariant makes `ok` the condition for a step to be good, and `ok` keeps it, the steps
of a run are good exactly along `ok`. -/
theorem along_iff_along {I : σ → Prop} {good : σ → ε → Prop}
    (hstep : ∀ s e, I s → (good s e ↔ ok s e) ∧ (ok s e → I (step s e).1)) :
    ∀ (es : List ε) {s : σ}, I s → (Along step good s es ↔ Along step ok s es)
  | [], _, _ => Iff.rfl
  | e :: es, s, hs => by
      obtain ⟨hgood, hnext⟩ := hstep s e hs
      rw [along_cons, along_cons, hgood]
      exact and_congr_right fun hok => along_iff_along hstep es (hnext hok)

/-- What holds in every state that a run reaches. -/
theorem forall_prefix_iff {P : σ → Prop} : ∀ (es : List ε) {s : σ},
    (∀ fs, fs <+: es → P (final step s fs)) ↔ P s ∧ Along step (fun s e => P (step s e).1) s es
  | [], s => by
      constructor
      · exact fun h => ⟨h [] (List.prefix_refl _), trivial⟩
      · rintro ⟨h, -⟩ fs hfs
        rw [List.prefix_nil.mp hfs]
        exact h
  | e :: es, s => by
      rw [along_cons, ← forall_prefix_iff es]
      constructor
      · intro h
        exact ⟨h [] List.nil_prefix, fun fs hfs => h (e :: fs) ((List.prefix_cons_inj e).mpr hfs)⟩
      · rintro ⟨hs, h⟩ fs hfs
        rcases List.prefix_cons_iff.mp hfs with rfl | ⟨fs', rfl, hfs'⟩
        · exact hs
        · exact h fs' hfs'

theorem Along.and {ok' : σ → ε → Prop} : ∀ {es : List ε} {s : σ},
    Along step ok s es → Along step ok' s es → Along step (fun s e => ok s e ∧ ok' s e) s es
  | [], _, _, _ => trivial
  | _ :: _, _, h, h' => ⟨⟨h.1, h'.1⟩, Along.and h.2 h'.2⟩

/-- What holds of every event of the list, whatever the state. -/
theorem along_of_forall {p : ε → Prop} : ∀ {es : List ε} {s : σ},
    (∀ e ∈ es, p e) → Along step (fun _ e => p e) s es
  | [], _, _ => trivial
  | e :: _, _, h =>
      ⟨h e List.mem_cons_self, along_of_forall fun e' he' => h e' (List.mem_cons_of_mem e he')⟩

/-- What holds at every step. -/
theorem along_of_always (h : ∀ s e, ok s e) : ∀ (es : List ε) (s : σ), Along step ok s es
  | [], _ => trivial
  | e :: es, s => ⟨h s e, along_of_always h es (step s e).1⟩

/-- Machines that differ in their observations only come to the same states. -/
theorem final_congr {ω' : Type*} {step' : Step σ ε ω'} (h : ∀ s e, (step' s e).1 = (step s e).1) :
    ∀ (es : List ε) (s : σ), final step' s es = final step s es
  | [], _ => rfl
  | e :: es, s => by rw [final_cons, final_cons, h, final_congr h es]

/-- Two runs from states that every event keeps related show the same, as far as related states
do. -/
theorem trace_map_congr {κ : Type*} {R : σ → σ → Prop} {view : ω → κ}
    (hstep : ∀ s s' e, R s s' →
      R (step s e).1 (step s' e).1 ∧ (step s e).2.map view = (step s' e).2.map view) :
    ∀ (es : List ε) {s s' : σ}, R s s' → (trace step s es).map view = (trace step s' es).map view
  | [], _, _, _ => rfl
  | e :: es, s, s', h => by
      obtain ⟨hnext, hshown⟩ := hstep s s' e h
      rw [trace_cons, trace_cons, List.map_append, List.map_append, hshown,
        trace_map_congr hstep es hnext]

/-- The step that has made an observation. -/
theorem trace_eq_append_cons {o : ω} : ∀ {es : List ε} {s : σ} {xs ys : List ω},
    trace step s es = xs ++ o :: ys → ∃ es₁ e es₂ us vs, es = es₁ ++ e :: es₂ ∧
      (step (final step s es₁) e).2 = us ++ o :: vs ∧ xs = trace step s es₁ ++ us ∧
      ys = vs ++ trace step (step (final step s es₁) e).1 es₂
  | [], s, xs, ys, h => by
      rw [trace_nil] at h
      exact absurd h.symm (by simp)
  | e :: es, s, xs, ys, h => by
      have hlater : ∀ xs', xs = (step s e).2 ++ xs' →
          trace step (step s e).1 es = xs' ++ o :: ys → ∃ es₁ e' es₂ us vs,
            e :: es = es₁ ++ e' :: es₂ ∧ (step (final step s es₁) e').2 = us ++ o :: vs ∧
            xs = trace step s es₁ ++ us ∧
            ys = vs ++ trace step (step (final step s es₁) e').1 es₂ := by
        rintro xs' rfl htrace
        obtain ⟨es₁, e', es₂, us, vs, rfl, hstep, rfl, hys⟩ := trace_eq_append_cons htrace
        exact ⟨e :: es₁, e', es₂, us, vs, rfl, hstep, (List.append_assoc _ _ _).symm, hys⟩
      rw [trace_cons] at h
      rcases List.append_eq_append_iff.mp h with ⟨xs', hxs, htrace⟩ | ⟨vs, hstep, hys⟩
      · exact hlater xs' hxs htrace
      · cases vs with
        | nil => exact hlater [] (by simpa using hstep.symm) hys.symm
        | cons o' vs =>
            obtain ⟨rfl, rfl⟩ := List.cons_eq_cons.mp hys
            exact ⟨[], e, es, xs, vs, rfl, hstep, rfl, rfl⟩

theorem Along.imp {ok' : σ → ε → Prop} (h : ∀ s e, ok s e → ok' s e) :
    ∀ (es : List ε) {s : σ}, Along step ok s es → Along step ok' s es
  | [], _, _ => trivial
  | _ :: es, _, hr => ⟨h _ _ hr.1, Along.imp h es hr.2⟩

/-! ### Straight-line programs -/

/-- A statement: it changes the state and emits observations. -/
abbrev Stmt (σ ω : Type*) := σ → σ × List ω

/-- Runs the statements of a body in order. -/
def exec (body : List (Stmt σ ω)) (s : σ) : σ × List ω :=
  (final (fun s (f : Stmt σ ω) => f s) s body, trace (fun s (f : Stmt σ ω) => f s) s body)

@[simp] theorem exec_nil (s : σ) : exec ([] : List (Stmt σ ω)) s = (s, []) := rfl

@[simp] theorem exec_cons (f : Stmt σ ω) (body : List (Stmt σ ω)) (s : σ) :
    exec (f :: body) s = ((exec body (f s).1).1, (f s).2 ++ (exec body (f s).1).2) := rfl

theorem exec_append (body body' : List (Stmt σ ω)) (s : σ) :
    exec (body ++ body') s =
      ((exec body' (exec body s).1).1, (exec body s).2 ++ (exec body' (exec body s).1).2) := by
  simp only [exec, final_append, trace_append]

/-- What an interrupted body has emitted is a prefix of what the whole body emits. -/
theorem exec_take_isPrefix (body : List (Stmt σ ω)) (k : ℕ) (s : σ) :
    (exec (body.take k) s).2 <+: (exec body s).2 := by
  conv_rhs => rw [← List.take_append_drop k body, exec_append]
  exact List.prefix_append _ _

end MagnumOpus.EventMachine
