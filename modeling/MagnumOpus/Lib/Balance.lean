import Mathlib.Algebra.Order.Group.Defs
import Mathlib.Algebra.BigOperators.Group.List.Basic
import MagnumOpus.Lib.EventMachine

/-! # Balances along a run

A state has a value, and every observation brings an income.  A step that loses nothing raises the
value by the income of what it shows; one that loses something raises it by less.  When no step
raises it by more, what a run has lost is never made good, so the value is the whole income exactly
when no step of the run has lost anything (`balance`). -/

namespace MagnumOpus.EventMachine

variable {σ ε ω M : Type*} [AddCommGroup M] [PartialOrder M] [IsOrderedAddMonoid M]
  {step : Step σ ε ω} {ok : σ → ε → Prop} {I : σ → Prop} (value : σ → M) (income : ω → M)

/-- The value of a state never falls behind for nothing: a run keeps the balance exactly when every
step of it does. -/
theorem balance (hinv : ∀ s e, I s → I (step s e).1)
    (hle : ∀ s e, I s → value (step s e).1 ≤ value s + ((step s e).2.map income).sum)
    (heq : ∀ s e, I s →
      (value (step s e).1 = value s + ((step s e).2.map income).sum ↔ ok s e)) :
    ∀ (es : List ε) {s : σ}, I s →
      value (final step s es) ≤ value s + ((trace step s es).map income).sum ∧
      (value (final step s es) = value s + ((trace step s es).map income).sum ↔
        Along step ok s es)
  | [], s, _ => by simp
  | e :: es, s, hs => by
      obtain ⟨hle', heq'⟩ := balance hinv hle heq es (hinv s e hs)
      have hstep := hle s e hs
      rw [final_cons, trace_cons, List.map_append, List.sum_append, ← add_assoc, along_cons,
        ← heq s e hs, ← heq']
      refine ⟨hle'.trans (add_le_add_left hstep _), ?_⟩
      constructor
      · intro h
        -- Neither the step nor the rest can make up for the other.
        have hfirst : value (step s e).1 = value s + ((step s e).2.map income).sum := by
          refine le_antisymm hstep ?_
          rw [h] at hle'
          exact le_of_add_le_add_right hle'
        exact ⟨hfirst, by rw [hfirst]; exact h⟩
      · rintro ⟨hfirst, hrest⟩
        rw [hrest, hfirst]

end MagnumOpus.EventMachine
