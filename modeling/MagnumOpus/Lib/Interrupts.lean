import Mathlib.Logic.Function.Iterate

/-! # Interrupted programs

A straight-line program is a list of statements, each of which changes the state.  A handler may
run any number of times in front of every statement and after the last one; `run` takes these
numbers.  The handlers meant here set the state anew from what they read, so running one again
changes nothing (`iterate_of_idempotent`). -/

namespace MagnumOpus.Interrupts

variable {σ : Type*}

/-- Runs the statements, with the handler as often as the numbers say. -/
def run (handler : σ → σ) : List ℕ → List (σ → σ) → σ → σ
  | [], [], s => s
  | n :: _, [], s => handler^[n] s
  | [], f :: fs, s => run handler [] fs (f s)
  | n :: ns, f :: fs, s => run handler ns fs (f (handler^[n] s))

variable {handler : σ → σ}

/-- Without interrupts. -/
@[simp] theorem run_nil (fs : List (σ → σ)) (s : σ) :
    run handler [] fs s = fs.foldl (fun s f => f s) s := by
  induction fs generalizing s with
  | nil => rfl
  | cons f fs ih => exact ih (f s)

@[simp] theorem run_cons_nil (n : ℕ) (ns : List ℕ) (s : σ) :
    run handler (n :: ns) [] s = handler^[n] s := rfl

@[simp] theorem run_cons_cons (n : ℕ) (ns : List ℕ) (f : σ → σ) (fs : List (σ → σ)) (s : σ) :
    run handler (n :: ns) (f :: fs) s = run handler ns fs (f (handler^[n] s)) := rfl

theorem iterate_of_idempotent (h : ∀ s, handler (handler s) = handler s) (n : ℕ) (s : σ) :
    handler^[n] s = if n = 0 then s else handler s := by
  cases n with
  | zero => rfl
  | succ n =>
      rw [if_neg (Nat.succ_ne_zero n)]
      induction n generalizing s with
      | zero => rfl
      | succ n ih => rw [Function.iterate_succ_apply, ih, h]

end MagnumOpus.Interrupts
