import Mathlib.Tactic.Common
import MagnumOpus.Lib.EventMachine
import MagnumOpus.Aggregator.Reconnect

/-! # The law of the merge machine

Any calls of a `Machine`, in any order.

* **The buffer.** It holds what was fed while the machine was buffering, since a merge last
  succeeded or the machine was forced live (`Watched.fed`).
* **Merges.** A snapshot is merged exactly when nothing is buffered, when it has the largest number,
  or when the oldest buffered delta is at most the one that follows it (`merges_iff`); so a later
  snapshot merges whenever an earlier one does (`Merges.mono`). -/

namespace MagnumOpus.Aggregator.Reconnect

open EventMachine

/-- A call of the machine. -/
inductive Call where
  | needsSnapshotNow (reason : String)
  | feed (seq : UInt64)
  | mergeSnapshot (snapshotSeq : UInt64)
  | goLive

/-- The merge asks for no other snapshot. -/
def Merges (m : Machine) (snapshotSeq : UInt64) : Prop := (m.mergeSnapshot snapshotSeq).2.2 = none

instance (m : Machine) (snapshotSeq : UInt64) : Decidable (Merges m snapshotSeq) :=
  inferInstanceAs (Decidable (_ = none))

/-- The machine, and what was fed to it. -/
structure Watched where
  machine : Machine := .new
  /-- The numbers fed while buffering since the last merge that succeeded or the last `goLive`. -/
  fed : List UInt64 := []

namespace Watched

/-- What a call returns. -/
inductive Answer where
  | signal (n : NeedsSnapshot)
  | merged (replay : List UInt64) (signal : Option NeedsSnapshot)

def step : Step Watched Call Answer := fun w c =>
  match c with
  | .needsSnapshotNow reason =>
      ({ w with machine := (w.machine.needsSnapshotNow reason).1 },
        [.signal (w.machine.needsSnapshotNow reason).2])
  | .feed seq =>
      ({ machine := w.machine.feed seq
         fed := if w.machine.state = .buffering then w.fed ++ [seq] else w.fed }, [])
  | .mergeSnapshot snapshotSeq =>
      let merged := w.machine.mergeSnapshot snapshotSeq
      ({ machine := merged.1
         fed := if w.machine.state = .buffering ∧ Merges w.machine snapshotSeq then []
           else w.fed }, [.merged merged.2.1 merged.2.2])
  | .goLive => ({ machine := w.machine.goLive, fed := [] }, [])

end Watched

/-! ### Merging -/

variable {m : Machine} {S S' : UInt64}

/-- The oldest buffered delta leaves no gap after the snapshot, if there is one. -/
def Reaches (buffer : List UInt64) (snapshotSeq : UInt64) : Prop :=
  buffer = [] ∨ snapshotSeq.toNat = 2 ^ 64 - 1 ∨
    ∃ oldest, buffer.head? = some oldest ∧ oldest.toNat ≤ snapshotSeq.toNat + 1

theorem Reaches.mono {buffer : List UInt64} (h : Reaches buffer S) (hS : S ≤ S') :
    Reaches buffer S' := by
  rw [UInt64.le_iff_toNat_le] at hS
  rcases h with hempty | hmax | ⟨oldest, hhead, hle⟩
  · exact .inl hempty
  · have hlt := S'.toNat_lt
    exact .inr (.inl (by omega))
  · exact .inr (.inr ⟨oldest, hhead, by omega⟩)

/-- Below the largest number `snapshotSeq + 1` does not wrap. -/
theorem stale_eq_false_iff (m : Machine) (S : UInt64) :
    m.stale S = false ↔ Reaches m.buffer S := by
  unfold Machine.stale Reaches
  have hlt := S.toNat_lt
  cases m.buffer with
  | nil => simp
  | cons oldest buffer =>
      simp only [List.cons_ne_nil, false_or, List.head?_cons, Option.some.injEq,
        exists_eq_left', decide_eq_false_iff_not, not_and, UInt64.lt_iff_toNat_lt,
        UInt64.toNat_add]
      by_cases hmax : S.toNat = 2 ^ 64 - 1
      · exact iff_of_true (fun h => absurd h (by omega)) (.inl hmax)
      · have hone : (1 : UInt64).toNat = 1 := rfl
        rw [hone, Nat.mod_eq_of_lt (by omega)]
        omega

theorem merges_iff (hm : m.state = .buffering) : Merges m S ↔ Reaches m.buffer S := by
  rw [← stale_eq_false_iff]
  unfold Merges
  cases hstale : m.stale S with
  | true =>
      rw [Machine.mergeSnapshot_of_stale hm hstale]
      simp
  | false =>
      rw [Machine.mergeSnapshot_of_not_stale hm hstale]
      simp

theorem Merges.mono (hm : m.state = .buffering) (h : Merges m S) (hS : S ≤ S') : Merges m S' := by
  rw [merges_iff hm] at h ⊢
  exact h.mono hS

theorem mergeSnapshot_of_merges (hm : m.state = .buffering) (h : Merges m S) :
    m.mergeSnapshot S = (⟨.live, []⟩, m.buffer.filter (S < ·), none) :=
  Machine.mergeSnapshot_of_not_stale hm
    ((stale_eq_false_iff m S).mpr ((merges_iff hm).mp h))

theorem mergeSnapshot_of_not_merges (hm : m.state = .buffering) (h : ¬ Merges m S) :
    m.mergeSnapshot S = (m, [], some ⟨"merge_error"⟩) := by
  rw [merges_iff hm, ← stale_eq_false_iff, Bool.not_eq_false] at h
  exact Machine.mergeSnapshot_of_stale hm h

theorem mergeSnapshot_of_not_buffering (hm : m.state ≠ .buffering) :
    m.mergeSnapshot S = (m, [], none) := by
  unfold Machine.mergeSnapshot
  rw [if_pos hm]

/-! ### Every run -/

namespace Watched

/-- What holds of the buffer. -/
structure Inv (w : Watched) : Prop where
  buffer : w.machine.buffer = w.fed
  live : w.machine.state = .live → w.machine.buffer = []

theorem Inv.feed {w : Watched} (h : Inv w) (seq : UInt64) : Inv (step w (.feed seq)).1 := by
  by_cases hbuffering : w.machine.state = .buffering
  · constructor
    · simp [step, Machine.feed, hbuffering, h.buffer]
    · intro hlive
      simp [step, hbuffering] at hlive
  · constructor
    · simp [step, Machine.feed, hbuffering, h.buffer]
    · intro hlive
      simp only [step, Machine.state_feed] at hlive
      simp [step, Machine.feed, hbuffering, h.live hlive]

theorem Inv.mergeSnapshot {w : Watched} (h : Inv w) (S : UInt64) :
    Inv (step w (.mergeSnapshot S)).1 := by
  unfold step
  dsimp only
  by_cases hbuffering : w.machine.state = .buffering
  · by_cases hmerges : Merges w.machine S
    · rw [if_pos ⟨hbuffering, hmerges⟩, mergeSnapshot_of_merges hbuffering hmerges]
      exact ⟨rfl, fun _ => rfl⟩
    · rw [if_neg fun hboth => hmerges hboth.2, mergeSnapshot_of_not_merges hbuffering hmerges]
      exact h
  · rw [if_neg fun hboth => hbuffering hboth.1, mergeSnapshot_of_not_buffering hbuffering]
    exact h

theorem Inv.step {w : Watched} (h : Inv w) (c : Call) : Inv (step w c).1 := by
  cases c with
  | needsSnapshotNow reason =>
      refine ⟨h.buffer, fun hlive => ?_⟩
      cases hlive
  | feed seq => exact h.feed seq
  | mergeSnapshot S => exact h.mergeSnapshot S
  | goLive => exact ⟨rfl, fun _ => rfl⟩

end Watched

/-- The law of the machine: its buffer, and what a merge at any number does. -/
structure Law (w : Watched) : Prop where
  buffer : w.machine.buffer = w.fed
  live : w.machine.state = .live → w.machine.buffer = []
  merges : w.machine.state = .buffering → ∀ S, Merges w.machine S ↔ Reaches w.machine.buffer S
  success : w.machine.state = .buffering → ∀ S, Merges w.machine S →
    w.machine.mergeSnapshot S = (⟨.live, []⟩, w.fed.filter (S < ·), none)
  failure : w.machine.state = .buffering → ∀ S, ¬ Merges w.machine S →
    (w.machine.mergeSnapshot S).1 = w.machine
  monotone : w.machine.state = .buffering → ∀ S S', S ≤ S' → Merges w.machine S →
    Merges w.machine S'

/-- **After every run of calls the machine obeys its law.** -/
theorem law_of_run (calls : List Call) : Law (final Watched.step {} calls) := by
  have hinv : Watched.Inv (final Watched.step {} calls) :=
    final_invariant (fun _ c h => h.step c) calls ⟨rfl, fun h => by cases h⟩
  constructor
  case buffer => exact hinv.buffer
  case live => exact hinv.live
  case merges => exact fun hm S => merges_iff hm
  case success =>
    intro hm S hmerges
    rw [mergeSnapshot_of_merges hm hmerges, hinv.buffer]
  case failure =>
    intro hm S hmerges
    rw [mergeSnapshot_of_not_merges hm hmerges]
  case monotone => exact fun hm S S' hS hmerges => hmerges.mono hm hS

end MagnumOpus.Aggregator.Reconnect
