import Mathlib.Algebra.Group.Nat.Defs
import Mathlib.Data.List.Basic

/-! # Snapshot and delta merging

`reconnect.Machine` decides for one symbol whether deltas are applied (`live`) or held back until a
snapshot arrives (`buffering`).  While it holds them back it keeps their sequence numbers only; the
numbers to replay are what `mergeSnapshot` returns.

* A snapshot at `s` is stale when the oldest buffered delta is past `s + 1` (`stale`): the deltas
  between are lost, and the machine asks for another snapshot.
* `s + 1` wraps at the largest number, where the test is skipped. -/

namespace MagnumOpus.Aggregator.Reconnect

/-- The phase of the reconnect cycle. -/
inductive State where
  /-- Before the first snapshot has been requested. -/
  | initial
  /-- A snapshot was asked for; deltas are buffered. -/
  | buffering
  /-- Deltas are applied directly. -/
  | live
deriving DecidableEq, Repr

/-- Asks for a new snapshot. -/
structure NeedsSnapshot where
  reason : String
deriving DecidableEq, Repr

/-- The merge state machine of one symbol. -/
structure Machine where
  state : State
  /-- The sequence numbers of the deltas held back, oldest first. -/
  buffer : List UInt64
deriving DecidableEq, Repr

namespace Machine

def new : Machine := ⟨.initial, []⟩

/-- The feed has started or a gap has occurred.  The buffer is kept, so that deltas that came in
during a first wait remain available for the next merge. -/
def needsSnapshotNow (m : Machine) (reason : String) : Machine × NeedsSnapshot :=
  ({ m with state := .buffering }, ⟨reason⟩)

/-- Delivers a delta; it is buffered in `buffering` only. -/
def feed (m : Machine) (seq : UInt64) : Machine :=
  if m.state ≠ .buffering then m else { m with buffer := m.buffer ++ [seq] }

/-- The oldest buffered delta is past the one that follows the snapshot. -/
def stale (m : Machine) (snapshotSeq : UInt64) : Bool :=
  match m.buffer with
  | [] => false
  | oldest :: _ => snapshotSeq.toNat < 2 ^ 64 - 1 ∧ snapshotSeq + 1 < oldest

/-- Merges a snapshot: the numbers to replay, or the request for another snapshot. -/
def mergeSnapshot (m : Machine) (snapshotSeq : UInt64) :
    Machine × List UInt64 × Option NeedsSnapshot :=
  if m.state ≠ .buffering then (m, [], none)
  else if m.stale snapshotSeq then (m, [], some ⟨"merge_error"⟩)
  else (⟨.live, []⟩, m.buffer.filter (snapshotSeq < ·), none)

/-- Forces the machine into `live`. -/
def goLive (_ : Machine) : Machine := ⟨.live, []⟩

@[simp] theorem state_feed (m : Machine) (seq : UInt64) : (m.feed seq).state = m.state := by
  unfold feed
  split <;> rfl

/-- A merge that asks for no other snapshot goes live. -/
theorem mergeSnapshot_of_not_stale {m : Machine} {s : UInt64} (hm : m.state = .buffering)
    (hs : m.stale s = false) :
    m.mergeSnapshot s = (⟨.live, []⟩, m.buffer.filter (s < ·), none) := by
  rw [mergeSnapshot, if_neg (not_not.mpr hm), hs, if_neg Bool.false_ne_true]

theorem mergeSnapshot_of_stale {m : Machine} {s : UInt64} (hm : m.state = .buffering)
    (hs : m.stale s = true) : m.mergeSnapshot s = (m, [], some ⟨"merge_error"⟩) := by
  rw [mergeSnapshot, if_neg (not_not.mpr hm), if_pos hs]

end Machine

end MagnumOpus.Aggregator.Reconnect
