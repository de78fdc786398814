import Mathlib.Data.List.Range
import Mathlib.Order.MinMax

/-! # A stream and its consumer group

A stream is a list of entries that grows at its end and may be trimmed at its front.  An entry is
known by its position, the number of entries added before it, and keeps it when the stream is
trimmed.

* **Delivery.** The group has a cursor; a read delivers the entries from there on and moves it.
  What has been delivered is pending until it is acknowledged.  A claim takes what is pending, in
  the order of the stream.
* **What a read delivers.** `mem_delivered`; `next_deliver` is where the group goes on. -/

namespace MagnumOpus.ConsumerGroup

/-- A consumer group. -/
structure Group where
  /-- Where the group has been created. -/
  start : ℕ
  /-- The position after the last one delivered. -/
  cursor : ℕ
  pending : List ℕ := []
deriving DecidableEq

/-- A stream with at most one group. -/
structure Stream (α : Type*) where
  entries : List α := []
  /-- The entries before this position have been removed. -/
  trimmed : ℕ := 0
  group : Option Group := none

variable {α : Type*}

namespace Stream

/-- Adds an entry at the end. -/
def add (s : Stream α) (a : α) : Stream α := { s with entries := s.entries ++ [a] }

/-- Removes the entries before a position. -/
def trim (s : Stream α) (p : ℕ) : Stream α :=
  { s with trimmed := max s.trimmed (min p s.entries.length) }

/-- Creates the group at a position, if it does not exist. -/
def createGroup (s : Stream α) (p : ℕ) : Stream α :=
  { s with group := s.group.or (some { start := p, cursor := p }) }

/-- Moves the cursor of the group. -/
def setId (s : Stream α) (p : ℕ) : Stream α :=
  { s with group := s.group.map fun g => { g with cursor := p } }

/-- Where the group has been created, if it has been. -/
def origin (s : Stream α) : Option ℕ := s.group.map Group.start

/-- The positions from `p` on that are still there, at most `n`. -/
def range (s : Stream α) (p n : ℕ) : List ℕ :=
  List.range' (max p s.trimmed) (min n (s.entries.length - max p s.trimmed))

/-- The position of the next entry for the group. -/
def next (s : Stream α) : ℕ := max (s.group.elim 0 Group.cursor) s.trimmed

/-- What a read of at most `n` entries delivers to the group. -/
def delivered (s : Stream α) (n : ℕ) : List ℕ := s.range (s.group.elim 0 Group.cursor) n

/-- Delivers entries to the group. -/
def deliver (s : Stream α) (n : ℕ) : Stream α :=
  { s with
    group := s.group.map fun g =>
      { g with
        cursor := s.next + (s.delivered n).length
        pending := g.pending ++ s.delivered n } }

/-- Takes an entry off the pending ones. -/
def ack (s : Stream α) (p : ℕ) : Stream α :=
  { s with group := s.group.map fun g => { g with pending := g.pending.filter (· ≠ p) } }

/-- The pending entries that are still there. -/
def claimed (s : Stream α) : List ℕ :=
  (List.range' s.trimmed (s.entries.length - s.trimmed)).filter fun p =>
    p ∈ s.group.elim [] Group.pending

/-! ### What the operations leave -/

variable (s : Stream α) (a : α) (n p : ℕ)

@[simp] theorem entries_add : (s.add a).entries = s.entries ++ [a] := rfl
@[simp] theorem trimmed_add : (s.add a).trimmed = s.trimmed := rfl
@[simp] theorem group_add : (s.add a).group = s.group := rfl
@[simp] theorem entries_trim : (s.trim p).entries = s.entries := rfl
@[simp] theorem group_trim : (s.trim p).group = s.group := rfl
@[simp] theorem entries_createGroup : (s.createGroup p).entries = s.entries := rfl
@[simp] theorem trimmed_createGroup : (s.createGroup p).trimmed = s.trimmed := rfl
@[simp] theorem entries_setId : (s.setId p).entries = s.entries := rfl
@[simp] theorem trimmed_setId : (s.setId p).trimmed = s.trimmed := rfl
@[simp] theorem entries_deliver : (s.deliver n).entries = s.entries := rfl
@[simp] theorem trimmed_deliver : (s.deliver n).trimmed = s.trimmed := rfl
@[simp] theorem entries_ack : (s.ack p).entries = s.entries := rfl
@[simp] theorem trimmed_ack : (s.ack p).trimmed = s.trimmed := rfl
@[simp] theorem origin_add : (s.add a).origin = s.origin := rfl
@[simp] theorem origin_trim : (s.trim p).origin = s.origin := rfl
@[simp] theorem origin_setId : (s.setId p).origin = s.origin := Option.map_map _ _ _
@[simp] theorem origin_deliver : (s.deliver n).origin = s.origin := Option.map_map _ _ _
@[simp] theorem origin_ack : (s.ack p).origin = s.origin := Option.map_map _ _ _

theorem origin_createGroup : (s.createGroup p).origin = s.origin.or (some p) := by
  unfold origin createGroup
  cases s.group <;> rfl

/-- A group is created once. -/
theorem createGroup_of_origin {s : Stream α} (h : s.origin ≠ none) (p : ℕ) :
    s.createGroup p = s := by
  unfold origin at h
  unfold createGroup
  cases hg : s.group with
  | none => exact absurd (by rw [hg]; rfl) h
  | some g => rw [Option.some_or, ← hg]

/-- Nothing beyond the end has been removed or delivered. -/
structure Bounded (s : Stream α) : Prop where
  trimmed : s.trimmed ≤ s.entries.length
  cursor : ∀ g ∈ s.group, g.cursor ≤ s.entries.length

variable {s : Stream α} {n p : ℕ}

theorem length_delivered : (s.delivered n).length = min n (s.entries.length - s.next) := by
  rw [delivered, range, List.length_range', next]

theorem mem_delivered {q : ℕ} :
    q ∈ s.delivered n ↔ s.next ≤ q ∧ q < s.next + n ∧ q < s.entries.length := by
  rw [delivered, range, ← next, List.mem_range'_1]
  omega

theorem pairwise_delivered (s : Stream α) (n : ℕ) : (s.delivered n).Pairwise (· < ·) :=
  List.pairwise_lt_range'

/-! ### The next entry -/

theorem trimmed_le_next (s : Stream α) : s.trimmed ≤ s.next := le_max_right _ _

theorem next_of_group {g : Group} (hg : s.group = some g) : s.next = max g.cursor s.trimmed := by
  rw [next, hg]
  rfl

@[simp] theorem next_ack : (s.ack p).next = s.next := by
  unfold next ack
  cases s.group <;> rfl

@[simp] theorem next_add (a : α) : (s.add a).next = s.next := rfl

theorem next_createGroup (hp : s.trimmed ≤ p) :
    (s.createGroup p).next = if s.origin = none then p else s.next := by
  unfold next origin createGroup
  cases s.group with
  | none => simpa using hp
  | some g => simp

theorem next_trim : (s.trim p).next = max s.next (min p s.entries.length) := by
  simp only [next, trim, max_assoc]

theorem next_deliver (hg : s.origin ≠ none) :
    (s.deliver n).next = s.next + (s.delivered n).length := by
  obtain ⟨g, hg⟩ :=
    Option.isSome_iff_exists.mp (Option.isSome_map ▸ Option.isSome_iff_ne_none.mpr hg)
  have hle := s.trimmed_le_next
  simp only [next_of_group (s := s.deliver n) (g := ⟨g.start, _, _⟩) (by rw [deliver, hg]; rfl),
    trimmed_deliver]
  omega

/-! ### Bounds -/

theorem bounded_empty : ({} : Stream α).Bounded :=
  ⟨le_refl _, fun _ h => absurd h (Option.not_mem_none _)⟩

theorem Bounded.next_le (h : s.Bounded) : s.next ≤ s.entries.length := by
  unfold next
  cases hg : s.group with
  | none => simpa using h.trimmed
  | some g => exact max_le (h.cursor g hg) h.trimmed

theorem Bounded.add (h : s.Bounded) (a : α) : (s.add a).Bounded := by
  have hlen : s.entries.length ≤ (s.add a).entries.length := by simp
  exact ⟨h.trimmed.trans hlen, fun g hg => (h.cursor g hg).trans hlen⟩

theorem Bounded.trim (h : s.Bounded) (p : ℕ) : (s.trim p).Bounded :=
  ⟨max_le h.trimmed (min_le_right _ _), h.cursor⟩

theorem Bounded.createGroup (h : s.Bounded) (hp : p ≤ s.entries.length) :
    (s.createGroup p).Bounded := by
  refine ⟨h.trimmed, fun g hg => ?_⟩
  rcases Option.or_eq_some_iff.mp hg with hold | ⟨-, hnew⟩
  · exact h.cursor g hold
  · rw [← Option.some.inj hnew]
    exact hp

theorem Bounded.deliver (h : s.Bounded) (n : ℕ) : (s.deliver n).Bounded := by
  refine ⟨h.trimmed, fun g hg => ?_⟩
  obtain ⟨g', -, rfl⟩ := Option.map_eq_some_iff.mp hg
  have hnext := h.next_le
  have hlen := length_delivered (s := s) (n := n)
  simp only [entries_deliver]
  omega

theorem Bounded.ack (h : s.Bounded) (p : ℕ) : (s.ack p).Bounded := by
  refine ⟨h.trimmed, fun g hg => ?_⟩
  obtain ⟨g', hg', rfl⟩ := Option.map_eq_some_iff.mp hg
  exact h.cursor g' hg'

end Stream

end MagnumOpus.ConsumerGroup
