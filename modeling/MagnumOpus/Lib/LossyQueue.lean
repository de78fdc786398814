import Mathlib.Data.List.Basic

/-! # Queues that drop what they have no room for

A sender that does not wait puts an item into a queue of bounded length, or drops it.  Here the
place of a dropped item stays visible: a queue is a list of places, each of which holds an item or
is the mark of a lost one.

* **What is really there.** `items` forgets the marks.  They take no room, and a queue with marks
  behaves as one without (`items_send`, `items_receive`).
* **What went before.** `receive` hands over the oldest item together with the items that were lost
  between it and the one before (`receive_eq_some`).
* **No loss.** A queue into which items are sent only when there is room holds no marks
  (`Whole.send`, `Whole.receive`). -/

namespace MagnumOpus.LossyQueue

variable {α : Type*}

/-- A place of a queue. -/
inductive Place (α : Type*) where
  | item (a : α)
  | lost (a : α)
deriving DecidableEq

/-- The item of a place that holds one. -/
def Place.item? : Place α → Option α
  | .item a => some a
  | .lost _ => none

/-- What is really in the queue. -/
def items (q : List (Place α)) : List α := q.filterMap Place.item?

/-- Sends an item to a queue with room for `cap`; without room it is dropped. -/
def send (cap : ℕ) (q : List (Place α)) (a : α) : List (Place α) :=
  q ++ [if (items q).length < cap then .item a else .lost a]

/-- Takes the oldest item from the queue, with what was lost before it. -/
def receive : List (Place α) → Option (List α × α × List (Place α))
  | [] => none
  | .item a :: q => some ([], a, q)
  | .lost b :: q => (receive q).map fun r => (b :: r.1, r.2.1, r.2.2)

/-- Nothing has been lost in the queue. -/
def Whole (q : List (Place α)) : Prop := ∀ a, .lost a ∉ q

variable {q q' : List (Place α)} {a : α} {lost : List α} {cap : ℕ}

@[simp] theorem items_nil : items ([] : List (Place α)) = [] := rfl

@[simp] theorem items_item (a : α) (q : List (Place α)) : items (.item a :: q) = a :: items q := rfl

@[simp] theorem items_lost (a : α) (q : List (Place α)) : items (.lost a :: q) = items q := rfl

@[simp] theorem items_append (q q' : List (Place α)) : items (q ++ q') = items q ++ items q' :=
  List.filterMap_append

theorem items_send : items (send cap q a) =
    if (items q).length < cap then items q ++ [a] else items q := by
  unfold send
  by_cases h : (items q).length < cap
  · simp [h]
  · simp [h]

theorem send_of_room (h : (items q).length < cap) : send cap q a = q ++ [.item a] := by
  rw [send, if_pos h]

/-- A queue never holds more than it has room for. -/
theorem length_items_send (h : (items q).length ≤ cap) : (items (send cap q a)).length ≤ cap := by
  rw [items_send]
  split
  · next hlt =>
      rw [List.length_append, List.length_singleton]
      omega
  · exact h

theorem receive_eq_some : receive q = some (lost, a, q') ↔ q = lost.map .lost ++ .item a :: q' := by
  induction q generalizing lost with
  | nil => simp [receive]
  | cons p q ih =>
      cases p with
      | item b =>
          cases lost with
          | nil => simp [receive]
          | cons c lost => simp [receive]
      | lost b =>
          cases lost with
          | nil => simp [receive]
          | cons c lost =>
              constructor
              · intro h
                obtain ⟨r, hr, heq⟩ := Option.map_eq_some_iff.mp h
                obtain ⟨l, c', q''⟩ := r
                simp only [Prod.mk.injEq, List.cons.injEq] at heq
                obtain ⟨⟨rfl, rfl⟩, rfl, rfl⟩ := heq
                rw [ih.mp hr]
                rfl
              · intro h
                simp only [List.map_cons, List.cons_append, List.cons.injEq,
                  Place.lost.injEq] at h
                obtain ⟨rfl, hq⟩ := h
                simp only [receive, ih.mpr hq, Option.map_some]

@[simp] theorem items_map_lost (lost : List α) : items (lost.map Place.lost) = [] := by
  induction lost with
  | nil => rfl
  | cons b lost ih => exact ih

theorem items_receive (h : receive q = some (lost, a, q')) : items q = a :: items q' := by
  rw [receive_eq_some.mp h, items_append, items_item, items_map_lost, List.nil_append]

theorem Whole.send (h : Whole q) (hroom : (items q).length < cap) : Whole (send cap q a) := by
  rw [send_of_room hroom]
  intro b hb
  rcases List.mem_append.mp hb with hb | hb
  · exact h b hb
  · cases List.mem_singleton.mp hb

/-- Nothing was lost before an item of such a queue. -/
theorem Whole.receive (h : Whole q) (hr : receive q = some (lost, a, q')) :
    lost = [] ∧ Whole q' := by
  have hq := receive_eq_some.mp hr
  constructor
  · cases lost with
    | nil => rfl
    | cons b lost =>
        exfalso
        refine h b ?_
        rw [hq]
        exact List.mem_cons_self
  · intro b hb
    refine h b ?_
    rw [hq]
    exact List.mem_append_right _ (List.mem_cons_of_mem _ hb)

end MagnumOpus.LossyQueue
