import MagnumOpus.Bot.OrderWorkerSteps
import MagnumOpus.Lib.LastEntries

/-! # The memory of handled fills

`handle_fill` keeps the ids of the fills it has handled twice: in a set, which is asked, and in a
bounded queue, which says which id is to leave the set.

* **Both are one memory.** `consistent_run`: after any fills the queue holds the ids that were
  accepted last, none of them twice, and the set has the same members.
* **What is rejected.** `seenFillIds_run`: an id that is among the last 10,000 distinct ones that
  were accepted, and no other.
* **The worker.** Its list of handled ids is the queue (`worker_remembers`). -/

namespace MagnumOpus.Bot

open EventMachine LastEntries

/-- `_seen_fill_ids` and `_seen_fill_ids_order`. -/
structure FillMemory where
  seenFillIds : Finset String := ∅
  seenFillIdsOrder : List String := []

namespace FillMemory

open OrderQueueWorker (maxSeen)

/-- `handle_fill` up to the look at the open orders.  An id is emitted when it is accepted. -/
def handleFill : Step FillMemory String String := fun m orderId =>
  if orderId ∈ m.seenFillIds then (m, [])
  else
    let kept :=
      if m.seenFillIdsOrder.length = maxSeen then
        match m.seenFillIdsOrder with
        | evicted :: _ => m.seenFillIds.erase evicted
        | [] => m.seenFillIds
      else m.seenFillIds
    ({ seenFillIds := insert orderId kept
       seenFillIdsOrder := push maxSeen m.seenFillIdsOrder orderId }, [orderId])

/-- What the memory is after the ids `accepted` were accepted. -/
structure Consistent (accepted : List String) (m : FillMemory) : Prop where
  order_eq : m.seenFillIdsOrder = accepted.rtake maxSeen
  nodup : m.seenFillIdsOrder.Nodup
  set_eq : m.seenFillIds = m.seenFillIdsOrder.toFinset

theorem consistent_nil : Consistent [] {} := ⟨(List.rtake_nil maxSeen).symm, List.nodup_nil, rfl⟩

variable {accepted : List String} {m : FillMemory}

theorem Consistent.length_le (h : Consistent accepted m) : m.seenFillIdsOrder.length ≤ maxSeen :=
  h.order_eq ▸ length_rtake_le maxSeen accepted

theorem Consistent.mem_iff (h : Consistent accepted m) {id : String} :
    id ∈ m.seenFillIds ↔ id ∈ m.seenFillIdsOrder := by
  rw [h.set_eq, List.mem_toFinset]

theorem handleFill_seen {id : String} (h : id ∈ m.seenFillIds) : handleFill m id = (m, []) :=
  if_pos h

theorem handleFill_room {id : String} (hnew : id ∉ m.seenFillIds)
    (hlen : m.seenFillIdsOrder.length < maxSeen) :
    handleFill m id =
      ({ seenFillIds := insert id m.seenFillIds
         seenFillIdsOrder := m.seenFillIdsOrder ++ [id] }, [id]) := by
  rw [handleFill, if_neg hnew, if_neg hlen.ne, push_of_lt id hlen]

/-- A new id takes the place of the oldest one. -/
theorem handleFill_full {id evicted : String} {rest : List String} (hnew : id ∉ m.seenFillIds)
    (horder : m.seenFillIdsOrder = evicted :: rest) (hlen : m.seenFillIdsOrder.length = maxSeen) :
    handleFill m id =
      ({ seenFillIds := insert id (m.seenFillIds.erase evicted)
         seenFillIdsOrder := rest ++ [id] }, [id]) := by
  have hpush : push maxSeen m.seenFillIdsOrder id = rest ++ [id] := by
    rw [horder] at hlen ⊢
    exact push_cons_of_full evicted id hlen
  rw [handleFill, if_neg hnew, if_pos hlen, hpush, horder]

theorem Consistent.handleFill (h : Consistent accepted m) (id : String) :
    Consistent (accepted ++ (handleFill m id).2) (handleFill m id).1 := by
  by_cases hseen : id ∈ m.seenFillIds
  · rw [handleFill_seen hseen, List.append_nil]
    exact h
  · have hnew : id ∉ m.seenFillIdsOrder := fun hmem => hseen (h.mem_iff.mpr hmem)
    have hpush : push maxSeen m.seenFillIdsOrder id = (accepted ++ [id]).rtake maxSeen := by
      rw [h.order_eq, push_rtake]
    rcases Nat.lt_or_eq_of_le h.length_le with hlt | hfull
    · rw [handleFill_room hseen hlt]
      rw [push_of_lt id hlt] at hpush
      refine ⟨hpush, ?_, ?_⟩
      · simpa using List.Nodup.concat hnew h.nodup
      · rw [List.toFinset_append, ← h.set_eq]
        simp
    · obtain ⟨evicted, rest, horder⟩ := List.exists_cons_of_length_pos
        (by rw [hfull]; decide : 0 < m.seenFillIdsOrder.length)
      rw [handleFill_full hseen horder hfull]
      have hnodup := h.nodup
      rw [horder] at hpush hnodup hnew hfull
      rw [push_cons_of_full evicted id hfull] at hpush
      obtain ⟨hfirst, hrest⟩ := List.nodup_cons.mp hnodup
      refine ⟨hpush, ?_, ?_⟩
      · simpa using List.Nodup.concat (fun hmem => hnew (List.mem_cons_of_mem _ hmem)) hrest
      · have herase : m.seenFillIds.erase evicted = rest.toFinset := by
          rw [h.set_eq, horder, List.toFinset_cons,
            Finset.erase_insert (by rwa [List.mem_toFinset])]
        rw [herase, List.toFinset_append]
        simp

theorem Consistent.run (ids : List String) (h : Consistent accepted m) :
    Consistent (accepted ++ trace FillMemory.handleFill m ids)
      (final FillMemory.handleFill m ids) := by
  induction ids generalizing accepted m with
  | nil => rwa [trace_nil, List.append_nil]
  | cons id ids ih =>
      rw [trace_cons, final_cons, ← List.append_assoc]
      exact ih (h.handleFill id)

theorem consistent_run (ids : List String) :
    Consistent (trace FillMemory.handleFill {} ids) (final FillMemory.handleFill {} ids) :=
  consistent_nil.run ids

/-- The set and the queue have the same ids, at most 10,000 of them and none twice, and an id is
rejected when it is among the last ones that were accepted. -/
structure Remembers (accepted : List String) (m : FillMemory) : Prop where
  mem_iff : ∀ id, id ∈ m.seenFillIds ↔ id ∈ m.seenFillIdsOrder
  card_le : m.seenFillIds.card ≤ 10000
  length_le : m.seenFillIdsOrder.length ≤ 10000
  nodup : m.seenFillIdsOrder.Nodup
  rejected : ∀ id, (handleFill m id).2 = [] ↔ id ∈ accepted.dedup.rtake 10000

/-- **The memory of fills**, after any fills. -/
theorem seenFillIds_run (ids : List String) :
    Remembers (trace handleFill {} ids) (final handleFill {} ids) := by
  have h := consistent_run ids
  refine ⟨fun id => h.mem_iff, ?_, h.length_le, h.nodup, fun id => ?_⟩
  · rw [h.set_eq, List.toFinset_card_of_nodup h.nodup]
    exact h.length_le
  · have hdedup : (trace FillMemory.handleFill {} ids).dedup.rtake maxSeen =
        (final FillMemory.handleFill {} ids).seenFillIdsOrder := by
      rw [rtake_dedup (h.order_eq ▸ h.nodup), h.order_eq]
    rw [show (10000 : ℕ) = maxSeen from rfl, hdedup, ← h.mem_iff]
    by_cases hseen : id ∈ (final FillMemory.handleFill {} ids).seenFillIds
    · rw [handleFill_seen hseen]
      exact iff_of_true rfl hseen
    · rw [FillMemory.handleFill, if_neg hseen]
      exact iff_of_false (List.cons_ne_nil _ _) hseen

end FillMemory

namespace OrderQueueWorker

/-! ### The worker -/

/-- The ids of the fills among the inputs of a worker. -/
def fillIds (is : List Input) : List String :=
  is.filterMap fun
    | .fill f => some f.orderId
    | _ => none

theorem remember_eq_push {ids : List String} (h : ids.length ≤ maxSeen) (id : String) :
    remember ids id = push maxSeen ids id := by
  rcases Nat.lt_or_eq_of_le h with hlt | hfull
  · rw [remember, if_neg hlt.ne, push_of_lt id hlt]
  · cases ids with
    | nil => exact absurd hfull (by decide)
    | cons a ids =>
        rw [remember, if_pos hfull, push_cons_of_full a id hfull, List.drop_one, List.tail_cons]

theorem seenFillIds_fill (w : OrderQueueWorker) (f : OrderFilled) :
    (step w (.fill f)).1.seenFillIds =
      if f.orderId ∈ w.seenFillIds then w.seenFillIds else remember w.seenFillIds f.orderId := by
  by_cases hseen : f.orderId ∈ w.seenFillIds
  · rw [step_fill_seen hseen, if_pos hseen]
  · rw [if_neg hseen]
    cases hopen : w.openOrders.lookup f.orderId with
    | none => rw [step_fill_unknown hseen hopen]
    | some o => exact (step_fill_known hseen hopen).1.seenFillIds

theorem seenFillIds_of_not_fill {w : OrderQueueWorker} {i : Input} (h : ∀ f, i ≠ .fill f) :
    (step w i).1.seenFillIds = w.seenFillIds := by
  by_cases hins : ∃ req p, Inserts w i req p
  · obtain ⟨req, p, hins⟩ := hins
    rw [step_insert hins]
    rfl
  · exact (step_keeps (fun req p hp => hins ⟨req, p, hp⟩) h).books.seenFillIds

/-- Whatever else it does, the worker has the memory of its fills. -/
theorem worker_remembers {accepted : List String} {m : FillMemory} :
    ∀ (is : List Input) {w : OrderQueueWorker}, m.Consistent accepted →
      w.seenFillIds = m.seenFillIdsOrder →
      (final step w is).seenFillIds =
        (final FillMemory.handleFill m (fillIds is)).seenFillIdsOrder := by
  intro is
  induction is generalizing accepted m with
  | nil => exact fun _ h => h
  | cons i is ih =>
      intro w hm hw
      rw [final_cons]
      by_cases hfill : ∃ f, i = .fill f
      · obtain ⟨f, rfl⟩ := hfill
        refine ih (hm.handleFill f.orderId) ?_
        rw [seenFillIds_fill, hw]
        by_cases hseen : f.orderId ∈ m.seenFillIdsOrder
        · rw [if_pos hseen, FillMemory.handleFill_seen (hm.mem_iff.mpr hseen)]
        · rw [if_neg hseen, remember_eq_push hm.length_le, FillMemory.handleFill,
            if_neg (mt hm.mem_iff.mp hseen)]
      · have hids : fillIds (i :: is) = fillIds is := by
          cases i with
          | fill f => exact absurd ⟨f, rfl⟩ hfill
          | _ => rfl
        rw [hids]
        exact ih hm ((seenFillIds_of_not_fill fun f hf => hfill ⟨f, hf⟩).trans hw)

end OrderQueueWorker

end MagnumOpus.Bot
