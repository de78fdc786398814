import Mathlib.Data.List.Nodup

/-! # The latest row of each key

A table to which rows are only added holds the history of its keys.  `latest` is the row that was
added last under a key, and `latestOn` lists these rows for all keys, newest first, as
`LATEST ON … PARTITION BY …` does. -/

namespace MagnumOpus.LatestBy

variable {α κ : Type*} [DecidableEq κ] (key : α → κ)

/-- The first row of each key. -/
def firsts : List α → List α
  | [] => []
  | x :: xs => x :: (firsts xs).filter fun y => key y ≠ key x

/-- The row that was added last under a key. -/
def latest (rows : List α) (k : κ) : Option α := rows.reverse.find? fun x => key x = k

def latestOn (rows : List α) : List α := firsts key rows.reverse

example : latestOn Prod.fst [(1, 10), (2, 20), (1, 30)] = [(1, 30), (2, 20)] := by decide

variable {key}

theorem mem_firsts_iff {x : α} {xs : List α} :
    x ∈ firsts key xs ↔ xs.find? (fun y => key y = key x) = some x := by
  induction xs with
  | nil => simp [firsts]
  | cons y ys ih =>
      rw [firsts, List.mem_cons, List.mem_filter, ih, List.find?_cons]
      by_cases hy : key y = key x
      · simp only [hy, decide_true, Option.some.injEq]
        constructor
        · rintro (rfl | ⟨-, hne⟩)
          · rfl
          · simp at hne
        · rintro rfl
          exact .inl rfl
      · have hne : x ≠ y := by
          rintro rfl
          exact hy rfl
        simp [hy, hne, Ne.symm hy]

theorem nodup_firsts (xs : List α) : ((firsts key xs).map key).Nodup := by
  induction xs with
  | nil => exact List.nodup_nil
  | cons y ys ih =>
      rw [firsts, List.map_cons, List.nodup_cons]
      constructor
      · intro h
        obtain ⟨x, hx, hkey⟩ := List.mem_map.mp h
        have hne := (List.mem_filter.mp hx).2
        simp [hkey] at hne
      · exact ih.sublist ((List.filter_sublist).map key)

theorem mem_latestOn_iff {x : α} {rows : List α} :
    x ∈ latestOn key rows ↔ latest key rows (key x) = some x := mem_firsts_iff

theorem nodup_latestOn (rows : List α) : ((latestOn key rows).map key).Nodup :=
  nodup_firsts rows.reverse

@[simp] theorem latest_nil (k : κ) : latest key [] k = none := rfl

/-- A new row is the latest one of its key. -/
theorem latest_append_singleton (rows : List α) (x : α) (k : κ) :
    latest key (rows ++ [x]) k = if key x = k then some x else latest key rows k := by
  rw [latest, List.reverse_append, List.reverse_singleton, List.singleton_append, List.find?_cons]
  by_cases hx : key x = k
  · simp [hx]
  · simp [hx, latest]

theorem key_of_latest {rows : List α} {k : κ} {x : α} (h : latest key rows k = some x) :
    key x = k := by
  simpa using List.find?_some h

/-- A row is found by its key when no other has it. -/
theorem find?_eq_some_iff_of_nodup {xs : List α} (h : (xs.map key).Nodup) {k : κ} {x : α} :
    xs.find? (fun y => key y = k) = some x ↔ x ∈ xs ∧ key x = k := by
  induction xs with
  | nil => simp
  | cons y ys ih =>
      rw [List.map_cons, List.nodup_cons] at h
      rw [List.find?_cons, List.mem_cons]
      by_cases hy : key y = k
      · simp only [hy, decide_true, Option.some.injEq]
        constructor
        · rintro rfl
          exact ⟨.inl rfl, hy⟩
        · rintro ⟨rfl | hx, hkey⟩
          · rfl
          · exact absurd (List.mem_map.mpr ⟨x, hx, hkey.trans hy.symm⟩) h.1
      · have hne : key x = k → x ≠ y := by
          rintro hx rfl
          exact hy hx
        simp only [hy, decide_false, ih h.2]
        exact ⟨fun hx => ⟨.inr hx.1, hx.2⟩, fun hx => ⟨hx.1.resolve_left (hne hx.2), hx.2⟩⟩

/-- In a list of the values that rows have, a row's own value is found under its key. -/
theorem find?_values {β : Type*} (value : α → Option β) {xs : List α} (h : (xs.map key).Nodup)
    {x : α} (hx : x ∈ xs) :
    (xs.flatMap fun y => (value y).toList.map fun v => (key y, v)).find? (fun p => p.1 = key x) =
      (value x).map fun v => (key x, v) := by
  -- No entry of the rows `ys` is under a key that none of them has.
  have hnone : ∀ {ys : List α}, key x ∉ ys.map key →
      (ys.flatMap fun y => (value y).toList.map fun v => (key y, v)).find?
        (fun p => p.1 = key x) = none := by
    intro ys hys
    refine List.find?_eq_none.mpr fun p hp hkey => hys ?_
    obtain ⟨y, hy, hpy⟩ := List.mem_flatMap.mp hp
    obtain ⟨v, -, rfl⟩ := List.mem_map.mp hpy
    exact List.mem_map.mpr ⟨y, hy, by simpa using hkey⟩
  induction xs with
  | nil => cases hx
  | cons y ys ih =>
      rw [List.map_cons, List.nodup_cons] at h
      rw [List.flatMap_cons, List.find?_append]
      rcases List.mem_cons.mp hx with rfl | hx
      · rw [hnone h.1]
        cases value x <;> simp
      · have hy : key y ≠ key x := fun heq => h.1 (heq ▸ List.mem_map_of_mem hx)
        rw [ih h.2 hx]
        cases value y <;> simp [hy]

end MagnumOpus.LatestBy
