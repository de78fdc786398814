import Mathlib.Data.Finmap

/-! # Writes to a finite map

A write sets a key to a value or erases it.  `writes m ws` performs the writes `ws` on the finite
map `m`, one after another.  Only the last write to a key counts (`lookup_writes`), so the same
writes on two maps lead to maps that agree on every written key and keep their own values
elsewhere: a map written to is the base *overlaid* by the writes (`lookup_writes_of_not_mem`,
`lookup_writes_congr`). -/

namespace MagnumOpus.KeyedWrites

variable {κ ν : Type*} [DecidableEq κ]

/-- A finite map from keys to values. -/
abbrev Map (κ ν : Type*) := Finmap fun _ : κ => ν

/-- Sets `k` to `v`, or erases it when there is no value. -/
def write (m : Map κ ν) (k : κ) : Option ν → Map κ ν
  | some v => m.insert k v
  | none => m.erase k

/-- Performs the writes in order. -/
def writes (m : Map κ ν) (ws : List (κ × Option ν)) : Map κ ν :=
  ws.foldl (fun m w => write m w.1 w.2) m

/-- The last write to `k`, if there is one. -/
def lastWrite (k : κ) : List (κ × Option ν) → Option (Option ν)
  | [] => none
  | w :: ws => (lastWrite k ws).or (if w.1 = k then some w.2 else none)

@[simp] theorem writes_nil (m : Map κ ν) : writes m [] = m := rfl

@[simp] theorem writes_cons (m : Map κ ν) (w : κ × Option ν) (ws : List (κ × Option ν)) :
    writes m (w :: ws) = writes (write m w.1 w.2) ws := rfl

theorem writes_append (m : Map κ ν) (ws ws' : List (κ × Option ν)) :
    writes m (ws ++ ws') = writes (writes m ws) ws' := List.foldl_append

@[simp] theorem lookup_write_same (m : Map κ ν) (k : κ) (v : Option ν) :
    (write m k v).lookup k = v := by
  cases v with
  | none => exact Finmap.lookup_erase k m
  | some v => exact Finmap.lookup_insert m

theorem lookup_write_ne (m : Map κ ν) {k k' : κ} (v : Option ν) (h : k' ≠ k) :
    (write m k v).lookup k' = m.lookup k' := by
  cases v with
  | none => exact Finmap.lookup_erase_ne h
  | some v => exact Finmap.lookup_insert_of_ne m h

/-- Only the last write to a key counts. -/
theorem lookup_writes (k : κ) : ∀ (ws : List (κ × Option ν)) (m : Map κ ν),
    (writes m ws).lookup k = (lastWrite k ws).getD (m.lookup k)
  | [], _ => rfl
  | w :: ws, m => by
      rw [writes_cons, lookup_writes k ws]
      cases h : lastWrite k ws with
      | some v => simp [lastWrite, h]
      | none =>
          by_cases hk : w.1 = k
          · subst hk
            simp [lastWrite, h]
          · simp [lastWrite, h, hk, lookup_write_ne m w.2 (Ne.symm hk)]

theorem lastWrite_eq_none {k : κ} : ∀ {ws : List (κ × Option ν)},
    lastWrite k ws = none ↔ k ∉ ws.map Prod.fst
  | [] => by simp [lastWrite]
  | w :: ws => by
      have ih : lastWrite k ws = none ↔ k ∉ ws.map Prod.fst := lastWrite_eq_none
      simp only [lastWrite, Option.or_eq_none_iff, ih, List.map_cons, List.mem_cons, not_or]
      by_cases hk : w.1 = k
      · simp [hk]
      · simp [hk, Ne.symm hk]

/-- A key that is never written keeps its value. -/
theorem lookup_writes_of_not_mem (m : Map κ ν) {k : κ} {ws : List (κ × Option ν)}
    (h : k ∉ ws.map Prod.fst) : (writes m ws).lookup k = m.lookup k := by
  rw [lookup_writes, lastWrite_eq_none.mpr h, Option.getD_none]

/-- The same writes on two maps agree on every key they write. -/
theorem lookup_writes_congr (m m' : Map κ ν) {k : κ} {ws : List (κ × Option ν)}
    (h : k ∈ ws.map Prod.fst) : (writes m ws).lookup k = (writes m' ws).lookup k := by
  have hk : lastWrite k ws ≠ none := fun hn => lastWrite_eq_none.mp hn h
  obtain ⟨v, hv⟩ := Option.ne_none_iff_exists'.mp hk
  rw [lookup_writes, lookup_writes, hv, Option.getD_some, Option.getD_some]

end MagnumOpus.KeyedWrites
