import Mathlib.Algebra.Order.BigOperators.Group.Finset
import Mathlib.Algebra.Order.BigOperators.Group.List
import Mathlib.Data.List.AList
import MagnumOpus.Lib.KeyedWrites

/-! # Sums over an association list

`total f s` adds `f` over the values of the association list `s`.  A new key adds its value
(`total_insert`), one that replaces another takes that one's value away (`total_insert_add`), so
that it adds at most its value (`total_insert_le`), and an erased key takes its value away
(`total_erase`).  Two sums are compared key by key (`total_eq_iff_of_le`).  `mapTotal f m` is the
same for a finite map without an order, where a value that grows by an amount adds it
(`mapTotal_insert`). -/

namespace MagnumOpus.KeyedSum

open KeyedWrites

variable {κ ν M : Type*}

/-- A finite map that keeps the order of its entries. -/
abbrev Entries (κ ν : Type*) := AList fun _ : κ => ν

/-- The sum of `f` over the values. -/
def total [AddCommMonoid M] (f : ν → M) (s : Entries κ ν) : M := (s.entries.map fun e => f e.2).sum

section Keys

variable [DecidableEq κ] [AddCommMonoid M]

theorem total_insert (f : ν → M) {s : Entries κ ν} {k : κ} (v : ν) (hk : k ∉ s) :
    total f (s.insert k v) = f v + total f s := by
  rw [total, AList.entries_insert_of_notMem hk, List.map_cons, List.sum_cons]
  rfl

theorem total_erase (f : ν → M) {s : Entries κ ν} {k : κ} {v : ν} (hk : s.lookup k = some v) :
    f v + total f (s.erase k) = total f s := by
  have hmem : k ∈ s.entries.keys := AList.lookup_isSome.mp (by rw [hk]; rfl)
  obtain ⟨w, l₁, l₂, -, hsplit, herase⟩ := List.exists_of_kerase hmem
  have hw : w = v := by
    have hin : (⟨k, w⟩ : Sigma fun _ : κ => ν) ∈ s.entries := by rw [hsplit]; simp
    exact Option.some.inj ((List.mem_dlookup s.nodupKeys hin).symm.trans hk)
  have herased : (s.erase k).entries = l₁ ++ l₂ := herase
  subst hw
  unfold total
  rw [herased, hsplit]
  simp only [List.map_append, List.map_cons, List.sum_append, List.sum_cons]
  rw [add_left_comm]

/-- Putting in a value takes away the one that was under its key. -/
theorem total_insert_add (f : ν → M) (s : Entries κ ν) (k : κ) (v : ν) :
    total f (s.insert k v) + (s.lookup k).elim 0 f = f v + total f s := by
  have hinsert : total f (s.insert k v) = f v + total f (s.erase k) := by
    rw [total, AList.entries_insert, List.map_cons, List.sum_cons]
    rfl
  cases hk : s.lookup k with
  | none =>
      rw [total_insert f v (AList.lookup_eq_none.mp hk)]
      exact add_zero _
  | some w =>
      rw [hinsert, add_assoc, Option.elim_some, add_comm (total f (s.erase k)), total_erase f hk]

/-- The sum, key by key. -/
theorem total_eq_sum (f : ν → M) (s : Entries κ ν) {keys : Finset κ} (h : ∀ k ∈ s, k ∈ keys) :
    total f s = ∑ k ∈ keys, (s.lookup k).elim 0 f := by
  have hsub : s.keys.toFinset ⊆ keys := fun k hk => h k (List.mem_toFinset.mp hk)
  have hzero : ∀ k ∈ keys, k ∉ s.keys.toFinset → (s.lookup k).elim 0 f = 0 := by
    intro k _ hk
    rw [AList.lookup_eq_none.mpr fun hs => hk (List.mem_toFinset.mpr hs)]
    rfl
  rw [← Finset.sum_subset hsub hzero, List.sum_toFinset _ s.keys_nodup, total, AList.keys,
    List.keys, List.map_map]
  refine congrArg List.sum (List.map_congr_left fun e he => ?_)
  have hlookup : s.lookup e.1 = some e.2 := List.mem_dlookup s.nodupKeys he
  show f e.2 = (s.lookup e.1).elim 0 f
  rw [hlookup]
  rfl

end Keys

/-- When no key adds less to the second sum, the sums are equal exactly when each key adds the same
to both. -/
theorem total_eq_iff_of_le [DecidableEq κ] [AddCommMonoid M] [PartialOrder M]
    [IsOrderedCancelAddMonoid M] {f g : ν → M} {s t : Entries κ ν}
    (h : ∀ k, (s.lookup k).elim 0 f ≤ (t.lookup k).elim 0 g) :
    total f s = total g t ↔ ∀ k, (s.lookup k).elim 0 f = (t.lookup k).elim 0 g := by
  let keys := s.keys.toFinset ∪ t.keys.toFinset
  have hs : ∀ k ∈ s, k ∈ keys :=
    fun k hk => Finset.mem_union_left _ (List.mem_toFinset.mpr hk)
  have ht : ∀ k ∈ t, k ∈ keys :=
    fun k hk => Finset.mem_union_right _ (List.mem_toFinset.mpr hk)
  rw [total_eq_sum f s hs, total_eq_sum g t ht, Finset.sum_eq_sum_iff_of_le fun k _ => h k]
  refine ⟨fun heq k => ?_, fun heq k _ => heq k⟩
  by_cases hk : k ∈ keys
  · exact heq k hk
  · rw [AList.lookup_eq_none.mpr fun hks => hk (hs k hks),
      AList.lookup_eq_none.mpr fun hkt => hk (ht k hkt)]
    rfl

/-- Putting in a value adds at most that value: an earlier one under the key goes away. -/
theorem total_insert_le [DecidableEq κ] [AddCommMonoid M] [PartialOrder M] [CanonicallyOrderedAdd M]
    [IsOrderedAddMonoid M] (f : ν → M) (s : Entries κ ν) (k : κ) (v : ν) :
    total f (s.insert k v) ≤ f v + total f s := by
  have hsub : ((List.kerase k s.entries).map fun e => f e.2).Sublist
      (s.entries.map fun e => f e.2) := (List.kerase_sublist k s.entries).map _
  rw [total, AList.entries_insert, List.map_cons, List.sum_cons]
  exact add_le_add_right (hsub.sum_le_sum fun _ _ => zero_le) _

/-! ### Finite maps -/

section Maps

variable [DecidableEq κ] [AddCommMonoid M]

/-- The sum of `f` over the values of a finite map. -/
def mapTotal (f : ν → M) (m : Map κ ν) : M := ∑ k ∈ m.keys, (m.lookup k).elim 0 f

@[simp] theorem mapTotal_empty (f : ν → M) : mapTotal f (∅ : Map κ ν) = 0 := by
  unfold mapTotal
  rw [Finmap.keys_empty, Finset.sum_empty]

theorem keys_insert (m : Map κ ν) (k : κ) (v : ν) : (m.insert k v).keys = insert k m.keys := by
  ext k'
  rw [Finmap.mem_keys, Finmap.mem_insert, Finset.mem_insert, Finmap.mem_keys]

/-- A value that has grown by `d` adds `d` to the sum. -/
theorem mapTotal_insert (f : ν → M) (m : Map κ ν) (k : κ) {v : ν} {d : M}
    (hd : f v = (m.lookup k).elim 0 f + d) : mapTotal f (m.insert k v) = mapTotal f m + d := by
  have hk : k ∈ insert k m.keys := Finset.mem_insert_self k m.keys
  have hbefore : mapTotal f m = ∑ k' ∈ insert k m.keys, (m.lookup k').elim 0 f := by
    refine (Finset.sum_insert_of_eq_zero_if_notMem fun hnot => ?_).symm
    rw [Finmap.lookup_eq_none.mpr fun hmem => hnot (Finmap.mem_keys.mpr hmem)]
    rfl
  have hothers : ∀ k' ∈ (insert k m.keys).erase k,
      ((m.insert k v).lookup k').elim 0 f = (m.lookup k').elim 0 f := by
    intro k' hk'
    rw [Finmap.lookup_insert_of_ne m (Finset.ne_of_mem_erase hk')]
  rw [hbefore, mapTotal, keys_insert, ← Finset.sum_erase_add _ _ hk, ← Finset.sum_erase_add _ _ hk,
    Finset.sum_congr rfl hothers, Finmap.lookup_insert, Option.elim_some, hd, add_assoc]

end Maps

end MagnumOpus.KeyedSum
