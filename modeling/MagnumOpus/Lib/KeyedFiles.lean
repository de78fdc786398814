import Mathlib.Data.Finset.Sort
import Mathlib.Data.List.Forall2
import MagnumOpus.Lib.KeyedWrites

/-! # Rows kept in files

A store has a file for each key, and a file holds rows.  A program reads the files of some keys one
after another, works on all their rows as one list, and splits the list again by a key that it reads
off each row.

* **Files.** `files m p` are the files whose keys meet `p`, in the order of the keys.
* **Splitting.** `rowsOf key k rows` are the rows that belong to `k`.  The file of `k` gets its own
  rows back exactly when they all belong to it, and no row of another file does
  (`rowsOf_flatMap_iff`); read again, the parts make up the whole (`flatMap_rowsOf`).
* **Writing.** Maps with related values stay so when related values are written (`rel_writes`). -/

namespace MagnumOpus.KeyedFiles

open KeyedWrites

/-! ### Files -/

section files

variable {κ ν : Type*} [LinearOrder κ]

def files (m : Map κ ν) (p : κ → Bool) : List (κ × ν) :=
  (m.keys.sort.filter p).filterMap fun k => (m.lookup k).map (Prod.mk k)

theorem map_fst_files (m : Map κ ν) (p : κ → Bool) :
    (files m p).map Prod.fst = m.keys.sort.filter p := by
  have hall : ∀ ks : List κ, (∀ k ∈ ks, k ∈ m) →
      (ks.filterMap fun k => (m.lookup k).map (Prod.mk k)).map Prod.fst = ks := by
    intro ks
    induction ks with
    | nil => exact fun _ => rfl
    | cons k ks ih =>
        intro hks
        obtain ⟨v, hv⟩ := Option.isSome_iff_exists.mp
          (Finmap.lookup_isSome.mpr (hks k List.mem_cons_self))
        rw [List.filterMap_cons, hv, Option.map_some, List.map_cons,
          ih fun k' hk' => hks k' (List.mem_cons_of_mem k hk')]
  refine hall _ fun k hk => ?_
  exact Finmap.mem_keys.mp ((Finset.mem_sort _).mp (List.mem_of_mem_filter hk))

/-- What the files hold, key by key. -/
theorem flatMap_files {α : Type*} (m : Map κ ν) (p : κ → Bool) (f : ν → List α) :
    ((files m p).flatMap fun x => f x.2) =
      (m.keys.sort.filter p).flatMap fun k => (m.lookup k).elim [] f := by
  unfold files
  generalize m.keys.sort.filter p = ks
  induction ks with
  | nil => rfl
  | cons k ks ih =>
      rw [List.flatMap_cons, ← ih, List.filterMap_cons]
      cases m.lookup k with
      | none => rfl
      | some v => rfl

theorem nodup_files (m : Map κ ν) (p : κ → Bool) : ((files m p).map Prod.fst).Nodup := by
  rw [map_fst_files]
  exact (Finset.sort_nodup _ _).filter p

theorem mem_files {m : Map κ ν} {p : κ → Bool} {k : κ} {v : ν} :
    (k, v) ∈ files m p ↔ m.lookup k = some v ∧ p k = true := by
  unfold files
  rw [List.mem_filterMap]
  constructor
  · rintro ⟨k', hk', hv⟩
    obtain ⟨v', hv', heq⟩ := Option.map_eq_some_iff.mp hv
    cases heq
    exact ⟨hv', (List.mem_filter.mp hk').2⟩
  · rintro ⟨hv, hp⟩
    have hk : k ∈ m.keys := Finmap.mem_keys.mpr (Finmap.mem_of_lookup_eq_some hv)
    exact ⟨k, List.mem_filter.mpr ⟨(Finset.mem_sort _).mpr hk, hp⟩, by rw [hv]; rfl⟩

end files

/-! ### Splitting -/

section splitting

variable {κ α : Type*} [DecidableEq κ] {key : α → κ} {k : κ}

def rowsOf (key : α → κ) (k : κ) (rows : List α) : List α := rows.filter fun a => key a = k

theorem rowsOf_append (xs ys : List α) :
    rowsOf key k (xs ++ ys) = rowsOf key k xs ++ rowsOf key k ys := List.filter_append ..

theorem rowsOf_eq_self_iff {rows : List α} : rowsOf key k rows = rows ↔ ∀ a ∈ rows, key a = k := by
  unfold rowsOf
  rw [List.filter_eq_self]
  exact forall₂_congr fun _ _ => decide_eq_true_iff

theorem rowsOf_eq_nil_iff {rows : List α} : rowsOf key k rows = [] ↔ ∀ a ∈ rows, key a ≠ k := by
  unfold rowsOf
  rw [List.filter_eq_nil_iff]
  exact forall₂_congr fun _ _ => not_congr decide_eq_true_iff

theorem rowsOf_map {β : Type*} (f : β → α) (rows : List β) :
    rowsOf key k (rows.map f) = (rowsOf (fun b => key (f b)) k rows).map f :=
  List.filter_map

/-- A file gets its own rows back exactly when they all belong to it, and no row of another file
does. -/
theorem rowsOf_flatMap_iff (key : α → κ) {fs : List (κ × List α)} (hfs : (fs.map Prod.fst).Nodup)
    {rows : List α} (hrows : (k, rows) ∈ fs) :
    rowsOf key k (fs.flatMap Prod.snd) = rows ↔
      (∀ a ∈ rows, key a = k) ∧ ∀ f ∈ fs, f.1 ≠ k → ∀ a ∈ f.2, key a ≠ k := by
  obtain ⟨before, after, rfl⟩ := List.append_of_mem hrows
  rw [List.map_append, List.map_cons] at hfs
  have hbefore : ∀ f ∈ before, f.1 ≠ k := fun f hf heq =>
    (List.nodup_append'.mp hfs).2.2 (List.mem_map_of_mem hf) (heq ▸ List.mem_cons_self)
  have hafter : ∀ f ∈ after, f.1 ≠ k := fun f hf heq =>
    (List.nodup_cons.mp (List.nodup_append'.mp hfs).2.1).1 (List.mem_map.mpr ⟨f, hf, heq⟩)
  have hothers : (∀ f ∈ before ++ (k, rows) :: after, f.1 ≠ k → ∀ a ∈ f.2, key a ≠ k) ↔
      rowsOf key k (before.flatMap Prod.snd) = [] ∧ rowsOf key k (after.flatMap Prod.snd) = [] := by
    simp only [rowsOf_eq_nil_iff, List.mem_flatMap, List.mem_append, List.mem_cons]
    constructor
    · intro h
      constructor
      · rintro a ⟨f, hf, ha⟩
        exact h f (.inl hf) (hbefore f hf) a ha
      · rintro a ⟨f, hf, ha⟩
        exact h f (.inr (.inr hf)) (hafter f hf) a ha
    · rintro ⟨hb, ha⟩ f (hf | rfl | hf) hne a hmem
      · exact hb a ⟨f, hf, hmem⟩
      · exact absurd rfl hne
      · exact ha a ⟨f, hf, hmem⟩
  rw [hothers, ← rowsOf_eq_self_iff, List.flatMap_append, List.flatMap_cons, rowsOf_append,
    rowsOf_append]
  constructor
  · intro heq
    -- the rows that come back all belong to the file, so all its rows do
    have hown : rowsOf key k rows = rows := by
      rw [rowsOf_eq_self_iff, ← heq]
      intro a ha
      simp only [rowsOf, List.mem_append, List.mem_filter, decide_eq_true_eq] at ha
      rcases ha with ha | ha | ha
      · exact ha.2
      · exact ha.2
      · exact ha.2
    have hlength := congrArg List.length heq
    rw [List.length_append, List.length_append, hown] at hlength
    exact ⟨hown, List.length_eq_zero_iff.mp (by omega), List.length_eq_zero_iff.mp (by omega)⟩
  · rintro ⟨hown, hb, ha⟩
    rw [hb, ha, hown, List.append_nil, List.nil_append]

/-- A list that holds the rows of one key after another is put together again from its parts. -/
theorem flatMap_rowsOf {n : κ → ℕ} : ∀ {ks : List κ} {rows : List α}, ks.Nodup →
    rows.map key = ks.flatMap (fun k => List.replicate (n k) k) →
      ks.flatMap (fun k => rowsOf key k rows) = rows
  | [], rows, _, h => (List.map_eq_nil_iff.mp h).symm
  | k :: ks, rows, hks, h => by
      rw [List.flatMap_cons, List.map_eq_append_iff] at h
      obtain ⟨own, others, rfl, hown, hothers⟩ := h
      obtain ⟨hk, hks⟩ := List.nodup_cons.mp hks
      have hown' : ∀ a ∈ own, key a = k := fun a ha =>
        List.eq_of_mem_replicate (hown ▸ List.mem_map_of_mem ha)
      have hothers' : ∀ a ∈ others, key a ∈ ks := fun a ha => by
        have hmem := List.mem_map_of_mem (f := key) ha
        rw [hothers, List.mem_flatMap] at hmem
        obtain ⟨k', hk', hmem⟩ := hmem
        exact List.eq_of_mem_replicate hmem ▸ hk'
      have hfirst : rowsOf key k (own ++ others) = own := by
        have hnone : rowsOf key k others = [] :=
          rowsOf_eq_nil_iff.mpr fun a ha heq => hk (heq ▸ hothers' a ha)
        rw [rowsOf_append, rowsOf_eq_self_iff.mpr hown', hnone, List.append_nil]
      have hrest : ∀ k' ∈ ks, rowsOf key k' (own ++ others) = rowsOf key k' others :=
        fun k' hk' => by
          have hnone : rowsOf key k' own = [] := rowsOf_eq_nil_iff.mpr fun a ha heq =>
            hk (((hown' a ha).symm.trans heq).symm ▸ hk')
          rw [rowsOf_append, hnone, List.nil_append]
      rw [List.flatMap_cons, hfirst, List.flatMap_congr hrest, flatMap_rowsOf hks hothers]

end splitting

/-! ### Writing -/

section writing

variable {κ ν ν' : Type*} [DecidableEq κ] {R : ν → ν' → Prop}

/-- The same keys have related values. -/
def Related (R : ν → ν' → Prop) (m : Map κ ν) (m' : Map κ ν') : Prop :=
  ∀ k, Option.Rel R (m.lookup k) (m'.lookup k)

theorem rel_write {m : Map κ ν} {m' : Map κ ν'} (h : Related R m m') (k : κ) {v : Option ν}
    {v' : Option ν'} (hv : Option.Rel R v v') : Related R (write m k v) (write m' k v') := by
  intro k'
  by_cases hk : k' = k
  · subst hk
    rw [lookup_write_same, lookup_write_same]
    exact hv
  · rw [lookup_write_ne m v hk, lookup_write_ne m' v' hk]
    exact h k'

theorem rel_writes {m : Map κ ν} {m' : Map κ ν'} {ws : List (κ × Option ν)}
    {ws' : List (κ × Option ν')} (h : Related R m m')
    (hws : List.Forall₂ (fun w w' => w.1 = w'.1 ∧ Option.Rel R w.2 w'.2) ws ws') :
    Related R (writes m ws) (writes m' ws') := by
  induction hws generalizing m m' with
  | nil => exact h
  | cons hw _ ih =>
      obtain ⟨hk, hv⟩ := hw
      rw [writes_cons, writes_cons, ← hk]
      exact ih (rel_write h _ hv)

/-- What the writes of a function lead to. -/
theorem lookup_writes_map {k : κ} (g : κ → ν) : ∀ (ks : List κ) (m : Map κ ν),
    (writes m (ks.map fun k => (k, some (g k)))).lookup k =
      if k ∈ ks then some (g k) else m.lookup k
  | [], m => by rw [if_neg List.not_mem_nil]; rfl
  | k' :: ks, m => by
      rw [List.map_cons, writes_cons, lookup_writes_map g ks]
      by_cases hk : k ∈ ks
      · rw [if_pos hk, if_pos (List.mem_cons_of_mem k' hk)]
      · rw [if_neg hk]
        by_cases heq : k = k'
        · subst heq
          rw [lookup_write_same, if_pos List.mem_cons_self]
        · rw [lookup_write_ne m _ heq, if_neg (by simp [heq, hk])]

theorem Related.mem_iff {m : Map κ ν} {m' : Map κ ν'} (h : Related R m m') (k : κ) :
    k ∈ m ↔ k ∈ m' := by
  rw [← Finmap.lookup_isSome, ← Finmap.lookup_isSome]
  have hk := h k
  generalize m.lookup k = v at hk ⊢
  generalize m'.lookup k = v' at hk ⊢
  cases hk with
  | some _ => exact Iff.rfl
  | none => exact Iff.rfl

end writing

/-- Related stores have related files. -/
theorem Related.files {κ ν ν' : Type*} [LinearOrder κ] {R : ν → ν' → Prop} {m : Map κ ν}
    {m' : Map κ ν'} (h : Related R m m') (p : κ → Bool) :
    List.Forall₂ (fun f f' => f.1 = f'.1 ∧ R f.2 f'.2) (files m p) (files m' p) := by
  have hkeys : m.keys = m'.keys := Finset.ext fun k => by
    rw [Finmap.mem_keys, Finmap.mem_keys]
    exact h.mem_iff k
  unfold KeyedFiles.files
  rw [hkeys]
  generalize m'.keys.sort.filter p = ks
  induction ks with
  | nil => exact .nil
  | cons k ks ih =>
      rw [List.filterMap_cons, List.filterMap_cons]
      have hk := h k
      generalize m.lookup k = v at hk
      generalize m'.lookup k = v' at hk
      cases hk with
      | some hv => exact .cons ⟨rfl, hv⟩ ih
      | none => exact ih

end MagnumOpus.KeyedFiles
