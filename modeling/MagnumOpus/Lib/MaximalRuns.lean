import Mathlib.Algebra.GroupWithZero.Nat
import Mathlib.Data.List.Basic

/-! # Maximal runs

The maximal runs of entries of a list that satisfy a test, found in one pass that keeps the index
where the run it is in began (`stretches`).  `stretches_spec`: the stretches are maximal runs, they
are in order with an entry between two of them that fails the test, and together they have the
entries that pass. -/

namespace MagnumOpus.MaximalRuns

/-- A stretch of a list. -/
structure Stretch where
  start : ℕ
  length : ℕ
deriving DecidableEq, Repr

variable {α : Type*} {p : α → Bool}

def Stretch.entries (xs : List α) (s : Stretch) : List α := (xs.drop s.start).take s.length

/-- All entries of the stretch pass the test, and the ones before and after it do not. -/
structure Stretch.IsMaximal (p : α → Bool) (xs : List α) (s : Stretch) : Prop where
  pos : 0 < s.length
  within : s.start + s.length ≤ xs.length
  inside : ∀ x ∈ s.entries xs, p x = true
  before : ∀ x ∈ (xs.take s.start).getLast?, p x = false
  after : ∀ x ∈ xs[s.start + s.length]?, p x = false

theorem Stretch.IsMaximal.length_entries {xs : List α} {s : Stretch} (h : s.IsMaximal p xs) :
    (s.entries xs).length = s.length := by
  have hwithin := h.within
  rw [Stretch.entries, List.length_take, List.length_drop]
  omega

/-- The pass over the entries from index `i` on, where a run may have begun. -/
def stretchesFrom (p : α → Bool) : ℕ → Option ℕ → List α → List Stretch
  | _, none, [] => []
  | i, some s, [] => [⟨s, i - s⟩]
  | i, none, x :: xs => stretchesFrom p (i + 1) (if p x then some i else none) xs
  | i, some s, x :: xs =>
      if p x then stretchesFrom p (i + 1) (some s) xs
      else ⟨s, i - s⟩ :: stretchesFrom p (i + 1) none xs

def stretches (p : α → Bool) (xs : List α) : List Stretch := stretchesFrom p 0 none xs

/-- What the stretches `ss` of a list are: its maximal runs from index `n` on, with the entries
`ys`. -/
structure AreRuns (p : α → Bool) (xs : List α) (n : ℕ) (ys : List α) (ss : List Stretch) :
    Prop where
  maximal : ∀ s ∈ ss, s.IsMaximal p xs
  from_le : ∀ s ∈ ss, n ≤ s.start
  apart : ss.Pairwise fun s s' => s.start + s.length < s'.start
  entries : ss.flatMap (Stretch.entries xs) = ys

/-- The run `r` after `pre` is open, if there is one. -/
def openRun (pre r : List α) : Option ℕ := if r = [] then none else some pre.length

theorem openRun_append_singleton (pre r : List α) (x : α) :
    openRun pre (r ++ [x]) = some pre.length :=
  if_neg (List.append_ne_nil_of_right_ne_nil r (List.cons_ne_nil x []))

variable {pre r rest : List α} {x : α}

theorem entries_run (pre r rest : List α) :
    Stretch.entries (pre ++ r ++ rest) ⟨pre.length, r.length⟩ = r := by
  rw [Stretch.entries, List.append_assoc, List.drop_left, List.take_left]

theorem isMaximal_run (hr : r ≠ []) (hpre : ∀ y ∈ pre.getLast?, p y = false)
    (hall : ∀ y ∈ r, p y = true) (hrest : ∀ y ∈ rest.head?, p y = false) :
    Stretch.IsMaximal p (pre ++ r ++ rest) ⟨pre.length, r.length⟩ where
  pos := List.length_pos_iff.mpr hr
  within := by simp
  inside := by rwa [entries_run]
  before := by rwa [List.append_assoc, List.take_left]
  after := by
    rw [← List.length_append, List.getElem?_append_right (Nat.le_refl _), Nat.sub_self,
      ← List.head?_eq_getElem?]
    exact hrest

/-- An open run that ends here. -/
theorem AreRuns.cons_run {ys : List α} {ss : List Stretch} (hr : r ≠ [])
    (hpre : ∀ y ∈ pre.getLast?, p y = false) (hall : ∀ y ∈ r, p y = true)
    (hrest : ∀ y ∈ rest.head?, p y = false)
    (h : AreRuns p (pre ++ r ++ rest) (pre.length + r.length + 1) ys ss) :
    AreRuns p (pre ++ r ++ rest) pre.length (r ++ ys) (⟨pre.length, r.length⟩ :: ss) where
  maximal := List.forall_mem_cons.mpr ⟨isMaximal_run hr hpre hall hrest, h.maximal⟩
  from_le := List.forall_mem_cons.mpr ⟨Nat.le_refl _, fun s hs => by
    have hle := h.from_le s hs
    omega⟩
  apart := List.pairwise_cons.mpr ⟨fun s hs => h.from_le s hs, h.apart⟩
  entries := by rw [List.flatMap_cons, entries_run, h.entries]

theorem areRuns_nil (xs : List α) (n : ℕ) : AreRuns p xs n [] [] where
  maximal := fun _ h => absurd h List.not_mem_nil
  from_le := fun _ h => absurd h List.not_mem_nil
  apart := List.Pairwise.nil
  entries := rfl

theorem AreRuns.mono {xs ys : List α} {m n : ℕ} {ss : List Stretch} (h : AreRuns p xs n ys ss)
    (hle : m ≤ n) : AreRuns p xs m ys ss :=
  ⟨h.maximal, fun s hs => Nat.le_trans hle (h.from_le s hs), h.apart, h.entries⟩

/-- The pass goes into the run, or begins one. -/
theorem stretchesFrom_of_pass (pre r rest : List α) (hx : p x = true) :
    stretchesFrom p (pre ++ r).length (openRun pre r) (x :: rest) =
      stretchesFrom p (pre ++ (r ++ [x])).length (openRun pre (r ++ [x])) rest := by
  have hlen : (pre ++ (r ++ [x])).length = (pre ++ r).length + 1 := by
    rw [← List.append_assoc, List.length_append, List.length_singleton]
  rw [openRun_append_singleton, hlen]
  by_cases hr : r = []
  · subst hr
    rw [openRun, if_pos rfl, stretchesFrom, if_pos hx, List.append_nil]
  · rw [openRun, if_neg hr, stretchesFrom, if_pos hx]

theorem stretchesFrom_spec : ∀ (rest : List α) {pre r : List α},
    (∀ y ∈ pre.getLast?, p y = false) → (∀ y ∈ r, p y = true) →
    AreRuns p (pre ++ r ++ rest) pre.length (r ++ rest.filter p)
      (stretchesFrom p (pre ++ r).length (openRun pre r) rest)
  | [], pre, r, hpre, hall => by
      by_cases hr : r = []
      · subst hr
        exact areRuns_nil _ _
      · rw [openRun, if_neg hr, stretchesFrom, List.length_append, Nat.add_sub_cancel_left]
        exact (areRuns_nil _ _).cons_run hr hpre hall fun y hy => by cases hy
  | x :: rest, pre, r, hpre, hall => by
      cases hx : p x with
      | true =>
          have hall' : ∀ y ∈ r ++ [x], p y = true :=
            List.forall_mem_append.mpr ⟨hall, fun y hy => List.mem_singleton.mp hy ▸ hx⟩
          have ih := stretchesFrom_spec rest hpre hall'
          rw [stretchesFrom_of_pass pre r rest hx, List.filter_cons_of_pos hx]
          simpa only [List.append_assoc, List.singleton_append] using ih
      | false =>
          have hpre' : ∀ y ∈ (pre ++ r ++ [x]).getLast?, p y = false := by
            rw [List.getLast?_concat]
            rintro y ⟨⟩
            exact hx
          have ih := @stretchesFrom_spec rest (pre ++ r ++ [x]) [] hpre' fun y hy =>
            absurd hy List.not_mem_nil
          have hnone : openRun (pre ++ r ++ [x]) [] = none := rfl
          rw [hnone, List.append_nil, List.length_append, List.length_singleton, List.nil_append,
            List.append_assoc, List.singleton_append, List.length_append] at ih
          rw [List.filter_cons_of_neg (by rw [hx]; decide), List.length_append]
          by_cases hr : r = []
          · subst hr
            rw [openRun, if_pos rfl, stretchesFrom, if_neg (by rw [hx]; decide)]
            exact ih.mono (by omega)
          · rw [openRun, if_neg hr, stretchesFrom, if_neg (by rw [hx]; decide),
              Nat.add_sub_cancel_left]
            exact ih.cons_run hr hpre hall fun y hy => by
              rw [List.head?_cons] at hy
              cases hy
              exact hx

/-- **The stretches of a list.** -/
theorem stretches_spec (p : α → Bool) (xs : List α) :
    AreRuns p xs 0 (xs.filter p) (stretches p xs) :=
  @stretchesFrom_spec _ p xs [] [] (fun y hy => by cases hy) fun y hy => absurd hy List.not_mem_nil

/-- The lengths of the stretches make up the number of entries that pass. -/
theorem sum_length_stretches (p : α → Bool) (xs : List α) :
    ((stretches p xs).map Stretch.length).sum = (xs.filter p).length := by
  have h := stretches_spec p xs
  rw [← h.entries, List.length_flatMap]
  exact congrArg List.sum (List.map_congr_left fun s hs => (h.maximal s hs).length_entries.symm)

end MagnumOpus.MaximalRuns
