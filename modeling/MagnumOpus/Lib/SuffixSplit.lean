import Mathlib.Data.List.Basic

/-! # Splitting a word before one of its endings

`splitSuffix qs w` splits `w` before the first of the endings `qs` that `w` has and that leaves
something before it.  When the endings come longest first it takes the longest one, and that
settles the result (`splitSuffix_eq_some_iff`).

A separator splits a word in one way when it is not in what comes before it (`append_sep_inj`), or
not in what comes after it (`append_sep_inj_right`). -/

namespace MagnumOpus.SuffixSplit

variable {α : Type*} {qs : List (List α)} {w b q : List α}

/-! ### Separators -/

theorem append_sep_inj {sep : α} : ∀ {as bs xs ys : List α}, sep ∉ as → sep ∉ bs →
    as ++ sep :: xs = bs ++ sep :: ys → as = bs ∧ xs = ys
  | [], [], _, _, _, _, h => ⟨rfl, (List.cons.inj h).2⟩
  | [], b :: bs, _, _, _, hbs, h => by
      have hb : sep = b := (List.cons.inj h).1
      exact absurd (hb ▸ List.mem_cons_self) hbs
  | a :: as, [], _, _, has, _, h => by
      have ha : a = sep := (List.cons.inj h).1
      exact absurd (ha ▸ List.mem_cons_self) has
  | a :: as, b :: bs, _, _, has, hbs, h => by
      obtain ⟨rfl, htail⟩ := List.cons.inj h
      obtain ⟨rfl, hrest⟩ := append_sep_inj (fun h' => has (List.mem_cons_of_mem _ h'))
        (fun h' => hbs (List.mem_cons_of_mem _ h')) htail
      exact ⟨rfl, hrest⟩

theorem append_sep_inj_right {sep : α} {as bs xs ys : List α} (hxs : sep ∉ xs) (hys : sep ∉ ys)
    (h : as ++ sep :: xs = bs ++ sep :: ys) : as = bs ∧ xs = ys := by
  have hrev : xs.reverse ++ sep :: as.reverse = ys.reverse ++ sep :: bs.reverse := by
    simpa using congrArg List.reverse h
  obtain ⟨hx, ha⟩ := append_sep_inj (by simpa using hxs) (by simpa using hys) hrev
  exact ⟨List.reverse_injective ha, List.reverse_injective hx⟩

/-! ### Endings -/

/-- `w` has the ending `q` and something before it. -/
def Splits (w q : List α) : Prop := q <:+ w ∧ w.take (w.length - q.length) ≠ []

theorem splits_append_iff : Splits (b ++ q) q ↔ b ≠ [] := by
  rw [Splits, List.length_append, Nat.add_sub_cancel, List.take_left]
  exact and_iff_right (List.suffix_append b q)

theorem splits_iff_exists : Splits w q ↔ ∃ b, b ≠ [] ∧ b ++ q = w := by
  constructor
  · rintro ⟨⟨b, rfl⟩, hne⟩
    exact ⟨b, splits_append_iff.mp ⟨List.suffix_append b q, hne⟩, rfl⟩
  · rintro ⟨b, hne, rfl⟩
    exact splits_append_iff.mpr hne

variable [DecidableEq α]

instance decidableSplits (w q : List α) : Decidable (Splits w q) :=
  inferInstanceAs (Decidable (_ ∧ _))

def splitSuffix (qs : List (List α)) (w : List α) : Option (List α × List α) :=
  qs.findSome? fun q => if Splits w q then some (w.take (w.length - q.length), q) else none

theorem splitSuffix_cons_of_splits {q₀ : List α} (h : Splits w q₀) :
    splitSuffix (q₀ :: qs) w = some (w.take (w.length - q₀.length), q₀) := by
  rw [splitSuffix, List.findSome?_cons, if_pos h]

theorem splitSuffix_cons_of_not {q₀ : List α} (h : ¬ Splits w q₀) :
    splitSuffix (q₀ :: qs) w = splitSuffix qs w := by
  rw [splitSuffix, List.findSome?_cons, if_neg h, splitSuffix]

/-- The two parts make up the word, and there is something in the first. -/
theorem append_of_splitSuffix : ∀ {qs : List (List α)}, splitSuffix qs w = some (b, q) →
    b ++ q = w ∧ q ∈ qs ∧ b ≠ []
  | q₀ :: qs, h => by
      by_cases hsplits : Splits w q₀
      · obtain ⟨b', hb', rfl⟩ := splits_iff_exists.mp hsplits
        rw [splitSuffix_cons_of_splits hsplits, List.length_append, Nat.add_sub_cancel,
          List.take_left] at h
        obtain ⟨rfl, rfl⟩ := Prod.mk.inj (Option.some.inj h)
        exact ⟨rfl, List.mem_cons_self, hb'⟩
      · rw [splitSuffix_cons_of_not hsplits] at h
        obtain ⟨hap, hmem, hne⟩ := append_of_splitSuffix h
        exact ⟨hap, List.mem_cons_of_mem q₀ hmem, hne⟩

theorem splitSuffix_eq_none_iff : splitSuffix qs w = none ↔ ∀ q ∈ qs, ¬ Splits w q := by
  simp [splitSuffix, List.findSome?_eq_none_iff]

/-- Among endings that come longest first the longest is taken. -/
theorem longest_of_splitSuffix :
    ∀ {qs : List (List α)}, qs.Pairwise (fun q q' => q'.length ≤ q.length) →
      splitSuffix qs w = some (b, q) → ∀ q' ∈ qs, Splits w q' → q'.length ≤ q.length
  | q₀ :: qs, hsorted, h, q', hq', hsplits => by
      obtain ⟨hhead, htail⟩ := List.pairwise_cons.mp hsorted
      by_cases hfirst : Splits w q₀
      · rw [splitSuffix_cons_of_splits hfirst] at h
        obtain ⟨-, rfl⟩ := Prod.mk.inj (Option.some.inj h)
        rcases List.mem_cons.mp hq' with rfl | hmem
        · exact Nat.le_refl _
        · exact hhead q' hmem
      · rw [splitSuffix_cons_of_not hfirst] at h
        rcases List.mem_cons.mp hq' with rfl | hmem
        · exact absurd hsplits hfirst
        · exact longest_of_splitSuffix htail h q' hmem hsplits

theorem splitSuffix_eq_some_iff (hsorted : qs.Pairwise fun q q' => q'.length ≤ q.length) :
    splitSuffix qs w = some (b, q) ↔
      (b ++ q = w ∧ q ∈ qs ∧ b ≠ []) ∧ ∀ q' ∈ qs, Splits w q' → q'.length ≤ q.length := by
  refine ⟨fun h => ⟨append_of_splitSuffix h, longest_of_splitSuffix hsorted h⟩, ?_⟩
  rintro ⟨⟨rfl, hmem, hne⟩, hmax⟩
  cases h : splitSuffix qs (b ++ q) with
  | none => exact absurd (splits_append_iff.mpr hne) (splitSuffix_eq_none_iff.mp h q hmem)
  | some p =>
      obtain ⟨hap, hpmem, hpne⟩ := append_of_splitSuffix h
      -- both endings are longest, so they have the same length
      have hle : q.length ≤ p.2.length :=
        longest_of_splitSuffix hsorted h q hmem (splits_append_iff.mpr hne)
      have hge : p.2.length ≤ q.length :=
        hmax p.2 hpmem (splits_iff_exists.mpr ⟨p.1, hpne, hap⟩)
      obtain ⟨hb, hq⟩ := List.append_inj' hap (Nat.le_antisymm hge hle)
      exact congrArg some (Prod.ext hb hq)

end MagnumOpus.SuffixSplit
