import Mathlib.Algebra.Order.Field.Rat
import Mathlib.Data.List.TakeWhile
import MagnumOpus.Lib.Strconv

/-! # Texts of exact numbers

A `FloatText` writes numbers as texts and reads them back without loss.  `fraction` is one: whole
numbers are written in base ten, all others as a fraction in lowest terms. -/

namespace MagnumOpus

structure FloatText where
  format : ℚ → String
  parse : String → Option ℚ
  parse_format : ∀ x, parse (format x) = some x
  parse_empty : parse "" = none

namespace FloatText

open Strconv

/-- A text that was written is not empty. -/
theorem format_ne_empty (C : FloatText) (x : ℚ) : C.format x ≠ "" := by
  intro h
  have hx := C.parse_format x
  rw [h, C.parse_empty] at hx
  cases hx

def formatFraction (x : ℚ) : String :=
  (if x < 0 then "-" else "") ++ x.num.natAbs.repr ++
    (if x.den = 1 then "" else "/" ++ x.den.repr)

/-- Reads the digits after the sign. -/
def parseDigitFraction (cs : List Char) : Option ℚ :=
  match cs.takeWhile Char.isDigit, cs.dropWhile Char.isDigit with
  | [], _ => none
  | ds, [] => some (Nat.ofDigitChars 10 ds 0)
  | ds, '/' :: es =>
      if es.all Char.isDigit then
        some (Nat.ofDigitChars 10 ds 0 / Nat.ofDigitChars 10 es 0)
      else none
  | _, _ => none

def parseFraction (s : String) : Option ℚ :=
  let (neg, cs) := splitSign s.toList
  (parseDigitFraction cs).map fun x => if neg then -x else x

theorem isDigit_repr {n : ℕ} {c : Char} (hc : c ∈ n.repr.toList) : c.isDigit := by
  rw [Nat.toList_repr] at hc
  exact Nat.isDigit_of_mem_toDigits (by omega) (le_refl _) hc

theorem ofDigitChars_repr (n : ℕ) : Nat.ofDigitChars 10 n.repr.toList 0 = n := by
  rw [Nat.toList_repr, Nat.ofDigitChars_ten_toDigits]

theorem repr_ne_nil (n : ℕ) : n.repr.toList ≠ [] := by
  rw [Nat.toList_repr]
  exact Nat.toDigits_ne_nil

theorem parseDigitFraction_whole (n : ℕ) :
    parseDigitFraction n.repr.toList = some (n : ℚ) := by
  have htake : n.repr.toList.takeWhile Char.isDigit = n.repr.toList :=
    List.takeWhile_eq_self_iff.mpr fun c hc => isDigit_repr hc
  have hdrop : n.repr.toList.dropWhile Char.isDigit = [] :=
    List.dropWhile_eq_nil_iff.mpr fun c hc => isDigit_repr hc
  cases hn : n.repr.toList with
  | nil => exact absurd hn (repr_ne_nil n)
  | cons c cs =>
      rw [hn] at htake hdrop
      simp only [parseDigitFraction, htake, hdrop]
      rw [← hn, ofDigitChars_repr]

theorem parseDigitFraction_quotient (n m : ℕ) :
    parseDigitFraction (n.repr.toList ++ '/' :: m.repr.toList) = some (n / m : ℚ) := by
  have hdig : ∀ c ∈ n.repr.toList, c.isDigit := fun c hc => isDigit_repr hc
  have htake : (n.repr.toList ++ '/' :: m.repr.toList).takeWhile Char.isDigit =
      n.repr.toList := by
    rw [List.takeWhile_append_of_pos hdig, List.takeWhile_cons_of_neg (by decide), List.append_nil]
  have hdrop : (n.repr.toList ++ '/' :: m.repr.toList).dropWhile Char.isDigit =
      '/' :: m.repr.toList := by
    rw [List.dropWhile_append_of_pos hdig, List.dropWhile_cons_of_neg (by decide)]
  have hm : m.repr.toList.all Char.isDigit = true :=
    List.all_eq_true.mpr fun c hc => isDigit_repr hc
  cases hn : n.repr.toList with
  | nil => exact absurd hn (repr_ne_nil n)
  | cons c cs =>
      rw [hn] at htake hdrop
      simp only [parseDigitFraction, htake, hdrop, hm, if_true]
      rw [← hn, ofDigitChars_repr, ofDigitChars_repr]

/-- Digits have no sign before them. -/
theorem splitSign_digits {cs : List Char} (n : ℕ) :
    splitSign (n.repr.toList ++ cs) = (false, n.repr.toList ++ cs) := by
  cases hn : n.repr.toList with
  | nil => exact absurd hn (repr_ne_nil n)
  | cons c ds =>
      have hc : c.isDigit = true := isDigit_repr (n := n) (by rw [hn]; exact List.mem_cons_self)
      rw [List.cons_append]
      unfold splitSign
      split
      · next heq => obtain ⟨rfl, -⟩ := List.cons.inj heq; exact absurd hc (by decide)
      · next heq => obtain ⟨rfl, -⟩ := List.cons.inj heq; exact absurd hc (by decide)
      · rfl

theorem parseFraction_formatFraction (x : ℚ) : parseFraction (formatFraction x) = some x := by
  -- What follows the sign is read as the absolute value.
  set tail := if x.den = 1 then "" else "/" ++ x.den.repr with htail
  have habs : parseDigitFraction (x.num.natAbs.repr.toList ++ tail.toList) = some |x| := by
    have hx : |x| = (x.num.natAbs : ℚ) / x.den := by
      rw [Rat.abs_def, Rat.divInt_eq_div]
      simp
    rw [hx, htail]
    by_cases hden : x.den = 1
    · rw [if_pos hden, hden, Nat.cast_one, div_one]
      simpa using parseDigitFraction_whole x.num.natAbs
    · rw [if_neg hden]
      simpa [String.toList_append] using parseDigitFraction_quotient x.num.natAbs x.den
  by_cases hneg : x < 0
  · have hlist : (formatFraction x).toList =
        '-' :: (x.num.natAbs.repr.toList ++ tail.toList) := by
      simp [formatFraction, hneg, htail, String.toList_append]
    simp only [parseFraction, hlist, splitSign, habs, abs_of_neg hneg, Option.map_some, if_true,
      neg_neg]
  · have hlist : (formatFraction x).toList = x.num.natAbs.repr.toList ++ tail.toList := by
      simp [formatFraction, hneg, htail, String.toList_append]
    simp only [parseFraction, hlist, splitSign_digits, habs, abs_of_nonneg (not_lt.mp hneg),
      Option.map_some, Bool.false_eq_true, if_false]

def fraction : FloatText where
  format := formatFraction
  parse := parseFraction
  parse_format := parseFraction_formatFraction
  parse_empty := rfl

example : fraction.format (-5 / 2) = "-5/2" := by decide +kernel

end FloatText

end MagnumOpus
