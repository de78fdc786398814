import Mathlib.Data.List.Basic
import Mathlib.Tactic.IntervalCases

/-! # Decimal texts of 64-bit integers

Formatting and parsing of machine integers in base ten, as Go's package `strconv` documents them.
`parseDigits` reads the digits from left to right and stops at the first character that is not a
digit (`badText`) or at the first digit that takes the value beyond 64 bits (`outOfRange`),
whichever comes first.  `readInt` is `ParseInt(s, 10, 64)` with its error, `parseInt` the value it
returns all the same: `0` for a bad text, the nearest representable number for one out of range.
`readInt32` is the number of `ParseInt(s, 10, 32)`, unless that reports an error.

The round trips are `parseInt_formatInt` and, for a text that was written as an unsigned number and
is read as a signed one, `toInt_parseInt_formatUint`, which is exact below `2^63` only
(`parseInt_formatUint_eq_iff`). -/

namespace MagnumOpus.Strconv

/-- Why a text is not accepted as a number. -/
inductive NumError where
  | badText
  | outOfRange
deriving DecidableEq, Repr

/-- Reads the remaining digits of a text whose digits so far denote `n`. -/
def parseDigits : ℕ → List Char → Except NumError ℕ
  | n, [] => .ok n
  | n, c :: cs =>
      if c.isDigit then
        let n' := 10 * n + (c.toNat - '0'.toNat)
        if 2 ^ 64 ≤ n' then .error .outOfRange else parseDigits n' cs
      else .error .badText

/-- The digits of an unsigned number. -/
def parseDigitText : List Char → Except NumError ℕ
  | [] => .error .badText
  | cs => parseDigits 0 cs

/-- `ParseUint(s, 10, 64)`. -/
def parseUint (s : String) : Except NumError UInt64 := do
  return UInt64.ofNat (← parseDigitText s.toList)

/-- Splits off a leading sign; `true` is a minus. -/
def splitSign : List Char → Bool × List Char
  | '+' :: cs => (false, cs)
  | '-' :: cs => (true, cs)
  | cs => (false, cs)

/-- `ParseInt(s, 10, 64)`, for a caller that looks at the error. -/
def readInt (s : String) : Except NumError Int64 := do
  let (neg, digits) := splitSign s.toList
  let n ← parseDigitText digits
  if neg then
    if 2 ^ 63 < n then throw .outOfRange else return Int64.ofInt (-n)
  else
    if 2 ^ 63 ≤ n then throw .outOfRange else return Int64.ofInt n

/-- The number that `ParseInt(s, 10, 64)` returns, whether or not it reports an error. -/
def parseInt (s : String) : Int64 :=
  let (neg, digits) := splitSign s.toList
  match parseDigitText digits with
  | .error .badText => 0
  | .error .outOfRange => if neg then Int64.minValue else Int64.maxValue
  | .ok n =>
      if neg then (if 2 ^ 63 < n then Int64.minValue else Int64.ofInt (-n))
      else (if 2 ^ 63 ≤ n then Int64.maxValue else Int64.ofInt n)

/-- A number with its sign, if it fits into 32 bits. -/
def signed32 (neg : Bool) : Except NumError ℕ → Option ℤ
  | .error _ => none
  | .ok n =>
      let v : ℤ := if neg then -n else n
      if -2 ^ 31 ≤ v ∧ v < 2 ^ 31 then some v else none

/-- `ParseInt(s, 10, 32)`, where it reports no error. -/
def readInt32 (s : String) : Option ℤ :=
  let (neg, digits) := splitSign s.toList
  signed32 neg (parseDigitText digits)

/-- `FormatUint(n, 10)`. -/
def formatUint (n : UInt64) : String := n.toNat.repr

/-- `FormatInt(n, 10)`. -/
def formatInt (n : Int64) : String :=
  if n.toInt < 0 then "-" ++ n.toInt.natAbs.repr else n.toInt.natAbs.repr

/-! ### Reading back what was written -/

theorem le_ofDigitChars : ∀ (cs : List Char) (n : ℕ), n ≤ Nat.ofDigitChars 10 cs n
  | [], n => by rw [Nat.ofDigitChars_nil]
  | c :: cs, n => by
      rw [Nat.ofDigitChars_cons]
      have := le_ofDigitChars cs (10 * n + (c.toNat - '0'.toNat))
      omega

theorem parseDigits_of_lt : ∀ (cs : List Char) (n : ℕ), (∀ c ∈ cs, c.isDigit) →
    Nat.ofDigitChars 10 cs n < 2 ^ 64 → parseDigits n cs = .ok (Nat.ofDigitChars 10 cs n)
  | [], n, _, _ => by rw [Nat.ofDigitChars_nil, parseDigits]
  | c :: cs, n, hd, hlt => by
      rw [Nat.ofDigitChars_cons] at hlt ⊢
      have hle := le_ofDigitChars cs (10 * n + (c.toNat - '0'.toNat))
      have hn : ¬ 2 ^ 64 ≤ 10 * n + (c.toNat - '0'.toNat) := by omega
      rw [parseDigits, if_pos (hd c (by simp)), if_neg hn]
      exact parseDigits_of_lt cs _ (fun c' hc' => hd c' (List.mem_cons_of_mem c hc')) hlt

theorem parseDigits_eq_ok : ∀ (cs : List Char) (n : ℕ) {m : ℕ},
    parseDigits n cs = .ok m → m = Nat.ofDigitChars 10 cs n
  | [], n, m, h => by
      rw [parseDigits, Except.ok.injEq] at h
      rw [Nat.ofDigitChars_nil, h]
  | c :: cs, n, m, h => by
      rw [parseDigits] at h
      rw [Nat.ofDigitChars_cons]
      split at h
      · dsimp only at h
        split at h
        · cases h
        · exact parseDigits_eq_ok cs _ h
      · cases h

/-- The digits of a number are read back as the number or not at all. -/
theorem parseDigitText_repr_eq_ok {n m : ℕ} (h : parseDigitText n.repr.toList = .ok m) :
    m = n := by
  rw [Nat.toList_repr] at h
  have hval : Nat.ofDigitChars 10 (Nat.toDigits 10 n) 0 = n := Nat.ofDigitChars_ten_toDigits
  cases hd : Nat.toDigits 10 n with
  | nil => exact absurd hd Nat.toDigits_ne_nil
  | cons c cs =>
      rw [hd] at h hval
      exact (parseDigits_eq_ok _ _ h).trans hval

/-- The digits of a number below `2^64` are read back as the number. -/
theorem parseDigitText_repr {n : ℕ} (hn : n < 2 ^ 64) :
    parseDigitText n.repr.toList = .ok n := by
  rw [Nat.toList_repr]
  have hne : Nat.toDigits 10 n ≠ [] := Nat.toDigits_ne_nil
  have hval : Nat.ofDigitChars 10 (Nat.toDigits 10 n) 0 = n := Nat.ofDigitChars_ten_toDigits
  have hread := parseDigits_of_lt (Nat.toDigits 10 n) 0
    (fun c hc => Nat.isDigit_of_mem_toDigits (by omega) (le_refl _) hc) (by rw [hval]; exact hn)
  rw [hval] at hread
  cases h : Nat.toDigits 10 n with
  | nil => exact absurd h hne
  | cons c cs => rw [h] at hread; exact hread

/-- A text of digits has no sign to split off. -/
theorem splitSign_repr (n : ℕ) : splitSign n.repr.toList = (false, n.repr.toList) := by
  rw [Nat.toList_repr]
  cases h : Nat.toDigits 10 n with
  | nil => rfl
  | cons c cs =>
      have hc : c.isDigit = true :=
        Nat.isDigit_of_mem_toDigits (b := 10) (n := n) (by omega) (le_refl _) (by rw [h]; simp)
      unfold splitSign
      split
      · next heq => obtain ⟨rfl, -⟩ := List.cons.inj heq; exact absurd hc (by decide)
      · next heq => obtain ⟨rfl, -⟩ := List.cons.inj heq; exact absurd hc (by decide)
      · rfl

theorem splitSign_neg (n : ℕ) : splitSign ("-" ++ n.repr).toList = (true, n.repr.toList) := by
  simp [String.toList_append, splitSign]

theorem parseInt_repr {n : ℕ} (hn : n < 2 ^ 64) :
    parseInt n.repr = if 2 ^ 63 ≤ n then Int64.maxValue else Int64.ofInt n := by
  simp only [parseInt, splitSign_repr, parseDigitText_repr hn, Bool.false_eq_true, if_false]

theorem parseInt_neg_repr {n : ℕ} (hn : n ≤ 2 ^ 63) :
    parseInt ("-" ++ n.repr) = Int64.ofInt (-n) := by
  simp only [parseInt, splitSign_neg, parseDigitText_repr (lt_of_le_of_lt hn (by norm_num)), if_true,
    not_lt.mpr hn, if_false]

theorem parseInt_formatInt (n : Int64) : parseInt (formatInt n) = n := by
  have hlo := n.le_toInt
  have hhi := n.toInt_lt
  rw [formatInt]
  split
  · next hneg =>
      rw [parseInt_neg_repr (by omega), show -((n.toInt.natAbs : ℕ) : ℤ) = n.toInt by omega,
        Int64.ofInt_toInt]
  · next hpos =>
      rw [parseInt_repr (by omega), if_neg (by omega),
        show ((n.toInt.natAbs : ℕ) : ℤ) = n.toInt by omega, Int64.ofInt_toInt]

/-- A formatted number is read back without an error. -/
theorem readInt_formatInt (n : Int64) : readInt (formatInt n) = .ok n := by
  have hlo := n.le_toInt
  have hhi := n.toInt_lt
  unfold readInt formatInt
  by_cases hneg : n.toInt < 0
  · rw [if_pos hneg, splitSign_neg]
    simp only [parseDigitText_repr (by omega : n.toInt.natAbs < 2 ^ 64)]
    have habs : -((n.toInt.natAbs : ℕ) : ℤ) = n.toInt := by omega
    have hfits : ¬ 2 ^ 63 < n.toInt.natAbs := by omega
    simp only [bind, Except.bind, if_true, if_neg hfits, habs, Int64.ofInt_toInt]
    rfl
  · rw [if_neg hneg, splitSign_repr]
    simp only [parseDigitText_repr (by omega : n.toInt.natAbs < 2 ^ 64)]
    have habs : ((n.toInt.natAbs : ℕ) : ℤ) = n.toInt := by omega
    have hfits : ¬ 2 ^ 63 ≤ n.toInt.natAbs := by omega
    simp only [bind, Except.bind, Bool.false_eq_true, if_false, if_neg hfits, habs,
      Int64.ofInt_toInt]
    rfl

/-- A number is read back as one of 32 bits exactly when it is one. -/
theorem readInt32_repr (n : ℤ) :
    readInt32 n.repr = if -2 ^ 31 ≤ n ∧ n < 2 ^ 31 then some n else none := by
  have hread : ∀ (neg : Bool) (k : ℕ), n = (if neg then -(k : ℤ) else k) →
      signed32 neg (parseDigitText k.repr.toList) =
        if -2 ^ 31 ≤ n ∧ n < 2 ^ 31 then some n else none := by
    intro neg k hk
    cases hp : parseDigitText k.repr.toList with
    | ok m =>
        rw [parseDigitText_repr_eq_ok hp, hk]
        rfl
    | error e =>
        have hlarge : ¬ k < 2 ^ 64 := fun hlt => by
          rw [parseDigitText_repr hlt] at hp
          cases hp
        rw [if_neg]
        · rfl
        · cases neg <;> simp only [Bool.false_eq_true, if_false, if_true] at hk <;> omega
  cases n with
  | ofNat k =>
      have hs : splitSign (Int.ofNat k).repr.toList = (false, k.repr.toList) := splitSign_repr k
      rw [readInt32, hs]
      exact hread false k rfl
  | negSucc k =>
      have hs : splitSign (Int.negSucc k).repr.toList = (true, (k + 1).repr.toList) :=
        splitSign_neg (k + 1)
      rw [readInt32, hs]
      exact hread true (k + 1) rfl

/-- An unsigned number that is read as a signed one is cut off at `2^63 - 1`. -/
theorem toInt_parseInt_formatUint (n : UInt64) :
    (parseInt (formatUint n)).toInt = if 2 ^ 63 ≤ n.toNat then 2 ^ 63 - 1 else (n.toNat : ℤ) := by
  rw [formatUint, parseInt_repr n.toNat_lt]
  split
  · rfl
  · next h => exact Int64.toInt_ofInt_of_le (by omega) (by omega)

theorem parseInt_formatUint_eq_iff (n : UInt64) :
    (parseInt (formatUint n)).toInt = n.toNat ↔ n.toNat < 2 ^ 63 := by
  rw [toInt_parseInt_formatUint]
  split <;> omega

end MagnumOpus.Strconv
