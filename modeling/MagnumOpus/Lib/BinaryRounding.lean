import Mathlib.Algebra.Order.Ring.Nat
import Mathlib.Data.Nat.Size
import Mathlib.Data.Rat.Defs

/-! # Rounding to 53 binary digits

A number is a natural number divided by a power of two (`Binary64`).  The result of an operation is
the exact one rounded to 53 significant digits, to the nearest and from the middle to the even one
(`roundSig`).  The numbers are far from the ends of the range of exponents.

* **What rounding does.** It does not pass a number that has 53 digits: `le_roundSig` and
  `roundSig_le`.
* **Operations.** Conversion of a natural number, product, and the least integer that is not
  less.
* **Rationals.** `roundBinary64` rounds the exact result of an operation. -/

namespace MagnumOpus

/-- The digits of a significand. -/
def sigDigits : ℕ := 53

/-- The nearest quotient, the even one in the middle. -/
def divNearestEven (n d : ℕ) : ℕ :=
  if 2 * (n % d) < d then n / d
  else if d < 2 * (n % d) then n / d + 1
  else n / d + n / d % 2

/-- The digits that are rounded away. -/
def dropped (n : ℕ) : ℕ := n.size - sigDigits

/-- The nearest number of 53 digits. -/
def roundSig (n : ℕ) : ℕ := divNearestEven n (2 ^ dropped n) * 2 ^ dropped n

/-- A number with 53 digits at most. -/
def HasSigDigits (n : ℕ) : Prop := ∃ m f, m ≤ 2 ^ sigDigits ∧ n = m * 2 ^ f

theorem div_le_divNearestEven (n d : ℕ) : n / d ≤ divNearestEven n d := by
  unfold divNearestEven
  split
  · exact Nat.le_refl _
  · split <;> omega

theorem divNearestEven_le (n d : ℕ) : divNearestEven n d ≤ n / d + 1 := by
  unfold divNearestEven
  split
  · omega
  · split <;> omega

theorem divNearestEven_of_dvd {n d : ℕ} (hd : 0 < d) (h : d ∣ n) : divNearestEven n d = n / d := by
  rw [divNearestEven, Nat.mod_eq_zero_of_dvd h, if_pos (by omega)]

theorem dropped_bounds {n : ℕ} (h : 0 < dropped n) :
    2 ^ (52 + dropped n) ≤ n ∧ n < 2 ^ (53 + dropped n) := by
  unfold dropped sigDigits at *
  constructor
  · exact Nat.lt_size.mp (by omega)
  · exact Nat.size_le.mp (by omega)

theorem roundSig_of_dropped {n : ℕ} (h : dropped n = 0) : roundSig n = n := by
  rw [roundSig, h, Nat.pow_zero, Nat.mul_one, divNearestEven_of_dvd Nat.one_pos (Nat.one_dvd n),
    Nat.div_one]

theorem dvd_of_dropped_le {n m f : ℕ} (h : dropped n ≤ f) : 2 ^ dropped n ∣ m * 2 ^ f :=
  (Nat.pow_dvd_pow 2 h).mul_left m

/-- A number of fewer trailing places than are dropped is not greater than the least number that
has as many digits. -/
theorem le_of_lt_dropped {n m f : ℕ} (hm : m ≤ 2 ^ sigDigits) (h : f < dropped n) :
    m * 2 ^ f ≤ 2 ^ (52 + dropped n) := by
  calc m * 2 ^ f ≤ 2 ^ 53 * 2 ^ f := Nat.mul_le_mul_right _ hm
    _ = 2 ^ (53 + f) := (Nat.pow_add 2 53 f).symm
    _ ≤ 2 ^ (52 + dropped n) := Nat.pow_le_pow_right (by decide) (by omega)

/-- A number of 53 digits that is not greater is not passed. -/
theorem le_roundSig {r n : ℕ} (hr : HasSigDigits r) (h : r ≤ n) : r ≤ roundSig n := by
  rcases Nat.eq_zero_or_pos (dropped n) with hzero | hpos
  · rwa [roundSig_of_dropped hzero]
  obtain ⟨m, f, hm, rfl⟩ := hr
  have hround : n / 2 ^ dropped n * 2 ^ dropped n ≤ roundSig n :=
    Nat.mul_le_mul_right _ (div_le_divNearestEven n _)
  refine Nat.le_trans ?_ hround
  rcases Nat.lt_or_ge f (dropped n) with hlt | hge
  · have hfull : 2 ^ (52 + dropped n) ≤ n / 2 ^ dropped n * 2 ^ dropped n := by
      rw [Nat.pow_add]
      refine Nat.mul_le_mul_right _ ((Nat.le_div_iff_mul_le (Nat.two_pow_pos _)).mpr ?_)
      rw [← Nat.pow_add]
      exact (dropped_bounds hpos).1
    exact Nat.le_trans (le_of_lt_dropped hm hlt) hfull
  · obtain ⟨k, hk⟩ := dvd_of_dropped_le (m := m) hge
    rw [hk, Nat.mul_comm] at h ⊢
    exact Nat.mul_le_mul_right _ ((Nat.le_div_iff_mul_le (Nat.two_pow_pos _)).mpr h)

theorem roundSig_le {r n : ℕ} (hr : HasSigDigits r) (h : n ≤ r) : roundSig n ≤ r := by
  rcases Nat.eq_zero_or_pos (dropped n) with hzero | hpos
  · rwa [roundSig_of_dropped hzero]
  by_cases hdvd : 2 ^ dropped n ∣ n
  · rwa [roundSig, divNearestEven_of_dvd (Nat.two_pow_pos _) hdvd, Nat.div_mul_cancel hdvd]
  obtain ⟨m, f, hm, rfl⟩ := hr
  rcases Nat.lt_or_ge f (dropped n) with hlt | hge
  · -- then `n` is the least number with as many digits, and nothing is rounded away
    have heq : n = 2 ^ (52 + dropped n) :=
      Nat.le_antisymm (Nat.le_trans h (le_of_lt_dropped hm hlt)) (dropped_bounds hpos).1
    have hpow : 2 ^ dropped n ∣ 2 ^ (52 + dropped n) := Nat.pow_dvd_pow 2 (Nat.le_add_left _ _)
    rw [← heq] at hpow
    exact absurd hpow hdvd
  · obtain ⟨k, hk⟩ := dvd_of_dropped_le (m := m) hge
    rw [hk, Nat.mul_comm] at h ⊢
    have hne : n ≠ k * 2 ^ dropped n := fun heq => hdvd (Dvd.intro_left k heq.symm)
    have hlt : n / 2 ^ dropped n < k :=
      (Nat.div_lt_iff_lt_mul (Nat.two_pow_pos _)).mpr (Nat.lt_of_le_of_ne h hne)
    exact Nat.mul_le_mul_right _ (Nat.le_trans (divNearestEven_le n _) hlt)

/-! ### Numbers -/

/-- The number `num / 2 ^ scale`. -/
structure Binary64 where
  num : ℕ
  scale : ℕ
deriving DecidableEq, Repr

namespace Binary64

def ofNat (n : ℕ) : Binary64 := ⟨roundSig n, 0⟩

def mul (x y : Binary64) : Binary64 := ⟨roundSig (x.num * y.num), x.scale + y.scale⟩

/-- The least integer that is not less. -/
def ceil (x : Binary64) : ℕ := (x.num + (2 ^ x.scale - 1)) / 2 ^ x.scale

theorem ofNat_of_lt {n : ℕ} (h : n < 2 ^ sigDigits) : ofNat n = ⟨n, 0⟩ := by
  have hzero : dropped n = 0 := Nat.sub_eq_zero_of_le (Nat.size_le.mpr h)
  rw [ofNat, roundSig_of_dropped hzero]

theorem ceil_eq {x : Binary64} {k : ℕ} (hlow : k * 2 ^ x.scale < x.num)
    (hup : x.num ≤ (k + 1) * 2 ^ x.scale) : x.ceil = k + 1 := by
  have hpos := Nat.two_pow_pos x.scale
  unfold ceil
  generalize 2 ^ x.scale = d at *
  rw [Nat.add_one_mul] at hup
  refine Nat.div_eq_of_lt_le ?_ ?_
  · rw [Nat.add_one_mul]
    omega
  · rw [Nat.add_one_mul, Nat.add_one_mul]
    omega

/-- The rounded product has the least integer of the exact one when a number of 53 digits is between
the product and the integer below. -/
theorem ceil_mul_eq {x y : Binary64} {k l : ℕ} (hl : HasSigDigits l)
    (hk : HasSigDigits ((k + 1) * 2 ^ (x.scale + y.scale)))
    (hkl : k * 2 ^ (x.scale + y.scale) < l) (hlow : l ≤ x.num * y.num)
    (hup : x.num * y.num ≤ (k + 1) * 2 ^ (x.scale + y.scale)) : (x.mul y).ceil = k + 1 :=
  ceil_eq (Nat.lt_of_lt_of_le hkl (le_roundSig hl hlow)) (roundSig_le hk hup)

end Binary64

/-- The number of 53 digits that is nearest to one that is not negative.  The unit has 64 digits at
least behind the first one of the number, and divides sums and products of numbers of the format, so
that nothing of these is cut off. -/
def roundBinary64 (q : ℚ) : ℚ :=
  let unit : ℕ := 2 ^ (64 + q.den.size)
  mkRat (roundSig (q * unit).floor.toNat) unit

/-- The sum of 0.1 and 0.2. -/
example : roundBinary64 (mkRat 3602879701896397 (2 ^ 55) + mkRat 3602879701896397 (2 ^ 54)) =
    mkRat 1351079888211149 (2 ^ 52) := by
  decide +kernel

end MagnumOpus
