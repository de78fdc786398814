import Mathlib.Algebra.Order.Ring.Nat
import Mathlib.Tactic.Ring

/-! # Numbers as bytes, and writing them into a buffer

A number takes a fixed number of bytes, the most significant one first or last.  A write at an
offset replaces bytes of a buffer, and fails when it goes past the end.  Writes one after another
are one write of all their bytes (`put_put`), and a write of as many bytes as the buffer has makes
it these bytes (`put_all`): so a run of writes that fills a buffer is read off its parts. -/

namespace MagnumOpus.ByteLayout

/-! ### Numbers -/

/-- The last bytes of a number, the most significant one first. -/
def bigEndian : ℕ → ℕ → List UInt8
  | 0, _ => []
  | w + 1, n => bigEndian w (n / 256) ++ [UInt8.ofNat n]

def ofBigEndian (bytes : List UInt8) : ℕ := bytes.foldl (fun n b => 256 * n + b.toNat) 0

def littleEndian (w n : ℕ) : List UInt8 := (bigEndian w n).reverse

def ofLittleEndian (bytes : List UInt8) : ℕ := ofBigEndian bytes.reverse

@[simp] theorem length_bigEndian (w n : ℕ) : (bigEndian w n).length = w := by
  induction w generalizing n with
  | zero => rfl
  | succ w ih => rw [bigEndian, List.length_append, ih, List.length_singleton]

@[simp] theorem length_littleEndian (w n : ℕ) : (littleEndian w n).length = w := by
  rw [littleEndian, List.length_reverse, length_bigEndian]

theorem ofBigEndian_append_singleton (bytes : List UInt8) (b : UInt8) :
    ofBigEndian (bytes ++ [b]) = 256 * ofBigEndian bytes + b.toNat := by
  rw [ofBigEndian, List.foldl_append]
  rfl

/-- A number that fits is read back. -/
theorem ofBigEndian_bigEndian {w n : ℕ} (h : n < 256 ^ w) : ofBigEndian (bigEndian w n) = n := by
  induction w generalizing n with
  | zero => exact (Nat.lt_one_iff.mp h).symm
  | succ w ih =>
      have hhigh : n / 256 < 256 ^ w := by
        rw [Nat.div_lt_iff_lt_mul (by norm_num), ← pow_succ]
        exact h
      have hlow : (UInt8.ofNat n).toNat = n % 256 := UInt8.toNat_ofNat'
      rw [bigEndian, ofBigEndian_append_singleton, ih hhigh, hlow, Nat.div_add_mod]

theorem ofLittleEndian_littleEndian {w n : ℕ} (h : n < 256 ^ w) :
    ofLittleEndian (littleEndian w n) = n := by
  rw [ofLittleEndian, littleEndian, List.reverse_reverse, ofBigEndian_bigEndian h]

/-! ### Buffers -/

/-- Replaces bytes of a buffer, when it has them. -/
def put (buf : List UInt8) (off : ℕ) (bytes : List UInt8) : Option (List UInt8) :=
  if off + bytes.length ≤ buf.length then
    some (buf.take off ++ bytes ++ buf.drop (off + bytes.length))
  else none

/-- Writes one after another are one write. -/
theorem put_put (buf : List UInt8) (off : ℕ) (bytes more : List UInt8) :
    (put buf off bytes).bind (fun buf' => put buf' (off + bytes.length) more) =
      put buf off (bytes ++ more) := by
  unfold put
  by_cases hfits : off + bytes.length ≤ buf.length
  · have hoff : off ≤ buf.length := (Nat.le_add_right _ _).trans hfits
    have hwritten : (buf.take off ++ bytes).length = off + bytes.length := by
      rw [List.length_append, List.length_take_of_le hoff]
    have hlength : (buf.take off ++ bytes ++ buf.drop (off + bytes.length)).length =
        buf.length := by
      rw [List.length_append, hwritten, List.length_drop]
      omega
    have hdrop : (buf.take off ++ bytes ++ buf.drop (off + bytes.length)).drop
        (off + bytes.length + more.length) = buf.drop (off + bytes.length + more.length) := by
      rw [List.drop_append, hwritten, List.drop_drop, Nat.add_sub_cancel_left,
        List.drop_eq_nil_of_le (by omega), List.nil_append]
    rw [if_pos hfits, Option.bind_some, hlength, List.take_append_of_le_length hwritten.ge,
      List.take_of_length_le hwritten.le, hdrop, List.length_append, Nat.add_assoc,
      List.append_assoc (buf.take off)]
  · have hmore : ¬ off + (bytes ++ more).length ≤ buf.length := by
      rw [List.length_append]
      omega
    rw [if_neg hfits, if_neg hmore, Option.bind_none]

/-- A write of the whole buffer. -/
theorem put_all {buf bytes : List UInt8} (h : bytes.length = buf.length) :
    put buf 0 bytes = some bytes := by
  rw [put, if_pos (by omega), Nat.zero_add, h, List.drop_length, List.take_zero, List.nil_append,
    List.append_nil]

/-! ### Reading a layout -/

/-- So many bytes from an offset on. -/
def slice (bytes : List UInt8) (off n : ℕ) : List UInt8 := (bytes.drop off).take n

theorem slice_append (before bytes after : List UInt8) :
    slice (before ++ (bytes ++ after)) before.length bytes.length = bytes := by
  rw [slice, List.drop_left, List.take_left]

variable {α β : Type}

/-- So many records of one width. -/
def records (width : ℕ) (read : List UInt8 → β) : ℕ → List UInt8 → List β
  | 0, _ => []
  | n + 1, bytes => read (bytes.take width) :: records width read n (bytes.drop width)

variable {width : ℕ} {write : α → List UInt8}

theorem length_flatMap_of_width (hwidth : ∀ a, (write a).length = width) (as : List α) :
    (as.flatMap write).length = width * as.length := by
  induction as with
  | nil => rfl
  | cons a as ih =>
      rw [List.flatMap_cons, List.length_append, ih, hwidth, List.length_cons]
      ring

/-- Records are read back one by one. -/
theorem records_flatMap {read : List UInt8 → β} {result : α → β}
    (hwidth : ∀ a, (write a).length = width) (hread : ∀ a, read (write a) = result a)
    (as : List α) (after : List UInt8) :
    records width read as.length (as.flatMap write ++ after) = as.map result := by
  induction as with
  | nil => rfl
  | cons a as ih =>
      rw [List.flatMap_cons, List.append_assoc, List.length_cons, records,
        List.take_left' (hwidth a), List.drop_left' (hwidth a), hread, ih, List.map_cons]

end MagnumOpus.ByteLayout
