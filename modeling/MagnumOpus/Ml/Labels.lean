import Mathlib.Algebra.Order.Field.Rat
import Mathlib.Tactic.Linarith
import Mathlib.Tactic.NormNum
import Mathlib.Tactic.Positivity

/-!
# Forward labels of the label generator

`generate_reversion_labels` and the label loop of `generate_spread_labels` fill a column with a
blank label and then, for every row that has a row `horizon` places after it, compare the two.
A row is *open* when its own columns let the row ahead decide the label; on every other row the
label is blank whatever comes later (`Kind.label_eq_blank`, `Kind.exists_label_ne`).
-/

namespace MagnumOpus
namespace Ml

/-- The texts the two label columns hold. -/
inductive Label
  | revert | flat | trend | converge | diverge | neutral
  deriving DecidableEq, Repr

/-- `LABEL_MAP`, with the trainer's FLAT for texts that are not in it. -/
def Label.toClass : Label → ℕ
  | .revert => 0
  | .trend => 2
  | _ => 1

/-- The columns the label loops and the trainer's filter read; a missing number is `none`. -/
structure Row where
  micropriceMidDelta : Option ℚ
  hurst60 : Option ℚ
  spreadZscore : Option ℚ
  adfPvalue60 : Option ℚ
  regime : Option String
  cluster : Option ℤ
  deriving DecidableEq

/-- `df["microprice_mid_delta"].fillna(0)`. -/
def Row.mmd (row : Row) : ℚ := row.micropriceMidDelta.getD 0

/-- `df.get("hurst_60", 0.5).fillna(0.5)`. -/
def Row.hurst (row : Row) : ℚ := row.hurst60.getD (mkRat 1 2)

/-- `_revert_label`. -/
def revertLabel (delta fwdDelta : ℚ) : Label :=
  if |delta| < mkRat 1 10000000000 then .flat
  else if |fwdDelta| / |delta| < mkRat 1 2 then .revert
  else if mkRat 6 5 < |fwdDelta| / |delta| then .trend
  else .flat

/-- The spread loop's comparison of a z-score with the one `horizon` rows later. -/
def compareScores (zscoreThreshold z fwdZ : ℚ) : Label :=
  if |z| ≤ zscoreThreshold then .neutral
  else if |fwdZ| < |z| * mkRat 1 2 then .converge
  else if |z| * mkRat 6 5 < |fwdZ| then .diverge
  else .neutral

/-- The body of the spread loop at a row and the row `horizon` ahead of it. -/
def spreadLabel (zscoreThreshold adfThreshold : ℚ) (row fwd : Row) : Label :=
  -- a missing p-value is not above the threshold
  if row.adfPvalue60.any (adfThreshold < ·) then .neutral
  else
    match row.spreadZscore, fwd.spreadZscore with
    | some z, some fwdZ => compareScores zscoreThreshold z fwdZ
    -- no comparison with a NaN score holds, and a forward score that is not finite is skipped
    | _, _ => .neutral

/-- A label column: `label_revert_N`, or `label_spread`. -/
inductive Kind
  | reversion (N : ℕ) (thresholdBps : ℚ)
  | spread (horizon : ℕ) (zscoreThreshold adfThreshold : ℚ)
  deriving DecidableEq

namespace Kind

/-- How far ahead the column looks. -/
def horizon : Kind → ℕ
  | reversion N _ => N
  | spread h _ _ => h

/-- The text the column is filled with before the loop. -/
def blank : Kind → Label
  | reversion _ _ => .flat
  | spread _ _ _ => .neutral

/-- What the loop writes at a row, given the row `horizon` places later. -/
def label : Kind → Row → Row → Label
  | reversion _ thresholdBps, row, fwd =>
    if |row.mmd| < thresholdBps then .flat
    else if mkRat 1 2 ≤ row.hurst then .flat
    else revertLabel row.mmd fwd.mmd
  | spread _ zscoreThreshold adfThreshold, row, fwd =>
    spreadLabel zscoreThreshold adfThreshold row fwd

/-- The label of row `i`: the loop runs over `range(len(df) - horizon)`, the rows that have a row
`horizon` places later. -/
def labelAt (k : Kind) (rows : List Row) (i : ℕ) : Label :=
  match rows[i]?, rows[i + k.horizon]? with
  | some row, some fwd => k.label row fwd
  | _, _ => k.blank

/-- The label column of a frame. -/
def labels (k : Kind) (rows : List Row) : List Label :=
  (List.range rows.length).map (k.labelAt rows)

/-- The row's own columns let the row ahead decide its label. -/
def isOpen : Kind → Row → Bool
  | reversion _ thresholdBps, row =>
    decide (thresholdBps ≤ |row.mmd|) && decide (row.hurst < mkRat 1 2)
      && decide (mkRat 1 10000000000 ≤ |row.mmd|)
  | spread _ zscoreThreshold adfThreshold, row =>
    !row.adfPvalue60.any (adfThreshold < ·) && row.spreadZscore.any (zscoreThreshold < |·|)

@[simp] theorem labels_length (k : Kind) (rows : List Row) :
    (k.labels rows).length = rows.length := by
  simp [labels]

theorem labels_getElem? (k : Kind) {rows : List Row} {i : ℕ} (h : i < rows.length) :
    (k.labels rows)[i]? = some (k.labelAt rows i) := by
  simp [labels, h]

theorem labelAt_of_le (k : Kind) {rows : List Row} {i : ℕ} (h : rows.length ≤ i + k.horizon) :
    k.labelAt rows i = k.blank := by
  unfold labelAt
  rw [List.getElem?_eq_none h]
  cases rows[i]? <;> rfl

theorem labelAt_eq (k : Kind) {rows : List Row} {i : ℕ} {row fwd : Row}
    (hrow : rows[i]? = some row) (hfwd : rows[i + k.horizon]? = some fwd) :
    k.labelAt rows i = k.label row fwd := by
  unfold labelAt
  rw [hrow, hfwd]

/-- A row that is not open keeps the blank label whatever stands ahead. -/
theorem label_eq_blank (k : Kind) {row : Row} (h : k.isOpen row = false) (fwd : Row) :
    k.label row fwd = k.blank := by
  cases k with
  | reversion N thresholdBps =>
      simp only [isOpen, Bool.and_eq_false_iff, decide_eq_false_iff_not, not_le, not_lt] at h
      simp only [label, blank]
      split_ifs with hthr hhurst
      · rfl
      · rfl
      · rcases h with (h | h) | h
        · exact absurd h hthr
        · exact absurd h hhurst
        · exact if_pos h
  | spread N zscoreThreshold adfThreshold =>
      simp only [label, blank, spreadLabel]
      split_ifs with hadf
      · rfl
      · have hscore : row.spreadZscore.any (zscoreThreshold < |·|) = false := by
          simpa [isOpen, hadf] using h
        cases hrow : row.spreadZscore with
        | none => rfl
        | some z =>
            have hz : |z| ≤ zscoreThreshold := by simpa [hrow] using hscore
            cases fwd.spreadZscore with
            | none => rfl
            | some fwdZ => exact if_pos hz

/-- A deviation that closes altogether is a reversion, one that doubles is a trend. -/
theorem revertLabel_zero {delta : ℚ} (h : mkRat 1 10000000000 ≤ |delta|) :
    revertLabel delta 0 = .revert := by
  unfold revertLabel
  rw [if_neg (not_lt.mpr h), if_pos]
  rw [abs_zero, zero_div]
  rw [Rat.mkRat_eq_div]
  norm_num

theorem revertLabel_double {delta : ℚ} (h : mkRat 1 10000000000 ≤ |delta|) :
    revertLabel delta (2 * delta) = .trend := by
  have hpos : 0 < |delta| := lt_of_lt_of_le (by rw [Rat.mkRat_eq_div]; norm_num) h
  have hratio : |2 * delta| / |delta| = 2 := by
    rw [abs_mul, mul_div_assoc, div_self hpos.ne', mul_one]
    exact abs_of_pos two_pos
  unfold revertLabel
  rw [if_neg (not_lt.mpr h), hratio, if_neg, if_pos]
  · rw [Rat.mkRat_eq_div]; norm_num
  · rw [Rat.mkRat_eq_div]; norm_num

/-- The label of an open row depends on the row ahead: a number in one column of that row
changes it. -/
theorem exists_label_ne (k : Kind) {row : Row} (h : k.isOpen row = true) :
    ∃ fwd fwd' : Row, k.label row fwd ≠ k.label row fwd' := by
  cases k with
  | reversion N thresholdBps =>
      simp only [isOpen, Bool.and_eq_true, decide_eq_true_eq] at h
      obtain ⟨⟨hthr, hhurst⟩, hdelta⟩ := h
      refine ⟨{ row with micropriceMidDelta := some 0 },
        { row with micropriceMidDelta := some (2 * row.mmd) }, ?_⟩
      have hzero : (reversion N thresholdBps).label row
          { row with micropriceMidDelta := some 0 } = .revert := by
        simp only [label, if_neg (not_lt.mpr hthr), if_neg (not_le.mpr hhurst)]
        exact revertLabel_zero hdelta
      have hdouble : (reversion N thresholdBps).label row
          { row with micropriceMidDelta := some (2 * row.mmd) } = .trend := by
        simp only [label, if_neg (not_lt.mpr hthr), if_neg (not_le.mpr hhurst)]
        exact revertLabel_double hdelta
      rw [hzero, hdouble]
      decide
  | spread N zscoreThreshold adfThreshold =>
      simp only [isOpen, Bool.and_eq_true, Bool.not_eq_true'] at h
      obtain ⟨hadf, hscore⟩ := h
      obtain ⟨z, hrow, hz⟩ : ∃ z, row.spreadZscore = some z ∧ zscoreThreshold < |z| := by
        simpa [Option.any_eq_true] using hscore
      refine ⟨{ row with spreadZscore := none },
        { row with spreadZscore := some (2 * |z| + 1) }, ?_⟩
      have hnone : (spread N zscoreThreshold adfThreshold).label row
          { row with spreadZscore := none } = .neutral := by
        simp [label, spreadLabel, hadf, hrow]
      have hfar : (spread N zscoreThreshold adfThreshold).label row
          { row with spreadZscore := some (2 * |z| + 1) } = .diverge := by
        have habs : |2 * |z| + 1| = 2 * |z| + 1 := abs_of_pos (by positivity)
        have hz0 : 0 ≤ |z| := abs_nonneg z
        simp only [label, spreadLabel, hadf, hrow, Bool.false_eq_true, if_false]
        unfold compareScores
        rw [habs, if_neg (not_le.mpr hz), if_neg, if_pos]
        · rw [Rat.mkRat_eq_div]; push_cast; linarith
        · rw [Rat.mkRat_eq_div]; push_cast; linarith
      rw [hnone, hfar]
      decide

/-- The trainer's classes forget every spread label. -/
theorem toClass_spread (N : ℕ) (zscoreThreshold adfThreshold : ℚ) (row fwd : Row) :
    ((spread N zscoreThreshold adfThreshold).label row fwd).toClass = 1 := by
  simp only [label, spreadLabel]
  split
  · rfl
  · split
    · unfold compareScores
      split_ifs <;> rfl
    · rfl

end Kind

end Ml
end MagnumOpus
