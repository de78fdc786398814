import Mathlib.Data.List.Sort
import MagnumOpus.Ml.Labels

/-!
# Walk-forward splits and the labels of their training rows

The trainer concatenates the labelled day files, takes the rows of one regime and one cluster that
have a label, and cuts them by position: `_purged_wf_splits` leaves `PURGE_GAP` rows out between
the training and the test part.  A label looks ahead in its own file, `horizon` bars on.  The two
distances are not tied to each other: a training row is exposed when the bar its label reads is
not before the first test row, and then some other content of the later bars changes the label.
-/

namespace MagnumOpus
namespace Ml

/-- `MIN_SAMPLES`. -/
def minSamples : ℕ := 200

/-- `PURGE_GAP`. -/
def purgeGap : ℕ := 5

/-- The default of `n_splits`. -/
def nSplits : ℕ := 5

/-- `SKIP_REGIMES`. -/
def skipRegimes : List String := ["TRENDING_UP", "TRENDING_DOWN"]

/-- One fold: training rows `[0, trainEnd)`, test rows `[testStart, testEnd)`. -/
structure Split where
  trainEnd : ℕ
  testStart : ℕ
  testEnd : ℕ
  deriving DecidableEq, Repr

/-- The `i`-th fold of `_purged_wf_splits`. -/
def split (n splits gap i : ℕ) : Split :=
  let foldSize := n / (splits + 1)
  let trainEnd := foldSize * (i + 1)
  let testStart := trainEnd + gap
  ⟨trainEnd, testStart, testStart + foldSize⟩

/-- `_purged_wf_splits`: the folds up to the first that runs past the last row. -/
def purgedWfSplits (n splits gap : ℕ) : List Split :=
  ((List.range splits).map (split n splits gap)).takeWhile (·.testEnd ≤ n)

/-- A day file.  `target` is the label run that wrote the target column; a day that no run has
labelled has no such column, and its rows hold a missing value after the concatenation. -/
structure Day where
  rows : List Row
  target : Option Kind

/-- The day's target column. -/
def Day.labels (d : Day) : List (Option Label) :=
  match d.target with
  | none => d.rows.map fun _ => none
  | some k => (k.labels d.rows).map some

/-- The concatenated frame.  The files come in date order and each was written in time order, so
sorting by `ts` moves nothing. -/
structure Frame where
  days : List Day
  hasRegime : Bool
  hasCluster : Bool

namespace Frame

def rows (f : Frame) : List Row := f.days.flatMap (·.rows)

def labels (f : Frame) : List (Option Label) := f.days.flatMap Day.labels

/-- A frame without a `regime` column is RANGING throughout. -/
def regimeOf (f : Frame) (row : Row) : Option String :=
  if f.hasRegime then row.regime else some "RANGING"

/-- A frame without a `cluster` column is one cluster. -/
def clusterOf (f : Frame) (row : Row) : Option ℤ :=
  if f.hasCluster then row.cluster else some 0

/-- The row is in the trainer's mask and has a label. -/
def selects (f : Frame) (regime : String) (cluster : ℤ) (b : ℕ) : Bool :=
  match f.rows[b]?, f.labels[b]? with
  | some row, some (some _) =>
    decide (f.regimeOf row = some regime) && decide (f.clusterOf row = some cluster)
  | _, _ => false

/-- The bars of `subset`, by their place in the frame. -/
def subset (f : Frame) (regime : String) (cluster : ℤ) : List ℕ :=
  (List.range f.rows.length).filter (f.selects regime cluster)

/-- The trainer fits a model for this regime and cluster. -/
def trains (f : Frame) (regime : String) (cluster : ℤ) : Bool :=
  decide (regime ∉ skipRegimes) && decide (cluster ≠ -1)
    && decide (minSamples ≤ (f.subset regime cluster).length)

/-- The folds of the trainer's cross-validation. -/
def splits (f : Frame) (regime : String) (cluster : ℤ) : List Split :=
  purgedWfSplits (f.subset regime cluster).length nSplits purgeGap

/-- `b` is a training bar of some fold whose first test bar is `q`. -/
def TrainsBefore (f : Frame) (b q : ℕ) : Prop :=
  ∃ regime cluster, f.trains regime cluster = true ∧ ∃ s ∈ f.splits regime cluster,
    b ∈ (f.subset regime cluster).take s.trainEnd ∧
      (f.subset regime cluster)[s.testStart]? = some q

/-- Two bar sequences of the same days and label runs that agree on the bars before `q`. -/
structure AgreeBefore (q : ℕ) (f g : Frame) : Prop where
  shape : f.days.map (fun d => (d.rows.length, d.target))
    = g.days.map (fun d => (d.rows.length, d.target))
  rows : f.rows.take q = g.rows.take q

/-- No training row has a label that depends on a bar at or after the first test row. -/
def NoLeak (f : Frame) : Prop :=
  ∀ b q, f.TrainsBefore b q → ∀ g, AgreeBefore q f g → g.labels[b]? = f.labels[b]?

/-- The label of bar `b` is decided by bar `j`: the row at `b` is open and its day goes on to the
bar `horizon` places later. -/
def LooksAt (f : Frame) (b j : ℕ) : Prop :=
  ∃ pre d post k i row, f.days = pre ++ d :: post ∧ d.target = some k ∧
    b = (pre.flatMap (·.rows)).length + i ∧ d.rows[i]? = some row ∧ k.isOpen row = true ∧
    i + k.horizon < d.rows.length ∧ j = b + k.horizon

end Frame

/-! ### The folds -/

theorem testStart_of_mem {n splits gap : ℕ} {s : Split} (h : s ∈ purgedWfSplits n splits gap) :
    s.testStart = s.trainEnd + gap := by
  unfold purgedWfSplits at h
  have hmem := (List.takeWhile_sublist _).subset h
  rw [List.mem_map] at hmem
  obtain ⟨i, -, rfl⟩ := hmem
  rfl

/-- Among increasing numbers, `m` places further on is at least `m` more. -/
theorem getElem?_add_le {l : List ℕ} (hl : l.Pairwise (· < ·)) {p m b q : ℕ}
    (hb : l[p]? = some b) (hq : l[p + m]? = some q) : b + m ≤ q := by
  induction m generalizing q with
  | zero =>
      rw [Nat.add_zero, hb] at hq
      exact (Option.some.inj hq).le
  | succ m ih =>
      obtain ⟨hlt, rfl⟩ := List.getElem?_eq_some_iff.mp hq
      have hprev := ih (List.getElem?_eq_getElem (by omega))
      have hstep : l[p + m] < l[p + (m + 1)] :=
        List.pairwise_iff_getElem.mp hl (p + m) (p + (m + 1)) (by omega) hlt (by omega)
      omega

/-! ### Rows and labels of the days -/

@[simp] theorem Day.labels_length (d : Day) : d.labels.length = d.rows.length := by
  unfold Day.labels
  split <;> simp

theorem Day.labels_getElem?_of_none {d : Day} (h : d.target = none) {i : ℕ}
    (hi : i < d.rows.length) : d.labels[i]? = some none := by
  simp [Day.labels, h, hi]

theorem Day.labels_getElem?_of_some {d : Day} {k : Kind} (h : d.target = some k) {i : ℕ}
    (hi : i < d.rows.length) : d.labels[i]? = some (some (k.labelAt d.rows i)) := by
  simp only [Day.labels, h, List.getElem?_map, k.labels_getElem? hi, Option.map_some]

namespace Frame

theorem flatMap_labels_length (days : List Day) :
    (days.flatMap Day.labels).length = (days.flatMap (·.rows)).length := by
  simp [List.length_flatMap]

theorem exists_day {days : List Day} {b : ℕ} (h : b < (days.flatMap (·.rows)).length) :
    ∃ pre d post i, days = pre ++ d :: post ∧ b = (pre.flatMap (·.rows)).length + i ∧
      i < d.rows.length := by
  induction days generalizing b with
  | nil => simp at h
  | cons d days ih =>
      by_cases hb : b < d.rows.length
      · exact ⟨[], d, days, b, rfl, by simp, hb⟩
      · have hrest : b - d.rows.length < (days.flatMap (·.rows)).length := by
          simp only [List.flatMap_cons, List.length_append] at h
          omega
        obtain ⟨pre, e, post, i, rfl, hbi, hi⟩ := ih hrest
        refine ⟨d :: pre, e, post, i, rfl, ?_, hi⟩
        simp only [List.flatMap_cons, List.length_append]
        omega

section located

variable {f : Frame} {pre post : List Day} {d : Day} {i : ℕ}

theorem rows_getElem?_of_day (hf : f.days = pre ++ d :: post) (hi : i < d.rows.length) :
    f.rows[(pre.flatMap (·.rows)).length + i]? = d.rows[i]? := by
  unfold rows
  rw [hf, List.flatMap_append, List.flatMap_cons, List.getElem?_append_right (by omega),
    Nat.add_sub_cancel_left, List.getElem?_append_left hi]

theorem labels_getElem?_of_day (hf : f.days = pre ++ d :: post) (hi : i < d.rows.length) :
    f.labels[(pre.flatMap (·.rows)).length + i]? = d.labels[i]? := by
  unfold labels
  rw [hf, List.flatMap_append, List.flatMap_cons, ← flatMap_labels_length,
    List.getElem?_append_right (by omega), Nat.add_sub_cancel_left,
    List.getElem?_append_left (by simpa using hi)]

end located

/-! ### The training rows -/

theorem subset_pairwise (f : Frame) (regime : String) (cluster : ℤ) :
    (f.subset regime cluster).Pairwise (· < ·) :=
  List.pairwise_lt_range.filter _

theorem TrainsBefore.lt_length {f : Frame} {b q : ℕ} (h : f.TrainsBefore b q) :
    b < f.rows.length := by
  obtain ⟨regime, cluster, -, s, -, hb, -⟩ := h
  have hmem := List.mem_of_mem_take hb
  unfold subset at hmem
  exact List.mem_range.mp (List.mem_filter.mp hmem).1

theorem TrainsBefore.purged {f : Frame} {b q : ℕ} (h : f.TrainsBefore b q) :
    b + purgeGap < q := by
  obtain ⟨regime, cluster, -, s, hs, hb, hq⟩ := h
  obtain ⟨p, hp, hpb⟩ := List.getElem_of_mem hb
  have hplt : p < s.trainEnd := by
    rw [List.length_take] at hp
    omega
  have hpb' : (f.subset regime cluster)[p]? = some b := by
    rw [List.getElem?_eq_some_iff]
    refine ⟨by rw [List.length_take] at hp; omega, ?_⟩
    rw [← hpb, List.getElem_take]
  have hstart : s.testStart = p + (s.trainEnd - p + purgeGap) := by
    rw [testStart_of_mem hs]
    omega
  rw [hstart] at hq
  have hle := getElem?_add_le (f.subset_pairwise regime cluster) hpb' hq
  omega

/-! ### What a label depends on -/

theorem AgreeBefore.exists_day {f g : Frame} {q : ℕ} (h : AgreeBefore q f g)
    {pre post : List Day} {d : Day} (hf : f.days = pre ++ d :: post) :
    ∃ pre' d' post', g.days = pre' ++ d' :: post' ∧ d'.target = d.target ∧
      d'.rows.length = d.rows.length ∧
      (pre'.flatMap (·.rows)).length = (pre.flatMap (·.rows)).length := by
  have hshape := h.shape.symm
  rw [hf, List.map_append, List.map_cons, List.map_eq_append_iff] at hshape
  obtain ⟨pre', rest, hg, hpre, hrest⟩ := hshape
  rw [List.map_eq_cons_iff] at hrest
  obtain ⟨d', post', rfl, hd, -⟩ := hrest
  rw [Prod.mk.injEq] at hd
  refine ⟨pre', d', post', hg, hd.2, hd.1, ?_⟩
  have hlen := congrArg (List.map Prod.fst) hpre
  simp only [List.map_map] at hlen
  rw [List.length_flatMap, List.length_flatMap]
  exact congrArg List.sum hlen

theorem AgreeBefore.rows_getElem? {f g : Frame} {q b : ℕ} (h : AgreeBefore q f g) (hb : b < q) :
    g.rows[b]? = f.rows[b]? := by
  rw [← List.getElem?_take_of_lt hb, ← h.rows, List.getElem?_take_of_lt hb]

/-- A label that looks at no bar from `q` on is the same in both frames. -/
theorem labels_eq_of_agree {f g : Frame} {q b : ℕ} (h : AgreeBefore q f g) (hbq : b < q)
    (hb : b < f.rows.length) (hlook : ∀ j, f.LooksAt b j → j < q) :
    g.labels[b]? = f.labels[b]? := by
  obtain ⟨pre, d, post, i, hf, rfl, hi⟩ := exists_day hb
  obtain ⟨pre', d', post', hg, htarget, hlen, hpre⟩ := h.exists_day hf
  have hi' : i < d'.rows.length := by omega
  have hcur : d'.rows[i]? = d.rows[i]? := by
    rw [← rows_getElem?_of_day hg hi', ← rows_getElem?_of_day hf hi, hpre]
    exact h.rows_getElem? hbq
  rw [labels_getElem?_of_day hf hi, ← hpre, labels_getElem?_of_day hg hi']
  cases hk : d.target with
  | none =>
      rw [Day.labels_getElem?_of_none hk hi, Day.labels_getElem?_of_none (htarget.trans hk) hi']
  | some k =>
      rw [Day.labels_getElem?_of_some hk hi, Day.labels_getElem?_of_some (htarget.trans hk) hi']
      refine congrArg (some ∘ some) ?_
      by_cases hend : i + k.horizon < d.rows.length
      · have hrow : d.rows[i]? = some d.rows[i] := List.getElem?_eq_getElem hi
        have hfwd := List.getElem?_eq_getElem hend
        have hfwd' := List.getElem?_eq_getElem (by omega : i + k.horizon < d'.rows.length)
        rw [k.labelAt_eq hrow hfwd, k.labelAt_eq (hcur.trans hrow) hfwd']
        by_cases hopen : k.isOpen d.rows[i] = true
        · -- the row ahead is before `q`, so it is the same row
          have hj := hlook _ ⟨pre, d, post, k, i, _, hf, hk, rfl, hrow, hopen, hend, rfl⟩
          have hahead : d'.rows[i + k.horizon]? = d.rows[i + k.horizon]? := by
            rw [← rows_getElem?_of_day hg (by omega), ← rows_getElem?_of_day hf hend, hpre]
            exact h.rows_getElem? (by omega)
          rw [hfwd, hfwd'] at hahead
          rw [Option.some.inj hahead]
        · rw [k.label_eq_blank (Bool.eq_false_iff.mpr hopen),
            k.label_eq_blank (Bool.eq_false_iff.mpr hopen)]
      · rw [k.labelAt_of_le (by omega), k.labelAt_of_le (by omega)]

/-- The frame with other content in row `i` of the day `d`. -/
def withRow (f : Frame) (pre : List Day) (d : Day) (post : List Day) (i : ℕ) (row : Row) : Frame :=
  { f with days := pre ++ { d with rows := d.rows.set i row } :: post }

theorem withRow_agree {f : Frame} {pre post : List Day} {d : Day} {i q : ℕ} (row : Row)
    (hf : f.days = pre ++ d :: post) (hi : i < d.rows.length)
    (hq : q ≤ (pre.flatMap (·.rows)).length + i) :
    AgreeBefore q f (f.withRow pre d post i row) where
  shape := by simp [withRow, hf]
  rows := by
    have hset : (f.withRow pre d post i row).rows
        = f.rows.set ((pre.flatMap (·.rows)).length + i) row := by
      unfold rows withRow
      simp only
      rw [hf, List.flatMap_append, List.flatMap_append, List.flatMap_cons, List.flatMap_cons,
        List.set_append_right _ _ (by omega), Nat.add_sub_cancel_left, List.set_append_left _ _ hi]
    rw [hset, List.take_set_of_le hq]

/-- A label that looks at bar `j` takes two values as the bar changes. -/
theorem exists_label_ne_of_looksAt {f : Frame} {b q j : ℕ} (hbq : b < q) (h : f.LooksAt b j)
    (hj : q ≤ j) : ∃ g, AgreeBefore q f g ∧ g.labels[b]? ≠ f.labels[b]? := by
  obtain ⟨pre, d, post, k, i, row, hf, hk, rfl, hrow, hopen, hend, rfl⟩ := h
  have hi : i < d.rows.length := by omega
  have hne : i + k.horizon ≠ i := by omega
  obtain ⟨fwd, fwd', hlabel⟩ := k.exists_label_ne hopen
  have hagree : ∀ r, AgreeBefore q f (f.withRow pre d post (i + k.horizon) r) := fun r =>
    withRow_agree r hf hend (by omega)
  have hvalue : ∀ r, (f.withRow pre d post (i + k.horizon) r).labels[
      (pre.flatMap (·.rows)).length + i]? = some (some (k.label row r)) := by
    intro r
    rw [labels_getElem?_of_day (d := { d with rows := d.rows.set (i + k.horizon) r }) rfl
      (by simpa using hi),
      Day.labels_getElem?_of_some (d := { d with rows := d.rows.set (i + k.horizon) r }) hk
        (by simpa using hi)]
    refine congrArg (some ∘ some) (k.labelAt_eq ?_ ?_)
    · rw [List.getElem?_set_ne hne, hrow]
    · rw [List.getElem?_set_self hend]
  by_cases hfwd : f.labels[(pre.flatMap (·.rows)).length + i]? = some (some (k.label row fwd))
  · refine ⟨_, hagree fwd', ?_⟩
    rw [hvalue, hfwd]
    simpa using hlabel.symm
  · refine ⟨_, hagree fwd, ?_⟩
    rw [hvalue]
    exact fun h => hfwd h.symm

/-- A training row whose label looks at a bar of the test period breaks the property. -/
theorem not_noLeak_of_looksAt {f : Frame} {b q j : ℕ} (h : f.TrainsBefore b q)
    (hlook : f.LooksAt b j) (hj : q ≤ j) : ¬ f.NoLeak := by
  intro hleak
  obtain ⟨g, hg, hne⟩ := exists_label_ne_of_looksAt (by have := h.purged; omega) hlook hj
  exact hne (hleak b q h g hg)

/-- A horizon within the purge gap never leaks. -/
theorem noLeak_of_horizon_le {f : Frame}
    (h : ∀ d ∈ f.days, ∀ k, d.target = some k → k.horizon ≤ purgeGap) : f.NoLeak := by
  intro b q hb g hg
  have hpurged := hb.purged
  refine labels_eq_of_agree hg (by omega) hb.lt_length ?_
  rintro j ⟨pre, d, post, k, i, row, hf, hk, rfl, -, -, -, rfl⟩
  have := h d (by rw [hf]; simp) k hk
  omega

/-- No label leaks exactly when every training row whose label looks ahead looks at a bar before
the first test row. -/
theorem noLeak_iff (f : Frame) :
    f.NoLeak ↔ ∀ b q, f.TrainsBefore b q → ∀ j, f.LooksAt b j → j < q := by
  constructor
  · intro h b q hb j hlook
    by_contra hj
    exact not_noLeak_of_looksAt hb hlook (not_lt.mp hj) h
  · intro h b q hb g hg
    have hpurged := hb.purged
    exact labels_eq_of_agree hg (by omega) hb.lt_length (h b q hb)

/-! ### The default target -/

/-- A bar one basis point and more from the mid in a mean-reverting window. -/
def revertingRow : Row := ⟨some 2, some (mkRat 2 5), none, none, none, none⟩

/-- Two hundred such bars under `label_revert_10`. -/
def defaultDay : Day := ⟨List.replicate 200 revertingRow, some (.reversion 10 1)⟩

/-- The day before any clustering. -/
def defaultFrame : Frame := ⟨[defaultDay], false, false⟩

theorem defaultDay_length : defaultDay.rows.length = 200 := List.length_replicate

theorem defaultFrame_rows : defaultFrame.rows = List.replicate 200 revertingRow := by
  unfold rows defaultFrame defaultDay
  rw [List.flatMap_singleton]

theorem defaultFrame_selects {b : ℕ} (hb : b < 200) :
    defaultFrame.selects "RANGING" 0 b = true := by
  have hrow : defaultFrame.rows[b]? = some revertingRow := by
    rw [defaultFrame_rows, List.getElem?_replicate, if_pos hb]
  have hday : b < defaultDay.rows.length := by rw [defaultDay_length]; exact hb
  have hlabel : defaultFrame.labels[b]?
      = some (some ((Kind.reversion 10 1).labelAt defaultDay.rows b)) := by
    have hdays : defaultFrame.days = [] ++ defaultDay :: [] := rfl
    have h := labels_getElem?_of_day hdays hday
    rw [List.flatMap_nil, List.length_nil, Nat.zero_add] at h
    rw [h]
    exact Day.labels_getElem?_of_some rfl hday
  unfold selects
  rw [hrow, hlabel]
  rfl

theorem defaultFrame_subset : defaultFrame.subset "RANGING" 0 = List.range 200 := by
  unfold subset
  rw [defaultFrame_rows, List.length_replicate, List.filter_eq_self]
  exact fun b hb => defaultFrame_selects (List.mem_range.mp hb)

/-- The first fold trains on bars 0 to 32 and tests from bar 38. -/
theorem defaultFrame_trainsBefore : defaultFrame.TrainsBefore 32 38 := by
  refine ⟨"RANGING", 0, ?_, ⟨33, 38, 71⟩, ?_, ?_, ?_⟩
  · unfold trains
    rw [defaultFrame_subset, List.length_range]
    decide
  · unfold splits
    rw [defaultFrame_subset, List.length_range]
    decide
  · rw [defaultFrame_subset]
    decide
  · rw [defaultFrame_subset]
    decide

theorem defaultFrame_looksAt : defaultFrame.LooksAt 32 42 := by
  refine ⟨[], defaultDay, [], _, 32, revertingRow, rfl, rfl, rfl, ?_, ?_, ?_, rfl⟩
  · unfold defaultDay
    rw [List.getElem?_replicate, if_pos (by omega)]
  · decide +kernel
  · rw [defaultDay_length]
    decide

/-- With the default target the last training row's label reads a bar of the test part. -/
theorem defaultFrame_leaks : ¬ defaultFrame.NoLeak :=
  not_noLeak_of_looksAt defaultFrame_trainsBefore defaultFrame_looksAt (by omega)

end Frame

end Ml
end MagnumOpus
