import MagnumOpus.Aggregator.Worker
import MagnumOpus.Lib.ResidueClasses

/-! # The rolling count of gaps

`gapwindow/window.go`: 24 buckets for the hours modulo 24, in which the gaps are counted that this
service causes itself.  A gap of a later hour evicts what its bucket holds, one of an earlier hour
is skipped.

* **What a bucket holds.** The latest hour of its class, and how many gaps there were in it
  (`windowOf`).  One gap more keeps that (`add_windowOf`), whatever the order.
* **The count.** `count_populate`: the gaps of the 24 hours that end with the hour of the query.
  The order in which they were added makes no difference (`populate_perm`). -/

namespace MagnumOpus.Aggregator.GapWindow

open ResidueClasses

structure Bucket where
  hour : ℤ := 0
  count : ℕ := 0
deriving DecidableEq

@[ext] structure Window where
  buckets : Fin 24 → Bucket := fun _ => {}
deriving DecidableEq

/-- A gap event.  The cause is a text, the time in Unix seconds. -/
structure GapRecord where
  cause : String
  unix : ℤ
deriving DecidableEq

/-- `Cause.Internal`. -/
def internal (cause : String) : Bool :=
  cause == Cause.internalBufferOverflow.text || cause == Cause.internalMergeError.text

theorem internal_text_iff (c : Cause) :
    internal c.text = true ↔ "internal_".toList <+: c.text.toList := by
  cases c <;> decide

/-- `at.Unix() / 3600`.  Division in Go truncates. -/
def hourOf (unix : ℤ) : ℤ := unix.tdiv 3600

/-- The detour over the remainder of Go, which has the sign of `h`, gives the remainder proper. -/
theorem slot_eq (h : ℤ) : (h.tmod 24 + 24).tmod 24 = h % 24 := by
  have hlow : -24 < h.tmod 24 := Int.lt_tmod_of_pos h (by decide)
  have hdef : h.tmod 24 = h - 24 * h.tdiv 24 := Int.tmod_def h 24
  rw [Int.tmod_eq_emod_of_nonneg (by omega)]
  omega

theorem slot_lt (h : ℤ) : ((h.tmod 24 + 24).tmod 24).toNat < 24 := by
  rw [slot_eq]
  omega

/-- `int(h%24+24) % 24`. -/
def slotOf (h : ℤ) : Fin 24 := ⟨((h.tmod 24 + 24).tmod 24).toNat, slot_lt h⟩

namespace Window

def add (w : Window) (cause : String) (unix : ℤ) : Window :=
  if internal cause = false then w
  else
    let h := hourOf unix
    let slot := slotOf h
    if h < (w.buckets slot).hour then w
    else
      let b := if (w.buckets slot).hour ≠ h then { hour := h } else w.buckets slot
      { w with buckets := Function.update w.buckets slot { b with count := b.count + 1 } }

def count (w : Window) (now : ℤ) : ℕ :=
  let cutoff := hourOf now - 23
  ((List.ofFn w.buckets).map fun b => if 0 < b.count ∧ cutoff ≤ b.hour then b.count else 0).sum

def populate (w : Window) (records : List GapRecord) : Window :=
  records.foldl (fun w r => w.add r.cause r.unix) w

end Window

/-! ### One gap -/

/-- What a gap in hour `h` makes of its bucket. -/
def Bucket.next (b : Bucket) (h : ℤ) : Bucket :=
  if h < b.hour then b else { hour := h, count := (if b.hour ≠ h then 0 else b.count) + 1 }

theorem slotOf_eq_iff {h : ℤ} {i : Fin 24} : slotOf h = i ↔ h % (24 : ℕ) = i := by
  have hval : (slotOf h : ℕ) = ((h.tmod 24 + 24).tmod 24).toNat := rfl
  rw [Fin.ext_iff, hval, slot_eq]
  omega

theorem add_external {w : Window} {cause : String} {unix : ℤ} (h : internal cause = false) :
    w.add cause unix = w := if_pos h

theorem add_buckets (w : Window) {cause : String} (unix : ℤ) (i : Fin 24)
    (h : internal cause = true) :
    (w.add cause unix).buckets i =
      if slotOf (hourOf unix) = i then (w.buckets i).next (hourOf unix) else w.buckets i := by
  rw [Window.add, if_neg (by rw [h]; decide), Bucket.next]
  dsimp only
  by_cases hi : slotOf (hourOf unix) = i
  · subst hi
    rw [if_pos rfl]
    by_cases hlt : hourOf unix < (w.buckets (slotOf (hourOf unix))).hour
    · rw [if_pos hlt, if_pos hlt]
    · rw [if_neg hlt, if_neg hlt]
      dsimp only
      rw [Function.update_self]
      by_cases hne : (w.buckets (slotOf (hourOf unix))).hour ≠ hourOf unix
      · rw [if_pos hne, if_pos hne]
      · rw [if_neg hne, if_neg hne, not_not.mp hne]
  · rw [if_neg hi]
    split
    · rfl
    · exact Function.update_of_ne (Ne.symm hi) _ _

/-! ### What a bucket holds -/

/-- The bucket of a class of hours. -/
def bucketOf (hs : List ℤ) : Bucket where
  hour := latest hs
  count := hs.count (latest hs)

/-- The window after gaps in the hours `hs`. -/
def windowOf (hs : List ℤ) : Window where
  buckets i := bucketOf (residue 24 i hs)

@[simp] theorem windowOf_buckets (hs : List ℤ) (i : Fin 24) :
    (windowOf hs).buckets i = bucketOf (residue 24 i hs) := rfl

theorem windowOf_nil : windowOf [] = {} := rfl

/-- The hours of the gaps that count. -/
def hoursOf (records : List GapRecord) : List ℤ :=
  (records.filter fun r => internal r.cause).map fun r => hourOf r.unix

theorem bucketOf_cons (h : ℤ) (hs : List ℤ) : bucketOf (h :: hs) = (bucketOf hs).next h := by
  unfold bucketOf Bucket.next
  rw [latest_cons]
  split
  case isTrue hlt =>
    rw [max_eq_right hlt.le, List.count_cons_of_ne hlt.ne]
  case isFalse hle =>
    rw [max_eq_left (not_lt.mp hle), List.count_cons_self]
    split
    case isTrue hne =>
      have hnot : h ∉ hs := fun hmem => hne (le_antisymm (not_lt.mp hle) (le_latest hmem))
      rw [List.count_eq_zero_of_not_mem hnot]
    case isFalse heq => rw [← not_not.mp heq]

theorem add_windowOf {hs : List ℤ} {cause : String} {unix : ℤ} (hint : internal cause = true) :
    (windowOf hs).add cause unix = windowOf (hourOf unix :: hs) := by
  ext1
  funext i
  rw [add_buckets _ _ _ hint, windowOf_buckets, windowOf_buckets, residue_cons]
  by_cases hi : slotOf (hourOf unix) = i
  · rw [if_pos hi, if_pos (slotOf_eq_iff.mp hi), bucketOf_cons]
  · rw [if_neg hi, if_neg (mt slotOf_eq_iff.mpr hi)]

theorem populate_windowOf (records : List GapRecord) (hs : List ℤ) :
    (windowOf hs).populate records = windowOf ((hoursOf records).reverse ++ hs) := by
  induction records generalizing hs with
  | nil => rfl
  | cons r records ih =>
      rw [Window.populate, List.foldl_cons]
      cases hint : internal r.cause with
      | false =>
          rw [add_external hint, hoursOf, List.filter_cons_of_neg (by rw [hint]; decide)]
          exact ih hs
      | true =>
          have hcons : hoursOf (r :: records) = hourOf r.unix :: hoursOf records := by
            rw [hoursOf, List.filter_cons_of_pos (by simpa using hint), List.map_cons, hoursOf]
          rw [add_windowOf hint, hcons, List.reverse_cons, List.append_assoc]
          exact ih (hourOf r.unix :: hs)

theorem populate_empty (records : List GapRecord) :
    ({} : Window).populate records = windowOf (hoursOf records).reverse := by
  rw [← windowOf_nil, populate_windowOf, List.append_nil]

/-! ### Any order -/

theorem windowOf_perm {hs hs' : List ℤ} (h : hs.Perm hs') : windowOf hs = windowOf hs' := by
  ext1
  funext i
  have hres : (residue 24 i hs).Perm (residue 24 i hs') := h.filter _
  rw [windowOf_buckets, windowOf_buckets, bucketOf, bucketOf, latest_perm hres, hres.count_eq]

theorem populate_perm {records records' : List GapRecord} (h : records.Perm records') :
    ({} : Window).populate records = ({} : Window).populate records' := by
  rw [populate_empty, populate_empty]
  have hhours : (hoursOf records).Perm (hoursOf records') := (h.filter _).map _
  exact windowOf_perm ((List.reverse_perm _).trans (hhours.trans (List.reverse_perm _).symm))

/-! ### The count -/

theorem live_eq (b : Bucket) (cutoff : ℤ) :
    (if 0 < b.count ∧ cutoff ≤ b.hour then b.count else 0) =
      if cutoff ≤ b.hour then b.count else 0 := by
  by_cases hc : cutoff ≤ b.hour
  · rw [if_pos hc]
    split <;> omega
  · rw [if_neg hc, if_neg fun h => hc h.2]

theorem count_windowOf {hs : List ℤ} {now : ℤ} (hpos : ∀ h ∈ hs, 0 ≤ h)
    (hnow : ∀ h ∈ hs, h ≤ hourOf now) :
    (windowOf hs).count now = hs.countP fun h => decide (hourOf now - 23 ≤ h) := by
  have hlt : ∀ h ∈ hs, h < hourOf now - 23 + (24 : ℕ) := by
    intro h hmem
    have hle := hnow h hmem
    omega
  rw [Window.count, List.map_ofFn, List.sum_ofFn, ← sum_countP_residue (m := 24)]
  refine Finset.sum_congr rfl fun i _ => ?_
  rw [Function.comp_apply, live_eq, countP_window hpos hlt]
  rfl

theorem hourOf_of_nonneg {unix : ℤ} (h : 0 ≤ unix) : hourOf unix = unix / 3600 :=
  Int.tdiv_eq_ediv_of_nonneg h

theorem mem_hoursOf {records : List GapRecord} {h : ℤ} (hmem : h ∈ hoursOf records) :
    ∃ r ∈ records, hourOf r.unix = h := by
  obtain ⟨r, hr, hrh⟩ := List.mem_map.mp hmem
  exact ⟨r, (List.mem_filter.mp hr).1, hrh⟩

theorem count_populate_of_ne_nil {records : List GapRecord} {now : ℤ} (hne : records ≠ [])
    (hpos : ∀ r ∈ records, 0 ≤ r.unix) (hnow : ∀ r ∈ records, r.unix / 3600 ≤ now / 3600) :
    (({} : Window).populate records).count now = records.countP fun r => internal r.cause &&
      decide (now / 3600 - 23 ≤ r.unix / 3600 ∧ r.unix / 3600 ≤ now / 3600) := by
  obtain ⟨r₀, hr₀⟩ := List.exists_mem_of_ne_nil records hne
  have hnow₀ : hourOf now = now / 3600 := by
    have h0 := hpos r₀ hr₀
    have hle := hnow r₀ hr₀
    exact hourOf_of_nonneg (by omega)
  have hhour : ∀ h ∈ (hoursOf records).reverse, 0 ≤ h ∧ h ≤ hourOf now := by
    intro h hmem
    obtain ⟨r, hr, rfl⟩ := mem_hoursOf (List.mem_reverse.mp hmem)
    have h0 := hpos r hr
    have hle := hnow r hr
    rw [hourOf_of_nonneg h0, hnow₀]
    omega
  rw [populate_empty, count_windowOf (fun h hmem => (hhour h hmem).1) fun h hmem =>
    (hhour h hmem).2, List.countP_reverse, hoursOf, List.countP_map, List.countP_filter]
  refine List.countP_congr fun r hr => ?_
  have hle := hnow r hr
  simp only [Function.comp_apply, Bool.and_eq_true, decide_eq_true_eq, hnow₀,
    hourOf_of_nonneg (hpos r hr), hle, and_true]
  exact and_comm

/-- **The rolling count**: the gaps that this service caused in the 24 hours that end with the hour
of the query, in whatever order they came. -/
theorem count_populate (records : List GapRecord) (now : ℤ) (hpos : ∀ r ∈ records, 0 ≤ r.unix)
    (hnow : ∀ r ∈ records, r.unix / 3600 ≤ now / 3600) :
    (({} : Window).populate records).count now =
        records.countP (fun r => internal r.cause &&
          decide (now / 3600 - 23 ≤ r.unix / 3600 ∧ r.unix / 3600 ≤ now / 3600)) ∧
      ∀ records', records'.Perm records →
        (({} : Window).populate records').count now =
          (({} : Window).populate records).count now := by
  refine ⟨?_, fun records' h => by rw [populate_perm h]⟩
  by_cases hne : records = []
  · subst hne
    have hnone : (windowOf []).count now = 0 :=
      count_windowOf (fun h hmem => absurd hmem List.not_mem_nil) fun h hmem =>
        absurd hmem List.not_mem_nil
    exact hnone
  · exact count_populate_of_ne_nil hne hpos hnow

/-- A gap whose hour has been evicted, a late one, and one that is not counted. -/
theorem count_populate_late :
    (({} : Window).populate [⟨"internal_merge_error", 90000⟩, ⟨"internal_merge_error", 3600⟩,
      ⟨"internal_buffer_overflow", 86400⟩, ⟨"external_disconnect", 90000⟩]).count 90000 = 2 :=
  (count_populate _ 90000 (by simp) (by simp)).1.trans (by decide)

end MagnumOpus.Aggregator.GapWindow
