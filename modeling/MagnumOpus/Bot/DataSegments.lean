import MagnumOpus.Lib.CivilDate
import MagnumOpus.Lib.MaximalRuns
import Mathlib.Algebra.Order.Ring.Rat
import Mathlib.Data.List.Forall2

/-! # The data segments of a backtest

`feeds.py`: a feed is made of the rows of a table.  Rows that the service missed, or that have no
price, are left out, and the stretches that remain are reported for the user.

* **Two passes.** `findDataSegments` walks through the frame as it was fetched; the rows come from
  the frame in which gaps have become NaN and then were dropped.
* **They agree.** `segments_match`: what is reported are the maximal runs of the rows that are fed.
* **Times.** A segment is reported to the second (`segmentText_eq`). -/

namespace MagnumOpus.Bot.Feeds

open CivilDate UtcTime MaximalRuns

/-! ### Timestamps -/

/-- A `Timestamp` in UTC, in nanoseconds since 1970. -/
structure Timestamp where
  ns : ℤ
deriving DecidableEq

/-- The last `k` decimal digits, with zeros in front. -/
def digits : ℕ → ℕ → List Char
  | 0, _ => []
  | k + 1, n => digits k (n / 10) ++ [Nat.digitChar (n % 10)]

def dateText (t : ℤ) : List Char :=
  let d := dateOf t
  digits 4 d.year.toNat ++ '-' :: (digits 2 d.month.toNat ++ '-' :: digits 2 d.day.toNat)

def timeText (t : ℤ) : List Char :=
  digits 2 (hour t).toNat ++ ':' :: (digits 2 (minute t).toNat ++ ':' :: digits 2 (second t).toNat)

namespace Timestamp

/-- The second it is in. -/
def sec (ts : Timestamp) : ℤ := ts.ns / 1000000000

def fraction (ts : Timestamp) : List Char :=
  let f := (ts.ns % 1000000000).toNat
  if f = 0 then [] else if f % 1000 = 0 then '.' :: digits 6 (f / 1000) else '.' :: digits 9 f

/-- `str(ts)`. -/
def str (ts : Timestamp) : List Char :=
  dateText ts.sec ++ ' ' :: (timeText ts.sec ++ (ts.fraction ++ "+00:00".toList))

/-- `str(ts)[:19].replace(" ", "T")`. -/
def segmentText (ts : Timestamp) : String :=
  String.ofList ((ts.str.take 19).map fun c => if c = ' ' then 'T' else c)

end Timestamp

/-- The second as a date and a time. -/
def isoSecond (t : ℤ) : String := String.ofList (dateText t ++ 'T' :: timeText t)

theorem length_digits : ∀ k n, (digits k n).length = k
  | 0, _ => rfl
  | k + 1, n => by
      rw [digits, List.length_append, length_digits k, List.length_singleton]

theorem digitChar_ne_blank (n : ℕ) : Nat.digitChar (n % 10) ≠ ' ' := by
  have hall : ∀ i : Fin 10, Nat.digitChar i ≠ ' ' := by decide
  exact hall ⟨n % 10, Nat.mod_lt n (by decide)⟩

theorem blank_notMem_digits : ∀ k n, ' ' ∉ digits k n
  | 0, _ => List.not_mem_nil
  | k + 1, n => by
      rw [digits, List.mem_append, List.mem_singleton]
      rintro (h | h)
      · exact blank_notMem_digits k (n / 10) h
      · exact digitChar_ne_blank n h.symm

theorem length_dateText (t : ℤ) : (dateText t).length = 10 := by
  simp [dateText, length_digits]

theorem length_timeText (t : ℤ) : (timeText t).length = 8 := by
  simp [timeText, length_digits]

theorem blank_notMem_dateText (t : ℤ) : ' ' ∉ dateText t := by
  simp [dateText, blank_notMem_digits]

theorem blank_notMem_timeText (t : ℤ) : ' ' ∉ timeText t := by
  simp [timeText, blank_notMem_digits]

theorem map_blank_eq_self {l : List Char} (h : ' ' ∉ l) :
    l.map (fun c => if c = ' ' then 'T' else c) = l := by
  have hid : l.map (fun c => if c = ' ' then 'T' else c) = l.map id :=
    List.map_congr_left fun c hc => if_neg fun (heq : c = ' ') => h (heq ▸ hc)
  rw [hid, List.map_id]

/-- Nothing below the second is reported. -/
theorem segmentText_eq (ts : Timestamp) : ts.segmentText = isoSecond ts.sec := by
  have htake : ts.str.take 19 = dateText ts.sec ++ ' ' :: timeText ts.sec := by
    have hstr : ts.str = (dateText ts.sec ++ ' ' :: timeText ts.sec) ++
        (ts.fraction ++ "+00:00".toList) := by
      rw [Timestamp.str, List.append_assoc, List.cons_append]
    rw [hstr]
    refine List.take_left' ?_
    rw [List.length_append, List.length_cons, length_dateText, length_timeText]
  rw [Timestamp.segmentText, htake, List.map_append, List.map_cons, if_pos rfl,
    map_blank_eq_self (blank_notMem_dateText _), map_blank_eq_self (blank_notMem_timeText _),
    isoSecond]

/-! ### Frames -/

/-- A row of a snapshot table after the fetch: `none` is NaN. -/
structure Row where
  ts : Timestamp
  close : Option ℚ
  gapCount : Option ℚ
  /-- The other columns of a number type. -/
  numbers : List (String × Option ℚ)
  flags : List (String × Bool)
  texts : List (String × Option String)
deriving DecidableEq

structure Frame where
  /-- `gap_count` is one of the columns. -/
  hasGapCount : Bool
  rows : List Row
deriving DecidableEq

/-- A dictionary with the keys `start`, `end` and `bars`. -/
structure Segment where
  start : String
  stop : String
  bars : ℕ
deriving DecidableEq

/-- What `QuestDBFeed` is asked for. -/
structure FeedRequest where
  exchange : String
  symbol : String
  start : String
  stop : String
deriving DecidableEq

/-- `InsufficientHistoryError`. -/
inductive FeedError where
  | insufficientHistory (q : FeedRequest)
deriving DecidableEq

def FeedError.message : FeedError → String
  | .insufficientHistory q =>
      "No snapshot_1s data for " ++ q.exchange ++ ":" ++ q.symbol ++ " [" ++ q.start ++ " → " ++
        q.stop ++ "]"

structure QuestDBFeed where
  dataSegments : List Segment
  dataname : Frame
deriving DecidableEq

/-! ### Segments -/

/-- The gap count of a row, where the frame has one. -/
def Frame.gapCount (df : Frame) (r : Row) : Option ℚ :=
  if df.hasGapCount then r.gapCount else some 0

/-- The price is there, and no gap is counted. -/
def Frame.valid (df : Frame) (r : Row) : Bool := r.close.isSome && (df.gapCount r).getD 0 == 0

def textAt (timestamps : List Timestamp) (i : ℕ) : String :=
  (timestamps[i]?).elim "" Timestamp.segmentText

/-- The loop of `_find_data_segments` from row `i` on. -/
def segmentsFrom (timestamps : List Timestamp) : ℕ → Option ℕ → List Bool → List Segment
  | i, none, ok :: valid => segmentsFrom timestamps (i + 1) (if ok then some i else none) valid
  | i, some segStart, ok :: valid =>
      if ok then segmentsFrom timestamps (i + 1) (some segStart) valid
      else
        { start := textAt timestamps segStart
          stop := textAt timestamps (i - 1)
          bars := i - segStart } :: segmentsFrom timestamps (i + 1) none valid
  | _, some segStart, [] =>
      [{ start := textAt timestamps segStart
         stop := textAt timestamps (timestamps.length - 1)
         bars := timestamps.length - segStart }]
  | _, none, [] => []

def findDataSegments (df : Frame) : List Segment :=
  if df.rows = [] then []
  else segmentsFrom (df.rows.map Row.ts) 0 none (df.rows.map df.valid)

/-! ### Rows -/

/-- NaN in all columns of a number type but `gap_count`. -/
def Row.blank (r : Row) : Row :=
  { r with close := none, numbers := r.numbers.map fun c => (c.1, none) }

def replaceGapRows (df : Frame) : Frame :=
  if df.hasGapCount = false then df
  else { df with rows := df.rows.map fun r => if r.gapCount.any (0 < ·) then r.blank else r }

/-- `dropna(subset=["close"])`. -/
def dropna (df : Frame) : Frame := { df with rows := df.rows.filter fun r => r.close.isSome }

/-- Without the columns that say which table it is from. -/
def Row.dropIdentity (r : Row) : Row :=
  { r with texts := r.texts.filter fun c => c.1 ∉ ["exchange", "symbol", "tf"] }

/-- `QuestDBFeed.__init__` after the fetch. -/
def questDBFeed (q : FeedRequest) (df : Frame) : Except FeedError QuestDBFeed :=
  if df.rows = [] then .error (.insufficientHistory q)
  else
    let dataSegments := findDataSegments df
    let df := dropna (replaceGapRows df)
    if df.rows = [] then .error (.insufficientHistory q)
    else .ok { dataSegments, dataname := { df with rows := df.rows.map Row.dropIdentity } }

/-! ### What is reported -/

/-- The segment tells the first and the last second of the stretch, and how many rows it has. -/
def Reports (rows : List Row) (seg : Segment) (s : Stretch) : Prop :=
  ∃ first last, (s.entries rows).head? = some first ∧ (s.entries rows).getLast? = some last ∧
    seg = { start := isoSecond first.ts.sec, stop := isoSecond last.ts.sec, bars := s.length }

/-- The segment of a stretch. -/
def segmentOf (timestamps : List Timestamp) (s : Stretch) : Segment where
  start := textAt timestamps s.start
  stop := textAt timestamps (s.start + s.length - 1)
  bars := s.length

theorem segmentsFrom_eq {p : Row → Bool} (timestamps : List Timestamp) :
    ∀ (rows : List Row) {i : ℕ} {seg : Option ℕ}, (∀ s ∈ seg, s ≤ i) →
      i + rows.length = timestamps.length →
      segmentsFrom timestamps i seg (rows.map p) =
        (stretchesFrom p i seg rows).map (segmentOf timestamps)
  | [], i, none, _, _ => rfl
  | [], i, some s, hs, hlen => by
      have hle := hs s rfl
      rw [List.length_nil, Nat.add_zero] at hlen
      subst hlen
      rw [List.map_nil, segmentsFrom, stretchesFrom, List.map_singleton, segmentOf,
        Nat.add_sub_cancel' hle]
  | r :: rows, i, none, _, hlen => by
      rw [List.length_cons] at hlen
      rw [List.map_cons, segmentsFrom, stretchesFrom]
      refine segmentsFrom_eq timestamps rows (fun s hs => ?_) (by omega)
      cases hr : p r with
      | true =>
          rw [hr, if_pos rfl] at hs
          cases hs
          omega
      | false =>
          rw [hr, if_neg (by decide)] at hs
          cases hs
  | r :: rows, i, some s, hs, hlen => by
      have hle := hs s rfl
      rw [List.length_cons] at hlen
      rw [List.map_cons, segmentsFrom, stretchesFrom]
      cases hr : p r with
      | true =>
          exact segmentsFrom_eq timestamps rows (fun s' hs' => by cases hs'; omega) (by omega)
      | false =>
          rw [if_neg (by decide), if_neg (by decide), List.map_cons, segmentOf,
            Nat.add_sub_cancel' hle,
            segmentsFrom_eq timestamps rows (fun s' hs' => by cases hs') (by omega)]

theorem findDataSegments_eq (df : Frame) :
    findDataSegments df = (stretches df.valid df.rows).map (segmentOf (df.rows.map Row.ts)) := by
  rw [findDataSegments, segmentsFrom_eq _ _ (fun s hs => by cases hs) (by simp)]
  split
  · next hnil =>
      rw [hnil]
      rfl
  · rfl

theorem textAt_eq {rows : List Row} {i : ℕ} {r : Row} (h : rows[i]? = some r) :
    textAt (rows.map Row.ts) i = isoSecond r.ts.sec := by
  rw [textAt, List.getElem?_map, h, Option.map_some, Option.elim_some, segmentText_eq]

theorem reports_segmentOf {p : Row → Bool} {rows : List Row} {s : Stretch}
    (h : s.IsMaximal p rows) :
    Reports rows (segmentOf (rows.map Row.ts) s) s := by
  have hpos := h.pos
  have hwithin := h.within
  have hget : ∀ i < s.length, (s.entries rows)[i]? = rows[s.start + i]? := by
    intro i hi
    rw [Stretch.entries, List.getElem?_take_of_lt hi, List.getElem?_drop]
  obtain ⟨first, hfirst⟩ : ∃ r, rows[s.start]? = some r :=
    ⟨_, List.getElem?_eq_getElem (by omega)⟩
  obtain ⟨last, hlast⟩ : ∃ r, rows[s.start + s.length - 1]? = some r :=
    ⟨_, List.getElem?_eq_getElem (by omega)⟩
  refine ⟨first, last, ?_, ?_, ?_⟩
  · rw [List.head?_eq_getElem?, hget 0 hpos, Nat.add_zero, hfirst]
  · rw [List.getLast?_eq_getElem?, h.length_entries, hget _ (by omega), ← hlast]
    congr 1
    omega
  · rw [segmentOf, textAt_eq hfirst, textAt_eq hlast]

/-! ### What is fed -/

theorem filter_map_eq_filter {α : Type*} {f : α → α} {p q : α → Bool} :
    ∀ {xs : List α}, (∀ x ∈ xs, (p x = true → f x = x ∧ q x = true) ∧
      (p x = false → q (f x) = false)) → (xs.map f).filter q = xs.filter p
  | [], _ => rfl
  | x :: xs, h => by
      obtain ⟨hpass, hfail⟩ := h x List.mem_cons_self
      have ih := filter_map_eq_filter fun y hy => h y (List.mem_cons_of_mem x hy)
      rw [List.map_cons]
      cases hx : p x with
      | true =>
          obtain ⟨hf, hq⟩ := hpass hx
          rw [hf, List.filter_cons_of_pos hq, List.filter_cons_of_pos hx, ih]
      | false =>
          rw [List.filter_cons_of_neg (by rw [hfail hx]; decide),
            List.filter_cons_of_neg (by rw [hx]; decide), ih]

/-- With gap counts that are not negative a row becomes NaN exactly when it counts a gap. -/
theorem rows_dropna_replaceGapRows {df : Frame}
    (hgap : ∀ r ∈ df.rows, ∀ g ∈ df.gapCount r, 0 ≤ g) :
    (dropna (replaceGapRows df)).rows = df.rows.filter df.valid := by
  cases hcol : df.hasGapCount with
  | false =>
      rw [replaceGapRows, if_pos hcol]
      refine List.filter_congr fun r _ => ?_
      rw [Frame.valid, Frame.gapCount, if_neg (by rw [hcol]; decide)]
      simp
  | true =>
      rw [replaceGapRows, if_neg (by rw [hcol]; decide)]
      refine filter_map_eq_filter fun r hr => ?_
      have hcount : df.gapCount r = r.gapCount := if_pos hcol
      have hnonneg : ∀ g ∈ r.gapCount, 0 ≤ g := hcount ▸ hgap r hr
      rw [Frame.valid, hcount]
      cases hg : r.gapCount with
      | none => simp
      | some g =>
          rcases (hnonneg g hg).eq_or_lt with hzero | hpos
          · simp [← hzero]
          · simp [hpos, hpos.ne', Row.blank]

theorem eq_of_feed {q : FeedRequest} {df : Frame} {feed : QuestDBFeed}
    (hgap : ∀ r ∈ df.rows, ∀ g ∈ df.gapCount r, 0 ≤ g) (h : questDBFeed q df = .ok feed) :
    feed.dataSegments = findDataSegments df ∧
      feed.dataname.rows = (df.rows.filter df.valid).map Row.dropIdentity := by
  unfold questDBFeed at h
  split at h
  · cases h
  · dsimp only at h
    split at h
    · cases h
    · obtain rfl := Except.ok.inj h
      exact ⟨rfl, by rw [rows_dropna_replaceGapRows hgap]⟩

/-- Without a feed there is no row that could be fed. -/
theorem filter_eq_nil_of_error {q : FeedRequest} {df : Frame} {e : FeedError}
    (hgap : ∀ r ∈ df.rows, ∀ g ∈ df.gapCount r, 0 ≤ g) (h : questDBFeed q df = .error e) :
    df.rows.filter df.valid = [] := by
  unfold questDBFeed at h
  split at h
  · next hnil => rw [hnil, List.filter_nil]
  · dsimp only at h
    split at h
    · next hnil => rwa [rows_dropna_replaceGapRows hgap] at hnil
    · cases h

/-- **Reported segments and fed rows.** -/
theorem segments_match (q : FeedRequest) (df : Frame)
    (hgap : ∀ r ∈ df.rows, ∀ g ∈ df.gapCount r, 0 ≤ g) :
    ∃ ss : List Stretch,
      List.Forall₂ (Reports df.rows) (findDataSegments df) ss ∧
      (∀ s ∈ ss, s.IsMaximal df.valid df.rows) ∧
      (ss.Pairwise fun s s' => s.start + s.length < s'.start) ∧
      (∀ feed, questDBFeed q df = .ok feed →
        feed.dataSegments = findDataSegments df ∧
        feed.dataname.rows = (ss.flatMap fun s => s.entries df.rows).map Row.dropIdentity ∧
        (feed.dataSegments.map Segment.bars).sum = feed.dataname.rows.length) ∧
      ∀ e, questDBFeed q df = .error e → findDataSegments df = [] := by
  have hstretches := stretches_spec df.valid df.rows
  refine ⟨stretches df.valid df.rows, ?_, hstretches.maximal, hstretches.apart,
    fun feed hfeed => ?_, fun e he => ?_⟩
  · rw [findDataSegments_eq, List.forall₂_map_left_iff]
    exact List.forall₂_same.mpr fun s hs => reports_segmentOf (hstretches.maximal s hs)
  · obtain ⟨hsegments, hrows⟩ := eq_of_feed hgap hfeed
    refine ⟨hsegments, ?_, ?_⟩
    · rw [hrows, hstretches.entries]
    · rw [hsegments, hrows, findDataSegments_eq, List.map_map, List.length_map,
        ← sum_length_stretches]
      rfl
  · have hsum := sum_length_stretches df.valid df.rows
    rw [filter_eq_nil_of_error hgap he, List.length_nil] at hsum
    rw [findDataSegments_eq]
    cases hss : stretches df.valid df.rows with
    | nil => rfl
    | cons s ss =>
        have hpos := (hstretches.maximal s (hss ▸ List.mem_cons_self)).pos
        rw [hss, List.map_cons, List.sum_cons] at hsum
        omega

/-- Two bars, a gap bar, a bar without a price and one more bar. -/
def gapFrame : Frame where
  hasGapCount := true
  rows :=
    [⟨⟨0⟩, some 1, some 0, [], [], []⟩, ⟨⟨1500000000⟩, some 1, none, [], [], []⟩,
      ⟨⟨2000000000⟩, some 1, some 1, [], [], []⟩, ⟨⟨3000000000⟩, none, some 0, [], [], []⟩,
      ⟨⟨4000000000⟩, some 1, some 0, [], [], []⟩]

theorem segments_match_gapFrame : ∃ ss : List Stretch,
    List.Forall₂ (Reports gapFrame.rows)
      [⟨"1970-01-01T00:00:00", "1970-01-01T00:00:01", 2⟩,
        ⟨"1970-01-01T00:00:04", "1970-01-01T00:00:04", 1⟩] ss ∧
      ss.Pairwise fun s s' => s.start + s.length < s'.start := by
  have hgap : ∀ r ∈ gapFrame.rows, ∀ g ∈ gapFrame.gapCount r, 0 ≤ g := by
    simp [gapFrame, Frame.gapCount]
  have hsegments : findDataSegments gapFrame = [⟨"1970-01-01T00:00:00", "1970-01-01T00:00:01", 2⟩,
      ⟨"1970-01-01T00:00:04", "1970-01-01T00:00:04", 1⟩] := by
    decide +kernel
  obtain ⟨ss, hreports, -, hapart, -⟩ := segments_match ⟨"bybit", "BTC-USDT", "", ""⟩ gapFrame hgap
  exact ⟨ss, hsegments ▸ hreports, hapart⟩

end MagnumOpus.Bot.Feeds
