import MagnumOpus.Bot.GapGating
import MagnumOpus.Lib.SortedBy

/-!
# The rolling frames of a strategy

`BaseStrategy` in `base.py` keeps a frame of rows for each symbol and timeframe.  `on_bar` appends
to it; `get_history` replaces it by what a query to QuestDB answers, and when the query fails, a
task tries it again every thirty seconds and replaces the frame when it succeeds.

* **The hope.** Every frame has strictly increasing timestamps, a row for every bar that was
  delivered since it is there, and rows of its own timeframe only (`AllIntact`).
* **When it holds.** Exactly when every bar is newer than the frame, and every answer that
  replaces a frame has the bars that it replaces, each once, and is of the timeframe
  (`allIntact_iff`).

The answers of QuestDB are a parameter of each event.  Its timestamps are texts, those of the bars
are numbers; Python orders neither before the other.  The other columns of a row are its values.
-/

namespace MagnumOpus.Bot

open EventMachine

/-! ### Rows -/

/-- The cell `ts`: the milliseconds of a bar, or the ISO text of an instant in microseconds. -/
inductive Stamp
  | ms (t : ℤ)
  | iso (micros : ℤ)

namespace Stamp

/-- `<` in Python: of two numbers, or of two texts of one format. -/
def Lt : Stamp → Stamp → Prop
  | ms t, ms t' => t < t'
  | iso micros, iso micros' => micros < micros'
  | _, _ => False

/-- The instant in microseconds. -/
def instant : Stamp → ℤ
  | ms t => 1000 * t
  | iso micros => micros

end Stamp

/-- The columns of a row after `ts`. -/
structure BarValues where
  openPrice : Option ℚ
  high : Option ℚ
  low : Option ℚ
  close : Option ℚ
  volume : Option ℚ
  quoteVolume : Option ℚ
  tradeCount : Option ℤ
  isComplete : Option Bool
  hasGap : Option Bool

/-- A row of a frame, with the timeframe of the bar that it is about. -/
structure RollingRow where
  ts : Stamp
  values : BarValues
  period : String

/-- The row that `on_bar` appends. -/
def BarClose.row (bar : BarClose) : RollingRow where
  ts := .ms bar.ts
  values :=
    { openPrice := some bar.openPrice
      high := some bar.high
      low := some bar.low
      close := some bar.close
      volume := some bar.volume
      quoteVolume := some bar.quoteVolume
      tradeCount := some bar.tradeCount
      isComplete := some bar.isComplete
      hasGap := some false }
  period := bar.tf

/-! ### Queries -/

inductive Table
  | snapshot1s
  | snapshot1m
  | snapshot15m
deriving DecidableEq

/-- `_TF_TABLE`, with the default. -/
def tfTable (tf : String) : Table :=
  ([("1s", Table.snapshot1s), ("1m", .snapshot1m), ("5m", .snapshot1m), ("15m", .snapshot15m),
    ("1h", .snapshot15m), ("4h", .snapshot15m), ("1d", .snapshot15m),
    ("1w", .snapshot15m)].lookup tf).getD .snapshot1s

/-- The query of `_query_questdb`: only the table of seconds is asked for a timeframe. -/
structure HistoryQuery where
  table : Table
  symbol : String
  tf : Option String
  limit : ℤ

def historyQuery (symbol tf : String) (nBars : ℤ) : HistoryQuery where
  table := tfTable tf
  symbol := symbol
  tf := if tfTable tf = .snapshot1s then some tf else none
  limit := nBars

/-- The timeframe of the rows that are asked for: a table of minutes stores one only. -/
def HistoryQuery.period (q : HistoryQuery) : String :=
  match q.table with
  | .snapshot1s => q.tf.getD "1s"
  | .snapshot1m => "1m"
  | .snapshot15m => "15m"

/-- The timeframes whose history is of another one. -/
theorem period_historyQuery (symbol tf : String) (nBars : ℤ) :
    (historyQuery symbol tf nBars).period = tf ↔ tf ∉ ["5m", "1h", "4h", "1d", "1w"] := by
  have hsame : (historyQuery symbol tf nBars).period = (historyQuery "" tf 0).period := rfl
  rw [hsame]
  by_cases hknown : tf ∈ ["1s", "1m", "5m", "15m", "1h", "4h", "1d", "1w"]
  · simp only [List.mem_cons, List.not_mem_nil, or_false] at hknown
    rcases hknown with rfl | rfl | rfl | rfl | rfl | rfl | rfl | rfl <;> decide
  · have hother : ∀ known ∈ ["1s", "1m", "5m", "15m", "1h", "4h", "1d", "1w"], tf ≠ known :=
      fun known hmem heq => hknown (heq ▸ hmem)
    have htable : tfTable tf = .snapshot1s := by
      unfold tfTable
      rw [List.lookup_eq_none_iff.mpr]
      · rfl
      · intro entry hentry
        rw [bne_iff_ne]
        exact hother _ (List.mem_map_of_mem (f := Prod.fst) hentry)
    have hperiod : (historyQuery "" tf 0).period = tf := by
      simp [HistoryQuery.period, historyQuery, htable]
    refine iff_of_true hperiod fun hmem => hknown ?_
    revert hmem
    simp only [List.mem_cons, List.not_mem_nil, or_false]
    tauto

structure HistoryRow where
  micros : ℤ
  values : BarValues

/-- What the queries answer, unless they fail. -/
abbrev QuestDb := HistoryQuery → Option (List HistoryRow)

/-- The frame that is made of an answer. -/
def HistoryQuery.load (q : HistoryQuery) (dataset : List HistoryRow) : List RollingRow :=
  (dataset.mergeSort fun a b => a.micros ≤ b.micros).map fun row =>
    { ts := .iso row.micros
      values := row.values
      period := q.period }

/-- `_query_questdb`. -/
def queryQuestdb (db : QuestDb) (symbol tf : String) (nBars : ℤ) : Option (List RollingRow) :=
  (db (historyQuery symbol tf nBars)).map (historyQuery symbol tf nBars).load

/-! ### The frames -/

/-- A retry task that is asleep. -/
structure Retry where
  symbol : String
  tf : String
  nBars : ℤ

structure Frames where
  dfs : BarKey → Option (List RollingRow) := fun _ => none
  retries : List Retry := []
  /-- The bars delivered since the frame is there. -/
  delivered : BarKey → List BarClose := fun _ => []

inductive FrameEvent
  | bar (bar : BarClose)
  /-- A call of `get_history`, with whether the strategy's loop runs. -/
  | getHistory (symbol tf : String) (nBars : ℤ) (db : QuestDb) (loopOpen : Bool)
  /-- A retry task wakes up. -/
  | retry (i : ℕ) (db : QuestDb)

/-- What the handler of a bar is handed. -/
structure Seen where
  bar : BarClose
  df : List RollingRow
  delivered : List BarClose

namespace Frames

/-- The rows of a frame. -/
def frame (s : Frames) (key : BarKey) : List RollingRow := (s.dfs key).getD []

def onBar (s : Frames) (bar : BarClose) : Frames :=
  let key := Strategy.keyOf bar
  { s with
    dfs := Function.update s.dfs key (some (s.frame key ++ [bar.row]))
    delivered := Function.update s.delivered key (s.delivered key ++ [bar]) }

/-- A frame is replaced. -/
def replace (s : Frames) (key : BarKey) (df : List RollingRow) : Frames :=
  { s with dfs := Function.update s.dfs key (some df) }

def getHistory (s : Frames) (symbol tf : String) (nBars : ℤ) (db : QuestDb) (loopOpen : Bool) :
    Frames :=
  match queryQuestdb db symbol tf nBars with
  | none => if loopOpen then { s with retries := s.retries ++ [⟨symbol, tf, nBars⟩] } else s
  | some df => s.replace (symbol, tf) df

/-- A turn of `_retry_loop`. -/
def retry (s : Frames) (i : ℕ) (db : QuestDb) : Frames :=
  match s.retries[i]? with
  | none => s
  | some r =>
    match queryQuestdb db r.symbol r.tf r.nBars with
    | none => s
    | some df => { s.replace (r.symbol, r.tf) df with retries := s.retries.eraseIdx i }

def next (s : Frames) : FrameEvent → Frames
  | .bar bar => s.onBar bar
  | .getHistory symbol tf nBars db loopOpen => s.getHistory symbol tf nBars db loopOpen
  | .retry i db => s.retry i db

def step : Step Frames FrameEvent Seen := fun s e =>
  (s.next e,
    match e with
    | .bar bar =>
      [⟨bar, (s.next e).frame (Strategy.keyOf bar), (s.next e).delivered (Strategy.keyOf bar)⟩]
    | _ => [])

/-! ### Statements -/

/-- A frame is in order, whole and of one timeframe. -/
structure Intact (key : BarKey) (delivered : List BarClose) (df : List RollingRow) : Prop where
  increasing : df.Pairwise fun a b => a.ts.Lt b.ts
  complete : ∀ bar ∈ delivered, ∃ row ∈ df, row.ts.instant = 1000 * bar.ts
  period : ∀ row ∈ df, row.period = key.2

def AllIntact (s : Frames) : Prop := ∀ key, Intact key (s.delivered key) (s.frame key)

/-- An answer has the bars of the frame that it replaces, each instant once, and is of the
timeframe. -/
structure Whole (s : Frames) (symbol tf : String) (nBars : ℤ) (dataset : List HistoryRow) :
    Prop where
  distinct : (dataset.map HistoryRow.micros).Nodup
  complete : ∀ bar ∈ s.delivered (symbol, tf), ∃ row ∈ dataset, row.micros = 1000 * bar.ts
  period : dataset ≠ [] → (historyQuery symbol tf nBars).period = tf

/-- A bar is newer than the frame, and an answer that replaces a frame is whole. -/
def Fits (s : Frames) : FrameEvent → Prop
  | .bar bar => ∀ row ∈ s.frame (Strategy.keyOf bar), row.ts.Lt (.ms bar.ts)
  | .getHistory symbol tf nBars db _ =>
    ∀ dataset ∈ db (historyQuery symbol tf nBars), s.Whole symbol tf nBars dataset
  | .retry i db =>
    ∀ r ∈ s.retries[i]?, ∀ dataset ∈ db (historyQuery r.symbol r.tf r.nBars),
      s.Whole r.symbol r.tf r.nBars dataset

end Frames

/-- The bar is the last row, and every delivered bar has exactly one. -/
def Seen.Right (seen : Seen) : Prop :=
  seen.df.getLast? = some seen.bar.row ∧
    ∀ bar ∈ seen.delivered, (seen.df.map fun row => row.ts.instant).count (1000 * bar.ts) = 1

namespace Frames

variable {s : Frames} {key : BarKey} {df : List RollingRow} {delivered : List BarClose}

/-! ### One step -/

theorem intact_append (bar : BarClose) (h : Intact (Strategy.keyOf bar) delivered df) :
    Intact (Strategy.keyOf bar) (delivered ++ [bar]) (df ++ [bar.row]) ↔
      ∀ row ∈ df, row.ts.Lt (.ms bar.ts) := by
  constructor
  · intro hnext row hrow
    exact (List.pairwise_append.mp hnext.increasing).2.2 row hrow _ (List.mem_singleton_self _)
  · intro hnewer
    refine ⟨List.pairwise_append.mpr ⟨h.increasing, List.pairwise_singleton _ _, ?_⟩, ?_, ?_⟩
    · intro row hrow row' hrow'
      rw [List.mem_singleton.mp hrow']
      exact hnewer row hrow
    · intro bar' hbar'
      rcases List.mem_append.mp hbar' with hold | hnew
      · obtain ⟨row, hrow, hinstant⟩ := h.complete bar' hold
        exact ⟨row, List.mem_append_left _ hrow, hinstant⟩
      · rw [List.mem_singleton.mp hnew]
        exact ⟨bar.row, List.mem_append_right _ (List.mem_singleton_self _), rfl⟩
    · intro row hrow
      rcases List.mem_append.mp hrow with hold | hnew
      · exact h.period row hold
      · rw [List.mem_singleton.mp hnew]
        rfl

/-- What an answer becomes is intact exactly when the answer is whole. -/
theorem intact_load (symbol tf : String) (nBars : ℤ) (dataset : List HistoryRow) :
    Intact (symbol, tf) (s.delivered (symbol, tf)) ((historyQuery symbol tf nBars).load dataset) ↔
      s.Whole symbol tf nBars dataset := by
  set sorted := dataset.mergeSort fun a b => a.micros ≤ b.micros with hsorted
  have hmem : ∀ row, row ∈ sorted ↔ row ∈ dataset := fun row => List.mem_mergeSort
  have hload : (historyQuery symbol tf nBars).load dataset = sorted.map fun row =>
      ⟨.iso row.micros, row.values, (historyQuery symbol tf nBars).period⟩ := rfl
  have hincreasing : ((historyQuery symbol tf nBars).load dataset).Pairwise
      (fun a b => a.ts.Lt b.ts) ↔ (dataset.map HistoryRow.micros).Nodup := by
    rw [hload, List.pairwise_map]
    exact SortedBy.pairwise_lt_mergeSort_iff dataset
  constructor
  · intro h
    refine ⟨hincreasing.mp h.increasing, ?_, ?_⟩
    · intro bar hbar
      obtain ⟨row, hrow, hinstant⟩ := h.complete bar hbar
      obtain ⟨row', hrow', rfl⟩ := List.mem_map.mp hrow
      exact ⟨row', (hmem row').mp hrow', hinstant⟩
    · intro hne
      obtain ⟨row, hrow⟩ := List.exists_mem_of_ne_nil dataset hne
      exact h.period _ (List.mem_map_of_mem ((hmem row).mpr hrow))
  · intro h
    refine ⟨hincreasing.mpr h.distinct, ?_, ?_⟩
    · intro bar hbar
      obtain ⟨row, hrow, hinstant⟩ := h.complete bar hbar
      exact ⟨_, List.mem_map_of_mem ((hmem row).mpr hrow), hinstant⟩
    · intro row hrow
      obtain ⟨row', hrow', rfl⟩ := List.mem_map.mp hrow
      exact h.period (List.ne_nil_of_mem ((hmem row').mp hrow'))

theorem allIntact_iff_of_ne {s' : Frames} (h : s.AllIntact) (key : BarKey)
    (hframe : ∀ key' ≠ key, s'.frame key' = s.frame key')
    (hdelivered : ∀ key' ≠ key, s'.delivered key' = s.delivered key') :
    s'.AllIntact ↔ Intact key (s'.delivered key) (s'.frame key) := by
  refine ⟨fun hall => hall key, fun hkey key' => ?_⟩
  by_cases heq : key' = key
  · rw [heq]
    exact hkey
  · rw [hframe key' heq, hdelivered key' heq]
    exact h key'

theorem frame_replace_self : (s.replace key df).frame key = df := by
  simp [replace, frame]

theorem frame_replace_of_ne {key' : BarKey} (hne : key' ≠ key) :
    (s.replace key df).frame key' = s.frame key' := by
  simp [replace, frame, Function.update_of_ne hne]

theorem allIntact_replace (h : s.AllIntact) :
    (s.replace key df).AllIntact ↔ Intact key (s.delivered key) df := by
  rw [allIntact_iff_of_ne h key (fun _ hne => frame_replace_of_ne hne) (fun _ _ => rfl),
    frame_replace_self]
  rfl

theorem frame_onBar_self (bar : BarClose) :
    (s.onBar bar).frame (Strategy.keyOf bar) = s.frame (Strategy.keyOf bar) ++ [bar.row] := by
  simp [onBar, frame]

theorem delivered_onBar_self (bar : BarClose) :
    (s.onBar bar).delivered (Strategy.keyOf bar) = s.delivered (Strategy.keyOf bar) ++ [bar] := by
  simp [onBar]

/-- A bar keeps the frames exactly when it is newer than its frame. -/
theorem allIntact_onBar (h : s.AllIntact) (bar : BarClose) :
    (s.onBar bar).AllIntact ↔ s.Fits (.bar bar) := by
  rw [allIntact_iff_of_ne h (Strategy.keyOf bar), frame_onBar_self, delivered_onBar_self]
  · exact intact_append bar (h (Strategy.keyOf bar))
  · intro key' hne
    simp [onBar, frame, Function.update_of_ne hne]
  · intro key' hne
    exact Function.update_of_ne hne _ _

theorem allIntact_query (h : s.AllIntact) (symbol tf : String) (nBars : ℤ) (db : QuestDb) :
    (∀ rows ∈ queryQuestdb db symbol tf nBars, (s.replace (symbol, tf) rows).AllIntact) ↔
      ∀ dataset ∈ db (historyQuery symbol tf nBars), s.Whole symbol tf nBars dataset := by
  unfold queryQuestdb
  cases db (historyQuery symbol tf nBars) with
  | none => simp
  | some dataset =>
    simp only [Option.map_some, Option.mem_some_iff, forall_eq']
    rw [allIntact_replace h]
    exact intact_load symbol tf nBars dataset

theorem allIntact_next (h : s.AllIntact) (e : FrameEvent) : (s.next e).AllIntact ↔ s.Fits e := by
  cases e with
  | bar bar => exact allIntact_onBar h bar
  | getHistory symbol tf nBars db loopOpen =>
    show (s.getHistory symbol tf nBars db loopOpen).AllIntact ↔
      ∀ dataset ∈ db (historyQuery symbol tf nBars), s.Whole symbol tf nBars dataset
    rw [← allIntact_query h symbol tf nBars db]
    unfold getHistory
    cases queryQuestdb db symbol tf nBars with
    | none =>
      refine iff_of_true ?_ (fun rows hrows => absurd hrows (Option.not_mem_none rows))
      cases loopOpen <;> exact h
    | some rows => simp only [Option.mem_some_iff, forall_eq']
  | retry i db =>
    show (s.retry i db).AllIntact ↔ ∀ r ∈ s.retries[i]?,
      ∀ dataset ∈ db (historyQuery r.symbol r.tf r.nBars), s.Whole r.symbol r.tf r.nBars dataset
    unfold retry
    cases s.retries[i]? with
    | none => exact iff_of_true h fun r hr => absurd hr (Option.not_mem_none r)
    | some r =>
      simp only [Option.mem_some_iff, forall_eq']
      rw [← allIntact_query h r.symbol r.tf r.nBars db]
      cases queryQuestdb db r.symbol r.tf r.nBars with
      | none => exact iff_of_true h fun rows hrows => absurd hrows (Option.not_mem_none rows)
      | some rows =>
        simp only [Option.mem_some_iff, forall_eq']
        rfl

theorem allIntact_new : AllIntact {} := fun _ =>
  ⟨List.Pairwise.nil, fun _ hbar => absurd hbar List.not_mem_nil,
    fun _ hrow => absurd hrow List.not_mem_nil⟩

/-! ### All runs -/

theorem Intact.nodup (h : Intact key delivered df) :
    (df.map fun row => row.ts.instant).Nodup := by
  rw [List.Nodup, List.pairwise_map]
  refine h.increasing.imp fun {a b} hlt => ?_
  cases ha : a.ts <;> cases hb : b.ts <;> rw [ha, hb] at hlt
  · have hlt : _ < _ := hlt
    unfold Stamp.instant
    dsimp only
    omega
  · exact absurd hlt id
  · exact absurd hlt id
  · exact ne_of_lt hlt

theorem seen_right (h : s.AllIntact) {e : FrameEvent} (he : s.Fits e) :
    ∀ seen ∈ (step s e).2, seen.Right := by
  cases e with
  | bar bar =>
    intro seen hseen
    rw [List.mem_singleton.mp hseen]
    have hintact := (allIntact_onBar h bar).mpr he (Strategy.keyOf bar)
    constructor
    · show ((s.onBar bar).frame (Strategy.keyOf bar)).getLast? = some bar.row
      rw [frame_onBar_self]
      exact List.getLast?_concat
    · intro bar' hbar'
      obtain ⟨row, hrow, hinstant⟩ := hintact.complete bar' hbar'
      apply List.count_eq_one_of_mem hintact.nodup
      rw [← hinstant]
      exact List.mem_map_of_mem hrow
  | getHistory symbol tf nBars db loopOpen => exact fun seen hseen => absurd hseen List.not_mem_nil
  | retry i db => exact fun seen hseen => absurd hseen List.not_mem_nil

/-- The frames are intact throughout a run exactly when every step fits, and then every handler
sees each bar once and the newest last. -/
theorem allIntact_iff (es : List FrameEvent) :
    ((∀ fs, fs <+: es → (final step {} fs).AllIntact) ↔ Along step Fits {} es) ∧
      (Along step Fits {} es → ∀ seen ∈ trace step {} es, seen.Right) := by
  constructor
  · rw [forall_prefix_iff, and_iff_right allIntact_new]
    refine along_iff_along (I := AllIntact) (fun s e h => ?_) es allIntact_new
    exact ⟨allIntact_next h e, (allIntact_next h e).mpr⟩
  · refine trace_invariant_along (I := AllIntact) (fun s e h he => ?_) es allIntact_new
    exact ⟨(allIntact_next h e).mpr he, seen_right h he⟩

/-! ### A late answer -/

def lateBar : BarClose where
  exchange := "kucoin"
  symbol := "BTC-USDT"
  tf := "1m"
  ts := 60000
  openPrice := 100
  high := 100
  low := 100
  close := 100
  volume := 1
  quoteVolume := 100
  tradeCount := 1
  isComplete := true

/-- The first query fails; the retry answers with nothing after a bar has come. -/
def lateAnswer : List FrameEvent :=
  [.getHistory "BTC-USDT" "1m" 100 (fun _ => none) true, .bar lateBar, .retry 0 (fun _ => some [])]

theorem not_allIntact_of_retry :
    ¬ ∀ es : List FrameEvent, ∀ fs, fs <+: es → (final step {} fs).AllIntact := by
  intro hall
  have hintact := hall lateAnswer lateAnswer (List.prefix_refl _) ("BTC-USDT", "1m")
  have hempty : (final step {} lateAnswer).frame ("BTC-USDT", "1m") = [] := by
    simp [lateAnswer, step, next, getHistory, onBar, retry, queryQuestdb, HistoryQuery.load, frame,
      replace]
  have hbar : lateBar ∈ (final step {} lateAnswer).delivered ("BTC-USDT", "1m") := by
    simp [lateAnswer, step, next, getHistory, onBar, retry, queryQuestdb, replace,
      Strategy.keyOf, lateBar]
  obtain ⟨row, hrow, -⟩ := hintact.complete lateBar hbar
  rw [hempty] at hrow
  exact absurd hrow List.not_mem_nil

end Frames

end MagnumOpus.Bot
