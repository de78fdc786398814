import MagnumOpus.Lib.LatestBy
import MagnumOpus.Candle.ArchiveRow

/-! # The archive round trip

When the row that the flusher reads has the values of the bar that was written, and no others
(`RoundTrips`).

* **Losses of the writer.** A group of columns is left out as a whole when its condition fails
  (`WriteStep.takes`), whatever is set in it; a group that only asks for its first field fails with
  a nil pointer (`WriteStep.panics`).
* **Losses of the parser.** It does not read the `unreadColumns`, reads whole numbers of 32 bits
  only, and takes an empty text for one that was not written.

`roundTrips_iff` says that there are no others.  The columns leave out no field of a bar
(`barColumns_ext`). -/

namespace MagnumOpus.Candle

open Flusher

/-! ### Columns and their readers -/

/-- How the parser reads a column. -/
inductive Reader where
  | float
  | int
  | text
  | bool
  /-- A boolean that is not nullable. -/
  | flag
  /-- A number that is not nullable. -/
  | count
deriving DecidableEq

namespace Reader

def read (T : CsvText) (s : String) : Reader → Option Cell
  | float => (parseFloat T s).map .float
  | int => (parseInt32 s).map .int
  | text => (Flusher.getString s).map .text
  | bool => (parseBool s).map .bool
  | flag => some (.bool (s = "true"))
  | count => some (.int (parseCount s))

end Reader

/-- The columns that the parser reads. -/
def readers : List (String × Reader) :=
  [ ("open", .float),
    ("high", .float),
    ("low", .float),
    ("close", .float),
    ("volume", .float),
    ("quote_volume", .float),
    ("trade_count", .int),
    ("twap", .float),
    ("mid_price_open", .float),
    ("mid_price_high", .float),
    ("mid_price_low", .float),
    ("vwmp", .float),
    ("spread_high", .float),
    ("spread_low", .float),
    ("spread_mean", .float),
    ("effective_spread", .float),
    ("best_bid_open", .float),
    ("best_ask_open", .float),
    ("best_bid", .float),
    ("best_ask", .float),
    ("bid_depth_l1_open", .float),
    ("ask_depth_l1_open", .float),
    ("bid_depth_l2_open", .float),
    ("ask_depth_l2_open", .float),
    ("bid_depth_top10_open", .float),
    ("ask_depth_top10_open", .float),
    ("bid_depth_total_open", .float),
    ("ask_depth_total_open", .float),
    ("bid_depth_l1_close", .float),
    ("ask_depth_l1_close", .float),
    ("bid_depth_l2_close", .float),
    ("ask_depth_l2_close", .float),
    ("bid_depth_top10_close", .float),
    ("ask_depth_top10_close", .float),
    ("bid_depth_total_close", .float),
    ("ask_depth_total_close", .float),
    ("weighted_bid_price", .float),
    ("weighted_ask_price", .float),
    ("depth_to_1pct_bid", .float),
    ("depth_to_1pct_ask", .float),
    ("ofi", .float),
    ("ofi_l1", .float),
    ("buy_volume", .float),
    ("sell_volume", .float),
    ("buy_count", .int),
    ("footprint_json", .text),
    ("poc_price", .float),
    ("value_area_high", .float),
    ("value_area_low", .float),
    ("poc_volume", .float),
    ("imbalance_buy_count", .int),
    ("imbalance_sell_count", .int),
    ("imbalance_stack_buy", .int),
    ("imbalance_stack_sell", .int),
    ("imbalance_ratio", .float),
    ("single_print_count", .int),
    ("single_print_levels_json", .text),
    ("unfinished_top", .bool),
    ("unfinished_bottom", .bool),
    ("absorption_detected", .bool),
    ("footprint_delta_divergence", .int),
    ("cum_delta", .float),
    ("cvd_divergence", .int),
    ("iceberg_bid_detected", .bool),
    ("iceberg_ask_detected", .bool),
    ("iceberg_price", .float),
    ("block_buy_volume", .float),
    ("block_sell_volume", .float),
    ("max_trade_size", .float),
    ("large_bid_orders", .int),
    ("large_ask_orders", .int),
    ("first_trade_offset_ms", .int),
    ("last_trade_offset_ms", .int),
    ("trade_clustering", .float),
    ("max_consecutive_run", .int),
    ("realized_vol", .float),
    ("realized_skewness", .float),
    ("uptick_count", .int),
    ("downtick_count", .int),
    ("bid_order_arrivals", .int),
    ("ask_order_arrivals", .int),
    ("bid_cancel_count", .int),
    ("ask_cancel_count", .int),
    ("ob_modify_count", .int),
    ("avg_bid_order_size", .float),
    ("avg_ask_order_size", .float),
    ("best_bid_changes", .int),
    ("best_ask_changes", .int),
    ("quote_stuff_ratio", .float),
    ("trade_sign_autocorr", .float),
    ("inter_trade_interval_std_ms", .float),
    ("num_trade_price_levels", .int),
    ("is_partial", .flag),
    ("gap_count", .count),
    ("bar_count", .count) ]

/-- The columns that the writer writes and the parser does not read. -/
def unreadColumns : List String :=
  [ "bid_depth_l3_open", "ask_depth_l3_open", "bid_depth_l4_open", "ask_depth_l4_open",
    "bid_depth_l5_open", "ask_depth_l5_open", "bid_depth_l3_close", "ask_depth_l3_close",
    "bid_depth_l4_close", "ask_depth_l4_close", "bid_depth_l5_close", "ask_depth_l5_close",
    "hawkes_intensity", "microprice", "microprice_mid_delta", "cancel_bias",
    "trade_aggressiveness", "buy_vwap_deviation_bps", "sell_vwap_deviation_bps" ]

/-- The parser gets a value back from its text. -/
def Cell.Fits : Cell → Prop
  | .int n => -2 ^ 31 ≤ n ∧ n < 2 ^ 31
  | .text s => s ≠ ""
  | .float _ | .bool _ => True

namespace Column

/-- What the parser reads where the column was not written. -/
def readUnset (T : CsvText) : Column → Option Cell
  | bool _ _ => (parseBool T.unsetBool).map .bool
  | _ => none

/-- The column comes back with the field's value when `sent` was written: a value that was written
is read, and one that was not written is what an unset column is read as. -/
def Kept (T : CsvText) (bar : FullBar) (c : Column) : Option Cell → Prop
  | some v => c.name ∉ unreadColumns ∧ v.Fits
  | none => c.value bar = c.readUnset T

/-- The columns that a reader is for. -/
def readBy : Column → Reader → Bool
  | float _ _, .float | int _ _, .int | count _ _, .int | text _ _, .text | bool _ _, .bool
  | intAlways _ _, .int | intAlways _ _, .count | boolAlways _ _, .flag => true
  | _, _ => false

def nullable : Column → Bool
  | intAlways _ _ | boolAlways _ _ => false
  | _ => true

end Column

namespace WriteStep

/-- The step writes those of its columns that are set. -/
def takes (bar : FullBar) : WriteStep → Bool
  | column _ => true
  | together cs => cs.all fun c => (c.value bar).isSome
  | first c _ => (c.value bar).isSome
  | both c d _ => (c.value bar).isSome && (d.value bar).isSome

def panics (bar : FullBar) : WriteStep → Bool
  | first c cs => (c.value bar).isSome && !cs.all fun d => (d.value bar).isSome
  | _ => false

/-- The columns of the step are written together. -/
def grouped : WriteStep → Bool
  | column _ => false
  | _ => true

/-- What is written into a column of the step. -/
def sent (bar : FullBar) (st : WriteStep) (c : Column) : Option Cell :=
  if st.takes bar then c.value bar else none

/-- What is written by a step that does not panic. -/
def entries (bar : FullBar) (st : WriteStep) : List (String × Cell) :=
  st.columns.flatMap fun c => (st.sent bar c).toList.map fun v => (c.name, v)

def Keeps (T : CsvText) (bar : FullBar) (st : WriteStep) : Prop :=
  st.panics bar = false ∧ ∀ c ∈ st.columns, c.Kept T bar (st.sent bar c)

end WriteStep

/-- The row that the flusher reads has the values of the bar, and no others. -/
def RoundTrips (T : CsvText) (header : Header) (bar : FullBar) : Prop :=
  ∃ sent row, writeBar bar = some sent ∧
    parseCSVRow T (T.record header.names sent) (columnIndex header.names) = .ok row ∧
    row.ts = bar.tsSecMs * 1000 ∧ row.exchange = bar.exchange ∧ row.symbol = bar.symbol ∧
    ∀ c ∈ barColumns, row.column c.name = c.value bar

/-- The second can be read from its text, and every step of the writer keeps its columns. -/
def Archivable (T : CsvText) (bar : FullBar) : Prop :=
  T.parseTs (T.ts bar.tsSecMs) = some (bar.tsSecMs * 1000) ∧
    ∀ st ∈ writeSteps, st.Keeps T bar

/-! ### What is written -/

namespace WriteStep

variable {bar : FullBar} {st : WriteStep}

theorem grouped_of_not_takes (h : st.takes bar = false) : st.grouped = true := by
  cases st with
  | column c => cases h
  | _ => rfl

theorem sent_of_takes (h : st.takes bar = true) (c : Column) : st.sent bar c = c.value bar :=
  if_pos h

theorem sent_of_not_takes (h : st.takes bar = false) (c : Column) : st.sent bar c = none := by
  rw [sent, h]
  rfl

theorem entries_of_takes (h : st.takes bar = true) :
    st.entries bar = st.columns.flatMap (Column.put bar) := by
  simp only [entries, sent_of_takes h]
  rfl

theorem entries_of_not_takes (h : st.takes bar = false) : st.entries bar = [] := by
  simp [entries, sent_of_not_takes h]

theorem write_eq (st : WriteStep) :
    st.write bar = if st.panics bar then none else some (st.entries bar) := by
  cases ht : st.takes bar with
  | true =>
      rw [entries_of_takes ht]
      cases st with
      | column c => simp [write, panics, columns]
      | together cs =>
          rw [takes] at ht
          simp only [write, panics, columns, ht, Bool.false_eq_true, if_false, if_true]
      | first c cs =>
          rw [takes] at ht
          simp only [write, panics, columns, ht, Bool.true_and, if_true]
          cases cs.all fun d => (d.value bar).isSome <;> rfl
      | both c d e =>
          rw [takes, Bool.and_eq_true] at ht
          simp [write, panics, columns, ht]
  | false =>
      rw [entries_of_not_takes ht]
      cases st with
      | column c => cases ht
      | together cs =>
          rw [takes] at ht
          simp only [write, panics, ht, Bool.false_eq_true, if_false]
      | first c cs =>
          rw [takes] at ht
          simp only [write, panics, ht, Bool.false_and, Bool.false_eq_true, if_false]
      | both c d e =>
          rw [takes] at ht
          simp only [write, panics, ← Bool.and_eq_true, ht, Bool.false_eq_true, if_false]

end WriteStep

theorem writeColumns_eq (bar : FullBar) : ∀ sts : List WriteStep,
    writeColumns bar sts =
      if sts.any (WriteStep.panics bar) then none
      else some (sts.flatMap (WriteStep.entries bar))
  | [] => rfl
  | st :: sts => by
      rw [writeColumns, st.write_eq, writeColumns_eq bar sts, List.any_cons]
      cases st.panics bar with
      | true => rfl
      | false => cases sts.any (WriteStep.panics bar) <;> rfl

/-- All columns with the steps that write them. -/
def placedColumns : List (WriteStep × Column) :=
  writeSteps.flatMap fun st => st.columns.map fun c => (st, c)

theorem barColumns_eq : barColumns = placedColumns.map Prod.snd := by
  simp only [barColumns, placedColumns, List.map_flatMap, List.map_map, Function.comp_def,
    List.map_id']

theorem barColumns_names_nodup : (barColumns.map Column.name).Nodup := by decide +kernel

theorem mem_placedColumns {st : WriteStep} {c : Column} :
    (st, c) ∈ placedColumns ↔ st ∈ writeSteps ∧ c ∈ st.columns := by
  simp [placedColumns, and_comm]

theorem find?_entries (bar : FullBar) {st : WriteStep} (hst : st ∈ writeSteps) {c : Column}
    (hc : c ∈ st.columns) :
    (writeSteps.flatMap (WriteStep.entries bar)).find? (fun p => p.1 = c.name) =
      (st.sent bar c).map fun v => (c.name, v) := by
  have hnames : (placedColumns.map fun p => p.2.name).Nodup := by
    have h := barColumns_names_nodup
    rwa [barColumns_eq, List.map_map] at h
  have hflat : writeSteps.flatMap (WriteStep.entries bar) =
      placedColumns.flatMap fun p => (p.1.sent bar p.2).toList.map fun v => (p.2.name, v) := by
    simp only [placedColumns, List.flatMap_assoc, List.flatMap_map]
    rfl
  rw [hflat]
  exact LatestBy.find?_values (fun p => p.1.sent bar p.2) hnames
    (mem_placedColumns.mpr ⟨hst, hc⟩)

/-- The columns leave out no field of a bar. -/
theorem barColumns_ext {bar bar' : FullBar} (hts : bar.tsSecMs = bar'.tsSecMs)
    (hexchange : bar.exchange = bar'.exchange) (hsymbol : bar.symbol = bar'.symbol)
    (h : ∀ c ∈ barColumns, c.value bar = c.value bar') : bar = bar' := by
  have hcount : Function.Injective fun n : ℕ => Cell.int n := fun m n hmn =>
    Int.ofNat.inj (Cell.int.inj hmn)
  have hoffset : Function.Injective Int64.toInt := fun m n => Int64.toInt_inj.mp
  simp only [barColumns, writeSteps, List.flatMap_cons, List.flatMap_nil, WriteStep.columns,
    List.cons_append, List.nil_append, List.forall_mem_cons, Column.value,
    (Option.map_injective fun _ _ => Cell.float.inj).eq_iff,
    (Option.map_injective fun _ _ => Cell.int.inj).eq_iff,
    (Option.map_injective fun _ _ => Cell.text.inj).eq_iff,
    (Option.map_injective fun _ _ => Cell.bool.inj).eq_iff,
    (Option.map_injective hcount).eq_iff, (Option.map_injective hoffset).eq_iff,
    Option.some.injEq, Cell.int.injEq, Cell.bool.injEq, Int64.toInt_inj] at h
  obtain ⟨⟨⟩, _⟩ := bar
  obtain ⟨⟨⟩, _⟩ := bar'
  simp only at h hts hexchange hsymbol
  simp only [h, hts, hexchange, hsymbol]

/-! ### What is read -/

theorem columnIndex_eq_some {header : List String} {name : String} (h : name ∈ header) :
    ∃ i, columnIndex header name = some i ∧ header[i]? = some name := by
  -- The fold has the position of an entry of that name, or what it began with.
  have hfold : ∀ (xs : List (String × ℕ)) (idx : String → Option ℕ),
      (∃ p ∈ xs, p.1 = name ∧
        xs.foldl setPosition idx name = some p.2) ∨
      (∀ p ∈ xs, p.1 ≠ name) ∧
        xs.foldl setPosition idx name = idx name := by
    intro xs
    induction xs with
    | nil => intro idx; exact .inr ⟨fun p hp => absurd hp List.not_mem_nil, rfl⟩
    | cons q xs ih =>
        intro idx
        rw [List.foldl_cons]
        rcases ih (setPosition idx q) with ⟨p, hp, hname, hval⟩ | ⟨hne, hval⟩
        · exact .inl ⟨p, List.mem_cons_of_mem q hp, hname, hval⟩
        · rw [hval]
          by_cases hq : q.1 = name
          · refine .inl ⟨q, List.mem_cons_self, hq, ?_⟩
            rw [setPosition, ← hq, Function.update_self]
          · refine .inr ⟨List.forall_mem_cons.mpr ⟨hq, hne⟩, ?_⟩
            rw [setPosition, Function.update_of_ne (Ne.symm hq)]
  rcases hfold header.zipIdx (fun _ => none) with ⟨p, hp, rfl, hval⟩ | ⟨hne, -⟩
  · exact ⟨p.2, hval, List.mem_zipIdx_iff_getElem?.mp hp⟩
  · obtain ⟨i, hi⟩ := List.mem_iff_getElem?.mp h
    exact absurd rfl (hne (name, i) (List.mem_zipIdx_iff_getElem?.mpr hi))

theorem recordText_record (T : CsvText) (row : IlpRow) {header : List String} {name : String}
    (h : name ∈ header) :
    recordText (T.record header row) (columnIndex header) name = T.column row name := by
  obtain ⟨i, hi, hname⟩ := columnIndex_eq_some h
  rw [recordText, hi]
  simp [CsvText.record, hname]

/-- A record is read exactly when its time is. -/
theorem parseCSVRow_eq_ok {T : CsvText} {record : List String} {idx : String → Option ℕ}
    {ts : Int64} (h : T.parseTs (recordText record idx "ts") = some ts) :
    ∃ row, parseCSVRow T record idx = .ok row := by
  rw [parseCSVRow]
  simp only [h]
  exact ⟨_, rfl⟩

theorem ident_of_parseCSVRow {T : CsvText} {record : List String} {idx : String → Option ℕ}
    {row : Snapshot1sRow} (h : parseCSVRow T record idx = .ok row) :
    T.parseTs (recordText record idx "ts") = some row.ts ∧
      row.exchange = recordText record idx "exchange" ∧
      row.symbol = recordText record idx "symbol" := by
  rw [parseCSVRow] at h
  cases hts : T.parseTs (recordText record idx "ts") with
  | none =>
      simp only [hts] at h
      cases h
  | some ts =>
      simp only [hts] at h
      cases h
      exact ⟨rfl, rfl, rfl⟩

/-- A row that was read has in each column what its reader makes of the text. -/
theorem column_of_parseCSVRow {T : CsvText} {record : List String} {idx : String → Option ℕ}
    {row : Snapshot1sRow} (h : parseCSVRow T record idx = .ok row) (name : String) :
    row.column name =
      (readers.lookup name).bind fun k => k.read T (recordText record idx name) := by
  have hcolumns : row.columns =
      readers.map fun r => (r.1, r.2.read T (recordText record idx r.1)) := by
    rw [parseCSVRow] at h
    cases hts : T.parseTs (recordText record idx "ts") with
    | none =>
        simp only [hts] at h
        cases h
    | some ts =>
        simp only [hts] at h
        cases h
        rfl
  have hlookup : ∀ rs : List (String × Reader),
      (rs.map fun r => (r.1, r.2.read T (recordText record idx r.1))).lookup name =
        (rs.lookup name).map fun k => k.read T (recordText record idx name) := by
    intro rs
    induction rs with
    | nil => rfl
    | cons r rs ih =>
        rw [List.map_cons, List.lookup_cons, List.lookup_cons, ih]
        cases hr : name == r.1 with
        | true => rw [eq_of_beq hr]; rfl
        | false => rfl
  rw [Snapshot1sRow.column, hcolumns, hlookup]
  cases readers.lookup name <;> rfl

/-! ### What comes back -/

theorem readers_lookup {c : Column} (hc : c ∈ barColumns) (hread : c.name ∉ unreadColumns) :
    ∃ k, readers.lookup c.name = some k ∧ c.readBy k = true := by
  have hall : barColumns.all (fun c => unreadColumns.contains c.name ||
      (readers.lookup c.name).any c.readBy) = true := by decide +kernel
  have h := List.all_eq_true.mp hall c hc
  rw [Bool.or_eq_true, List.contains_iff_mem] at h
  exact (Option.any_eq_true _ _).mp (h.resolve_left hread)

theorem readers_lookup_unread {name : String} (h : name ∈ unreadColumns) :
    readers.lookup name = none := by
  have hall : unreadColumns.all (fun name => (readers.lookup name).isNone) = true := by
    decide +kernel
  exact Option.isNone_iff_eq_none.mp (List.all_eq_true.mp hall name h)

theorem readUnset_of_unread (T : CsvText) {c : Column} (hc : c ∈ barColumns)
    (h : c.name ∈ unreadColumns) : c.readUnset T = none := by
  have hall : barColumns.all (fun c => !unreadColumns.contains c.name || c.readBy .float) = true :=
    by decide +kernel
  have hfloat := List.all_eq_true.mp hall c hc
  rw [List.contains_iff_mem.mpr h, Bool.not_true, Bool.false_or] at hfloat
  cases c with
  | float => rfl
  | _ => cases hfloat

theorem parseFloat_format (T : CsvText) (x : ℚ) : parseFloat T (T.float.format x) = some x := by
  rw [parseFloat, if_neg (T.float.format_ne_empty x), T.float.parse_format]

theorem parseInt32_eq (s : String) : parseInt32 s = Strconv.readInt32 s := by
  rw [parseInt32]
  split
  · next h => rw [h]; rfl
  · rfl

theorem parseCount_eq (s : String) : parseCount s = (Strconv.readInt32 s).getD 0 := by
  rw [parseCount]
  split
  · next h => rw [h]; rfl
  · rfl

theorem parseBool_cell (T : CsvText) (b : Bool) : parseBool (T.cell (.bool b)) = some b := by
  cases b <;> simp [CsvText.cell, parseBool]

/-- A whole number comes back from its text if it has 32 bits. -/
theorem readInt32_repr_eq_some_iff (n : ℤ) :
    Strconv.readInt32 n.repr = some n ↔ (Cell.int n).Fits := by
  rw [Strconv.readInt32_repr, Cell.Fits]
  split <;> simp_all

theorem read_int (T : CsvText) (n : ℤ) :
    Reader.int.read T (T.cell (.int n)) = some (.int n) ↔ (Cell.int n).Fits := by
  rw [← readInt32_repr_eq_some_iff, Reader.read, CsvText.cell, parseInt32_eq]
  cases Strconv.readInt32 n.repr <;> simp

theorem read_count (T : CsvText) (n : ℤ) :
    Reader.count.read T (T.cell (.int n)) = some (.int n) ↔ (Cell.int n).Fits := by
  rw [Reader.read, CsvText.cell, parseCount_eq, Strconv.readInt32_repr, Cell.Fits]
  split
  · next h => exact iff_of_true rfl h
  · next h =>
      -- What is read is zero, which would have fitted.
      simp only [Option.getD_none, Option.some.injEq, Cell.int.injEq]
      omega

theorem read_cell {T : CsvText} {bar : FullBar} {c : Column} {k : Reader}
    (hk : c.readBy k = true) {v : Cell} (hv : c.value bar = some v) :
    k.read T (T.cell v) = some v ↔ v.Fits := by
  cases c with
  | float name field =>
      cases k <;> cases hk
      obtain ⟨x, -, rfl⟩ := Option.map_eq_some_iff.mp hv
      rw [Reader.read, CsvText.cell, parseFloat_format]
      exact iff_of_true rfl trivial
  | int name field =>
      cases k <;> cases hk
      obtain ⟨n, -, rfl⟩ := Option.map_eq_some_iff.mp hv
      exact read_int T n
  | count name field =>
      cases k <;> cases hk
      obtain ⟨n, -, rfl⟩ := Option.map_eq_some_iff.mp hv
      exact read_int T n
  | text name field =>
      cases k <;> cases hk
      obtain ⟨s, -, rfl⟩ := Option.map_eq_some_iff.mp hv
      rw [Reader.read, CsvText.cell, Flusher.getString, Cell.Fits]
      split <;> simp_all
  | bool name field =>
      cases k <;> cases hk
      obtain ⟨b, -, rfl⟩ := Option.map_eq_some_iff.mp hv
      rw [Reader.read, parseBool_cell]
      exact iff_of_true rfl trivial
  | intAlways name field =>
      obtain rfl := Option.some.inj hv
      cases k <;> cases hk
      · exact read_int T _
      · exact read_count T _
  | boolAlways name field =>
      cases k <;> cases hk
      obtain rfl := Option.some.inj hv
      cases field bar <;> exact iff_of_true rfl trivial

theorem read_unset {T : CsvText} {c : Column} {k : Reader} (hk : c.readBy k = true)
    (hnull : c.nullable = true) : k.read T (T.unset c) = c.readUnset T := by
  cases c with
  | intAlways | boolAlways => cases hnull
  | _ =>
      cases k <;> cases hk
      rfl

theorem nullable_of_value_none {bar : FullBar} {c : Column} (h : c.value bar = none) :
    c.nullable = true := by
  cases c with
  | intAlways | boolAlways => cases h
  | _ => rfl

theorem nullable_of_sent_none {bar : FullBar} {st : WriteStep} (hst : st ∈ writeSteps)
    {c : Column} (hc : c ∈ st.columns) (h : st.sent bar c = none) : c.nullable = true := by
  cases ht : st.takes bar with
  | true => exact nullable_of_value_none ((WriteStep.sent_of_takes ht c).symm.trans h)
  | false =>
      have hall : writeSteps.all (fun st => !st.grouped || st.columns.all Column.nullable) = true :=
        by decide +kernel
      have hcols := List.all_eq_true.mp hall st hst
      rw [WriteStep.grouped_of_not_takes ht, Bool.not_true, Bool.false_or] at hcols
      exact List.all_eq_true.mp hcols c hc

/-- The row of a bar, if no step panics. -/
def sentRow (bar : FullBar) : IlpRow where
  exchange := bar.exchange
  symbol := bar.symbol
  columns := writeSteps.flatMap (WriteStep.entries bar)
  tsMs := bar.tsSecMs

theorem writeBar_eq (bar : FullBar) :
    writeBar bar = if writeSteps.any (WriteStep.panics bar) then none else some (sentRow bar) := by
  rw [writeBar, writeColumns_eq]
  cases writeSteps.any (WriteStep.panics bar) <;> rfl

theorem column_sentRow (T : CsvText) (bar : FullBar) {st : WriteStep} (hst : st ∈ writeSteps)
    {c : Column} (hc : c ∈ st.columns) :
    T.column (sentRow bar) c.name = ((st.sent bar c).map T.cell).getD (T.unset c) := by
  have hmem : c ∈ barColumns := List.mem_flatMap.mpr ⟨st, hst, hc⟩
  have hall : barColumns.all (fun c =>
      c.name != "ts" && (c.name != "exchange" && c.name != "symbol")) = true := by decide +kernel
  have hname := List.all_eq_true.mp hall c hmem
  simp only [Bool.and_eq_true, bne_iff_ne] at hname
  have hfind : barColumns.find? (fun d => d.name = c.name) = some c :=
    (LatestBy.find?_eq_some_iff_of_nodup barColumns_names_nodup).mpr ⟨hmem, rfl⟩
  rw [CsvText.column, if_neg hname.1, if_neg hname.2.1, if_neg hname.2.2, sentRow,
    find?_entries bar hst hc, hfind]
  cases st.sent bar c <;> rfl

/-- A column comes back with the value of the field exactly when it is kept. -/
theorem column_eq_iff {T : CsvText} {header : Header} {bar : FullBar} {row : Snapshot1sRow}
    (hrow : parseCSVRow T (T.record header.names (sentRow bar)) (columnIndex header.names) =
      .ok row)
    {st : WriteStep} (hst : st ∈ writeSteps) {c : Column} (hc : c ∈ st.columns) :
    row.column c.name = c.value bar ↔ c.Kept T bar (st.sent bar c) := by
  have hmem : c ∈ barColumns := List.mem_flatMap.mpr ⟨st, hst, hc⟩
  have hsent : ∀ v, st.sent bar c = some v → c.value bar = some v := by
    intro v hv
    rw [WriteStep.sent] at hv
    split at hv
    · exact hv
    · cases hv
  rw [column_of_parseCSVRow hrow, recordText_record T _ (header.mem_of_column c hmem),
    column_sentRow T bar hst hc]
  by_cases hread : c.name ∈ unreadColumns
  · rw [readers_lookup_unread hread]
    cases hs : st.sent bar c with
    | some v => simp [Column.Kept, hread, hsent v hs]
    | none =>
        rw [Column.Kept, readUnset_of_unread T hmem hread]
        exact eq_comm
  · obtain ⟨k, hk, hby⟩ := readers_lookup hmem hread
    rw [hk, Option.bind_some]
    cases hs : st.sent bar c with
    | some v =>
        rw [hsent v hs, Column.Kept]
        exact (read_cell hby (hsent v hs)).trans (and_iff_right hread).symm
    | none =>
        rw [Column.Kept]
        exact (read_unset hby (nullable_of_sent_none hst hc hs)) ▸ eq_comm

/-- The archive keeps a bar exactly when its second can be read and every step of the writer keeps
its columns. -/
theorem roundTrips_iff (T : CsvText) (header : Header) (bar : FullBar) :
    RoundTrips T header bar ↔ Archivable T bar := by
  have hts : recordText (T.record header.names (sentRow bar)) (columnIndex header.names) "ts" =
      T.ts bar.tsSecMs := recordText_record T _ header.ts_mem
  have hexchange : recordText (T.record header.names (sentRow bar)) (columnIndex header.names)
      "exchange" = bar.exchange := recordText_record T _ header.exchange_mem
  have hsymbol : recordText (T.record header.names (sentRow bar)) (columnIndex header.names)
      "symbol" = bar.symbol := recordText_record T _ header.symbol_mem
  constructor
  · rintro ⟨sent, row, hsent, hrow, htime, -, -, hcols⟩
    rw [writeBar_eq] at hsent
    cases hpanics : writeSteps.any (WriteStep.panics bar) with
    | true => rw [hpanics] at hsent; cases hsent
    | false =>
        rw [hpanics] at hsent
        obtain rfl := Option.some.inj hsent
        refine ⟨?_, fun st hst => ⟨?_, fun c hc => ?_⟩⟩
        · rw [← htime, ← hts]
          exact (ident_of_parseCSVRow hrow).1
        · exact Bool.eq_false_iff.mpr (List.any_eq_false.mp hpanics st hst)
        · exact (column_eq_iff hrow hst hc).mp (hcols c (List.mem_flatMap.mpr ⟨st, hst, hc⟩))
  · rintro ⟨htime, hsteps⟩
    have hpanics : writeSteps.any (WriteStep.panics bar) = false :=
      List.any_eq_false.mpr fun st hst => Bool.eq_false_iff.mp (hsteps st hst).1
    obtain ⟨row, hrow⟩ := parseCSVRow_eq_ok (hts ▸ htime)
    obtain ⟨hrowTs, hrowEx, hrowSym⟩ := ident_of_parseCSVRow hrow
    rw [hts, htime, Option.some.injEq] at hrowTs
    refine ⟨sentRow bar, row, ?_, hrow, hrowTs.symm, hrowEx.trans hexchange,
      hrowSym.trans hsymbol, fun c hc => ?_⟩
    · rw [writeBar_eq, hpanics]
      rfl
    · obtain ⟨st, hst, hc⟩ := List.mem_flatMap.mp hc
      exact (column_eq_iff hrow hst hc).mpr ((hsteps st hst).2 c hc)

/-- A trade came in, but there is no close of an earlier bar to compare with. -/
def barWithoutPrevClose : FullBar where
  tsSecMs := 1000
  cumDelta := some 3

def CsvText.sample : CsvText where
  float := FloatText.fraction
  unsetBool := "false"
  ts ms := if ms = 1000 then "1970-01-01T00:00:01.000000Z" else Strconv.formatInt ms
  parseTs s :=
    if s = "1970-01-01T00:00:01.000000Z" then some 1000000
    else (Strconv.readInt s).toOption.map (· * 1000)
  quote s := "\"" ++ s ++ "\""

/-- The columns in the order of the writer. -/
def Header.ofWriter : Header where
  names := "ts" :: "exchange" :: "symbol" :: barColumns.map Column.name
  ts_mem := by simp
  exchange_mem := by simp
  symbol_mem := by simp
  mem_of_column c hc := by simp [List.mem_map_of_mem hc]

/-- The cumulative delta is lost because there is no divergence beside it. -/
theorem cum_delta_is_dropped :
    barWithoutPrevClose.cumDelta = some 3 ∧
      (writeBar barWithoutPrevClose).map (fun sent =>
        (parseCSVRow .sample (CsvText.sample.record Header.ofWriter.names sent)
          (columnIndex Header.ofWriter.names)).toOption.map Snapshot1sRow.cumDelta) =
        some (some none) ∧
      ¬ RoundTrips .sample .ofWriter barWithoutPrevClose := by
  refine ⟨rfl, by decide +kernel, ?_⟩
  rintro ⟨sent, row, hsent, hrow, -, -, -, hcols⟩
  have hst : WriteStep.together [.float "cum_delta" (·.cumDelta),
      .int "cvd_divergence" (·.cvdDivergence)] ∈ writeSteps := by simp [writeSteps]
  have hsent' : sentRow barWithoutPrevClose = sent := by
    rw [writeBar_eq] at hsent
    exact Option.some.inj hsent
  subst hsent'
  have hkept := (column_eq_iff hrow hst List.mem_cons_self).mp
    (hcols _ (List.mem_flatMap.mpr ⟨_, hst, List.mem_cons_self⟩))
  cases hkept

end MagnumOpus.Candle
