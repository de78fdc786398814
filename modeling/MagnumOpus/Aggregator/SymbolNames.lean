import MagnumOpus.Aggregator.Exchange
import MagnumOpus.Lib.SuffixSplit

/-! # Canonical symbols of concatenated names

`Normalize` and `fromBybit` of `symbol.go`, and `FetchSnapshot` of `bybit/snapshot.go`, which takes
the dash out again.

* **Nothing is lost.** `rawSym_fromBybit`: a name in upper case without a dash comes back, so two
  names never share a symbol.
* **Which quote.** `knownQuotes` comes longest first, so a shorter quote is not taken where a longer
  one leaves a base (`longest_quote`).
* **The other way.** A canonical symbol comes back from its concatenated name exactly when no base
  of two letters or more joins with `USD` to a longer quote (`fromBybit_concat_iff`). -/

namespace MagnumOpus.Aggregator

open SuffixSplit

/-- The name that `FetchSnapshot` asks for: `strings.ReplaceAll(sym, "-", "")`. -/
def rawSym (sym : Symbol) : String := String.ofList (sym.toList.filter (· ≠ '-'))

/-- `strings.ToUpper` leaves the name as it is. -/
def UpperCase (raw : String) : Prop := upper raw = raw

def Dashless (raw : String) : Prop := '-' ∉ raw.toList

/-- The last letter of the base makes a longer quote of `USD`, and is not the whole base. -/
def JoinsQuote (base q : String) : Prop :=
  q = "USD" ∧ ∃ b, b ≠ "" ∧ (base = b ++ "B" ∨ base = b ++ "T")

/-! ### What `fromBybit` splits -/

/-- The quotes as words. -/
def quoteWords : List (List Char) := knownQuotes.map String.toList

theorem quoteWords_sorted : quoteWords.Pairwise fun q q' => q'.length ≤ q.length := by
  decide

theorem mem_quoteWords {q : String} : q.toList ∈ quoteWords ↔ q ∈ knownQuotes := by
  rw [quoteWords, List.mem_map]
  constructor
  · rintro ⟨q', hq', h⟩
    exact String.toList_injective h ▸ hq'
  · exact fun h => ⟨q, h, rfl⟩

/-- A base and a quote in one symbol. -/
def joined (p : List Char × List Char) : Symbol := String.ofList p.1 ++ "-" ++ String.ofList p.2

theorem fromBybit_eq (raw : String) :
    fromBybit raw = ((splitSuffix quoteWords (upper raw).toList).map joined).getD (upper raw) := by
  have hsome : ∀ qs : List String, (qs.findSome? fun q =>
      if q.toList.isSuffixOf (upper raw).toList ∧
          (upper raw).toList.take ((upper raw).toList.length - q.length) ≠ [] then
        some (String.ofList ((upper raw).toList.take ((upper raw).toList.length - q.length)) ++
          "-" ++ q)
      else none) = (splitSuffix (qs.map String.toList) (upper raw).toList).map joined := by
    intro qs
    induction qs with
    | nil => rfl
    | cons q qs ih =>
        have hlen : q.toList.length = q.length := String.length_toList
        have hiff : (q.toList.isSuffixOf (upper raw).toList ∧
            (upper raw).toList.take ((upper raw).toList.length - q.length) ≠ []) ↔
            Splits (upper raw).toList q.toList := by
          rw [List.isSuffixOf_iff_suffix, Splits, hlen]
        rw [List.findSome?_cons, List.map_cons]
        by_cases hsplits : Splits (upper raw).toList q.toList
        · rw [if_pos (hiff.mpr hsplits), splitSuffix_cons_of_splits hsplits, hlen,
            Option.map_some, joined, String.ofList_toList]
        · rw [if_neg (mt hiff.mp hsplits), splitSuffix_cons_of_not hsplits, ← ih]
  rw [quoteWords, ← hsome knownQuotes, ← String.ofList_toList (s := upper raw)]
  simp only [fromBybit, String.toList_ofList]

theorem fromBybit_of_some {raw : String} {b q : List Char}
    (h : splitSuffix quoteWords (upper raw).toList = some (b, q)) :
    (fromBybit raw).toList = b ++ '-' :: q := by
  rw [fromBybit_eq, h, Option.map_some, Option.getD_some, joined]
  simp

theorem fromBybit_of_none {raw : String} (h : splitSuffix quoteWords (upper raw).toList = none) :
    fromBybit raw = upper raw := by
  rw [fromBybit_eq, h, Option.map_none, Option.getD_none]

theorem normalize_bybit (raw : String) : normalize "bybit" raw = fromBybit raw := by
  simp [normalize]

/-! ### Nothing is lost -/

theorem toList_rawSym (sym : Symbol) : (rawSym sym).toList = sym.toList.filter (· ≠ '-') :=
  String.toList_ofList

theorem filter_dash_eq_self {l : List Char} (h : '-' ∉ l) : l.filter (· ≠ '-') = l := by
  refine List.filter_eq_self.mpr fun c hc => decide_eq_true ?_
  rintro rfl
  exact h hc

theorem rawSym_fromBybit {raw : String} (h : Dashless (upper raw)) :
    rawSym (fromBybit raw) = upper raw := by
  apply String.toList_injective
  rw [toList_rawSym]
  cases hsplit : splitSuffix quoteWords (upper raw).toList with
  | none => rw [fromBybit_of_none hsplit, filter_dash_eq_self h]
  | some p =>
      obtain ⟨b, q⟩ := p
      obtain ⟨hap, -, -⟩ := append_of_splitSuffix hsplit
      have hdash : '-' ∉ b ++ q := hap.symm ▸ h
      rw [fromBybit_of_some hsplit, List.filter_append, List.filter_cons_of_neg (by simp),
        ← List.filter_append, filter_dash_eq_self hdash, hap]

theorem fromBybit_injective {raw raw' : String} (h : Dashless (upper raw))
    (h' : Dashless (upper raw')) (heq : fromBybit raw = fromBybit raw') :
    upper raw = upper raw' := by
  rw [← rawSym_fromBybit h, ← rawSym_fromBybit h', heq]

/-! ### Which quote is taken -/

theorem quoteWords_dashless {q : List Char} (h : q ∈ quoteWords) : '-' ∉ q := by
  have hall : quoteWords.all (fun q => decide ('-' ∉ q)) = true := by decide
  exact of_decide_eq_true (List.all_eq_true.mp hall q h)

/-- The quote of the symbol is the one that was split off. -/
theorem splitSuffix_of_fromBybit {raw base q : String} (hq : q ∈ knownQuotes)
    {p : List Char × List Char} (hsplit : splitSuffix quoteWords (upper raw).toList = some p)
    (h : fromBybit raw = base ++ "-" ++ q) : p = (base.toList, q.toList) := by
  obtain ⟨b, q₀⟩ := p
  have hmem := (append_of_splitSuffix hsplit).2.1
  have hlist : b ++ '-' :: q₀ = base.toList ++ '-' :: q.toList := by
    rw [← fromBybit_of_some hsplit, h]
    simp
  obtain ⟨rfl, rfl⟩ := append_sep_inj_right (quoteWords_dashless hmem)
    (quoteWords_dashless (mem_quoteWords.mpr hq)) hlist
  rfl

theorem longest_quote {raw base q base' q' : String} (hq : q ∈ knownQuotes)
    (h : fromBybit raw = base ++ "-" ++ q) (hq' : q' ∈ knownQuotes) (hbase : base' ≠ "")
    (hraw : upper raw = base' ++ q') : q'.length ≤ q.length := by
  have hsplits : Splits (upper raw).toList q'.toList := by
    rw [hraw, String.toList_append, splits_append_iff]
    simpa using hbase
  cases hsplit : splitSuffix quoteWords (upper raw).toList with
  | none => exact absurd hsplits (splitSuffix_eq_none_iff.mp hsplit _ (mem_quoteWords.mpr hq'))
  | some p =>
      obtain rfl := splitSuffix_of_fromBybit hq hsplit h
      have hle : q'.toList.length ≤ q.toList.length :=
        longest_of_splitSuffix quoteWords_sorted hsplit _ (mem_quoteWords.mpr hq') hsplits
      rwa [String.length_toList, String.length_toList] at hle

/-! ### From the canonical symbol and back -/

theorem upper_append (s t : String) : upper (s ++ t) = upper s ++ upper t := by
  simp [upper]

theorem upper_quote {q : String} (h : q ∈ knownQuotes) : upper q = q := by
  have hall : knownQuotes.all (fun q => decide (upper q = q)) = true := by decide
  exact of_decide_eq_true (List.all_eq_true.mp hall q h)

/-- Only `USD` is a longer quote without its first letter. -/
theorem eq_of_cons_mem_quoteWords {c : Char} {q : List Char} (hq : q ∈ quoteWords)
    (h : c :: q ∈ quoteWords) : q = "USD".toList ∧ (c = 'B' ∨ c = 'T') := by
  have hall : quoteWords.all (fun w => decide (w.tail ∈ quoteWords →
      w.tail = "USD".toList ∧ (w.head? = some 'B' ∨ w.head? = some 'T'))) = true := by
    decide
  simpa using of_decide_eq_true (List.all_eq_true.mp hall _ h) hq

theorem length_le_succ {q q' : List Char} (hq : q ∈ quoteWords) (hq' : q' ∈ quoteWords) :
    q'.length ≤ q.length + 1 := by
  have hall : quoteWords.all (fun w => decide (w.length = 3 ∨ w.length = 4)) = true := by decide
  have h := of_decide_eq_true (List.all_eq_true.mp hall q hq)
  have h' := of_decide_eq_true (List.all_eq_true.mp hall q' hq')
  omega

theorem exists_longer_iff {base q : String} (hq : q ∈ knownQuotes) :
    (∃ q' ∈ quoteWords, q.toList.length < q'.length ∧ Splits (base.toList ++ q.toList) q') ↔
      JoinsQuote base q := by
  have hmem := mem_quoteWords.mpr hq
  constructor
  · rintro ⟨q', hq', hlt, hsplits⟩
    obtain ⟨b, hb, hap⟩ := splits_iff_exists.mp hsplits
    obtain ⟨c, t, rfl⟩ := List.exists_cons_of_length_pos (Nat.zero_lt_of_lt hlt)
    have hlen : t.length = q.toList.length := by
      have hle := length_le_succ hmem hq'
      rw [List.length_cons] at hle hlt
      omega
    obtain ⟨hbase, rfl⟩ := List.append_inj' (by simpa using hap : (b ++ [c]) ++ t = _) hlen
    obtain ⟨husd, hc⟩ := eq_of_cons_mem_quoteWords hmem hq'
    refine ⟨String.toList_injective husd, String.ofList b, by simpa using hb, ?_⟩
    rcases hc with rfl | rfl
    · exact .inl (String.toList_injective (by simp [← hbase]))
    · exact .inr (String.toList_injective (by simp [← hbase]))
  · rintro ⟨rfl, b, hb, hbase⟩
    have hb' : b.toList ≠ [] := by simpa using hb
    rcases hbase with rfl | rfl
    · exact ⟨"BUSD".toList, by decide, by decide,
        splits_iff_exists.mpr ⟨b.toList, hb', by simp⟩⟩
    · exact ⟨"TUSD".toList, by decide, by decide,
        splits_iff_exists.mpr ⟨b.toList, hb', by simp⟩⟩

theorem fromBybit_concat_iff {base q : String} (hq : q ∈ knownQuotes) (hbase : base ≠ "")
    (hupper : UpperCase base) : fromBybit (base ++ q) = base ++ "-" ++ q ↔ ¬ JoinsQuote base q := by
  have hraw : upper (base ++ q) = base ++ q := by
    rw [upper_append, hupper, upper_quote hq]
  have hsome : splitSuffix quoteWords (upper (base ++ q)).toList = some (base.toList, q.toList) ↔
      ¬ JoinsQuote base q := by
    rw [splitSuffix_eq_some_iff quoteWords_sorted, hraw, String.toList_append,
      ← exists_longer_iff hq, and_iff_right ⟨rfl, mem_quoteWords.mpr hq, by simpa using hbase⟩]
    constructor
    · rintro hmax ⟨q', hq', hlt, hsplits⟩
      exact absurd (hmax q' hq' hsplits) (Nat.not_le.mpr hlt)
    · exact fun h q' hq' hsplits => Nat.le_of_not_lt fun hlt => h ⟨q', hq', hlt, hsplits⟩
  rw [← hsome]
  constructor
  · intro h
    cases hsplit : splitSuffix quoteWords (upper (base ++ q)).toList with
    | none =>
        refine absurd ?_ (splitSuffix_eq_none_iff.mp hsplit q.toList (mem_quoteWords.mpr hq))
        rw [hraw, String.toList_append, splits_append_iff]
        simpa using hbase
    | some p => rw [splitSuffix_of_fromBybit hq hsplit h]
  · intro h
    apply String.toList_injective
    rw [fromBybit_of_some h]
    simp

/-- **Normalised names.** -/
theorem normalize_bybit_lossless :
    (∀ raw, UpperCase raw → Dashless raw → rawSym (normalize "bybit" raw) = raw) ∧
    (∀ raw raw', UpperCase raw → Dashless raw → UpperCase raw' → Dashless raw' →
      normalize "bybit" raw = normalize "bybit" raw' → raw = raw') ∧
    (∀ raw base q base' q', q ∈ knownQuotes → normalize "bybit" raw = base ++ "-" ++ q →
      q' ∈ knownQuotes → base' ≠ "" → upper raw = base' ++ q' → q'.length ≤ q.length) ∧
    (∀ base q, UpperCase base → base ≠ "" → q ∈ knownQuotes →
      (normalize "bybit" (base ++ q) = base ++ "-" ++ q ↔ ¬ JoinsQuote base q)) := by
  simp only [normalize_bybit]
  refine ⟨fun raw hup hdash => ?_, fun raw raw' hup hdash hup' hdash' heq => ?_,
    fun raw base q base' q' hq h hq' hbase hraw => longest_quote hq h hq' hbase hraw,
    fun base q hup hbase hq => fromBybit_concat_iff hq hbase hup⟩
  · rw [rawSym_fromBybit (hup.symm ▸ hdash), hup]
  · have h := fromBybit_injective (hup.symm ▸ hdash) (hup'.symm ▸ hdash') heq
    rwa [hup, hup'] at h

/-- The base of this symbol joins with its quote to `TUSD`. -/
theorem normalize_bybit_splits_elsewhere :
    upper "BNT" = "BNT" ∧ "USD" ∈ knownQuotes ∧
      normalize "bybit" ("BNT" ++ "USD") ≠ "BNT" ++ "-" ++ "USD" := by
  decide

end MagnumOpus.Aggregator
