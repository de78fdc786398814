import MagnumOpus.Lib.JsonDecode
import Mathlib.Data.List.TakeWhile

/-! # JSON texts

The bytes that Go's `encoding/json` takes for a JSON text, and the value they denote.

* The scanner goes through a string byte by byte (`StringState`), and does not look at bytes that
  are no UTF-8; `unquote` puts U+FFFD in their place, and in the place of surrogates on their own.
* A number stays its literal.
* Arrays and objects nest to a depth of `maxNestingDepth`.

What denotes `null` is the word with white space around it (`parse_eq_null_iff`). -/

namespace MagnumOpus.JsonScan

open JsonDecode (JsonValue)

abbrev Bytes := List UInt8

def code (c : Char) : UInt8 := UInt8.ofNat c.toNat

/-- The bytes of a text of ASCII characters. -/
def ascii (s : String) : Bytes := s.toList.map code

/-- The text of bytes that are ASCII characters. -/
def text (bytes : Bytes) : String := String.ofList (bytes.map fun c => Char.ofNat c.toNat)

/-! ### Words and numbers -/

def isSpace (c : UInt8) : Bool := c = code ' ' ∨ c = code '\t' ∨ c = code '\r' ∨ c = code '\n'

def skipSpace (bytes : Bytes) : Bytes := bytes.dropWhile isSpace

/-- What follows a word. -/
def expect : Bytes → Bytes → Option Bytes
  | [], bytes => some bytes
  | _ :: _, [] => none
  | c :: word, b :: bytes => if b = c then expect word bytes else none

def isDigit (c : UInt8) : Bool := code '0' ≤ c ∧ c ≤ code '9'

/-- One digit or more. -/
def digits (bytes : Bytes) : Option (Bytes × Bytes) :=
  if bytes.takeWhile isDigit = [] then none
  else some (bytes.takeWhile isDigit, bytes.dropWhile isDigit)

/-- A part of a number that may be missing. -/
def optional (starts : UInt8 → Bool) (part : Bytes → Option (Bytes × Bytes)) :
    Bytes → Option (Bytes × Bytes)
  | [] => some ([], [])
  | c :: rest =>
      if starts c then (part rest).map fun p => (c :: p.1, p.2) else some ([], c :: rest)

/-- One zero, or digits that do not start with one. -/
def wholePart : Bytes → Option (Bytes × Bytes)
  | [] => none
  | c :: rest => if c = code '0' then some ([c], rest) else digits (c :: rest)

def isSign (c : UInt8) : Bool := c = code '+' ∨ c = code '-'

def exponentPart (bytes : Bytes) : Option (Bytes × Bytes) :=
  match bytes with
  | [] => none
  | c :: rest => if isSign c then (digits rest).map fun p => (c :: p.1, p.2) else digits bytes

/-- The literal of a number, and what follows it. -/
def number (bytes : Bytes) : Option (Bytes × Bytes) := do
  let (sign, bytes) ← optional (· = code '-') (fun rest => some ([], rest)) bytes
  let (whole, bytes) ← wholePart bytes
  let (fraction, bytes) ← optional (· = code '.') digits bytes
  let (exponent, bytes) ← optional (fun c => c = code 'e' ∨ c = code 'E') exponentPart bytes
  some (sign ++ whole ++ fraction ++ exponent, bytes)

/-! ### Strings -/

/-- Where the scanner is in a string. -/
inductive StringState where
  | inString
  | esc
  /-- After `\u` and some digits; so many are missing after the next one. -/
  | escU (left : ℕ)
deriving DecidableEq

def hexDigit (c : UInt8) : Option ℕ :=
  if isDigit c then some (c.toNat - (code '0').toNat)
  else if code 'a' ≤ c ∧ c ≤ code 'f' then some (c.toNat - (code 'a').toNat + 10)
  else if code 'A' ≤ c ∧ c ≤ code 'F' then some (c.toNat - (code 'A').toNat + 10)
  else none

/-- The character of an escape of two bytes. -/
def escaped (c : UInt8) : Option Char :=
  [('"', '"'), ('\\', '\\'), ('/', '/'), ('b', '\x08'), ('f', '\x0c'), ('n', '\n'), ('r', '\r'),
    ('t', '\t')].findSome? fun e => if c = code e.1 then some e.2 else none

def StringState.next (c : UInt8) : StringState → Option StringState
  | inString => if c = code '\\' then some esc else if c < code ' ' then none else some inString
  | esc => if c = code 'u' then some (escU 3) else (escaped c).map fun _ => inString
  | escU left =>
      (hexDigit c).map fun _ => match left with
        | 0 => inString
        | left + 1 => escU left

/-- The bytes up to the quote that ends a string, and what follows it. -/
def rawString : StringState → Bytes → Option (Bytes × Bytes)
  | _, [] => none
  | state, c :: rest =>
      if state = .inString ∧ c = code '"' then some ([], rest)
      else
        (state.next c).bind fun state =>
          (rawString state rest).map fun p => (c :: p.1, p.2)

/-- `getu4`: the number of an escape `\uXXXX`. -/
def getu4 : Bytes → Option ℕ
  | b :: u :: x₃ :: x₂ :: x₁ :: x₀ :: _ =>
      if b = code '\\' ∧ u = code 'u' then do
        some (((← hexDigit x₃) * 16 + (← hexDigit x₂)) * 256 + (← hexDigit x₁) * 16 +
          (← hexDigit x₀))
      else none
  | _ => none

/-- The character of an escape `\uXXXX`, of two where they are a surrogate pair, and how many bytes
it takes. -/
def unicodeEscape (r : ℕ) (rest : Bytes) : Char × ℕ :=
  if 0xD800 ≤ r ∧ r < 0xE000 then
    match getu4 rest with
    | some r' =>
        if r < 0xDC00 ∧ 0xDC00 ≤ r' ∧ r' < 0xE000 then
          (Char.ofNat (0x10000 + (r - 0xD800) * 1024 + (r' - 0xDC00)), 12)
        else ('\uFFFD', 6)
    | none => ('\uFFFD', 6)
  else (Char.ofNat r, 6)

/-- `DecodeRune`: the first character in UTF-8, and how many bytes it takes. -/
def decodeRune (bytes : Bytes) : Char × ℕ :=
  match (bytes.take 4).toByteArray.utf8DecodeChar? 0 with
  | some c => (c, c.utf8Size)
  | none => ('\uFFFD', 1)

/-- The first character of a string's bytes, and how many bytes it takes. -/
def unquoteRune (raw : Bytes) : Char × ℕ :=
  match getu4 raw with
  | some r => unicodeEscape r (raw.drop 6)
  | none =>
      if raw.head? = some (code '\\') then (((raw.tail.head?).bind escaped).getD '\uFFFD', 2)
      else decodeRune raw

/-- At most so many characters of a string. -/
def unquoteRunes : ℕ → Bytes → List Char
  | 0, _ => []
  | fuel + 1, raw =>
      if raw = [] then []
      else (unquoteRune raw).1 :: unquoteRunes fuel (raw.drop (unquoteRune raw).2)

/-- Every character takes a byte or more. -/
def unquote (raw : Bytes) : String := String.ofList (unquoteRunes raw.length raw)

/-- The string after its first quote. -/
def stringRest (bytes : Bytes) : Option (String × Bytes) :=
  (rawString .inString bytes).map fun p => (unquote p.1, p.2)

/-! ### Values -/

/-- Items up to a bracket, each of one byte or more, with commas between them. -/
def items {α : Type} (item : Bytes → Option (α × Bytes)) (close : UInt8) :
    ℕ → Bytes → Option (List α × Bytes)
  | 0, _ => none
  | fuel + 1, bytes => do
      let (a, rest) ← item bytes
      match skipSpace rest with
      | [] => none
      | c :: rest =>
          if c = close then some ([a], rest)
          else if c = code ',' then do
            let (as, rest) ← items item close fuel rest
            some (a :: as, rest)
          else none

/-- What stands between brackets. -/
def bracketed {α : Type} (item : Bytes → Option (α × Bytes)) (close : UInt8) (bytes : Bytes) :
    Option (List α × Bytes) :=
  match skipSpace bytes with
  | [] => none
  | c :: rest => if c = close then some ([], rest) else items item close bytes.length bytes

/-- A key and its value. -/
def member (value : Bytes → Option (JsonValue × Bytes)) (bytes : Bytes) :
    Option ((String × JsonValue) × Bytes) := do
  let (key, rest) ← (expect [code '"'] (skipSpace bytes)).bind stringRest
  let rest ← expect [code ':'] (skipSpace rest)
  let (v, rest) ← value rest
  some ((key, v), rest)

/-- A value that is neither an array nor an object, after white space. -/
def scalar (bytes : Bytes) : Option (JsonValue × Bytes) :=
  match bytes with
  | [] => none
  | c :: rest =>
      if c = code '"' then (stringRest rest).map fun p => (.str p.1, p.2)
      else if c = code 't' then (expect (ascii "true") bytes).map fun rest => (.bool true, rest)
      else if c = code 'f' then (expect (ascii "false") bytes).map fun rest => (.bool false, rest)
      else if c = code 'n' then (expect (ascii "null") bytes).map fun rest => (.null, rest)
      else (number bytes).map fun p => (.num (text p.1), p.2)

/-- A value with at most so many brackets around each other, and what follows it. -/
def value : ℕ → Bytes → Option (JsonValue × Bytes)
  | 0, bytes => scalar (skipSpace bytes)
  | depth + 1, bytes =>
      match skipSpace bytes with
      | [] => none
      | c :: rest =>
          if c = code '[' then
            (bracketed (value depth) (code ']') rest).map fun p => (.arr p.1, p.2)
          else if c = code '{' then
            (bracketed (member (value depth)) (code '}') rest).map fun p => (.obj p.1, p.2)
          else scalar (c :: rest)

def maxNestingDepth : ℕ := 10000

/-- The value of a JSON text. -/
def parse (bytes : Bytes) : Option JsonValue :=
  (value maxNestingDepth bytes).bind fun p => if skipSpace p.2 = [] then some p.1 else none

/-! ### The text `null` -/

/-- The word `null` with white space around it. -/
def IsNull (bytes : Bytes) : Prop :=
  ∃ before after, (∀ c ∈ before, isSpace c) ∧ (∀ c ∈ after, isSpace c) ∧
    bytes = before ++ ascii "null" ++ after

theorem expect_eq_some {word bytes rest : Bytes} :
    expect word bytes = some rest ↔ bytes = word ++ rest := by
  induction word generalizing bytes with
  | nil => simp [expect]
  | cons c word ih =>
      cases bytes with
      | nil => simp [expect]
      | cons b bytes =>
          by_cases hb : b = c
          · simp [expect, hb, ih]
          · simp [expect, hb]

theorem skipSpace_append {before bytes : Bytes} (h : ∀ c ∈ before, isSpace c) :
    skipSpace (before ++ bytes) = skipSpace bytes :=
  List.dropWhile_append_of_pos h

theorem exists_skipSpace (bytes : Bytes) :
    ∃ before, (∀ c ∈ before, isSpace c) ∧ bytes = before ++ skipSpace bytes :=
  ⟨bytes.takeWhile isSpace, fun _ hc => List.mem_takeWhile_imp hc,
    List.takeWhile_append_dropWhile.symm⟩

theorem skipSpace_eq_nil {bytes : Bytes} : skipSpace bytes = [] ↔ ∀ c ∈ bytes, isSpace c :=
  List.dropWhile_eq_nil_iff

/-- A part whose values are not `null`. -/
theorem map_ne_null {α : Type} {o : Option α} {f : α → JsonValue × Bytes} {rest : Bytes}
    (hf : ∀ a, (f a).1 ≠ .null) : o.map f ≠ some (.null, rest) := by
  intro h
  obtain ⟨a, -, ha⟩ := Option.map_eq_some_iff.mp h
  exact hf a (congrArg Prod.fst ha)

/-- Of the scalars only the word is `null`. -/
theorem scalar_eq_null {bytes rest : Bytes} :
    scalar bytes = some (.null, rest) ↔ bytes = ascii "null" ++ rest := by
  constructor
  · intro h
    cases bytes with
    | nil => cases h
    | cons c tail =>
        unfold scalar at h
        dsimp only at h
        split at h
        · exact absurd h (map_ne_null fun _ => nofun)
        split at h
        · exact absurd h (map_ne_null fun _ => nofun)
        split at h
        · exact absurd h (map_ne_null fun _ => nofun)
        split at h
        · obtain ⟨rest', hword, hp⟩ := Option.map_eq_some_iff.mp h
          cases hp
          exact expect_eq_some.mp hword
        · exact absurd h (map_ne_null fun _ => nofun)
  · rintro rfl
    have hword : expect (ascii "null") (ascii "null" ++ rest) = some rest :=
      expect_eq_some.mpr rfl
    have hcons : ascii "null" ++ rest = code 'n' :: (ascii "ull" ++ rest) := rfl
    rw [hcons] at hword ⊢
    rw [scalar, if_neg (by decide), if_neg (by decide), if_neg (by decide), if_pos rfl, hword]
    rfl

/-- Nor is anything with brackets. -/
theorem value_eq_null {depth : ℕ} {bytes rest : Bytes} :
    value depth bytes = some (.null, rest) ↔ skipSpace bytes = ascii "null" ++ rest := by
  rw [← scalar_eq_null]
  cases depth with
  | zero => rfl
  | succ depth =>
      unfold value
      cases skipSpace bytes with
      | nil => rfl
      | cons c tail =>
          -- A bracket starts no scalar.
          have hhead : scalar (c :: tail) = some (.null, rest) → c = code 'n' := fun h =>
            (List.cons.inj (scalar_eq_null.mp h)).1
          dsimp only
          split
          · next harr =>
              refine iff_of_false (map_ne_null fun _ => nofun) fun h => ?_
              exact absurd (harr.symm.trans (hhead h)) (by decide)
          split
          · next hobj =>
              refine iff_of_false (map_ne_null fun _ => nofun) fun h => ?_
              exact absurd (hobj.symm.trans (hhead h)) (by decide)
          · exact Iff.rfl

/-- **The texts of `null`.** -/
theorem parse_eq_null_iff (bytes : Bytes) : parse bytes = some .null ↔ IsNull bytes := by
  constructor
  · intro h
    obtain ⟨⟨v, rest⟩, hvalue, hrest⟩ := Option.bind_eq_some_iff.mp h
    dsimp only at hrest
    split at hrest
    · next hspace =>
        obtain rfl := Option.some.inj hrest
        obtain ⟨before, hbefore, hbytes⟩ := exists_skipSpace bytes
        refine ⟨before, rest, hbefore, skipSpace_eq_nil.mp hspace, ?_⟩
        rw [value_eq_null.mp hvalue, ← List.append_assoc] at hbytes
        exact hbytes
    · cases hrest
  · rintro ⟨before, after, hbefore, hafter, rfl⟩
    have hskip : skipSpace (before ++ ascii "null" ++ after) = ascii "null" ++ after := by
      rw [List.append_assoc, skipSpace_append hbefore]
      rfl
    have hvalue : value maxNestingDepth (before ++ ascii "null" ++ after) = some (.null, after) :=
      value_eq_null.mpr hskip
    rw [parse, hvalue, Option.bind_some, if_pos (skipSpace_eq_nil.mpr hafter)]

end MagnumOpus.JsonScan
