import MagnumOpus.Lib.JsonDecode

/-! # JSON texts

The text that Python's `json.dumps` makes of a value.  Its options (`Style`) are the separators
between items and after keys, and whether characters outside of ASCII are escaped.  A value is a
`JsonValue`; numbers are their literals, which no option changes.

With the options of `compact` no text of a value is longer than with those of `standard`
(`length_dumps_le`), and the text of an object with a key is shorter (`length_dumps_obj_lt`). -/

namespace MagnumOpus.JsonText

open JsonDecode

/-- A text as its characters. -/
abbrev Text := List Char

structure Style where
  itemSeparator : Text
  keySeparator : Text
  ensureAscii : Bool

/-- The options that `dumps` has by itself. -/
def standard : Style where
  itemSeparator := [',', ' ']
  keySeparator := [':', ' ']
  ensureAscii := true

/-- No blanks, and no escapes but the necessary ones. -/
def compact : Style where
  itemSeparator := [',']
  keySeparator := [':']
  ensureAscii := false

/-- The escape of a 16-bit unit. -/
def unicodeEscape (n : ℕ) : Text :=
  ['\\', 'u', Nat.digitChar (n / 4096 % 16), Nat.digitChar (n / 256 % 16),
    Nat.digitChar (n / 16 % 16), Nat.digitChar (n % 16)]

/-- The escape of a character that must not stand in a string. -/
def escapeRequired (c : Char) : Option Text :=
  if c = '"' then some ['\\', '"']
  else if c = '\\' then some ['\\', '\\']
  else if c = '\n' then some ['\\', 'n']
  else if c = '\r' then some ['\\', 'r']
  else if c = '\t' then some ['\\', 't']
  else if c.toNat = 12 then some ['\\', 'f']
  else if c.toNat = 8 then some ['\\', 'b']
  else if c.toNat < 32 then some (unicodeEscape c.toNat)
  else none

/-- The escape of any other character outside of ASCII; past the first plane it is that of the two
halves of a surrogate pair. -/
def escapeNonAscii (c : Char) : Text :=
  if c.toNat < 0x10000 then unicodeEscape c.toNat
  else
    unicodeEscape (0xD800 + (c.toNat - 0x10000) / 1024 % 1024) ++
      unicodeEscape (0xDC00 + (c.toNat - 0x10000) % 1024)

/-- A character in a string. -/
def escapeChar (ensureAscii : Bool) (c : Char) : Text :=
  match escapeRequired c with
  | some text => text
  | none => if ensureAscii = false ∨ c.toNat < 127 then [c] else escapeNonAscii c

def quote (ensureAscii : Bool) (s : String) : Text :=
  '"' :: s.toList.flatMap (escapeChar ensureAscii) ++ ['"']

mutual

def dumps (style : Style) : JsonValue → Text
  | .null => ['n', 'u', 'l', 'l']
  | .bool true => ['t', 'r', 'u', 'e']
  | .bool false => ['f', 'a', 'l', 's', 'e']
  | .num literal => literal.toList
  | .str s => quote style.ensureAscii s
  | .arr elems => '[' :: dumpsItems style true elems ++ [']']
  | .obj fields => '{' :: dumpsFields style true fields ++ ['}']

def dumpsItems (style : Style) (first : Bool) : List JsonValue → Text
  | [] => []
  | v :: vs =>
      (if first then [] else style.itemSeparator) ++ dumps style v ++ dumpsItems style false vs

def dumpsFields (style : Style) (first : Bool) : List (String × JsonValue) → Text
  | [] => []
  | (k, v) :: fs =>
      (if first then [] else style.itemSeparator) ++ quote style.ensureAscii k ++
        style.keySeparator ++ dumps style v ++ dumpsFields style false fs

end

example : dumps compact (.obj [("a", .arr [.null, .bool true]), ("é", .str "x\n")]) =
    "\x7b\"a\":[null,true],\"é\":\"x\\n\"\x7d".toList := by decide +kernel

example : dumps standard (.obj [("a", .num "1"), ("é", .str "x")]) =
    "\x7b\"a\": 1, \"\\u00e9\": \"x\"\x7d".toList := by decide +kernel

theorem dumps_obj (style : Style) (fields : List (String × JsonValue)) :
    ∃ rest, dumps style (.obj fields) = '{' :: rest :=
  ⟨dumpsFields style true fields ++ ['}'], by simp [dumps]⟩

/-! ### Lengths -/

theorem length_escapeChar_le (c : Char) :
    (escapeChar false c).length ≤ (escapeChar true c).length := by
  unfold escapeChar
  cases escapeRequired c with
  | some text => exact le_refl _
  | none =>
      have hpos : 1 ≤ (escapeNonAscii c).length := by
        unfold escapeNonAscii
        split <;> exact Nat.succ_pos _
      show ([c] : Text).length ≤ (if _ then _ else _ : Text).length
      split
      · exact le_refl _
      · exact hpos

theorem length_quote_le (s : String) : (quote false s).length ≤ (quote true s).length := by
  have hchars : ∀ cs : List Char, (cs.flatMap (escapeChar false)).length ≤
      (cs.flatMap (escapeChar true)).length := by
    intro cs
    induction cs with
    | nil => exact le_refl _
    | cons c cs ih =>
        rw [List.flatMap_cons, List.flatMap_cons, List.length_append, List.length_append]
        exact Nat.add_le_add (length_escapeChar_le c) ih
  have := hchars s.toList
  simp only [quote, List.length_append, List.length_cons, List.length_nil]
  omega

mutual

/-- The compact text of a value is not longer than the standard one. -/
theorem length_dumps_le : ∀ v : JsonValue, (dumps compact v).length ≤ (dumps standard v).length
  | .null => le_refl _
  | .bool true => le_refl _
  | .bool false => le_refl _
  | .num _ => le_refl _
  | .str s => length_quote_le s
  | .arr elems => by
      have := length_dumpsItems_le true elems
      simp only [dumps, List.length_append, List.length_cons, List.length_nil]
      omega
  | .obj fields => by
      have := length_dumpsFields_le true fields
      simp only [dumps, List.length_append, List.length_cons, List.length_nil]
      omega

theorem length_dumpsItems_le (first : Bool) : ∀ vs : List JsonValue,
    (dumpsItems compact first vs).length ≤ (dumpsItems standard first vs).length
  | [] => le_refl _
  | v :: vs => by
      have hhead := length_dumps_le v
      have htail := length_dumpsItems_le false vs
      cases first <;>
        simp [dumpsItems, compact, standard] at hhead htail ⊢ <;> omega

theorem length_dumpsFields_le (first : Bool) : ∀ fs : List (String × JsonValue),
    (dumpsFields compact first fs).length ≤ (dumpsFields standard first fs).length
  | [] => le_refl _
  | (k, v) :: fs => by
      have hkey := length_quote_le k
      have hhead := length_dumps_le v
      have htail := length_dumpsFields_le false fs
      cases first <;>
        simp [dumpsFields, compact, standard] at hkey hhead htail ⊢ <;> omega

end

/-- The text of an object with a key has a blank that the compact one has not. -/
theorem length_dumps_obj_lt {fields : List (String × JsonValue)} (h : fields ≠ []) :
    (dumps compact (.obj fields)).length < (dumps standard (.obj fields)).length := by
  cases fields with
  | nil => exact absurd rfl h
  | cons f fs =>
      obtain ⟨k, v⟩ := f
      have hkey := length_quote_le k
      have hhead := length_dumps_le v
      have htail := length_dumpsFields_le false fs
      simp [dumps, dumpsFields, compact, standard] at hkey hhead htail ⊢
      omega

end MagnumOpus.JsonText
