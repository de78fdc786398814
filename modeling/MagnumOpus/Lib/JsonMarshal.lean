import MagnumOpus.Lib.JsonScan

/-! # Writing JSON texts

The bytes that Go's `json.Marshal` writes for a value.

* In a string `<`, `>`, `&`, U+2028 and U+2029 are escaped, and what must be.  Other characters go
  out in UTF-8.
* There is no white space.

A text is read back as the value it was written for (`parse_marshal`), when its numbers are literals
and its brackets nest no deeper than the scanner goes (`Readable`). -/

namespace MagnumOpus.JsonMarshal

open JsonDecode (JsonValue)
open JsonScan

/-! ### Strings -/

def hexByte (n : ℕ) : UInt8 := code (Nat.digitChar (n % 16))

/-- Characters that stand in a string as they are, of those below `0x80`. -/
def htmlSafe (c : Char) : Bool :=
  ' ' ≤ c ∧ c ≠ '"' ∧ c ≠ '\\' ∧ c ≠ '<' ∧ c ≠ '>' ∧ c ≠ '&'

/-- The second byte of the escapes that have two. -/
def shortEscape (c : Char) : Option Char :=
  [('"', '"'), ('\\', '\\'), ('\x08', 'b'), ('\x0c', 'f'), ('\n', 'n'), ('\r', 'r'),
    ('\t', 't')].lookup c

def escapeChar (c : Char) : Bytes :=
  if c.toNat < 0x80 then
    if htmlSafe c then String.utf8EncodeChar c
    else
      match shortEscape c with
      | some e => [code '\\', code e]
      | none => [code '\\', code 'u', code '0', code '0', hexByte (c.toNat / 16), hexByte c.toNat]
  else if c = '\u2028' ∨ c = '\u2029' then
    [code '\\', code 'u', code '2', code '0', code '2', hexByte c.toNat]
  else String.utf8EncodeChar c

def quote (s : String) : Bytes := code '"' :: s.toList.flatMap escapeChar ++ [code '"']

/-! ### Values -/

mutual

def marshal : JsonValue → Bytes
  | .null => ascii "null"
  | .bool true => ascii "true"
  | .bool false => ascii "false"
  | .num literal => ascii literal
  | .str s => quote s
  | .arr [] => [code '[', code ']']
  | .arr (v :: vs) => code '[' :: (marshal v ++ (marshalItems vs ++ [code ']']))
  | .obj [] => [code '{', code '}']
  | .obj ((key, v) :: fields) =>
      code '{' :: (quote key ++ code ':' :: (marshal v ++ (marshalFields fields ++ [code '}'])))

/-- The items after the first one. -/
def marshalItems : List JsonValue → Bytes
  | [] => []
  | v :: vs => code ',' :: (marshal v ++ marshalItems vs)

def marshalFields : List (String × JsonValue) → Bytes
  | [] => []
  | (key, v) :: fields =>
      code ',' :: (quote key ++ code ':' :: (marshal v ++ marshalFields fields))

end

/-- The literal of a number. -/
def IsLiteral (literal : String) : Prop :=
  number (ascii literal) = some (ascii literal, []) ∧ text (ascii literal) = literal

instance (literal : String) : Decidable (IsLiteral literal) :=
  inferInstanceAs (Decidable (_ ∧ _))

/-- A value that is written as a text with at most so many brackets around each other. -/
inductive Readable : ℕ → JsonValue → Prop
  | null (depth : ℕ) : Readable depth .null
  | bool (depth : ℕ) (b : Bool) : Readable depth (.bool b)
  | num (depth : ℕ) {literal : String} (h : IsLiteral literal) : Readable depth (.num literal)
  | str (depth : ℕ) (s : String) : Readable depth (.str s)
  | arr {depth : ℕ} {elems : List JsonValue} (h : ∀ v ∈ elems, Readable depth v) :
      Readable (depth + 1) (.arr elems)
  | obj {depth : ℕ} {fields : List (String × JsonValue)}
      (h : ∀ f ∈ fields, Readable depth f.2) : Readable (depth + 1) (.obj fields)

/-! ### Strings are read back -/

/-- The state after bytes that do not end the string. -/
def through : StringState → Bytes → Option StringState
  | state, [] => some state
  | state, c :: rest =>
      if state = .inString ∧ c = code '"' then none
      else (state.next c).bind fun state => through state rest

theorem rawString_through {state state' : StringState} {chunk : Bytes}
    (h : through state chunk = some state') (bytes : Bytes) :
    rawString state (chunk ++ bytes) =
      (rawString state' bytes).map fun p => (chunk ++ p.1, p.2) := by
  induction chunk generalizing state with
  | nil =>
      cases h
      simp
  | cons c chunk ih =>
      rw [through] at h
      split at h
      · cases h
      · next hquote =>
          obtain ⟨next, hnext, hrest⟩ := Option.bind_eq_some_iff.mp h
          rw [List.cons_append, rawString, if_neg hquote, hnext, Option.bind_some, ih hrest,
            Option.map_map]
          rfl

/-- Bytes that the scan of a string passes over. -/
def Plain (c : UInt8) : Prop := c ≠ code '"' ∧ c ≠ code '\\' ∧ ¬ c < code ' '

instance (c : UInt8) : Decidable (Plain c) := inferInstanceAs (Decidable (_ ∧ _ ∧ _))

theorem through_plain {chunk : Bytes} (h : ∀ c ∈ chunk, Plain c) :
    through .inString chunk = some .inString := by
  induction chunk with
  | nil => rfl
  | cons c chunk ih =>
      obtain ⟨hquote, hescape, hcontrol⟩ := h c List.mem_cons_self
      rw [through, if_neg fun h => hquote h.2, StringState.next, if_neg hescape, if_neg hcontrol,
        Option.bind_some, ih fun d hd => h d (List.mem_cons_of_mem c hd)]

/-- Outside of ASCII every byte of a character is. -/
theorem le_of_mem_utf8EncodeChar {c : Char} (hc : 0x80 ≤ c.toNat) {b : UInt8}
    (hb : b ∈ String.utf8EncodeChar c) : 0x80 ≤ b.toNat := by
  have hval : 0x80 ≤ c.val.toNat := hc
  unfold String.utf8EncodeChar at hb
  dsimp only at hb
  split at hb
  · omega
  split at hb
  · simp only [List.mem_cons, List.not_mem_nil, or_false] at hb
    rcases hb with rfl | rfl <;> rw [UInt8.toNat_ofNat'] <;> omega
  split at hb
  · simp only [List.mem_cons, List.not_mem_nil, or_false] at hb
    rcases hb with rfl | rfl | rfl <;> rw [UInt8.toNat_ofNat'] <;> omega
  · simp only [List.mem_cons, List.not_mem_nil, or_false] at hb
    rcases hb with rfl | rfl | rfl | rfl <;> rw [UInt8.toNat_ofNat'] <;> omega

theorem plain_of_le {c : UInt8} (h : 0x80 ≤ c.toNat) : Plain c := by
  have hne : ∀ d : UInt8, d.toNat < 0x80 → c ≠ d := fun d hd hcd => by
    rw [hcd] at h
    omega
  refine ⟨hne _ (by decide), hne _ (by decide), fun hlt => ?_⟩
  have hlt' : c.toNat < (code ' ').toNat := UInt8.lt_iff_toNat_lt.mp hlt
  have hspace : (code ' ').toNat = 32 := by decide
  omega

@[simp] theorem hexDigit_hexByte (n : ℕ) : hexDigit (hexByte n) = some (n % 16) := by
  have hdigits : ∀ d < 16, hexDigit (code (Nat.digitChar d)) = some d := by decide
  exact hdigits _ (Nat.mod_lt n (by decide))

/-- A property of the characters of ASCII. -/
theorem ascii_induction {P : Char → Prop} (h : ∀ n < 0x80, P (Char.ofNat n)) {c : Char}
    (hc : c.toNat < 0x80) : P c := by
  have hn := h c.toNat hc
  rwa [Char.ofNat_toNat] at hn

theorem plain_of_htmlSafe {c : Char} (hc : c.toNat < 0x80) :
    htmlSafe c → ∀ b ∈ String.utf8EncodeChar c, Plain b := by
  have hplain : htmlSafe c → (String.utf8EncodeChar c).all (fun b => decide (Plain b)) = true :=
    ascii_induction (P := fun c => htmlSafe c →
      (String.utf8EncodeChar c).all (fun b => decide (Plain b)) = true) (by decide +kernel) hc
  exact fun hsafe b hb => of_decide_eq_true (List.all_eq_true.mp (hplain hsafe) b hb)

theorem escaped_shortEscape {c : Char} (hc : c.toNat < 0x80) :
    ∀ e, shortEscape c = some e → escaped (code e) = some c ∧ code e ≠ code 'u' := by
  have hescapes : ∀ n < 0x80, (shortEscape (Char.ofNat n)).all fun e =>
      decide (escaped (code e) = some (Char.ofNat n) ∧ code e ≠ code 'u') := by decide +kernel
  intro e he
  have hall := ascii_induction (P := fun c => (shortEscape c).all fun e =>
    decide (escaped (code e) = some c ∧ code e ≠ code 'u')) hescapes hc
  rw [he] at hall
  exact of_decide_eq_true hall

theorem through_backslash (rest : Bytes) :
    through .inString (code '\\' :: rest) = through .esc rest := by
  rw [through, if_neg (by decide)]
  rfl

/-- An escape with four digits. -/
theorem through_unicode {x₃ x₂ x₁ x₀ : UInt8} (h₃ : (hexDigit x₃).isSome)
    (h₂ : (hexDigit x₂).isSome)
    (h₁ : (hexDigit x₁).isSome) (h₀ : (hexDigit x₀).isSome) :
    through .inString [code '\\', code 'u', x₃, x₂, x₁, x₀] = some .inString := by
  obtain ⟨d₃, hd₃⟩ := Option.isSome_iff_exists.mp h₃
  obtain ⟨d₂, hd₂⟩ := Option.isSome_iff_exists.mp h₂
  obtain ⟨d₁, hd₁⟩ := Option.isSome_iff_exists.mp h₁
  obtain ⟨d₀, hd₀⟩ := Option.isSome_iff_exists.mp h₀
  rw [through_backslash]
  simp [through, StringState.next, hd₃, hd₂, hd₁, hd₀]

theorem through_escapeChar (c : Char) : through .inString (escapeChar c) = some .inString := by
  unfold escapeChar
  split
  · next hascii =>
      split
      · next hsafe => exact through_plain (plain_of_htmlSafe hascii hsafe)
      split
      · next e he =>
          obtain ⟨hchar, hunicode⟩ := escaped_shortEscape hascii e he
          rw [through_backslash]
          simp [through, StringState.next, hunicode, hchar]
      · exact through_unicode (by decide) (by decide) (by simp) (by simp)
  split
  · exact through_unicode (by decide) (by decide) (by decide) (by simp)
  · next hascii _ =>
      exact through_plain fun b hb => plain_of_le (le_of_mem_utf8EncodeChar (by omega) hb)

theorem rawString_quoted (cs : List Char) (rest : Bytes) :
    rawString .inString (cs.flatMap escapeChar ++ code '"' :: rest) =
      some (cs.flatMap escapeChar, rest) := by
  induction cs with
  | nil => rfl
  | cons c cs ih =>
      rw [List.flatMap_cons, List.append_assoc, rawString_through (through_escapeChar c), ih]
      rfl

/-! ### Characters are read back -/

theorem decodeRune_utf8EncodeChar (c : Char) (raw : Bytes) :
    decodeRune (String.utf8EncodeChar c ++ raw) = (c, c.utf8Size) := by
  have htake : (String.utf8EncodeChar c ++ raw).take 4 =
      String.utf8EncodeChar c ++ raw.take (4 - (String.utf8EncodeChar c).length) := by
    rw [List.take_append, List.take_of_length_le]
    rw [String.length_utf8EncodeChar]
    exact c.utf8Size_le_four
  rw [decodeRune, htake, List.toByteArray_append, ByteArray.utf8DecodeChar?_utf8EncodeChar_append]

/-- A character that goes out as it is. -/
theorem unquoteRune_plain {c : Char} (h : ∀ b ∈ String.utf8EncodeChar c, Plain b) (raw : Bytes) :
    unquoteRune (String.utf8EncodeChar c ++ raw) = (c, (String.utf8EncodeChar c).length) := by
  obtain ⟨b, rest, hb⟩ := List.exists_cons_of_ne_nil (String.utf8EncodeChar_ne_nil (c := c))
  have hescape : b ≠ code '\\' := (h b (hb ▸ List.mem_cons_self)).2.1
  have hhex : getu4 (String.utf8EncodeChar c ++ raw) = none := by
    rw [hb, List.cons_append]
    unfold getu4
    split
    · next heq =>
        obtain ⟨rfl, -⟩ := List.cons.inj heq
        exact if_neg fun h => hescape h.1
    · rfl
  have hhead : (String.utf8EncodeChar c ++ raw).head? ≠ some (code '\\') := by
    rw [hb, List.cons_append, List.head?_cons]
    exact fun h => hescape (Option.some.inj h)
  rw [unquoteRune, hhex]
  dsimp only
  rw [if_neg hhead, decodeRune_utf8EncodeChar, String.length_utf8EncodeChar]

theorem unquoteRune_short {c e : Char} (hchar : escaped (code e) = some c)
    (hunicode : code e ≠ code 'u') (raw : Bytes) :
    unquoteRune (code '\\' :: code e :: raw) = (c, 2) := by
  have hhex : getu4 (code '\\' :: code e :: raw) = none := by
    unfold getu4
    split
    · next heq =>
        obtain ⟨rfl, hrest⟩ := List.cons.inj heq
        obtain ⟨rfl, -⟩ := List.cons.inj hrest
        exact if_neg fun h => hunicode h.2
    · rfl
  rw [unquoteRune, hhex]
  dsimp only
  rw [if_pos List.head?_cons, List.tail_cons, List.head?_cons, Option.bind_some, hchar,
    Option.getD_some]

/-- An escape of a character below the surrogates. -/
theorem unquoteRune_unicode {x₃ x₂ x₁ x₀ : UInt8} {d₃ d₂ d₁ d₀ : ℕ} (h₃ : hexDigit x₃ = some d₃)
    (h₂ : hexDigit x₂ = some d₂) (h₁ : hexDigit x₁ = some d₁) (h₀ : hexDigit x₀ = some d₀)
    (hlt : (d₃ * 16 + d₂) * 256 + d₁ * 16 + d₀ < 0xD800) (raw : Bytes) :
    unquoteRune (code '\\' :: code 'u' :: x₃ :: x₂ :: x₁ :: x₀ :: raw) =
      (Char.ofNat ((d₃ * 16 + d₂) * 256 + d₁ * 16 + d₀), 6) := by
  have hhex : getu4 (code '\\' :: code 'u' :: x₃ :: x₂ :: x₁ :: x₀ :: raw) =
      some ((d₃ * 16 + d₂) * 256 + d₁ * 16 + d₀) := by
    simp [getu4, h₃, h₂, h₁, h₀]
  rw [unquoteRune, hhex]
  dsimp only
  rw [unicodeEscape, if_neg fun h => absurd h.1 (by omega)]

theorem unquoteRune_escapeChar (c : Char) (raw : Bytes) :
    unquoteRune (escapeChar c ++ raw) = (c, (escapeChar c).length) := by
  unfold escapeChar
  split
  · next hascii =>
      split
      · next hsafe => exact unquoteRune_plain (plain_of_htmlSafe hascii hsafe) raw
      split
      · next e he =>
          obtain ⟨hchar, hunicode⟩ := escaped_shortEscape hascii e he
          exact unquoteRune_short hchar hunicode raw
      · have hzero : hexDigit (code '0') = some 0 := by decide
        have hread := unquoteRune_unicode hzero hzero (hexDigit_hexByte (c.toNat / 16))
          (hexDigit_hexByte c.toNat) (by omega) raw
        have hval : (0 * 16 + 0) * 256 + c.toNat / 16 % 16 * 16 + c.toNat % 16 = c.toNat := by omega
        rw [hval, Char.ofNat_toNat] at hread
        exact hread
  split
  · next hline =>
      have hread := unquoteRune_unicode (show hexDigit (code '2') = some 2 by decide)
        (show hexDigit (code '0') = some 0 by decide) (show hexDigit (code '2') = some 2 by decide)
        (hexDigit_hexByte c.toNat) (by omega) raw
      have hval : Char.ofNat ((2 * 16 + 0) * 256 + 2 * 16 + c.toNat % 16) = c := by
        rcases hline with rfl | rfl <;> rfl
      rw [hval] at hread
      exact hread
  · next hascii _ =>
      exact unquoteRune_plain (fun b hb => plain_of_le (le_of_mem_utf8EncodeChar (by omega) hb)) raw

theorem length_escapeChar_pos (c : Char) : 0 < (escapeChar c).length := by
  have hutf8 : 0 < (String.utf8EncodeChar c).length := by
    rw [String.length_utf8EncodeChar]
    exact c.utf8Size_pos
  unfold escapeChar
  split
  · split
    · exact hutf8
    split <;> exact Nat.succ_pos _
  split
  · exact Nat.succ_pos _
  · exact hutf8

theorem unquoteRunes_escapes (cs : List Char) {fuel : ℕ}
    (hfuel : (cs.flatMap escapeChar).length ≤ fuel) :
    unquoteRunes fuel (cs.flatMap escapeChar) = cs := by
  induction cs generalizing fuel with
  | nil =>
      cases fuel with
      | zero => rfl
      | succ fuel => exact if_pos rfl
  | cons c cs ih =>
      have hpos := length_escapeChar_pos c
      rw [List.flatMap_cons, List.length_append] at hfuel
      obtain ⟨fuel, rfl⟩ : ∃ n, fuel = n + 1 := ⟨fuel - 1, by omega⟩
      have hne : escapeChar c ++ cs.flatMap escapeChar ≠ [] := fun h => by
        rw [(List.append_eq_nil_iff.mp h).1, List.length_nil] at hpos
        omega
      rw [List.flatMap_cons, unquoteRunes, if_neg hne, unquoteRune_escapeChar, List.drop_left,
        ih (by omega)]

/-- **A string is read back.** -/
theorem stringRest_quote (s : String) (rest : Bytes) :
    stringRest (s.toList.flatMap escapeChar ++ code '"' :: rest) = some (s, rest) := by
  rw [stringRest, rawString_quoted, Option.map_some, unquote, unquoteRunes_escapes _ le_rfl,
    String.ofList_toList]

/-! ### Numbers are read back -/

/-- What cannot go on a number. -/
def Ends (rest : Bytes) : Prop :=
  ∀ c, rest.head? = some c →
    ¬ isDigit c ∧ c ≠ code '-' ∧ c ≠ code '.' ∧ ¬ (c = code 'e' ∨ c = code 'E')

/-- The scan is not changed by what follows, when that cannot go on a number. -/
def Local {α : Type} (part : Bytes → Option (α × Bytes)) : Prop :=
  ∀ {bytes a tail}, part bytes = some (a, tail) → ∀ rest, (tail = [] → Ends rest) →
    part (bytes ++ rest) = some (a, tail ++ rest)

theorem span_append {p : UInt8 → Bool} {bytes rest : Bytes}
    (h : bytes.dropWhile p = [] → ∀ c, rest.head? = some c → ¬ p c) :
    (bytes ++ rest).takeWhile p = bytes.takeWhile p ∧
      (bytes ++ rest).dropWhile p = bytes.dropWhile p ++ rest := by
  induction bytes with
  | nil =>
      cases rest with
      | nil => exact ⟨rfl, rfl⟩
      | cons c rest => simp [h rfl c rfl]
  | cons b bytes ih =>
      by_cases hb : p b
      · have hrest := ih (by simpa [hb] using h)
        simp [hb, hrest.1, hrest.2]
      · simp [hb]

theorem digits_local : Local digits := by
  intro bytes ds tail h rest hrest
  unfold digits at h ⊢
  split at h
  · cases h
  · next hne =>
      obtain ⟨rfl, rfl⟩ := Prod.mk.inj (Option.some.inj h)
      have hspan := span_append (p := isDigit) fun hnil c hc => (hrest hnil c hc).1
      rw [hspan.1, hspan.2, if_neg hne]

theorem optional_cons {starts : UInt8 → Bool} {part : Bytes → Option (Bytes × Bytes)} (c : UInt8)
    (rest : Bytes) : JsonScan.optional starts part (c :: rest) =
      if starts c then (part rest).map fun p => (c :: p.1, p.2) else some ([], c :: rest) := rfl

theorem optional_local {starts : UInt8 → Bool} {part : Bytes → Option (Bytes × Bytes)}
    (hpart : Local part) (hstarts : ∀ rest, Ends rest → ∀ c, rest.head? = some c → ¬ starts c) :
    Local (JsonScan.optional starts part) := by
  intro bytes a tail h rest hrest
  cases bytes with
  | nil =>
      obtain ⟨rfl, rfl⟩ := Prod.mk.inj (Option.some.inj h)
      cases rest with
      | nil => rfl
      | cons c rest => exact if_neg (hstarts _ (hrest rfl) c rfl)
  | cons c bytes =>
      rw [optional_cons] at h
      rw [List.cons_append, optional_cons]
      split at h
      · next hc =>
          obtain ⟨⟨b, tail'⟩, hb, heq⟩ := Option.map_eq_some_iff.mp h
          obtain ⟨rfl, rfl⟩ := Prod.mk.inj heq
          rw [if_pos hc, hpart hb rest hrest]
          rfl
      · next hc =>
          obtain ⟨rfl, rfl⟩ := Prod.mk.inj (Option.some.inj h)
          rw [if_neg hc]
          rfl

theorem wholePart_local : Local wholePart := by
  intro bytes a tail h rest hrest
  cases bytes with
  | nil => cases h
  | cons c bytes =>
      rw [wholePart] at h
      rw [List.cons_append, wholePart]
      split at h
      · next hc =>
          obtain ⟨rfl, rfl⟩ := Prod.mk.inj (Option.some.inj h)
          rw [if_pos hc]
      · next hc =>
          rw [if_neg hc]
          exact digits_local h rest hrest

theorem exponentPart_local : Local exponentPart := by
  intro bytes a tail h rest hrest
  cases bytes with
  | nil => cases h
  | cons c bytes =>
      rw [exponentPart] at h
      rw [List.cons_append, exponentPart]
      split at h
      · next hc =>
          obtain ⟨⟨b, tail'⟩, hb, heq⟩ := Option.map_eq_some_iff.mp h
          obtain ⟨rfl, rfl⟩ := Prod.mk.inj heq
          rw [if_pos hc, digits_local hb rest hrest]
          rfl
      · next hc =>
          rw [if_neg hc]
          exact digits_local h rest hrest

theorem sign_local : Local fun rest : Bytes => some (([] : Bytes), rest) := by
  intro bytes a tail h rest _
  obtain ⟨rfl, rfl⟩ := Prod.mk.inj (Option.some.inj h)
  rfl

theorem number_local : Local number := by
  intro bytes literal tail h rest hrest
  obtain ⟨⟨sign, bytes₁⟩, hsign, h⟩ := Option.bind_eq_some_iff.mp h
  obtain ⟨⟨whole, bytes₂⟩, hwhole, h⟩ := Option.bind_eq_some_iff.mp h
  obtain ⟨⟨fraction, bytes₃⟩, hfraction, h⟩ := Option.bind_eq_some_iff.mp h
  obtain ⟨⟨exponent, bytes₄⟩, hexponent, h⟩ := Option.bind_eq_some_iff.mp h
  obtain ⟨rfl, rfl⟩ := Prod.mk.inj (Option.some.inj h)
  -- What is left after a part is empty only if it is empty after the parts that follow.
  have h₁ : bytes₁ = [] → Ends rest := fun hnil => by
    rw [hnil] at hwhole
    cases hwhole
  have h₃ : bytes₃ = [] → Ends rest := fun hnil => by
    rw [hnil] at hexponent
    cases hexponent
    exact hrest rfl
  have h₂ : bytes₂ = [] → Ends rest := fun hnil => by
    rw [hnil] at hfraction
    cases hfraction
    exact h₃ rfl
  have hsign' := optional_local sign_local
    (fun rest hends c hc => by simpa using (hends c hc).2.1) hsign rest h₁
  have hwhole' := wholePart_local hwhole rest h₂
  have hfraction' := optional_local digits_local
    (fun rest hends c hc => by simpa using (hends c hc).2.2.1) hfraction rest h₃
  have hexponent' := optional_local exponentPart_local
    (fun rest hends c hc => by simpa using (hends c hc).2.2.2) hexponent rest hrest
  simp only [number, hsign', hwhole', hfraction', hexponent', Option.bind_eq_bind,
    Option.bind_some]

theorem number_literal {literal : String} (h : IsLiteral literal) {rest : Bytes}
    (hrest : Ends rest) :
    number (ascii literal ++ rest) = some (ascii literal, rest) :=
  number_local h.1 rest fun _ => hrest

/-- The first byte of a number. -/
def StartsNumber (c : UInt8) : Prop := c = code '-' ∨ isDigit c

instance (c : UInt8) : Decidable (StartsNumber c) := inferInstanceAs (Decidable (_ ∨ _))

theorem startsNumber_of_number {c : UInt8} {rest : Bytes} {p : Bytes × Bytes}
    (h : number (c :: rest) = some p) : StartsNumber c := by
  by_cases hsign : c = code '-'
  · exact .inl hsign
  by_cases hzero : c = code '0'
  · exact .inr (by rw [hzero]; decide)
  obtain ⟨⟨sign, bytes⟩, hsign', h⟩ := Option.bind_eq_some_iff.mp h
  rw [optional_cons, if_neg (by simpa using hsign)] at hsign'
  obtain ⟨rfl, rfl⟩ := Prod.mk.inj (Option.some.inj hsign')
  obtain ⟨⟨whole, bytes⟩, hwhole, -⟩ := Option.bind_eq_some_iff.mp h
  rw [wholePart, if_neg hzero, digits] at hwhole
  split at hwhole
  · cases hwhole
  · next hne =>
      refine .inr (by_contra fun hdigit => hne ?_)
      rw [List.takeWhile_cons, if_neg hdigit]

theorem exists_startsNumber {literal : String} (h : IsLiteral literal) :
    ∃ c rest, ascii literal = c :: rest ∧ StartsNumber c := by
  cases hascii : ascii literal with
  | nil =>
      have hnumber := h.1
      rw [hascii] at hnumber
      cases hnumber
  | cons c rest => exact ⟨c, rest, rfl, startsNumber_of_number (hascii ▸ h.1)⟩

/-! ### Integers -/

theorem text_ascii {s : String} (h : ∀ c ∈ s.toList, c.toNat < 0x80) : text (ascii s) = s := by
  have hchars : (ascii s).map (fun c => Char.ofNat c.toNat) = s.toList := by
    rw [ascii, List.map_map]
    refine (List.map_congr_left fun c hc => ?_).trans (List.map_id s.toList)
    have hlt := h c hc
    rw [Function.comp_apply, code, UInt8.toNat_ofNat', Nat.mod_eq_of_lt (by omega), Char.ofNat_toNat,
      id_eq]
  rw [text, hchars, String.ofList_toList]

/-- Only zero is written with a zero in front. -/
theorem head_toDigits {n : ℕ} (hn : n ≠ 0) : (Nat.toDigits 10 n).head? ≠ some '0' := by
  induction n using Nat.strongRecOn with
  | ind n ih =>
      by_cases hlt : n < 10
      · rw [Nat.toDigits_of_lt_base hlt]
        have hdigits : ∀ d < 10, d ≠ 0 → [d.digitChar].head? ≠ some '0' := by decide
        exact hdigits n hlt hn
      · rw [Nat.toDigits_of_base_le (by decide) (by omega),
          List.head?_append_of_ne_nil _ Nat.toDigits_ne_nil]
        exact ih (n / 10) (by omega) (by omega)

theorem isDigit_code {c : Char} (h : c.isDigit) : isDigit (code c) := by
  obtain ⟨hlow, hhigh⟩ := Char.isDigit_iff_toNat.mp h
  have h0 : '0'.toNat = 48 := rfl
  have h9 : '9'.toNat = 57 := rfl
  rw [isDigit, decide_eq_true_iff, UInt8.le_iff_toNat_le, UInt8.le_iff_toNat_le, code, code, code,
    UInt8.toNat_ofNat', UInt8.toNat_ofNat', UInt8.toNat_ofNat']
  omega

theorem isDigit_of_mem_repr {n : ℕ} {c : Char} (hc : c ∈ n.repr.toList) : c.isDigit := by
  rw [Nat.toList_repr] at hc
  exact Nat.isDigit_of_mem_toDigits (by decide) le_rfl hc

theorem isDigit_of_mem_ascii_repr {n : ℕ} {b : UInt8} (hb : b ∈ ascii n.repr) : isDigit b := by
  obtain ⟨c, hc, rfl⟩ := List.mem_map.mp hb
  exact isDigit_code (isDigit_of_mem_repr hc)

theorem wholePart_repr (n : ℕ) : wholePart (ascii n.repr) = some (ascii n.repr, []) := by
  by_cases hn : n = 0
  · rw [hn]
    rfl
  cases hdigits : Nat.toDigits 10 n with
  | nil => exact absurd hdigits Nat.toDigits_ne_nil
  | cons c cs =>
      have hne : c ≠ '0' := fun hc => head_toDigits hn (by rw [hdigits, hc, List.head?_cons])
      have hc : c.isDigit := isDigit_of_mem_repr (n := n)
        (by rw [Nat.toList_repr, hdigits]; exact List.mem_cons_self)
      have hascii : ascii n.repr = code c :: cs.map code := by
        rw [ascii, Nat.toList_repr, hdigits, List.map_cons]
      have hall : ∀ b ∈ ascii n.repr, isDigit b := fun b => isDigit_of_mem_ascii_repr
      have hzero : code c ≠ code '0' := fun heq => by
        have hnat : c.toNat % 256 = '0'.toNat % 256 := by
          rw [← UInt8.toNat_ofNat', ← UInt8.toNat_ofNat']
          exact congrArg UInt8.toNat heq
        have hlt : c.toNat ≤ '9'.toNat := (Char.isDigit_iff_toNat.mp hc).2
        have h0 : '0'.toNat = 48 := rfl
        have h9 : '9'.toNat = 57 := rfl
        exact hne (Char.toNat_inj.mp (by omega))
      rw [hascii, wholePart, if_neg hzero, ← hascii, digits, List.takeWhile_eq_self_iff.mpr hall,
        List.dropWhile_eq_nil_iff.mpr hall, if_neg]
      rw [hascii]
      exact List.cons_ne_nil _ _

/-- A number with a sign at most and a whole part. -/
theorem number_whole {bytes sign rest whole : Bytes}
    (hsign : JsonScan.optional (· = code '-') (fun rest => some ([], rest)) bytes =
      some (sign, rest)) (hwhole : wholePart rest = some (whole, [])) :
    number bytes = some (sign ++ whole, []) := by
  have hnil : ∀ starts part, JsonScan.optional starts part [] = some ([], []) := fun _ _ => rfl
  simp only [number, hsign, hwhole, hnil, Option.bind_eq_bind, Option.bind_some, List.append_nil]

/-- The text of an integer is a literal. -/
theorem isLiteral_formatInt (n : Int64) : IsLiteral (Strconv.formatInt n) := by
  have hdigit : ∀ c ∈ n.toInt.natAbs.repr.toList, c.toNat < 0x80 := fun c hc => by
    have h9 := (Char.isDigit_iff_toNat.mp (isDigit_of_mem_repr hc)).2
    exact lt_of_le_of_lt h9 (by decide)
  have hwhole := wholePart_repr n.toInt.natAbs
  rw [Strconv.formatInt]
  split
  · have hascii : ascii ("-" ++ n.toInt.natAbs.repr) = code '-' :: ascii n.toInt.natAbs.repr := by
      rw [ascii, String.toList_append, List.map_append]
      rfl
    refine ⟨?_, text_ascii fun c hc => ?_⟩
    · have hsign : JsonScan.optional (· = code '-') (fun rest => some ([], rest))
          (code '-' :: ascii n.toInt.natAbs.repr) = some ([code '-'], ascii n.toInt.natAbs.repr) := by
        rw [optional_cons, if_pos (by decide)]
        rfl
      rw [hascii]
      exact number_whole hsign hwhole
    · rw [String.toList_append] at hc
      rcases List.mem_append.mp hc with hc | hc
      · obtain rfl := List.mem_singleton.mp hc
        decide
      · exact hdigit c hc
  · have hsign : JsonScan.optional (· = code '-') (fun rest => some ([], rest))
        (ascii n.toInt.natAbs.repr) = some ([], ascii n.toInt.natAbs.repr) := by
      cases hascii : ascii n.toInt.natAbs.repr with
      | nil => rfl
      | cons b rest =>
          have hb : isDigit b := isDigit_of_mem_ascii_repr (hascii ▸ List.mem_cons_self)
          have hne : b ≠ code '-' := fun h => absurd (h ▸ hb) (by decide)
          rw [optional_cons, if_neg (by simpa using hne)]
    exact ⟨number_whole hsign hwhole, text_ascii hdigit⟩

/-! ### Values are read back -/

/-- The first byte of a value. -/
def Opens (c : UInt8) : Prop :=
  c ∈ [code '"', code '[', code '{', code 'n', code 't', code 'f'] ∨ StartsNumber c

instance (c : UInt8) : Decidable (Opens c) := inferInstanceAs (Decidable (_ ∨ _))

theorem skipSpace_of_head {c : UInt8} (h : ¬ isSpace c) (rest : Bytes) :
    skipSpace (c :: rest) = c :: rest := by
  rw [skipSpace, List.dropWhile_cons, if_neg h]

theorem not_isSpace_of_opens {c : UInt8} (h : Opens c) : ¬ isSpace c := by
  rw [isSpace, decide_eq_true_iff]
  rintro (rfl | rfl | rfl | rfl) <;> exact absurd h (by decide)

theorem exists_opens_marshal {depth : ℕ} {v : JsonValue} (h : Readable depth v) :
    ∃ c rest, marshal v = c :: rest ∧ Opens c := by
  cases h with
  | null => exact ⟨_, _, rfl, by decide⟩
  | bool depth b => cases b <;> exact ⟨_, _, rfl, by decide⟩
  | num depth h =>
      obtain ⟨c, rest, hascii, hc⟩ := exists_startsNumber h
      exact ⟨c, rest, by rw [marshal, hascii], .inr hc⟩
  | str => exact ⟨_, _, rfl, by decide⟩
  | @arr depth elems h =>
      cases elems <;> exact ⟨_, _, by rw [marshal], by decide⟩
  | @obj depth fields h =>
      cases fields <;> exact ⟨_, _, by rw [marshal], by decide⟩

/-- A value that starts with no bracket is a scalar. -/
theorem value_eq_scalar {depth : ℕ} {c : UInt8} {rest : Bytes} (hspace : ¬ isSpace c)
    (harr : c ≠ code '[') (hobj : c ≠ code '{') :
    value depth (c :: rest) = scalar (c :: rest) := by
  cases depth with
  | zero => rw [value, skipSpace_of_head hspace]
  | succ depth =>
      rw [value, skipSpace_of_head hspace]
      dsimp only
      rw [if_neg harr, if_neg hobj]

theorem scalar_number {c : UInt8} {rest : Bytes} (h : StartsNumber c) :
    scalar (c :: rest) = (number (c :: rest)).map fun p => (.num (text p.1), p.2) := by
  have hne : ∀ d, ¬ StartsNumber d → c ≠ d := fun d hd hcd => hd (hcd ▸ h)
  rw [scalar, if_neg (hne _ (by decide)), if_neg (hne _ (by decide)),
    if_neg (hne _ (by decide)), if_neg (hne _ (by decide))]

/-- The text of the items after the first one. -/
def tail {α : Type} (write : α → Bytes) (items : List α) : Bytes :=
  items.flatMap fun a => code ',' :: write a

theorem marshalItems_eq (vs : List JsonValue) : marshalItems vs = tail marshal vs := by
  induction vs with
  | nil => rfl
  | cons v vs ih => rw [marshalItems, ih, tail, tail, List.flatMap_cons, List.cons_append]

def marshalField (field : String × JsonValue) : Bytes :=
  quote field.1 ++ code ':' :: marshal field.2

theorem marshalFields_eq (fields : List (String × JsonValue)) :
    marshalFields fields = tail marshalField fields := by
  induction fields with
  | nil => rfl
  | cons field fields ih =>
      rw [marshalFields, ih, tail, tail, List.flatMap_cons, marshalField, List.cons_append,
        List.append_assoc, List.cons_append]

theorem marshal_arr (elems : List JsonValue) :
    marshal (.arr elems) = code '[' :: (marshal (.arr elems)).tail := by
  cases elems <;> rw [marshal, List.tail_cons]

theorem marshal_obj (fields : List (String × JsonValue)) :
    marshal (.obj fields) = code '{' :: (marshal (.obj fields)).tail := by
  cases fields <;> rw [marshal, List.tail_cons]

/-- An item is read from its bytes. -/
def Reads {α : Type} (write : α → Bytes) (item : Bytes → Option (α × Bytes)) (a : α) : Prop :=
  ∀ rest, Ends rest → item (write a ++ rest) = some (a, rest)

theorem ends_of_head {c : UInt8} (h : ¬ isDigit c ∧ c ≠ code '-' ∧ c ≠ code '.' ∧
    ¬ (c = code 'e' ∨ c = code 'E')) (rest : Bytes) : Ends (c :: rest) := by
  intro d hd
  rw [List.head?_cons] at hd
  exact Option.some.inj hd ▸ h

/-- A bracket after items. -/
structure Closes (close : UInt8) : Prop where
  ends : ∀ rest, Ends (close :: rest)
  not_isSpace : ¬ isSpace close
  ne_comma : code ',' ≠ close
  not_opens : ¬ Opens close

theorem closes_arr : Closes (code ']') :=
  ⟨ends_of_head (by decide), by decide, by decide, by decide⟩

theorem closes_obj : Closes (code '}') :=
  ⟨ends_of_head (by decide), by decide, by decide, by decide⟩

/-- Items with commas between them are read up to the bracket. -/
theorem items_tail {α : Type} {write : α → Bytes} {item : Bytes → Option (α × Bytes)}
    {close : UInt8}
    (hclose : Closes close) (as : List α) {a : α} (ha : Reads write item a)
    (has : ∀ b ∈ as, Reads write item b) {fuel : ℕ}
    (hfuel : as.length < fuel) (rest : Bytes) :
    items item close fuel (write a ++ (tail write as ++ close :: rest)) =
      some (a :: as, rest) := by
  induction as generalizing a fuel with
  | nil =>
      obtain ⟨fuel, rfl⟩ := Nat.exists_eq_succ_of_ne_zero (Nat.ne_of_gt (Nat.zero_lt_of_lt hfuel))
      have hitem := ha (close :: rest) (hclose.ends rest)
      simp [items, tail, hitem, skipSpace_of_head hclose.not_isSpace]
  | cons b as ih =>
      obtain ⟨fuel, rfl⟩ := Nat.exists_eq_succ_of_ne_zero (Nat.ne_of_gt (Nat.zero_lt_of_lt hfuel))
      have hsplit : tail write (b :: as) ++ close :: rest =
          code ',' :: (write b ++ (tail write as ++ close :: rest)) := by
        rw [tail, List.flatMap_cons, List.cons_append, List.cons_append, List.append_assoc]
        rfl
      have hitem := ha _ (ends_of_head (c := code ',') (by decide)
        (write b ++ (tail write as ++ close :: rest)))
      have hlen : as.length < fuel := Nat.lt_of_succ_lt_succ hfuel
      have hrest := ih (has b List.mem_cons_self) (fun c hc => has c (List.mem_cons_of_mem b hc))
        hlen
      rw [hsplit, items]
      simp [hitem, skipSpace_of_head (show ¬ isSpace (code ',') by decide), hclose.ne_comma, hrest]

theorem length_le_length_tail {α : Type} (write : α → Bytes) (as : List α) :
    as.length ≤ (tail write as).length := by
  induction as with
  | nil => exact le_rfl
  | cons a as ih =>
      rw [tail, List.flatMap_cons, List.length_append, List.length_cons, List.length_cons]
      have : (as.flatMap fun a => code ',' :: write a).length = (tail write as).length := rfl
      omega

theorem bracketed_tail {α : Type} {write : α → Bytes} {item : Bytes → Option (α × Bytes)}
    {close : UInt8} (hclose : Closes close) {a : α} {as : List α}
    (h : ∀ b ∈ a :: as, Reads write item b) (hopens : ∃ c bytes, write a = c :: bytes ∧ Opens c)
    (rest : Bytes) :
    bracketed item close (write a ++ (tail write as ++ close :: rest)) =
      some (a :: as, rest) := by
  obtain ⟨c, bytes, hwrite, hc⟩ := hopens
  have hne : c ≠ close := fun h => hclose.not_opens (h ▸ hc)
  have hlen : as.length < (write a ++ (tail write as ++ close :: rest)).length := by
    have := length_le_length_tail write as
    rw [List.length_append, List.length_append, List.length_cons]
    omega
  have hitems := items_tail hclose as (h a List.mem_cons_self)
    (fun b hb => h b (List.mem_cons_of_mem a hb)) hlen rest
  rw [hwrite, List.cons_append] at hitems ⊢
  rw [bracketed, skipSpace_of_head (not_isSpace_of_opens hc)]
  dsimp only
  rw [if_neg hne, hitems]

theorem bracketed_nil {α : Type} (item : Bytes → Option (α × Bytes)) {close : UInt8}
    (hclose : Closes close) (rest : Bytes) :
    bracketed item close (close :: rest) = some ([], rest) := by
  rw [bracketed, skipSpace_of_head hclose.not_isSpace]
  exact if_pos rfl

/-- A field is read when its value is. -/
theorem reads_field {depth : ℕ} {field : String × JsonValue}
    (h : Reads marshal (value depth) field.2) :
    Reads marshalField (member (value depth)) field := by
  intro rest hrest
  have hkey : marshalField field ++ rest = code '"' :: (field.1.toList.flatMap escapeChar ++
      code '"' :: (code ':' :: (marshal field.2 ++ rest))) := by
    simp [marshalField, quote]
  have hquote : expect [code '"'] (skipSpace (marshalField field ++ rest)) =
      some (field.1.toList.flatMap escapeChar ++
        code '"' :: (code ':' :: (marshal field.2 ++ rest))) := by
    rw [hkey, skipSpace_of_head (by decide)]
    exact expect_eq_some.mpr rfl
  have hcolon : expect [code ':'] (skipSpace (code ':' :: (marshal field.2 ++ rest))) =
      some (marshal field.2 ++ rest) := by
    rw [skipSpace_of_head (by decide)]
    exact expect_eq_some.mpr rfl
  rw [member, hquote, Option.bind_some, stringRest_quote]
  dsimp only [Option.bind_eq_bind, Option.bind_some]
  rw [hcolon, Option.bind_some, h rest hrest]
  rfl

/-- **A value is read back, whatever follows it.** -/
theorem reads_marshal {depth : ℕ} {v : JsonValue} (h : Readable depth v) :
    Reads marshal (value depth) v := by
  induction h with
  | null depth =>
      intro rest _
      refine value_eq_null.mpr ?_
      exact skipSpace_of_head (by decide) _
  | bool depth b =>
      intro rest _
      cases b with
      | false => exact (value_eq_scalar (by decide) (by decide) (by decide)).trans rfl
      | true => exact (value_eq_scalar (by decide) (by decide) (by decide)).trans rfl
  | num depth hliteral =>
      intro rest hrest
      obtain ⟨c, bytes, hascii, hc⟩ := exists_startsNumber hliteral
      have hnumber := number_literal hliteral hrest
      rw [hascii, List.cons_append] at hnumber
      have hne : ∀ d, ¬ StartsNumber d → c ≠ d := fun d hd hcd => hd (hcd ▸ hc)
      rw [marshal, hascii, List.cons_append, value_eq_scalar (not_isSpace_of_opens (.inr hc))
        (hne _ (by decide)) (hne _ (by decide)), scalar_number hc, hnumber, Option.map_some,
        ← hascii, hliteral.2]
  | str depth s =>
      intro rest _
      rw [marshal, quote, List.cons_append, List.cons_append, List.append_assoc,
        value_eq_scalar (by decide) (by decide) (by decide), scalar, if_pos rfl]
      have hread := stringRest_quote s rest
      rw [List.singleton_append, hread]
      rfl
  | @arr depth elems h ih =>
      intro rest _
      have hbracketed : bracketed (value depth) (code ']') ((marshal (.arr elems)).tail ++ rest) =
          some (elems, rest) := by
        cases elems with
        | nil => exact bracketed_nil _ closes_arr rest
        | cons v vs =>
            have hread := bracketed_tail closes_arr ih
              (exists_opens_marshal (h v List.mem_cons_self)) rest
            rw [marshal, marshalItems_eq, List.tail_cons]
            simpa using hread
      rw [marshal_arr, List.cons_append, value, skipSpace_of_head (by decide)]
      dsimp only
      rw [if_pos rfl, hbracketed, Option.map_some]
  | @obj depth fields h ih =>
      intro rest _
      have hbracketed : bracketed (member (value depth)) (code '}')
          ((marshal (.obj fields)).tail ++ rest) = some (fields, rest) := by
        cases fields with
        | nil => exact bracketed_nil _ closes_obj rest
        | cons field fields =>
            have hread := bracketed_tail closes_obj (fun f hf => reads_field (ih f hf))
              ⟨code '"', _, rfl, by decide⟩ rest
            rw [marshal, marshalFields_eq, List.tail_cons]
            simpa [marshalField] using hread
      rw [marshal_obj, List.cons_append, value, skipSpace_of_head (by decide)]
      dsimp only
      rw [if_neg (by decide), if_pos rfl, hbracketed, Option.map_some]

/-- **A text is read back as the value it was written for.** -/
theorem parse_marshal {v : JsonValue} (h : Readable maxNestingDepth v) :
    parse (marshal v) = some v := by
  have hread := reads_marshal h [] nofun
  rw [List.append_nil] at hread
  rw [parse, hread, Option.bind_some]
  exact if_pos rfl

end MagnumOpus.JsonMarshal
