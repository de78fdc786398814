import MagnumOpus.Lib.Strconv

/-! # Decoding JSON values into typed variables

The values of JSON texts, and what Go's `encoding/json` stores when it decodes one into a variable
that still holds its zero value.

* `null` leaves the variable as it is, so it decodes to the zero value at every type.
* A number is kept as its literal: it goes into an integer variable only when the literal is that
  integer, so `1.0` and `1e3` do not.
* Object keys match the name of a struct field regardless of case, and the last match counts.
* An array fills a Go array of fixed length from the left: what is missing stays zero, what is too
  much is left out. -/

namespace MagnumOpus.JsonDecode

open Strconv

/-- The value of a JSON text; a number is its literal. -/
inductive JsonValue where
  | null
  | bool (b : Bool)
  | num (literal : String)
  | str (s : String)
  | arr (elems : List JsonValue)
  | obj (fields : List (String × JsonValue))

namespace JsonValue

/-- Decodes into a `string`. -/
def toText : JsonValue → Option String
  | null => some ""
  | str s => some s
  | _ => none

/-- Decodes into an `int64`. -/
def toInt64 : JsonValue → Option Int64
  | null => some 0
  | num literal => (readInt literal).toOption
  | _ => none

/-- Decodes into a `uint64`. -/
def toUInt64 : JsonValue → Option UInt64
  | null => some 0
  | num literal => (parseUint literal).toOption
  | _ => none

/-- Decodes into a slice; the elements are still to be decoded. -/
def toSlice : JsonValue → Option (List JsonValue)
  | null => some []
  | arr elems => some elems
  | _ => none

/-- Decodes into a struct; the fields are still to be decoded. -/
def toFields : JsonValue → Option (List (String × JsonValue))
  | null => some []
  | obj fields => some fields
  | _ => none

end JsonValue

/-- A key with the case of its letters removed. -/
def foldCase (key : String) : List Char := key.toList.map Char.toLower

/-- The value of the struct field `name`, when the object has one. -/
def field (name : String) (fields : List (String × JsonValue)) : Option JsonValue :=
  (fields.reverse.find? fun f => foldCase f.1 = foldCase name).map Prod.snd

/-- Decodes the struct field `name`; a field that is absent keeps its zero value. -/
def fieldAs {α : Type} (name : String) (zero : α) (decode : JsonValue → Option α)
    (fields : List (String × JsonValue)) : Option α :=
  match field name fields with
  | none => some zero
  | some v => decode v

/-! ### Decoding steps that can fail -/

/-- The value that a decoding step yields, or the error text of the step. -/
def orError {α : Type} (text : String) : Option α → Except String α
  | some a => .ok a
  | none => .error text

theorem orError_eq_ok {α : Type} {text : String} {o : Option α} {a : α} :
    orError text o = .ok a ↔ o = some a := by
  cases o <;> simp [orError]

/-- A sequence of two steps succeeds when both do. -/
theorem bind_eq_ok {ε α β : Type} {x : Except ε α} {f : α → Except ε β} {b : β} :
    (x >>= f) = .ok b ↔ ∃ a, x = .ok a ∧ f a = .ok b := by
  cases x with
  | error e => simp [bind, Except.bind]
  | ok a => simp [bind, Except.bind]

end MagnumOpus.JsonDecode
