import MagnumOpus.Lib.JsonDecode
import MagnumOpus.Lib.KeyedWrites

/-! # Decoding into variables in place

What Go's `encoding/json` stores when the variable already holds something, as it does when an
object has a key twice.

* `null` leaves numbers and strings as they are, and makes slices and maps nil.
* An array goes into the cells of the slice that is there, also into those beyond its length, which
  keep what they held (`Slice`).
* A struct field is found regardless of case, in the sense of Unicode (`foldName`).

A value of the wrong kind is an error of the whole. -/

namespace MagnumOpus.JsonUnmarshal

open JsonDecode (JsonValue)
open KeyedWrites Strconv

/-- Decodes into a variable that holds something. -/
abbrev Decoder (α : Type) := α → JsonValue → Option α

def intoText : Decoder String
  | old, .null => some old
  | _, .str s => some s
  | _, _ => none

def intoInt64 : Decoder Int64
  | old, .null => some old
  | _, .num literal => (readInt literal).toOption
  | _, _ => none

/-! ### Slices -/

/-- A slice and the cells that it can grow into. -/
structure Slice (α : Type) where
  cells : List α
  len : ℕ
  len_le : len ≤ cells.length

namespace Slice

variable {α : Type}

def nil : Slice α := ⟨[], 0, Nat.le_refl 0⟩

/-- The first cells. -/
def ofCells (cells : List α) (n : ℕ) : Slice α :=
  ⟨cells, min n cells.length, Nat.min_le_right n cells.length⟩

def elems (s : Slice α) : List α := s.cells.take s.len

theorem elems_ofCells_length (cells : List α) : (ofCells cells cells.length).elems = cells :=
  List.take_of_length_le (le_min le_rfl le_rfl)

end Slice

section

variable {α : Type} (zero : α) (decode : Decoder α)

/-- Decodes the elements into the cells from the left; new cells are zero. -/
def intoCells : List α → List JsonValue → Option (List α)
  | cells, [] => some cells
  | [], v :: vs => do
      let a ← decode zero v
      let as ← intoCells [] vs
      some (a :: as)
  | c :: cells, v :: vs => do
      let a ← decode c v
      let as ← intoCells cells vs
      some (a :: as)

/-- An empty array makes a new slice, which has no cells. -/
def intoSlice : Decoder (Slice α)
  | _, .null => some .nil
  | _, .arr [] => some .nil
  | old, .arr vs => (intoCells zero decode old.cells vs).map fun cells => .ofCells cells vs.length
  | _, _ => none

variable {zero decode} in
/-- New cells hold the decoded elements. -/
theorem intoCells_nil_map {β : Type} {toJson : β → JsonValue} {result : β → α}
    (h : ∀ b, decode zero (toJson b) = some (result b)) (bs : List β) :
    intoCells zero decode [] (bs.map toJson) = some (bs.map result) := by
  induction bs with
  | nil => rfl
  | cons b bs ih =>
      rw [List.map_cons, intoCells, h, ih]
      rfl

variable {zero decode} in
/-- An array in a slice that was nil. -/
theorem intoSlice_nil_map {β : Type} {toJson : β → JsonValue} {result : β → α}
    (h : ∀ b, decode zero (toJson b) = some (result b)) (bs : List β) :
    intoSlice zero decode .nil (.arr (bs.map toJson)) =
      some (.ofCells (bs.map result) (bs.map result).length) := by
  cases bs with
  | nil => rfl
  | cons b bs =>
      have hcells := intoCells_nil_map h (b :: bs)
      rw [List.map_cons] at hcells ⊢
      rw [intoSlice, Slice.nil, hcells, Option.map_some, List.length_cons, List.length_map,
        List.length_map, List.length_cons]
      exact List.cons_ne_nil _ _

end

/-! ### Structs -/

/-- The least character of those that differ in case only, when one of them is ASCII. -/
def foldRune (c : Char) : Char := if c = 'ſ' then 'S' else if c = 'K' then 'K' else c.toUpper

def foldName (name : String) : List Char := name.toList.map foldRune

/-! ### Variables of any type -/

/-- What an `any` holds. -/
inductive AnyValue (F : Type) where
  | null
  | bool (b : Bool)
  | num (x : F)
  | str (s : String)
  | arr (elems : List (AnyValue F))
  /-- Of equal keys the last one counts. -/
  | obj (fields : List (String × AnyValue F))

section

variable {F : Type} (parseFloat : String → Option F)

mutual

/-- Decodes into an `any`; a number has to be one of the type. -/
def toAny : JsonValue → Option (AnyValue F)
  | .null => some .null
  | .bool b => some (.bool b)
  | .num literal => (parseFloat literal).map .num
  | .str s => some (.str s)
  | .arr elems => (toAnys elems).map .arr
  | .obj fields => (toAnyFields fields).map .obj

def toAnys : List JsonValue → Option (List (AnyValue F))
  | [] => some []
  | v :: vs => do
      let a ← toAny v
      let as ← toAnys vs
      some (a :: as)

def toAnyFields : List (String × JsonValue) → Option (List (String × AnyValue F))
  | [] => some []
  | (key, v) :: fields => do
      let a ← toAny v
      let as ← toAnyFields fields
      some ((key, a) :: as)

end

/-- Decodes into a `map[string]any`, which is nil before. -/
def toAnyMap : JsonValue → Option (Option (Map String (AnyValue F)))
  | .null => some none
  | .obj fields =>
      (toAnyFields parseFloat fields).map fun fields =>
        some (fields.foldl (fun m f => m.insert f.1 f.2) ∅)
  | _ => none

/-- Only `null` leaves the map nil. -/
theorem toAnyMap_eq_some_none {v : JsonValue} :
    toAnyMap parseFloat v = some none ↔ v = .null := by
  cases v with
  | null => exact iff_of_true rfl rfl
  | obj fields =>
      refine iff_of_false (fun h => ?_) nofun
      obtain ⟨m, -, hm⟩ := Option.map_eq_some_iff.mp h
      cases hm
  | bool b => exact iff_of_false nofun nofun
  | num literal => exact iff_of_false nofun nofun
  | str s => exact iff_of_false nofun nofun
  | arr elems => exact iff_of_false nofun nofun

end

end MagnumOpus.JsonUnmarshal
