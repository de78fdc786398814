import Mathlib.Data.List.Basic

/-! # Query strings

The query string of an address is made of pairs of a key and a value, `k=v`, joined by `&`.  An
encoder replaces every character of the keys and values that is not unreserved; what it puts there
is a parameter (`QueryEncoder`), since encoders differ in what they make of a blank.

`encodedQuery_eq_iff`: encoding leaves a query as it is exactly when all its characters are
unreserved. -/

namespace MagnumOpus.QueryText

/-- The characters that have no special meaning in an address. -/
def unreserved (c : Char) : Bool := c.isAlphanum || c ∈ ['-', '.', '_', '~']

/-- What encoders of queries have in common. -/
structure QueryEncoder where
  encodeChar : Char → List Char
  encodeChar_ne_nil : ∀ c, encodeChar c ≠ []
  encodeChar_eq_self_iff : ∀ c, encodeChar c = [c] ↔ unreserved c = true
  mem_encodeChar : ∀ c, ∀ c' ∈ encodeChar c, unreserved c' = true ∨ c' = '%' ∨ c' = '+'

/-- The query of the pairs, with a function applied to the keys and values. -/
def queryText (f : List Char → List Char) (params : List (String × String)) : List Char :=
  ['&'].intercalate (params.map fun p => f p.1.toList ++ '=' :: f p.2.toList)

/-- The query as it is read. -/
def plainQuery (params : List (String × String)) : List Char := queryText id params

def QueryEncoder.encodedQuery (E : QueryEncoder) (params : List (String × String)) : List Char :=
  queryText (·.flatMap E.encodeChar) params

/-- All keys and values are made of unreserved characters. -/
def AllUnreserved (params : List (String × String)) : Prop :=
  ∀ p ∈ params, (∀ c ∈ p.1.toList, unreserved c = true) ∧ ∀ c ∈ p.2.toList, unreserved c = true

section QueryText

variable (f : List Char → List Char)

@[simp] theorem queryText_nil : queryText f [] = [] := rfl

@[simp] theorem queryText_singleton (p : String × String) :
    queryText f [p] = f p.1.toList ++ '=' :: f p.2.toList := by
  simp [queryText]

@[simp] theorem queryText_cons_cons (p q : String × String) (ps : List (String × String)) :
    queryText f (p :: q :: ps) =
      f p.1.toList ++ '=' :: (f p.2.toList ++ '&' :: queryText f (q :: ps)) := by
  simp [queryText]

theorem queryText_ne_nil {params : List (String × String)} (h : params ≠ []) :
    queryText f params ≠ [] := by
  match params with
  | [p] => simp
  | p :: q :: ps => simp

end QueryText

/-! ### Encoding -/

/-- When no part gets shorter, a whole that stays the same stays the same in its parts. -/
theorem append_eq_append_of_length_le {α : Type*} {as bs as' bs' : List α}
    (ha : as.length ≤ as'.length) (hb : bs.length ≤ bs'.length) :
    as' ++ bs' = as ++ bs ↔ as' = as ∧ bs' = bs := by
  constructor
  · intro h
    have hlen := congrArg List.length h
    simp only [List.length_append] at hlen
    exact List.append_inj h (by omega)
  · rintro ⟨rfl, rfl⟩
    rfl

namespace QueryEncoder

variable (E : QueryEncoder)

theorem length_le_encode : ∀ cs : List Char, cs.length ≤ (cs.flatMap E.encodeChar).length
  | [] => Nat.le_refl _
  | c :: cs => by
      have hhead := List.length_pos_of_ne_nil (E.encodeChar_ne_nil c)
      have htail := length_le_encode cs
      rw [List.flatMap_cons, List.length_append, List.length_cons]
      omega

theorem encode_eq_iff : ∀ cs : List Char,
    cs.flatMap E.encodeChar = cs ↔ ∀ c ∈ cs, unreserved c = true
  | [] => by simp
  | c :: cs => by
      have hhead := List.length_pos_of_ne_nil (E.encodeChar_ne_nil c)
      have hhead' : [c].length ≤ (E.encodeChar c).length := hhead
      rw [List.flatMap_cons, List.forall_mem_cons, ← encode_eq_iff cs,
        ← E.encodeChar_eq_self_iff c]
      exact append_eq_append_of_length_le hhead' (E.length_le_encode cs)

theorem length_plain_le_encoded : ∀ params : List (String × String),
    (plainQuery params).length ≤ (E.encodedQuery params).length
  | [] => Nat.le_refl _
  | [p] => by
      have hkey := E.length_le_encode p.1.toList
      have hvalue := E.length_le_encode p.2.toList
      simp only [plainQuery, encodedQuery, queryText_singleton, List.length_append,
        List.length_cons, id_eq]
      omega
  | p :: q :: ps => by
      have hkey := E.length_le_encode p.1.toList
      have hvalue := E.length_le_encode p.2.toList
      have hrest := length_plain_le_encoded (q :: ps)
      simp only [plainQuery, encodedQuery, queryText_cons_cons, List.length_append,
        List.length_cons, id_eq] at hrest ⊢
      omega

/-- A pair and what follows it. -/
theorem encode_pair_eq_iff (p : String × String) {rest rest' : List Char}
    (h : rest.length ≤ rest'.length) :
    p.1.toList.flatMap E.encodeChar ++ '=' :: (p.2.toList.flatMap E.encodeChar ++ rest') =
        p.1.toList ++ '=' :: (p.2.toList ++ rest) ↔
      ((∀ c ∈ p.1.toList, unreserved c = true) ∧ ∀ c ∈ p.2.toList, unreserved c = true) ∧
        rest' = rest := by
  have hkey := E.length_le_encode p.1.toList
  have hvalue := E.length_le_encode p.2.toList
  rw [append_eq_append_of_length_le hkey, List.cons_inj_right,
    append_eq_append_of_length_le hvalue h, E.encode_eq_iff, E.encode_eq_iff, and_assoc]
  simp only [List.length_cons, List.length_append]
  omega

/-- Encoding changes a query unless all its characters are unreserved. -/
theorem encodedQuery_eq_iff : ∀ params : List (String × String),
    E.encodedQuery params = plainQuery params ↔ AllUnreserved params
  | [] => by simp [encodedQuery, plainQuery, AllUnreserved]
  | [p] => by
      have hpair := E.encode_pair_eq_iff p (Nat.le_refl ([] : List Char).length)
      simp only [List.append_nil, and_true] at hpair
      rw [encodedQuery, plainQuery, queryText_singleton, queryText_singleton, AllUnreserved,
        List.forall_mem_singleton]
      exact hpair
  | p :: q :: ps => by
      have hlen : ('&' :: plainQuery (q :: ps)).length ≤
          ('&' :: E.encodedQuery (q :: ps)).length :=
        Nat.succ_le_succ (E.length_plain_le_encoded (q :: ps))
      have hpair := E.encode_pair_eq_iff p hlen
      rw [List.cons_inj_right, encodedQuery_eq_iff (q :: ps)] at hpair
      rw [encodedQuery, plainQuery, queryText_cons_cons, queryText_cons_cons, AllUnreserved,
        List.forall_mem_cons]
      exact hpair

/-- The characters of an encoded query. -/
theorem of_mem_encodedQuery {c : Char} : ∀ {params : List (String × String)},
    c ∈ E.encodedQuery params → unreserved c = true ∨ c ∈ ['%', '+', '=', '&'] := by
  have hpart : ∀ cs : List Char, c ∈ cs.flatMap E.encodeChar →
      unreserved c = true ∨ c ∈ ['%', '+', '=', '&'] := by
    intro cs hc
    obtain ⟨c', -, hc'⟩ := List.mem_flatMap.mp hc
    rcases E.mem_encodeChar c' c hc' with h | rfl | rfl
    · exact .inl h
    · exact .inr (by decide)
    · exact .inr (by decide)
  have hpair : ∀ (p : String × String) (rest : List Char),
      (c ∈ rest → unreserved c = true ∨ c ∈ ['%', '+', '=', '&']) →
      c ∈ p.1.toList.flatMap E.encodeChar ++ '=' :: (p.2.toList.flatMap E.encodeChar ++ rest) →
      unreserved c = true ∨ c ∈ ['%', '+', '=', '&'] := by
    intro p rest hrest hc
    rcases List.mem_append.mp hc with hc | hc
    · exact hpart _ hc
    · rcases List.mem_cons.mp hc with rfl | hc
      · exact .inr (by decide)
      · exact (List.mem_append.mp hc).elim (hpart _) hrest
  intro params
  induction params with
  | nil => exact fun h => absurd h List.not_mem_nil
  | cons p ps ih =>
      cases ps with
      | nil =>
          intro hc
          refine hpair p [] (fun h => absurd h List.not_mem_nil) ?_
          rwa [encodedQuery, queryText_singleton, ← List.append_nil (List.flatMap _ p.2.toList)]
            at hc
      | cons q ps =>
          intro hc
          rw [encodedQuery, queryText_cons_cons] at hc
          refine hpair p _ (fun h => ?_) hc
          rcases List.mem_cons.mp h with rfl | h
          · exact .inr (by decide)
          · exact ih h

/-- A byte as `%` and two digits. -/
def percentByte (b : UInt8) : List Char :=
  ['%', (Nat.digitChar (b.toNat / 16)).toUpper, (Nat.digitChar (b.toNat % 16)).toUpper]

theorem length_flatMap_percentByte : ∀ bs : List UInt8,
    (bs.flatMap percentByte).length = 3 * bs.length
  | [] => rfl
  | b :: bs => by
      rw [List.flatMap_cons, List.length_append, length_flatMap_percentByte bs, List.length_cons]
      show 3 + 3 * bs.length = 3 * (bs.length + 1)
      omega

/-- A reserved character becomes longer. -/
theorem three_le_length_percent (c : Char) :
    3 ≤ ((String.utf8EncodeChar c).flatMap percentByte).length := by
  have hsize := c.utf8Size_pos
  rw [length_flatMap_percentByte, String.length_utf8EncodeChar]
  omega

theorem unreserved_hexDigit : ∀ n < 16, unreserved (Nat.digitChar n).toUpper = true := by
  decide

/-- Encodes every reserved character by its bytes. -/
def percent : QueryEncoder where
  encodeChar c :=
    if unreserved c then [c] else (String.utf8EncodeChar c).flatMap percentByte
  encodeChar_ne_nil c := by
    have hlen := three_le_length_percent c
    split
    next => exact List.cons_ne_nil _ _
    next => exact List.ne_nil_of_length_pos (by omega)
  encodeChar_eq_self_iff c := by
    have hlen := three_le_length_percent c
    split
    next hc => exact ⟨fun _ => hc, fun _ => rfl⟩
    next hc =>
      refine ⟨fun h => ?_, fun h => absurd h hc⟩
      rw [h] at hlen
      simp at hlen
  mem_encodeChar c c' h := by
    split at h
    next hc =>
      rw [List.mem_singleton.mp h]
      exact .inl hc
    next =>
      obtain ⟨b, -, hb⟩ := List.mem_flatMap.mp h
      have hlt : b.toNat < 256 := b.toNat_lt
      simp only [percentByte, List.mem_cons, List.not_mem_nil, or_false] at hb
      rcases hb with rfl | rfl | rfl
      · exact .inr (.inl rfl)
      · exact .inl (unreserved_hexDigit _ (by omega))
      · exact .inl (unreserved_hexDigit _ (by omega))

end QueryEncoder

end MagnumOpus.QueryText
