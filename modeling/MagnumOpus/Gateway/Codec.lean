import MagnumOpus.Gateway.Hub
import MagnumOpus.Lib.ByteLayout
import MagnumOpus.Lib.JsonScan
import MagnumOpus.Lib.JsonUnmarshal

/-! # The gateway's codecs

`codec.go` on the bytes of a message: `EncodeBinary` turns the JSON of an order book into a binary
frame, `InjectType` adds the field `type` to a JSON object.

A call returns bytes, or an error, or panics: a write past the end of the buffer panics, and so does
an assignment to an entry of a nil map.  `EncodeBinary` never does: its writes one after another are
one write of the whole frame (`writeFrame_eq_put`), and the frame is as long as the buffer.  By the
layout in `codec.go` the frame is read back as the levels (`readFrame_frameBytes`).  `InjectType`
panics on the JSON text `null`, which leaves the map nil (`injectType_eq_panicked_iff`). -/

namespace MagnumOpus.Gateway.Codec

open ByteLayout JsonDecode JsonScan JsonUnmarshal

/-! ### Numbers and faults -/

/-- The number formats with their bits, and `json.Marshal`. -/
structure Formats extends Floats where
  float64bits : F64 → UInt64
  float64frombits : UInt64 → F64
  float64frombits_float64bits : ∀ x, float64frombits (float64bits x) = x
  float32bits : F32 → UInt32
  float32frombits : UInt32 → F32
  float32frombits_float32bits : ∀ x, float32frombits (float32bits x) = x
  marshal : KeyedWrites.Map String (AnyValue F64) → Option Bytes

inductive CodecError where
  /-- What `json` reports. -/
  | json
  /-- `level count exceeds uint16 max`. -/
  | levelCount
deriving DecidableEq, Repr

inductive Fault where
  | rejected (err : CodecError)
  | panicked
deriving DecidableEq, Repr

/-! ### The JSON of an order book -/

structure DepthPayload where
  tsNs : Int64 := 0
  bids : Slice (Slice String) := .nil
  asks : Slice (Slice String) := .nil

/-- Decodes a `[][]string`. -/
def intoLevels : Decoder (Slice (Slice String)) := intoSlice .nil (intoSlice "" intoText)

/-- Decodes one field of the object. -/
def intoField (dp : DepthPayload) (key : String) (v : JsonValue) : Option DepthPayload :=
  if foldName key = foldName "ts_ns" then (intoInt64 dp.tsNs v).map fun tsNs => { dp with tsNs }
  else if foldName key = foldName "bids" then
    (intoLevels dp.bids v).map fun bids => { dp with bids }
  else if foldName key = foldName "asks" then
    (intoLevels dp.asks v).map fun asks => { dp with asks }
  else some dp

def intoDepth : JsonValue → Option DepthPayload
  | .null => some {}
  | .obj fields => fields.foldlM (fun dp field => intoField dp field.1 field.2) {}
  | _ => none

/-- `json.Unmarshal(payload, &dp)`. -/
def unmarshalDepth (payload : Bytes) : Option DepthPayload := (parse payload).bind intoDepth

/-- The texts of a side. -/
def texts (side : Slice (Slice String)) : List (List String) := side.elems.map Slice.elems

section

variable (F : Formats)

structure LevelEntry where
  price : F.F64
  size : F.F64

def parsePair : List String → Option (LevelEntry F)
  | price :: size :: _ => do some ⟨← F.parseFloat price, ← F.parseFloat size⟩
  | _ => none

/-- Pairs that are too short or no numbers are left out. -/
def parseLevels (raw : List (List String)) : List (LevelEntry F) := raw.filterMap (parsePair F)

/-! ### The binary frame -/

def msgSnapshot : UInt8 := 0x01

/-- The loop over the levels, from an offset on. -/
def writeLevels : List (LevelEntry F) → ℕ → Bytes → Option Bytes
  | [], _, buf => some buf
  | lv :: levels, off, buf => do
      let buf ← put buf off (bigEndian 8 (F.float64bits lv.price).toNat)
      let buf ← put buf (off + 8) (bigEndian 4 (F.float32bits (F.toFloat32 lv.size)).toNat)
      writeLevels levels (off + 12) buf

/-- The header and the levels, the bids first. -/
def writeFrame (tsNs : Int64) (bids asks : List (LevelEntry F)) (buf : Bytes) : Option Bytes := do
  let buf ← put buf 0 [msgSnapshot]
  let buf ← put buf 1 (bigEndian 8 (F.float64bits (F.float64 tsNs)).toNat)
  let buf ← put buf 9 (littleEndian 2 (UInt16.ofNat bids.length).toNat)
  let buf ← put buf 11 (littleEndian 2 (UInt16.ofNat asks.length).toNat)
  writeLevels F (bids ++ asks) 13 buf

def encodeBinary (payload : Bytes) : Except Fault Bytes :=
  match unmarshalDepth payload with
  | none => .error (.rejected .json)
  | some dp =>
      let bids := parseLevels F (texts dp.bids)
      let asks := parseLevels F (texts dp.asks)
      if 0xFFFF < bids.length ∨ 0xFFFF < asks.length then .error (.rejected .levelCount)
      else
        match writeFrame F dp.tsNs bids asks
            (List.replicate (13 + (bids.length + asks.length) * 12) 0) with
        | some buf => .ok buf
        | none => .error .panicked

/-! ### The type of a candle -/

/-- `json.Unmarshal(payload, &m)`; the map may be nil. -/
def unmarshalMap (payload : Bytes) : Option (Option (KeyedWrites.Map String (AnyValue F.F64))) :=
  (parse payload).bind (toAnyMap F.parseFloat)

def injectType (payload : Bytes) (msgType : String) : Except Fault Bytes :=
  match unmarshalMap F payload with
  | none => .error (.rejected .json)
  | some none => .error .panicked
  | some (some m) =>
      match F.marshal (m.insert "type" (.str msgType)) with
      | some out => .ok out
      | none => .error (.rejected .json)

/-! ### The layout -/

def bidCount (frame : Bytes) : ℕ := ofLittleEndian (slice frame 9 2)

def askCount (frame : Bytes) : ℕ := ofLittleEndian (slice frame 11 2)

/-- Price and size of a level. -/
def readLevel (level : Bytes) : F.F64 × F.F32 :=
  (F.float64frombits (UInt64.ofNat (ofBigEndian (slice level 0 8))),
    F.float32frombits (UInt32.ofNat (ofBigEndian (slice level 8 4))))

/-- Reads a frame that is as long as its counts say. -/
def readFrame (frame : Bytes) : Option (Frame F.toFloats) :=
  if slice frame 0 1 = [msgSnapshot] ∧
      frame.length = 13 + 12 * (bidCount frame + askCount frame) then
    some (.snapshot (F.float64frombits (UInt64.ofNat (ofBigEndian (slice frame 1 8))))
      (records 12 (readLevel F) (bidCount frame) (frame.drop 13))
      (records 12 (readLevel F) (askCount frame) (frame.drop (13 + 12 * bidCount frame))))
  else none

end

/-! ### What is written -/

section

variable (F : Formats)

def levelBytes (lv : LevelEntry F) : Bytes :=
  bigEndian 8 (F.float64bits lv.price).toNat ++
    bigEndian 4 (F.float32bits (F.toFloat32 lv.size)).toNat

def headerBytes (tsNs : Int64) (bidCount askCount : ℕ) : Bytes :=
  [msgSnapshot] ++ bigEndian 8 (F.float64bits (F.float64 tsNs)).toNat ++
    littleEndian 2 (UInt16.ofNat bidCount).toNat ++ littleEndian 2 (UInt16.ofNat askCount).toNat

def frameBytes (tsNs : Int64) (bids asks : List (LevelEntry F)) : Bytes :=
  headerBytes F tsNs bids.length asks.length ++ (bids ++ asks).flatMap (levelBytes F)

@[simp] theorem length_levelBytes (lv : LevelEntry F) : (levelBytes F lv).length = 12 := by
  rw [levelBytes, List.length_append, length_bigEndian, length_bigEndian]

@[simp] theorem length_headerBytes (tsNs : Int64) (bidCount askCount : ℕ) :
    (headerBytes F tsNs bidCount askCount).length = 13 := by
  simp [headerBytes]

theorem length_frameBytes (tsNs : Int64) (bids asks : List (LevelEntry F)) :
    (frameBytes F tsNs bids asks).length = 13 + 12 * (bids.length + asks.length) := by
  rw [frameBytes, List.length_append, length_headerBytes,
    length_flatMap_of_width (length_levelBytes F), List.length_append]

theorem put_writeLevels (levels : List (LevelEntry F)) (buf : Bytes) (off : ℕ) (bytes : Bytes) :
    (put buf off bytes).bind (writeLevels F levels (off + bytes.length)) =
      put buf off (bytes ++ levels.flatMap (levelBytes F)) := by
  induction levels generalizing bytes with
  | nil => cases h : put buf off bytes <;> simp [writeLevels, h]
  | cons lv levels ih =>
      have hprice := put_put buf off bytes (bigEndian 8 (F.float64bits lv.price).toNat)
      have hsize := put_put buf off (bytes ++ bigEndian 8 (F.float64bits lv.price).toNat)
        (bigEndian 4 (F.float32bits (F.toFloat32 lv.size)).toNat)
      have hrest := ih (bytes ++ levelBytes F lv)
      rw [List.length_append, length_bigEndian, ← hprice, Option.bind_assoc,
        List.append_assoc] at hsize
      rw [List.length_append, length_levelBytes, levelBytes, ← hsize, Option.bind_assoc] at hrest
      rw [List.flatMap_cons, ← List.append_assoc, levelBytes, ← hrest]
      refine congrArg _ (funext fun buf₁ => ?_)
      rw [writeLevels, Option.bind_assoc]
      rfl

/-- **The writes into the buffer are one write of the frame.** -/
theorem writeFrame_eq_put (tsNs : Int64) (bids asks : List (LevelEntry F)) (buf : Bytes) :
    writeFrame F tsNs bids asks buf = put buf 0 (frameBytes F tsNs bids asks) := by
  let ts := bigEndian 8 (F.float64bits (F.float64 tsNs)).toNat
  let bidBytes := littleEndian 2 (UInt16.ofNat bids.length).toNat
  let askBytes := littleEndian 2 (UInt16.ofNat asks.length).toNat
  have hts : (put buf 0 [msgSnapshot]).bind (put · 1 ts) = put buf 0 ([msgSnapshot] ++ ts) :=
    put_put buf 0 [msgSnapshot] ts
  have hbids : (put buf 0 ([msgSnapshot] ++ ts)).bind (put · 9 bidBytes) =
      put buf 0 ([msgSnapshot] ++ ts ++ bidBytes) := by
    have h := put_put buf 0 ([msgSnapshot] ++ ts) bidBytes
    rwa [List.length_append, length_bigEndian] at h
  have hasks : (put buf 0 ([msgSnapshot] ++ ts ++ bidBytes)).bind (put · 11 askBytes) =
      put buf 0 ([msgSnapshot] ++ ts ++ bidBytes ++ askBytes) := by
    have h := put_put buf 0 ([msgSnapshot] ++ ts ++ bidBytes) askBytes
    rwa [List.length_append, List.length_append, length_bigEndian, length_littleEndian] at h
  have hlevels := put_writeLevels F (bids ++ asks) buf 0
    (headerBytes F tsNs bids.length asks.length)
  rw [length_headerBytes] at hlevels
  rw [frameBytes, ← hlevels, headerBytes, ← hasks, ← hbids, ← hts, Option.bind_assoc,
    Option.bind_assoc, Option.bind_assoc]
  rfl

theorem writeFrame_replicate (tsNs : Int64) (bids asks : List (LevelEntry F)) :
    writeFrame F tsNs bids asks (List.replicate (13 + (bids.length + asks.length) * 12) 0) =
      some (frameBytes F tsNs bids asks) := by
  rw [writeFrame_eq_put, put_all]
  rw [length_frameBytes, List.length_replicate, Nat.mul_comm]

theorem encodeBinary_eq_ok_iff (payload frame : Bytes) :
    encodeBinary F payload = .ok frame ↔ ∃ dp, unmarshalDepth payload = some dp ∧
      (parseLevels F (texts dp.bids)).length ≤ 0xFFFF ∧
      (parseLevels F (texts dp.asks)).length ≤ 0xFFFF ∧
      frame = frameBytes F dp.tsNs (parseLevels F (texts dp.bids))
        (parseLevels F (texts dp.asks)) := by
  unfold encodeBinary
  cases unmarshalDepth payload with
  | none => simp
  | some dp =>
      simp only [writeFrame_replicate, Option.some.injEq, exists_eq_left']
      split
      · next hmany =>
          refine iff_of_false nofun ?_
          rintro ⟨hbids, hasks, -⟩
          omega
      · next hfew =>
          rw [Except.ok.injEq]
          refine ⟨fun h => ⟨by omega, by omega, h.symm⟩, fun h => h.2.2.symm⟩

theorem encodeBinary_ne_panicked (payload : Bytes) : encodeBinary F payload ≠ .error .panicked := by
  unfold encodeBinary
  cases unmarshalDepth payload with
  | none => nofun
  | some dp =>
      simp only [writeFrame_replicate]
      split <;> nofun

/-- The JSON text `null` is the only one that makes `InjectType` panic. -/
theorem injectType_eq_panicked_iff (payload : Bytes) (msgType : String) :
    injectType F payload msgType = .error .panicked ↔ IsNull payload := by
  have hmap : unmarshalMap F payload = some none ↔ IsNull payload := by
    rw [← parse_eq_null_iff, unmarshalMap, Option.bind_eq_some_iff]
    simp only [toAnyMap_eq_some_none, exists_eq_right]
  rw [← hmap]
  unfold injectType
  split
  · next hnone => simp [hnone]
  · next hnil => exact iff_of_true rfl hnil
  · next m hm =>
      rw [hm]
      refine iff_of_false ?_ nofun
      split <;> nofun

/-! ### What is read -/

/-- A level as it goes out: the size is rounded. -/
def LevelEntry.wire (lv : LevelEntry F) : F.F64 × F.F32 := (lv.price, F.toFloat32 lv.size)

theorem readLevel_levelBytes (lv : LevelEntry F) : readLevel F (levelBytes F lv) = lv.wire F := by
  let price := bigEndian 8 (F.float64bits lv.price).toNat
  let size := bigEndian 4 (F.float32bits (F.toFloat32 lv.size)).toNat
  have hprice : slice (levelBytes F lv) 0 8 = price := by
    have h := slice_append [] price size
    rwa [length_bigEndian] at h
  have hsize : slice (levelBytes F lv) 8 4 = size := by
    have h := slice_append price size []
    rwa [List.append_nil, length_bigEndian, length_bigEndian] at h
  rw [readLevel, hprice, hsize, ofBigEndian_bigEndian (UInt64.toNat_lt _),
    ofBigEndian_bigEndian (UInt32.toNat_lt _), UInt64.ofNat_toNat, UInt32.ofNat_toNat,
    F.float64frombits_float64bits, F.float32frombits_float32bits]
  rfl

theorem ofLittleEndian_count {n : ℕ} (h : n ≤ 0xFFFF) :
    ofLittleEndian (littleEndian 2 (UInt16.ofNat n).toNat) = n := by
  rw [ofLittleEndian_littleEndian (UInt16.toNat_lt _),
    UInt16.toNat_ofNat_of_lt' (Nat.lt_succ_of_le h)]

section

variable (tsNs : Int64) {bids asks : List (LevelEntry F)}

theorem bidCount_frameBytes (hbids : bids.length ≤ 0xFFFF) :
    bidCount (frameBytes F tsNs bids asks) = bids.length := by
  have h := slice_append ([msgSnapshot] ++ bigEndian 8 (F.float64bits (F.float64 tsNs)).toNat)
    (littleEndian 2 (UInt16.ofNat bids.length).toNat)
    (littleEndian 2 (UInt16.ofNat asks.length).toNat ++ (bids ++ asks).flatMap (levelBytes F))
  rw [List.length_append, length_bigEndian, length_littleEndian, ← List.append_assoc,
    ← List.append_assoc] at h
  rw [bidCount, frameBytes, headerBytes]
  exact (congrArg ofLittleEndian h).trans (ofLittleEndian_count hbids)

theorem askCount_frameBytes (hasks : asks.length ≤ 0xFFFF) :
    askCount (frameBytes F tsNs bids asks) = asks.length := by
  have h := slice_append ([msgSnapshot] ++ bigEndian 8 (F.float64bits (F.float64 tsNs)).toNat ++
    littleEndian 2 (UInt16.ofNat bids.length).toNat)
    (littleEndian 2 (UInt16.ofNat asks.length).toNat) ((bids ++ asks).flatMap (levelBytes F))
  rw [List.length_append, List.length_append, length_bigEndian, length_littleEndian,
    length_littleEndian, ← List.append_assoc] at h
  rw [askCount, frameBytes, headerBytes]
  exact (congrArg ofLittleEndian h).trans (ofLittleEndian_count hasks)

theorem slice_frameBytes_tsNs : slice (frameBytes F tsNs bids asks) 1 8 =
    bigEndian 8 (F.float64bits (F.float64 tsNs)).toNat := by
  have h := slice_append [msgSnapshot] (bigEndian 8 (F.float64bits (F.float64 tsNs)).toNat)
    (littleEndian 2 (UInt16.ofNat bids.length).toNat ++
      (littleEndian 2 (UInt16.ofNat asks.length).toNat ++ (bids ++ asks).flatMap (levelBytes F)))
  rw [length_bigEndian, ← List.append_assoc, ← List.append_assoc, ← List.append_assoc] at h
  exact h

theorem drop_frameBytes : (frameBytes F tsNs bids asks).drop 13 =
    bids.flatMap (levelBytes F) ++ asks.flatMap (levelBytes F) := by
  rw [frameBytes, List.drop_left' (length_headerBytes F _ _ _), List.flatMap_append]

/-- **By the layout, a frame is read as the levels it was made of.** -/
theorem readFrame_frameBytes (hbids : bids.length ≤ 0xFFFF) (hasks : asks.length ≤ 0xFFFF) :
    readFrame F (frameBytes F tsNs bids asks) =
      some (.snapshot (F.float64 tsNs) (bids.map (LevelEntry.wire F))
        (asks.map (LevelEntry.wire F))) := by
  have htype : slice (frameBytes F tsNs bids asks) 0 1 = [msgSnapshot] := rfl
  have hread := records_flatMap (length_levelBytes F) (readLevel_levelBytes F)
  have hafter : (frameBytes F tsNs bids asks).drop (13 + 12 * bids.length) =
      asks.flatMap (levelBytes F) := by
    rw [← List.drop_drop, drop_frameBytes,
      List.drop_left' (length_flatMap_of_width (length_levelBytes F) bids)]
  have hasksRead := hread asks []
  rw [List.append_nil] at hasksRead
  rw [readFrame, bidCount_frameBytes F tsNs hbids, askCount_frameBytes F tsNs hasks,
    if_pos ⟨htype, length_frameBytes F tsNs bids asks⟩, slice_frameBytes_tsNs, drop_frameBytes,
    hafter, hread bids, hasksRead, ofBigEndian_bigEndian (UInt64.toNat_lt _), UInt64.ofNat_toNat,
    F.float64frombits_float64bits]

end

end

/-! ### The books of the aggregator -/

section

variable (F : Formats)

/-- The levels of the hub's model are those that go out. -/
theorem map_wire_parseLevels (side : List (List String)) :
    (parseLevels F side).map (LevelEntry.wire F) = Gateway.parseLevels F.toFloats side := by
  rw [parseLevels, Gateway.parseLevels, List.map_filterMap]
  refine List.filterMap_congr fun pair _ => ?_
  cases pair with
  | nil => rfl
  | cons price rest =>
      cases rest with
      | nil => rfl
      | cons size rest =>
          show ((F.parseFloat price).bind fun p => (F.parseFloat size).bind fun q =>
              some (LevelEntry.mk p q)).map (LevelEntry.wire F) =
            (F.parseFloat price).bind fun p => (F.parseFloat size).bind fun q =>
              some (p, F.toFloat32 q)
          cases F.parseFloat price with
          | none => rfl
          | some p =>
              cases F.parseFloat size with
              | none => rfl
              | some q => rfl

/-- Published levels in a slice. -/
def sideOf (side : List (List String)) : Slice (Slice String) :=
  let pairs := side.map fun pair => Slice.ofCells pair pair.length
  .ofCells pairs pairs.length

theorem texts_sideOf (side : List (List String)) : texts (sideOf side) = side := by
  rw [texts, sideOf, Slice.elems_ofCells_length, List.map_map]
  exact (List.map_congr_left fun pair _ => Slice.elems_ofCells_length pair).trans (List.map_id side)

theorem intoLevels_levels (side : List (List String)) :
    intoLevels .nil (Publication.levels side) = some (sideOf side) := by
  refine intoSlice_nil_map (fun pair => ?_) side
  have htext : ∀ s, intoText "" (JsonValue.str s) = some (id s) := fun _ => rfl
  have hpair := intoSlice_nil_map htext pair
  rwa [List.map_id] at hpair

theorem intoDepth_payload (exch : Exchange) (raw : String) (tsNs : Int64)
    (bids asks : List (List String)) :
    intoDepth (Publication.orderbook exch raw tsNs bids asks).payload =
      some ⟨tsNs, sideOf bids, sideOf asks⟩ := by
  have hts : intoInt64 0 (.num (Strconv.formatInt tsNs)) = some tsNs := by
    rw [intoInt64, Strconv.readInt_formatInt]
    rfl
  have hfields : (Publication.orderbook exch raw tsNs bids asks).payload =
      .obj [("ts_ns", .num (Strconv.formatInt tsNs)), ("exchange", .str exch.name),
        ("symbol", .str (Aggregator.normalize exch.name raw)), ("bids", Publication.levels bids),
        ("asks", Publication.levels asks)] := rfl
  have htsField : intoField {} "ts_ns" (.num (Strconv.formatInt tsNs)) =
      some ⟨tsNs, .nil, .nil⟩ := by
    rw [intoField, if_pos rfl, hts]
    rfl
  have hexchange : ∀ dp v, intoField dp "exchange" v = some dp := fun dp v => by
    rw [intoField, if_neg (by decide), if_neg (by decide), if_neg (by decide)]
  have hsymbol : ∀ dp v, intoField dp "symbol" v = some dp := fun dp v => by
    rw [intoField, if_neg (by decide), if_neg (by decide), if_neg (by decide)]
  have hbids : intoField ⟨tsNs, .nil, .nil⟩ "bids" (Publication.levels bids) =
      some ⟨tsNs, sideOf bids, .nil⟩ := by
    rw [intoField, if_neg (by decide), if_pos rfl, intoLevels_levels]
    rfl
  have hasks : intoField ⟨tsNs, sideOf bids, .nil⟩ "asks" (Publication.levels asks) =
      some ⟨tsNs, sideOf bids, sideOf asks⟩ := by
    rw [intoField, if_neg (by decide), if_neg (by decide), if_pos rfl, intoLevels_levels]
    rfl
  rw [hfields, intoDepth]
  simp only [List.foldlM_cons, List.foldlM_nil, Option.bind_eq_bind, htsField, hexchange, hsymbol,
    hbids, hasks, Option.bind_some]
  rfl

/-- **On a text of a published book, the frame is read as the frame of the hub's model.** -/
theorem readFrame_encodeBinary {exch : Exchange} {raw : String} {tsNs : Int64}
    {bids asks : List (List String)} {payload : Bytes}
    (hpayload : parse payload = some (Publication.orderbook exch raw tsNs bids asks).payload) :
    (encodeBinary F payload).toOption.bind (readFrame F) =
      (Publication.orderbook exch raw tsNs bids asks).frame F.toFloats := by
  have hdepth : unmarshalDepth payload = some ⟨tsNs, sideOf bids, sideOf asks⟩ := by
    rw [unmarshalDepth, hpayload, Option.bind_some, intoDepth_payload]
  have hlength : ∀ side, (Gateway.parseLevels F.toFloats side).length =
      (parseLevels F side).length := fun side => by
    rw [← map_wire_parseLevels, List.length_map]
  rw [frame_orderbook, hlength, hlength]
  unfold encodeBinary
  rw [hdepth]
  simp only [texts_sideOf, writeFrame_replicate]
  split
  · rfl
  · next hfew =>
      rw [Except.toOption, Option.bind_some, readFrame_frameBytes F tsNs (by omega) (by omega),
        map_wire_parseLevels, map_wire_parseLevels]

end

end MagnumOpus.Gateway.Codec
