import MoSidecar.Layout.Bitmap
import MoSidecar.Native.Types

/-!
# The decoder of native batches

The constructor of `native_batch_view`: a payload is read from front to back by a cursor, each of
its vectors by a cursor of its own. What is kept of a vector are parts of the payload; nothing of
what they hold is copied, so whatever is to be safe to read later has to be checked here.

Sizes are numbers of bytes as they stand in the payload. The products the code forms from them are
products of 64-bit words; that none of them wraps is part of what `Native.Scan` proves.
-/

namespace MoSidecar

open LittleEndian Bitmap

def kMoVectorFlat : UInt8 := 0
def kMoVectorConstant : UInt8 := 1
def kMoBitmapHeaderBytes : ℕ := 24

/-- Some bytes of a buffer. -/
def slice (bytes : Bytes) (offset size : ℕ) : Bytes := (bytes.drop offset).take size

/-- `if (bad) { throw std::invalid_argument(what); }`. -/
def throwIf (bad : Prop) [Decidable bad] (what : String) : Except Thrown Unit :=
  if bad then .error (.invalidArgument what) else .ok ()

/-! ## The cursor

A cursor is what is left to read. -/

/-- `cursor::read`. -/
def cursorRead (size : ℕ) (input : Bytes) : Except Thrown (Bytes × Bytes) :=
  if size > input.length then .error (.invalidArgument "truncated MO native batch")
  else .ok (input.take size, input.drop size)

/-- `cursor::u32`. -/
def cursorU32 (input : Bytes) : Except Thrown (ℕ × Bytes) := do
  let (bytes, rest) ← cursorRead 4 input
  .ok (value bytes, rest)

/-- `cursor::i32`. -/
def cursorI32 (input : Bytes) : Except Thrown (ℤ × Bytes) := do
  let (bytes, rest) ← cursorRead 4 input
  .ok (signed bytes, rest)

/-- `cursor::i64`. -/
def cursorI64 (input : Bytes) : Except Thrown (ℤ × Bytes) := do
  let (bytes, rest) ← cursorRead 8 input
  .ok (signed bytes, rest)

/-- `input.read(input.u32())`. -/
def cursorSection (input : Bytes) : Except Thrown (Bytes × Bytes) := do
  let (size, rest) ← cursorU32 input
  cursorRead size rest

/-- `load_u64`. -/
def loadU64 (bytes : Bytes) (offset : ℕ) : ℕ := value (slice bytes offset 8)

/-! ## Varlena descriptors -/

namespace Varlena

/-- `is_inline`. -/
def isInline (v : Bytes) : Bool := (v.getD 0 0).toNat ≤ kVarlenaInlineMax

/-- `inline_length`. -/
def inlineLength (v : Bytes) : ℕ := (v.getD 0 0).toNat

/-- The 23 bytes from `inline_data` on. -/
def inlineData (v : Bytes) : Bytes := slice v 1 kVarlenaInlineMax

/-- The first four bytes, which mark a descriptor of a string in the area. -/
def marker (v : Bytes) : ℕ := value (slice v 0 4)

/-- `big_offset`. -/
def bigOffset (v : Bytes) : ℕ := value (slice v 4 4)

/-- `big_length`. -/
def bigLength (v : Bytes) : ℕ := value (slice v 8 4)

end Varlena

/-! ## Vectors -/

/-- `native_column_view`. -/
structure NativeColumnView where
  encoded : Bytes
  vectorClass : UInt8
  type : MoType
  logicalRows : ℕ
  data : Bytes
  area : Bytes
  sorted : Bool
  nullCount : ℕ
  nullWords : Bytes
  deriving DecidableEq

/-- `physical_rows`. -/
def physicalRows (vectorClass : UInt8) (data : Bytes) (logicalRows : ℕ) : ℕ :=
  if vectorClass = kMoVectorConstant then if data.isEmpty then 0 else 1 else logicalRows

/-- The words of a null bitmap. -/
def wordsOf (bytes : Bytes) : List ℕ :=
  (List.range (bytes.length / 8)).map fun i ↦ loadU64 bytes (8 * i)

/-- The rows of a word that are in the batch, as a mask. -/
def allowedMask (batchRows i : ℕ) : ℕ :=
  let remaining := if 64 * i < batchRows then batchRows - 64 * i else 0
  if remaining ≥ 64 then 2 ^ 64 - 1 else if remaining = 0 then 0 else 2 ^ remaining - 1

/-- One round of the loop over the words of a null bitmap. -/
def countWord (nullWords : Bytes) (batchRows actual i : ℕ) : Except Thrown ℕ :=
  let word := loadU64 nullWords (8 * i)
  if word &&& (2 ^ 64 - 1 - allowedMask batchRows i) ≠ 0 then
    .error (.invalidArgument "MO null bitmap contains rows outside the batch")
  else .ok (actual + popcount word)

/-- The null bitmap of `parse_column`: the number of nulls and the words. -/
def parseNulls (nulls : Bytes) (batchRows : ℕ) : Except Thrown (ℕ × Bytes) :=
  if nulls.isEmpty then .ok (0, [])
  else if nulls.length < kMoBitmapHeaderBytes then
    .error (.invalidArgument "truncated MO null bitmap")
  else
    let count := signed (slice nulls 0 8)
    let bitLength := loadU64 nulls 8
    let wordBytes := loadU64 nulls 16
    if count < 0 ∨ count.toNat > batchRows ∨ bitLength < batchRows ∨ bitLength > 2 ^ 32 - 1 ∨
        wordBytes ≠ nulls.length - kMoBitmapHeaderBytes ∨ wordBytes % 8 ≠ 0 ∨
        wordBytes / 8 ≠ (bitLength + 63) / 64 then
      .error (.invalidArgument "invalid MO null bitmap header")
    else do
      let nullWords := nulls.drop kMoBitmapHeaderBytes
      let actual ← (List.range (nullWords.length / 8)).foldlM (countWord nullWords batchRows) 0
      if actual ≠ count.toNat then
        .error (.invalidArgument "MO null bitmap count mismatch")
      else .ok (count.toNat, nullWords)

/-- One round of the loop over the varlena descriptors of a vector. -/
def checkVarlena (data area : Bytes) (row : ℕ) : Except Thrown Unit :=
  let v := slice data (row * kVarlenaSize) kVarlenaSize
  if Varlena.isInline v then .ok ()
  else if Varlena.marker v ≠ kVarlenaBigMarker ∨ Varlena.bigOffset v > area.length ∨
      Varlena.bigLength v > area.length - Varlena.bigOffset v then
    .error (.invalidArgument "MO varlena descriptor is outside its area")
  else .ok ()

/-- The check of `parse_column` on the lengths of the data and of the area. -/
def checkLengths (tae : TaeTypes) (vectorClass : UInt8) (oid batchRows : ℕ) (data area : Bytes) :
    Except Thrown Unit :=
  let elementSize := tae.moTypeSize oid
  let expectedData := if vectorClass = kMoVectorConstant
    then if data.isEmpty then 0 else elementSize
    else batchRows * elementSize
  throwIf (expectedData ≠ data.length ∨ (tae.moTypeFixedSize oid ≥ 0 ∧ !area.isEmpty))
    "invalid MO vector data or area length"

/-- The checks of `parse_column` on a vector of varlena descriptors. -/
def checkVarlenas (tae : TaeTypes) (vectorClass : UInt8) (oid logicalRows : ℕ) (data area : Bytes) :
    Except Thrown Unit :=
  if tae.moTypeFixedSize oid < 0 then do
    let rows := physicalRows vectorClass data logicalRows
    throwIf (data.length ≠ rows * kVarlenaSize) "invalid MO varlena descriptor length"
    (List.range rows).forM (checkVarlena data area)
  else .ok ()

/-- `parse_column`. -/
def parseColumn (tae : TaeTypes) (bytes : Bytes) (batchRows : ℕ) (expected : SubstraitType) :
    Except Thrown NativeColumnView := do
  let (vectorClass, input) ← cursorRead 1 bytes
  let vectorClass := vectorClass.getD 0 0
  throwIf (vectorClass ≠ kMoVectorFlat ∧ vectorClass ≠ kMoVectorConstant)
    "unsupported MO vector class"
  let (typeBytes, input) ← cursorRead kMoTypeBytes input
  let type := MoType.load typeBytes
  throwIf (!substraitMatchesMo expected type) "MO vector type does not match StreamRead schema"
  let (logicalRows, input) ← cursorU32 input
  throwIf (logicalRows ≠ batchRows) "MO vector length does not match batch row count"
  let (data, input) ← cursorSection input
  let (area, input) ← cursorSection input
  let (nulls, input) ← cursorSection input
  let (sorted, input) ← cursorRead 1 input
  let sorted := (sorted.getD 0 0).toNat
  throwIf (!input.isEmpty ∨ sorted > 1) "invalid or trailing MO vector data"
  checkLengths tae vectorClass type.oid.toNat batchRows data area
  let (nullCount, nullWords) ← parseNulls nulls batchRows
  checkVarlenas tae vectorClass type.oid.toNat logicalRows data area
  .ok ⟨bytes, vectorClass, type, logicalRows, data, area, sorted ≠ 0, nullCount, nullWords⟩

/-! ## Batches -/

/-- What `native_batch_view` holds. -/
structure DecodedBatch where
  sequence : UInt64
  rows : ℕ
  payloadBytes : ℕ
  columns : List NativeColumnView
  deriving DecidableEq

/-- The loop over the vectors of a batch, for the types of the columns. -/
def parseColumns (tae : TaeTypes) (rows : ℕ) :
    List SubstraitType → Bytes → Except Thrown (List NativeColumnView × Bytes)
  | [], input => .ok ([], input)
  | expected :: types, input => do
    let (vector, input) ← cursorSection input
    let column ← parseColumn tae vector rows expected
    let (columns, input) ← parseColumns tae rows types input
    .ok (column :: columns, input)

/-- One round of the loop over the attributes. -/
def skipAttribute (input : Bytes) : Except Thrown Bytes := do
  let (size, input) ← cursorI32 input
  throwIf (size < 0) "invalid MO batch attribute length"
  let (_, input) ← cursorRead size.toNat input
  .ok input

/-- The end of a batch: three fields that must be zero, and nothing else. -/
def checkMetadata (input : Bytes) : Except Thrown Unit := do
  let (extra, input) ← cursorI32 input
  throwIf (extra ≠ 0) "unsupported or trailing MO batch metadata"
  let (recursive, input) ← cursorI32 input
  throwIf (recursive ≠ 0) "unsupported or trailing MO batch metadata"
  let (shuffle, input) ← cursorI32 input
  throwIf (shuffle ≠ 0 ∨ !input.isEmpty) "unsupported or trailing MO batch metadata"

/-- The constructor of `native_batch_view`. -/
def nativeBatchView (tae : TaeTypes) (envelope : NativeBatchFrame) (schema : NamedStruct) :
    Except Thrown DecodedBatch := do
  let (signedRows, input) ← cursorI64 envelope.payload
  throwIf (signedRows < 0 ∨ signedRows > 2 ^ 32 - 1) "invalid MO batch row count"
  throwIf (signedRows = 0) "empty MO native batches must not be uploaded"
  let rows := signedRows.toNat
  let types := schema.types.getD []
  let (vectorCount, input) ← cursorI32 input
  throwIf (vectorCount < 0 ∨ vectorCount ≠ schema.names.length ∨ vectorCount ≠ types.length)
    "MO batch vector count does not match StreamRead schema"
  let (columns, input) ← parseColumns tae rows types input
  let (attributeCount, input) ← cursorI32 input
  throwIf (attributeCount < 0 ∨ (attributeCount ≠ 0 ∧ attributeCount ≠ vectorCount))
    "invalid MO batch attribute count"
  let input ← (List.range attributeCount.toNat).foldlM (fun input _ ↦ skipAttribute input) input
  checkMetadata input
  .ok ⟨envelope.sequence, rows, envelope.payload.length, columns⟩

end MoSidecar
