import MoSidecar.Native.Reading
import MoSidecar.Protocol.ResultSchema

/-!
# The encoder of results in host memory

A result batch of the engine is a table whose columns lie in one allocation, which is a list of
blocks: the metadata of a column say where its buffers are, as offsets into the bytes of all blocks.
`native_result_batch_encoder` reads a range of its rows and writes it as a native batch, and tells
beforehand how long that will be.

The metadata are not checked against the allocation when the encoder is made. A read outside of the
allocation throws when it is tried, so nothing is assumed of the buffers here. Addresses are
`std::size_t` and wrap. What a double becomes as a decimal is computed in floating point; it is a
parameter, `decimalOfDouble`.
-/

namespace MoSidecar

open LittleEndian Bitmap

/-! ## Host memory -/

/-- `multiple_blocks_allocation`. -/
structure HostAllocation where
  blockSize : ℕ
  sizeBytes : ℕ
  blocks : List Bytes
  blockSize_pos : 0 < blockSize
  length_of_mem : ∀ block ∈ blocks, block.length = blockSize
  sizeBytes_le : sizeBytes ≤ blocks.length * blockSize

/-- The loop of `copy_host_bytes`; as many rounds as there are bytes are enough. -/
def copyBlocks (a : HostAllocation) : ℕ → ℕ → ℕ → Bytes
  | 0, _, _ => []
  | rounds + 1, offset, size =>
    if size = 0 then []
    else
      let inBlock := offset % a.blockSize
      let count := min size (a.blockSize - inBlock)
      slice (a.blocks.getD (offset / a.blockSize) []) inBlock count
        ++ copyBlocks a rounds (offset + count) (size - count)

/-- `copy_host_bytes`. -/
def copyHostBytes (a : HostAllocation) (offset size : ℕ) : Except Thrown Bytes := do
  throwIf (offset > a.sizeBytes ∨ size > a.sizeBytes - offset)
    "native result host buffer range is invalid"
  .ok (copyBlocks a size offset size)

/-- The sum of two numbers of type `std::size_t`. -/
def address (base : UInt64) (offset : ℕ) : ℕ := (base.toNat + offset) % 2 ^ 64

/-- `if (bad) { throw std::overflow_error(what); }`. -/
def throwOverflowIf (bad : Prop) [Decidable bad] (what : String) : Except Thrown Unit :=
  if bad then .error (.exception what) else .ok ()

/-! ## Tables -/

/-- `cudf::type_id`. -/
inductive CudfType where
  | bool8 | int8 | int16 | int32 | int64 | float32 | float64 | decimal32 | decimal64 | decimal128
  | timestampDays | string
  /-- Any other. -/
  | other
  deriving DecidableEq

/-- A column's buffer, as `column_metadata` has it for every column and for every child. -/
structure BufferMetadata where
  typeId : CudfType
  hasData : Bool
  dataOffset : UInt64
  dataSize : UInt64
  deriving DecidableEq

/-- `column_metadata`, as far as the encoder reads it. -/
structure ColumnMetadata extends BufferMetadata where
  scale : Int32
  numRows : Int32
  hasNullMask : Bool
  nullMaskOffset : UInt64
  nullMaskSize : UInt64
  children : List BufferMetadata
  deriving DecidableEq

/-- `source_type_matches`. -/
def sourceTypeMatches (c : ColumnMetadata) (schema : NativeResultColumn) : Bool :=
  match MoTypeOid.ofCode? schema.oid.toNat with
  | some .bool => c.typeId == .bool8
  | some .int8 => c.typeId == .int8
  | some .int16 => c.typeId == .int16
  | some .int32 => c.typeId == .int32
  | some .int64 | some .uint32 => c.typeId == .int64
  | some .float32 => c.typeId == .float32
  | some .float64 => c.typeId == .float64
  | some .decimal64 =>
    ((c.typeId == .decimal32 || c.typeId == .decimal64) && c.scale == -schema.scale) ||
      c.typeId == .float64
  | some .decimal128 =>
    (c.typeId == .decimal128 && c.scale == -schema.scale) || c.typeId == .float64 ||
      (c.typeId == .int64 && schema.scale == 0)
  | some .date => c.typeId == .timestampDays
  | some .char | some .varchar => c.typeId == .string
  | none => false

/-- `is_text`. -/
def isText (oid : UInt32) : Bool :=
  oid.toNat == MoTypeOid.char.code || oid.toNat == MoTypeOid.varchar.code

theorem isText_eq_isVarlena {oid : UInt32} {type : MoTypeOid} (h : oid.toNat = type.code) :
    isText oid = type.isVarlena := by
  rw [isText, h]
  cases type <;> rfl

/-- Whether a schema's column has one of MatrixOne's types. -/
def NativeResultColumn.is (schema : NativeResultColumn) (oid : MoTypeOid) : Bool :=
  schema.oid.toNat == oid.code

/-! ## Nulls -/

/-- Whether the bit of a row is zero in the null mask. -/
def readNull (c : ColumnMetadata) (a : HostAllocation) (sourceRow : ℕ) : Except Thrown Bool := do
  let byte ← copyHostBytes a (address c.nullMaskOffset (sourceRow / 8)) 1
  .ok (!(value byte).testBit (sourceRow % 8))

/-- `read_nulls`. -/
def readNulls (c : ColumnMetadata) (a : HostAllocation) (rowOffset rowCount : ℕ) (required : Bool) :
    Except Thrown (List Bool) :=
  if !c.hasNullMask then .ok (List.replicate rowCount false)
  else do
    throwIf (c.nullMaskSize.toNat < (rowOffset + rowCount + 7) / 8)
      "Sirius result null mask is shorter than its row range"
    (List.range rowCount).mapM fun row ↦ do
      let null ← readNull c a (rowOffset + row)
      throwIf (required && null) "required native result column contains nulls"
      .ok null

/-- `encode_nulls`. -/
def encodeNulls (nulls : List Bool) : Bytes :=
  let count := nulls.count true
  let words := pack nulls
  if count = 0 then []
  else bytes 8 count ++ (bytes 8 nulls.length ++ (bytes 8 (words.length * 8)
    ++ words.flatMap (bytes 8)))

/-! ## Strings -/

/-- The descriptor of a string that it holds itself. -/
def Varlena.inline (s : Bytes) : Bytes :=
  UInt8.ofNat s.length :: (s ++ List.replicate (kVarlenaInlineMax - s.length) 0)

/-- The descriptor of a string in the area. -/
def Varlena.big (offset length : ℕ) : Bytes :=
  bytes 4 kVarlenaBigMarker ++ (bytes 4 offset ++ (bytes 4 length ++ List.replicate 12 0))

/-- A string of `length` bytes, put behind the data and the area. -/
def appendString (length : ℕ) (copy : Except Thrown Bytes) (out : Bytes × Bytes) :
    Except Thrown (Bytes × Bytes) :=
  if length ≤ kVarlenaInlineMax then do
    let s ← copy
    .ok (out.1 ++ Varlena.inline s, out.2)
  else do
    throwOverflowIf (out.2.length > 2 ^ 32 - 1 ∨ length > 2 ^ 32 - 1 - out.2.length)
      "native result string area exceeds uint32"
    let s ← copy
    .ok (out.1 ++ Varlena.big out.2.length length, out.2 ++ s)

/-- The bytes of an offset of a column of strings. -/
def offsetWidth (offsets : BufferMetadata) : ℕ := if offsets.typeId = .int32 then 4 else 8

/-- `offset_at`: a signed number, taken as one of 64 bits. -/
def offsetAt (a : HostAllocation) (offsets : BufferMetadata) (row : ℕ) : Except Thrown ℕ := do
  let bs ← copyHostBytes a (address offsets.dataOffset (row * offsetWidth offsets))
    (offsetWidth offsets)
  .ok (signed bs % 2 ^ 64).toNat

/-- Where the characters of a row begin and end. -/
def readSpan (c : ColumnMetadata) (a : HostAllocation) (offsets : BufferMetadata) (sourceRow : ℕ) :
    Except Thrown (ℕ × ℕ) := do
  let first ← offsetAt a offsets sourceRow
  let last ← offsetAt a offsets (sourceRow + 1)
  throwIf (last < first ∨ last > c.dataSize.toNat)
    "Sirius string offsets exceed the character buffer"
  .ok (first, last)

/-- The buffer of offsets, if there is one that may be read. -/
def offsetsOf (c : ColumnMetadata) (hasData : Bool) (what : String) :
    Except Thrown BufferMetadata :=
  match c.children with
  | [offsets] =>
    if hasData && offsets.hasData && (offsets.typeId == .int32 || offsets.typeId == .int64) then
      if offsets.dataSize.toNat < (c.numRows.toInt.toNat + 1) * offsetWidth offsets then
        .error (.invalidArgument "Sirius string result offset buffer is truncated")
      else .ok offsets
    else .error (.invalidArgument what)
  | _ => .error (.invalidArgument what)

/-- One round of the loop over strings: the descriptor of a row, behind those before it. -/
def encodeString (c : ColumnMetadata) (a : HostAllocation) (offsets : BufferMetadata)
    (rowOffset : ℕ) (nulls : List Bool) (out : Bytes × Bytes) (row : ℕ) :
    Except Thrown (Bytes × Bytes) :=
  if nulls.getD row false then .ok (out.1 ++ List.replicate kVarlenaSize 0, out.2)
  else do
    let (first, last) ← readSpan c a offsets (rowOffset + row)
    appendString (last - first) (copyHostBytes a (address c.dataOffset first) (last - first)) out

/-- The data and the area of a column of strings. -/
def encodeStrings (c : ColumnMetadata) (a : HostAllocation) (rowOffset rowCount : ℕ)
    (nulls : List Bool) : Except Thrown (Bytes × Bytes) := do
  let offsets ← offsetsOf c c.hasData "Sirius string result has invalid offsets or characters"
  (List.range rowCount).foldlM (encodeString c a offsets rowOffset nulls) ([], [])

/-! ## Elements of a fixed width -/

/-- The bytes of an element in the table. -/
def sourceSize (tae : TaeTypes) (c : ColumnMetadata) (schema : NativeResultColumn) : ℕ :=
  if c.typeId = .float64 ∨ schema.is .uint32 ∨ (schema.is .decimal128 ∧ c.typeId = .int64) then 8
  else if schema.is .decimal64 ∧ c.typeId = .decimal32 then 4
  else tae.moTypeSize schema.oid.toNat

/-- `append_scalar` of an integer that must be a `uint32_t`. -/
def narrowUint32 (z : ℤ) : Except Thrown Bytes := do
  throwOverflowIf (z < 0 ∨ z > 2 ^ 32 - 1) "Substrait i64 result is outside MatrixOne uint32 range"
  .ok (bytes 4 z.toNat)

/-- `append_scalar` of a date, from another epoch. -/
def shiftDate (z : ℤ) (what : String) : Except Thrown Bytes := do
  throwOverflowIf (z > 2 ^ 31 - 1 - kMoUnixEpochDays) what
  .ok (signedBytes 4 (z + kMoUnixEpochDays))

/-- An element that is not null. -/
def encodeElement (tae : TaeTypes) (decimalOfDouble : NativeResultColumn → Bytes → Except Thrown ℤ)
    (c : ColumnMetadata) (a : HostAllocation) (schema : NativeResultColumn) (sourceRow : ℕ) :
    Except Thrown Bytes :=
  let target := tae.moTypeSize schema.oid.toNat
  let element (size : ℕ) := copyHostBytes a (address c.dataOffset (sourceRow * size)) size
  if schema.is .uint32 then do
    let bs ← element 8
    narrowUint32 (signed bs)
  else if schema.is .date then do
    let bs ← element 4
    shiftDate (signed bs) "Sirius date is outside MatrixOne date range"
  else if schema.is .decimal64 ∧ c.typeId = .decimal32 then do
    let bs ← element 4
    .ok (signedBytes 8 (signed bs))
  else if (schema.is .decimal64 ∨ schema.is .decimal128) ∧ c.typeId = .float64 then do
    let bs ← element 8
    let z ← decimalOfDouble schema bs
    .ok (signedBytes target z)
  else if schema.is .decimal128 ∧ schema.scale = 0 ∧ c.typeId = .int64 then do
    let bs ← element 8
    .ok (signedBytes 16 (signed bs))
  else element target

/-- The data of a column of elements of a fixed width. -/
def encodeElements (tae : TaeTypes) (decimalOfDouble : NativeResultColumn → Bytes → Except Thrown ℤ)
    (c : ColumnMetadata) (a : HostAllocation) (rowOffset rowCount : ℕ) (nulls : List Bool)
    (schema : NativeResultColumn) : Except Thrown Bytes := do
  throwIf (!c.hasData ∨ c.dataSize.toNat < c.numRows.toInt.toNat * sourceSize tae c schema)
    "Sirius fixed-width result buffer is truncated"
  let elements ← (List.range rowCount).mapM fun row ↦
    if nulls.getD row false then .ok (List.replicate (tae.moTypeSize schema.oid.toNat) 0)
    else encodeElement tae decimalOfDouble c a schema (rowOffset + row)
  .ok elements.flatten

/-! ## Batches -/

/-- `encoded_column`. -/
structure EncodedColumn where
  data : Bytes
  area : Bytes
  nulls : Bytes
  deriving DecidableEq

/-- `encode_host_column`. -/
def encodeHostColumn (tae : TaeTypes)
    (decimalOfDouble : NativeResultColumn → Bytes → Except Thrown ℤ) (c : ColumnMetadata)
    (a : HostAllocation) (rowOffset rowCount : ℕ) (schema : NativeResultColumn) :
    Except Thrown EncodedColumn := do
  throwIf (!sourceTypeMatches c schema ∨ c.numRows.toInt < 0 ∨ rowOffset > c.numRows.toInt.toNat ∨
      rowCount > c.numRows.toInt.toNat - rowOffset)
    "Sirius host result column does not match the MO native schema"
  let nulls ← readNulls c a rowOffset rowCount schema.notNullable
  if isText schema.oid then do
    let (data, area) ← encodeStrings c a rowOffset rowCount nulls
    .ok ⟨data, area, encodeNulls nulls⟩
  else do
    let data ← encodeElements tae decimalOfDouble c a rowOffset rowCount nulls schema
    .ok ⟨data, [], encodeNulls nulls⟩

/-- `append_u32`, of a size. -/
def encodeU32 (n : ℕ) (what : String) : Except Thrown Bytes := do
  throwOverflowIf (n > 2 ^ 32 - 1) (what ++ " exceeds the MO native batch format")
  .ok (bytes 4 n)

/-- The type that is written for a column of the schema. -/
def NativeResultColumn.moType (tae : TaeTypes) (schema : NativeResultColumn) : MoType where
  oid := schema.oid.toUInt8
  charset := schema.charset.toUInt8
  notNull := if schema.notNullable then 1 else 0
  reserved := 0
  size := .ofInt (tae.moTypeSize schema.oid.toNat)
  width := schema.width
  scale := schema.scale

/-- A vector of `assemble_native_batch`. -/
def assembleVector (tae : TaeTypes) (rowCount : ℕ) (schema : NativeResultColumn)
    (encoded : EncodedColumn) : Except Thrown Bytes := do
  let rows ← encodeU32 rowCount "native result row count"
  let data ← encodeU32 encoded.data.length "native result vector data"
  let area ← encodeU32 encoded.area.length "native result vector area"
  let nulls ← encodeU32 encoded.nulls.length "native result null bitmap"
  .ok ([kMoVectorFlat] ++ ((schema.moType tae).bytes ++ (rows ++ (data ++ (encoded.data
    ++ (area ++ (encoded.area ++ (nulls ++ (encoded.nulls ++ [0])))))))))

/-- `assemble_native_batch`; the columns come with their schemas. -/
def assembleNativeBatch (tae : TaeTypes) (rowCount : ℕ)
    (columns : List (NativeResultColumn × EncodedColumn)) : Except Thrown Bytes := do
  let vectors ← columns.mapM fun (schema, encoded) ↦ do
    let vector ← assembleVector tae rowCount schema encoded
    let size ← encodeU32 vector.length "native result vector"
    .ok (size ++ vector)
  .ok (signedBytes 8 rowCount ++ (signedBytes 4 columns.length ++ (vectors.flatten
    ++ (signedBytes 4 0 ++ (signedBytes 4 0 ++ (signedBytes 4 0 ++ signedBytes 4 0))))))

/-- What `native_result_batch_encoder` holds of a table in host memory. -/
structure HostEncoder where
  schema : NativeResultSchema
  columns : List ColumnMetadata
  allocation : HostAllocation
  rowCount : ℕ
  rowCount_eq : rowCount = (columns.head?.map fun c ↦ c.numRows.toInt.toNat).getD 0
  length_eq : columns.length = schema.columns.length
  numRows_eq : ∀ p ∈ columns.zip schema.columns, p.1.numRows.toInt = rowCount
  matches_eq : ∀ p ∈ columns.zip schema.columns, sourceTypeMatches p.1 p.2 = true
  /-- Every schema is one that was parsed. -/
  columns_le : schema.columns.length ≤ kMaxNativeResultColumns

/-- The check of the constructor on a column. -/
def checkSource (rowCount : ℕ) (p : ColumnMetadata × NativeResultColumn) : Except Thrown Unit := do
  throwIf (p.1.numRows.toInt < 0 ∨ p.1.numRows.toInt.toNat ≠ rowCount)
    "native result columns have inconsistent row counts"
  throwIf (!sourceTypeMatches p.1 p.2) "Sirius result column does not match the MO native schema"

namespace HostEncoder

/-- The constructor, for a table in host memory. -/
def ofTable (columns : List ColumnMetadata) (allocation : HostAllocation)
    (schema : NativeResultSchema) (hle : schema.columns.length ≤ kMaxNativeResultColumns) :
    Except Thrown HostEncoder :=
  if hlength : columns.length = schema.columns.length then
    let rowCount := (columns.head?.map fun c ↦ c.numRows.toInt.toNat).getD 0
    match hcheck : (columns.zip schema.columns).forM (checkSource rowCount) with
    | .error e => .error e
    | .ok () => .ok
      { schema, columns, allocation, rowCount
        rowCount_eq := rfl
        length_eq := hlength
        numRows_eq := fun p hp ↦ by
          have hsource := forM_eq_ok.mp hcheck p hp
          rw [checkSource, bind_eq_ok] at hsource
          obtain ⟨⟨⟩, hrows, -⟩ := hsource
          have hnot := throwIf_eq_ok.mp hrows
          omega
        matches_eq := fun p hp ↦ by
          have hsource := forM_eq_ok.mp hcheck p hp
          rw [checkSource, bind_eq_ok] at hsource
          obtain ⟨⟨⟩, -, hmatches⟩ := hsource
          rw [throwIf_eq_ok, Bool.not_eq_true', Bool.not_eq_false] at hmatches
          exact hmatches
        columns_le := hle }
  else .error (.invalidArgument "native result encoder received invalid Sirius host storage")

variable (tae : TaeTypes) (decimalOfDouble : NativeResultColumn → Bytes → Except Thrown ℤ)
  (e : HostEncoder)

/-- The columns with their schemas. -/
def pairs : List (ColumnMetadata × NativeResultColumn) := e.columns.zip e.schema.columns

/-- The check of `encoded_size` and `encode` on a range of rows. -/
def checkRange (rowOffset rowCount : ℕ) : Except Thrown Unit :=
  throwIf (rowCount = 0 ∨ rowOffset > e.rowCount ∨ rowCount > e.rowCount - rowOffset)
    "invalid native result encoder row range"

/-- One round of the loop that adds up the area of a column. -/
def addSpan (c : ColumnMetadata) (offsets : BufferMetadata) (rowOffset areaBytes row : ℕ) :
    Except Thrown ℕ := do
  let (first, last) ← readSpan c e.allocation offsets (rowOffset + row)
  throwOverflowIf (last - first > kVarlenaInlineMax ∧ last - first > 2 ^ 64 - 1 - areaBytes)
    "native result string area overflows size_t"
  .ok (areaBytes + if last - first > kVarlenaInlineMax then last - first else 0)

/-- The bytes of the area of a column, as `encoded_size` predicts them. -/
def areaSize (c : ColumnMetadata) (rowOffset rowCount : ℕ) : Except Thrown ℕ := do
  let offsets ← offsetsOf c true "Sirius string result has invalid offsets"
  (List.range rowCount).foldlM (e.addSpan c offsets rowOffset) 0

/-- Whether a column has a null in the range. The loop ends at the first. -/
def hasNull (c : ColumnMetadata) (rowOffset rowCount : ℕ) : Except Thrown Bool :=
  if !c.hasNullMask then .ok false
  else do
    throwIf (c.nullMaskSize.toNat < (rowOffset + rowCount + 7) / 8)
      "Sirius result null mask is shorter than its row range"
    (List.range rowCount).foldlM (fun found row ↦
      if found then .ok true else readNull c e.allocation (rowOffset + row)) false

/-- The argument of `add`: the bytes of a column. The sum itself is not checked. -/
def columnSize (rowOffset rowCount : ℕ) (p : ColumnMetadata × NativeResultColumn) :
    Except Thrown ℕ := do
  let areaBytes ← if isText p.2.oid then e.areaSize p.1 rowOffset rowCount else .ok 0
  let null ← e.hasNull p.1 rowOffset rowCount
  let nullBytes := if null then 24 + (rowCount + 63) / 64 * 8 else 0
  .ok ((4 + 34 + rowCount * tae.moTypeSize p.2.oid.toNat + areaBytes + nullBytes) % 2 ^ 64)

/-- The lambda `add`. -/
def add (total size : ℕ) : Except Thrown ℕ := do
  throwOverflowIf (size > 2 ^ 64 - 1 - total) "native result encoded size overflows size_t"
  .ok (total + size)

/-- `encoded_size`. -/
def encodedSize (rowOffset rowCount : ℕ) : Except Thrown ℕ := do
  e.checkRange rowOffset rowCount
  e.pairs.foldlM (fun total p ↦ do
    let size ← e.columnSize tae rowOffset rowCount p
    add total size) (12 + 16)

/-- `encode`. -/
def encode (rowOffset rowCount : ℕ) : Except Thrown Bytes := do
  e.checkRange rowOffset rowCount
  let columns ← e.pairs.mapM fun (c, schema) ↦ do
    let encoded ← encodeHostColumn tae decimalOfDouble c e.allocation rowOffset rowCount schema
    .ok (schema, encoded)
  assembleNativeBatch tae rowCount columns

end HostEncoder

end MoSidecar
