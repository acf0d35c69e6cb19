import MoSidecar.Native.HostTable
import MoSidecar.Native.Scan

/-!
# The encoder of data chunks

`encode_native_result_batch` writes rows of a chunk of DuckDB as a native batch. It stands beside
the encoder of host memory and writes the same format, from another source: each vector of the chunk
has a selection, a validity mask and a buffer of elements. What types a chunk may have for a schema
is checked beforehand, when a query is prepared.

A vector comes here in its unified format. A read outside of its buffer is a `Fault`, as in the scan
of a batch.
-/

namespace MoSidecar

open LittleEndian Bitmap

/-! ## Types -/

/-- `LogicalType::ToString`. -/
def LogicalType.toString : LogicalType → String
  | boolean => "BOOLEAN"
  | tinyint => "TINYINT"
  | smallint => "SMALLINT"
  | integer => "INTEGER"
  | bigint => "BIGINT"
  | float => "FLOAT"
  | double => "DOUBLE"
  | varchar => "VARCHAR"
  | date => "DATE"
  | hugeint => "HUGEINT"
  | decimal width scale =>
    "DECIMAL(" ++ ToString.toString width.toNat ++ "," ++ ToString.toString scale.toNat ++ ")"
  | other name => name

/-- `expected_duckdb_type`. The parameters of a decimal are passed on as `uint8_t`. -/
def expectedDuckdbType (column : NativeResultColumn) : Except Thrown LogicalType :=
  match MoTypeOid.ofCode? column.oid.toNat with
  | some .bool => .ok .boolean
  | some .int8 => .ok .tinyint
  | some .int16 => .ok .smallint
  | some .int32 => .ok .integer
  | some .int64 | some .uint32 => .ok .bigint
  | some .float32 => .ok .float
  | some .float64 => .ok .double
  | some .decimal64 | some .decimal128 =>
    LogicalType.ofDecimal column.width.toUInt32.toUInt8 column.scale.toUInt32.toUInt8
  | some .date => .ok .date
  | some .char | some .varchar => .ok .varchar
  | none => .error (.invalidArgument
      ("unsupported MO native result OID " ++ toString column.oid.toNat))

/-- `validate_column`. -/
def validateColumn (wire : NativeResultColumn) (actual : LogicalType) (index : ℕ) :
    Except Thrown Unit := do
  let expected ← expectedDuckdbType wire
  let decimalFromDouble := (wire.is .decimal64 || wire.is .decimal128) && actual == .double
  let decimal128FromHugeint := wire.is .decimal128 && wire.scale == 0 && actual == .hugeint
  throwIf (actual ≠ expected ∧ !decimalFromDouble ∧ !decimal128FromHugeint)
    ("native result column " ++ toString index ++ " has DuckDB type " ++ actual.toString
      ++ "; expected " ++ expected.toString)
  throwIf (wire.charset.toNat > 255) "native result charset exceeds the MO type ABI"

/-- One round of the loop of `validate_native_result_schema`. -/
def validateNamed (index : ℕ) (wire : NativeResultColumn) (name : Bytes) (actual : LogicalType) :
    Except Thrown Unit := do
  throwIf (wire.name ≠ name) "native result column name does not match the prepared result"
  validateColumn wire actual index

/-- `validate_native_result_schema`. -/
def validateNativeResultSchema (wire : NativeResultSchema) (names : List Bytes)
    (types : List LogicalType) : Except Thrown Unit := do
  throwIf (wire.version ≠ kNativeResultSchemaVersion ∨ wire.columns.isEmpty ∨
      wire.columns.length ≠ types.length ∨ wire.columns.length ≠ names.length)
    "native result schema does not match the prepared result width"
  (wire.columns.zip (names.zip types)).zipIdx.forM fun p ↦
    validateNamed p.2 p.1.1 p.1.2.1 p.1.2.2

/-! ## Chunks -/

/-- The elements of a vector: bytes, or the strings that its `string_t` hold. -/
inductive ChunkData where
  | bytes (buffer : Bytes)
  | strings (values : List Bytes)
  deriving DecidableEq

/-- A vector of a chunk, in its unified format. -/
structure ChunkVector where
  type : LogicalType
  /-- `sel->get_index`. -/
  sel : ℕ → ℕ
  /-- `validity.RowIsValid`. -/
  rowIsValid : ℕ → Bool
  data : ChunkData

/-- `duckdb::DataChunk`. -/
structure DataChunk where
  size : ℕ
  vectors : List ChunkVector

/-- An exception that is thrown where a read may leave a buffer. -/
def thrown {α : Type} (x : Except Thrown α) : Except Fault α := x.mapError .thrown

/-- An element of a vector, as one of `size` bytes. -/
def ChunkData.element (data : ChunkData) (size sourceRow : ℕ) : Except Fault Bytes :=
  match data with
  | .bytes buffer => peek buffer (sourceRow * size) size
  | .strings _ => .error .outside

/-- A string of a vector. -/
def ChunkData.string (data : ChunkData) (sourceRow : ℕ) : Except Fault Bytes :=
  match data with
  | .bytes _ => .error .outside
  | .strings values =>
    match values[sourceRow]? with
    | some s => .ok s
    | none => .error .outside

/-! ## Columns -/

/-- What the loop of `encode_column` has made so far. -/
structure ColumnOutput where
  data : Bytes
  area : Bytes
  nullWords : List ℕ
  nullCount : ℕ

/-- An element of a fixed width that is not null. -/
def encodeChunkElement (tae : TaeTypes) (schema : NativeResultColumn) (data : ChunkData)
    (sourceRow : ℕ) : Except Fault Bytes :=
  if schema.is .uint32 then do
    let bs ← data.element 8 sourceRow
    thrown (narrowUint32 (signed bs))
  else if schema.is .date then do
    let bs ← data.element 4 sourceRow
    thrown (shiftDate (signed bs) "DuckDB date is outside MatrixOne date range")
  else data.element (tae.moTypeSize schema.oid.toNat) sourceRow

/-- The data and the area, with a row put behind them. -/
def encodeChunkRow (tae : TaeTypes) (schema : NativeResultColumn) (data : ChunkData)
    (sourceRow : ℕ) (valid : Bool) (out : Bytes × Bytes) : Except Fault (Bytes × Bytes) :=
  if isText schema.oid then
    if valid then do
      let s ← data.string sourceRow
      thrown (appendString s.length (.ok s) out)
    else .ok (out.1 ++ List.replicate kVarlenaSize 0, out.2)
  else if valid then do
    let bs ← encodeChunkElement tae schema data sourceRow
    .ok (out.1 ++ bs, out.2)
  else .ok (out.1 ++ List.replicate (tae.moTypeSize schema.oid.toNat) 0, out.2)

/-- One round of the loop of `encode_column`. -/
def encodeColumnRound (tae : TaeTypes) (v : ChunkVector) (rowOffset : ℕ)
    (schema : NativeResultColumn) (out : ColumnOutput) (row : ℕ) : Except Fault ColumnOutput := do
  let sourceRow := v.sel (rowOffset + row)
  let valid := v.rowIsValid sourceRow
  thrown (throwIf (!valid ∧ schema.notNullable) "required native result column contains nulls")
  let (data, area) ← encodeChunkRow tae schema v.data sourceRow valid (out.data, out.area)
  .ok ⟨data, area, if valid then out.nullWords else set out.nullWords row,
    if valid then out.nullCount else out.nullCount + 1⟩

/-- `encode_column`. -/
def encodeColumn (tae : TaeTypes) (v : ChunkVector) (rowOffset rowCount : ℕ)
    (schema : NativeResultColumn) : Except Fault EncodedColumn := do
  let out ← (List.range rowCount).foldlM (encodeColumnRound tae v rowOffset schema)
    ⟨[], [], List.replicate ((rowCount + 63) / 64) 0, 0⟩
  let nulls := if out.nullCount = 0 then []
    else bytes 8 out.nullCount ++ (bytes 8 rowCount ++ (bytes 8 (out.nullWords.length * 8)
      ++ out.nullWords.flatMap (bytes 8)))
  .ok ⟨out.data, out.area, nulls⟩

/-- `encode_native_result_batch`. -/
def encodeNativeResultBatch (tae : TaeTypes) (chunk : DataChunk) (rowOffset rowCount : ℕ)
    (schema : NativeResultSchema) : Except Fault Bytes := do
  thrown (throwIf (rowCount = 0 ∨ rowOffset > chunk.size ∨ rowCount > chunk.size - rowOffset ∨
      chunk.vectors.length ≠ schema.columns.length)
    "invalid native result batch range or width")
  let vectors ← (chunk.vectors.zip schema.columns).mapM fun (v, column) ↦ do
    let encoded ← encodeColumn tae v rowOffset rowCount column
    thrown (assembleVector tae rowCount column encoded)
  let sized ← vectors.mapM fun vector ↦ do
    let size ← thrown (encodeU32 vector.length "native result vector")
    .ok (size ++ vector)
  .ok (signedBytes 8 rowCount ++ (signedBytes 4 vectors.length ++ (sized.flatten
    ++ (signedBytes 4 0 ++ (signedBytes 4 0 ++ (signedBytes 4 0 ++ signedBytes 4 0))))))

end MoSidecar
