import MoSidecar.Layout.LittleEndian
import MoSidecar.Protocol.Status
import MoSidecar.Protocol.Wire

/-!
# The types of native batches

Three families of types meet in a native batch: those of the plan, which a stream's schema is made
of; those of MatrixOne, which are written into the batch; and those of DuckDB, whose vectors the
batch is copied to and from. `substraitMatchesMo` and `logicalType` relate the first to the others,
`moTypeFixedSize` and `physicalWidth` give the size of an element.

The layout of MatrixOne's types is taken from the tables of the design document. What the code calls
beyond them is a parameter, `TaeTypes`, with what those tables say of it.
-/

namespace MoSidecar

open LittleEndian

/-! ## MatrixOne -/

/-- `tae::MOTypeOid`, as far as the sidecar names its values. -/
inductive MoTypeOid where
  | bool | int8 | int16 | int32 | int64 | uint32 | float32 | float64 | char | varchar | date
  | decimal64 | decimal128
  deriving DecidableEq

namespace MoTypeOid

/-- The OID of a type. -/
def code : MoTypeOid → ℕ
  | bool => 10
  | int8 => 20
  | int16 => 21
  | int32 => 22
  | int64 => 23
  | uint32 => 27
  | float32 => 30
  | float64 => 31
  | char => 40
  | varchar => 41
  | date => 50
  | decimal64 => 60
  | decimal128 => 61

/-- The type of an OID, if it is one of these. -/
def ofCode? (n : ℕ) : Option MoTypeOid :=
  [bool, int8, int16, int32, int64, uint32, float32, float64, char, varchar, date, decimal64,
    decimal128].find? fun oid ↦ oid.code == n

/-- Whether the elements are varlena descriptors. -/
def isVarlena : MoTypeOid → Bool
  | char | varchar => true
  | _ => false

/-- The bytes of an element. -/
def width : MoTypeOid → ℕ
  | bool | int8 => 1
  | int16 => 2
  | int32 | uint32 | float32 | date => 4
  | int64 | float64 | decimal64 => 8
  | decimal128 => 16
  | char | varchar => 24

variable {oid : MoTypeOid} {n : ℕ}

@[simp] theorem ofCode?_code (oid : MoTypeOid) : ofCode? oid.code = some oid := by
  cases oid <;> decide

theorem ofCode?_eq_some : ofCode? n = some oid ↔ oid.code = n := by
  constructor
  · intro h
    have hfound := List.find?_some h
    exact beq_iff_eq.mp hfound
  · rintro rfl
    exact ofCode?_code oid

theorem code_injective {oid oid' : MoTypeOid} (h : oid.code = oid'.code) : oid = oid' := by
  have hsome := ofCode?_code oid
  rw [h, ofCode?_code] at hsome
  exact (Option.some.inj hsome).symm

theorem code_lt (oid : MoTypeOid) : oid.code < 256 := by
  cases oid <;> decide

theorem width_pos (oid : MoTypeOid) : 0 < oid.width := by
  cases oid <;> decide

theorem width_le (oid : MoTypeOid) : oid.width ≤ 24 := by
  cases oid <;> decide

end MoTypeOid

/-- What the code takes from `tae_types.hpp`: the size of a type that has one, and something
negative for a type of varlena descriptors. -/
structure TaeTypes where
  moTypeFixedSize : ℕ → ℤ
  moTypeFixedSize_of_fixed : ∀ oid : MoTypeOid, oid.isVarlena = false →
    moTypeFixedSize oid.code = oid.width
  moTypeFixedSize_of_varlena : ∀ oid : MoTypeOid, oid.isVarlena = true →
    moTypeFixedSize oid.code < 0

def kVarlenaSize : ℕ := 24
def kVarlenaInlineMax : ℕ := 23
def kVarlenaBigMarker : ℕ := 0xffffffff
def kMoUnixEpochDays : ℤ := 719162
def kMoTypeBytes : ℕ := 16

/-- `mo_type_size`; the expression stands in `parse_column` as well. -/
def TaeTypes.moTypeSize (tae : TaeTypes) (oid : ℕ) : ℕ :=
  if tae.moTypeFixedSize oid < 0 then kVarlenaSize else (tae.moTypeFixedSize oid).toNat

theorem TaeTypes.moTypeSize_code (tae : TaeTypes) (oid : MoTypeOid) :
    tae.moTypeSize oid.code = oid.width := by
  rw [moTypeSize]
  cases hvarlena : oid.isVarlena with
  | false =>
    rw [tae.moTypeFixedSize_of_fixed oid hvarlena, if_neg (Int.not_lt.mpr (Int.natCast_nonneg _)),
      Int.toNat_natCast]
  | true =>
    rw [if_pos (tae.moTypeFixedSize_of_varlena oid hvarlena)]
    cases oid <;> first | rfl | cases hvarlena

/-- A table of sizes that is as documented. -/
def TaeTypes.documented : TaeTypes where
  moTypeFixedSize n :=
    match MoTypeOid.ofCode? n with
    | some oid => if oid.isVarlena then -24 else oid.width
    | none => 0
  moTypeFixedSize_of_fixed oid h := by
    rw [MoTypeOid.ofCode?_code]
    simp [h]
  moTypeFixedSize_of_varlena oid h := by
    rw [MoTypeOid.ofCode?_code]
    simp [h]

/-- `tae::MOType`. -/
structure MoType where
  oid : UInt8
  charset : UInt8
  notNull : UInt8
  reserved : UInt8
  size : Int32
  width : Int32
  scale : Int32
  deriving DecidableEq

namespace MoType

/-- The memory of a type. -/
def bytes (t : MoType) : Bytes :=
  [t.oid, t.charset, t.notNull, t.reserved] ++ (signedBytes 4 t.size.toInt
    ++ (signedBytes 4 t.width.toInt ++ signedBytes 4 t.scale.toInt))

/-- A type from its memory. -/
def load (bytes : Bytes) : MoType where
  oid := bytes.getD 0 0
  charset := bytes.getD 1 0
  notNull := bytes.getD 2 0
  reserved := bytes.getD 3 0
  size := .ofInt (signed ((bytes.drop 4).take 4))
  width := .ofInt (signed ((bytes.drop 8).take 4))
  scale := .ofInt (signed ((bytes.drop 12).take 4))

theorem length_bytes (t : MoType) : t.bytes.length = kMoTypeBytes := by
  rw [bytes, List.length_append, List.length_append, List.length_append, length_signedBytes,
    length_signedBytes, length_signedBytes]
  rfl

theorem signed_int32 (z : Int32) : signed (signedBytes 4 z.toInt) = z.toInt := by
  have hle := z.le_toInt
  have hlt := z.toInt_lt
  exact signed_signedBytes (by omega) (by omega)

theorem load_bytes (t : MoType) : load t.bytes = t := by
  have hsize : ((t.bytes.drop 4).take 4) = signedBytes 4 t.size.toInt :=
    List.take_left' (length_signedBytes 4 _)
  have hwidth : ((t.bytes.drop 8).take 4) = signedBytes 4 t.width.toInt := by
    have hdrop : t.bytes.drop 8 = signedBytes 4 t.width.toInt ++ signedBytes 4 t.scale.toInt := by
      rw [bytes, ← List.append_assoc]
      exact List.drop_left' rfl
    rw [hdrop]
    exact List.take_left' (length_signedBytes 4 _)
  have hscale : ((t.bytes.drop 12).take 4) = signedBytes 4 t.scale.toInt := rfl
  rw [load, hsize, hwidth, hscale, signed_int32, signed_int32, signed_int32, Int32.ofInt_toInt,
    Int32.ofInt_toInt, Int32.ofInt_toInt]
  rfl

end MoType

/-! ## The plan -/

/-- `substrait::Type`, by its kind. -/
inductive SubstraitType where
  | bool | i8 | i16 | i32 | i64 | fp32 | fp64 | string | varchar | date
  | decimal (precision scale : Int32)
  /-- Any kind that the sidecar does not read. -/
  | other
  deriving DecidableEq

/-- `substrait_matches_mo`. -/
def substraitMatchesMo (expected : SubstraitType) (actual : MoType) : Bool :=
  match expected with
  | .bool => actual.oid.toNat == MoTypeOid.bool.code
  | .i8 => actual.oid.toNat == MoTypeOid.int8.code
  | .i16 => actual.oid.toNat == MoTypeOid.int16.code
  | .i32 => actual.oid.toNat == MoTypeOid.int32.code
  | .i64 => actual.oid.toNat == MoTypeOid.int64.code
  | .fp32 => actual.oid.toNat == MoTypeOid.float32.code
  | .fp64 => actual.oid.toNat == MoTypeOid.float64.code
  | .string | .varchar =>
    actual.oid.toNat == MoTypeOid.char.code || actual.oid.toNat == MoTypeOid.varchar.code
  | .date => actual.oid.toNat == MoTypeOid.date.code
  | .decimal precision scale =>
    (if precision ≤ 18 then actual.oid.toNat == MoTypeOid.decimal64.code
      else actual.oid.toNat == MoTypeOid.decimal128.code) &&
      (actual.width == precision && actual.scale == scale)
  | .other => false

/-- A vector that matches has one of MatrixOne's types. -/
theorem exists_oid_of_matches {expected : SubstraitType} {actual : MoType}
    (h : substraitMatchesMo expected actual = true) :
    ∃ oid : MoTypeOid, actual.oid.toNat = oid.code := by
  unfold substraitMatchesMo at h
  split at h
  case h_8 | h_9 =>
    rcases Bool.or_eq_true_iff.mp h with h | h
    · exact ⟨.char, beq_iff_eq.mp h⟩
    · exact ⟨.varchar, beq_iff_eq.mp h⟩
  case h_11 =>
    have hoid := (Bool.and_eq_true_iff.mp h).1
    split_ifs at hoid
    · exact ⟨.decimal64, beq_iff_eq.mp hoid⟩
    · exact ⟨.decimal128, beq_iff_eq.mp hoid⟩
  case h_12 => cases h
  all_goals exact ⟨_, beq_iff_eq.mp h⟩

/-! ## DuckDB -/

/-- `duckdb::LogicalType`. -/
inductive LogicalType where
  | boolean | tinyint | smallint | integer | bigint | float | double | varchar | date | hugeint
  /-- The constructor takes its parameters as `uint8_t`. -/
  | decimal (width scale : UInt8)
  /-- Any other, by its name. -/
  | other (name : String)
  deriving DecidableEq

/-- The bytes of an element of a vector, for a type that the sidecar knows. A string is a
`string_t`. -/
def LogicalType.physicalWidth : LogicalType → Option ℕ
  | boolean | tinyint => some 1
  | smallint => some 2
  | integer | float | date => some 4
  | bigint | double => some 8
  | varchar | hugeint => some 16
  | decimal width _ =>
    if width ≤ 4 then some 2
    else if width ≤ 9 then some 4
    else if width ≤ 18 then some 8
    else if width ≤ 38 then some 16
    else none
  | other _ => none

/-- `LogicalType::DECIMAL`. -/
def LogicalType.ofDecimal (width scale : UInt8) : Except Thrown LogicalType :=
  if width > 38 then .error (.exception ("Decimal has a width of " ++ toString width.toNat
    ++ " which is bigger than the maximum supported width of 38"))
  else .ok (.decimal width scale)

theorem LogicalType.ofDecimal_eq_ok {width scale : UInt8} {t : LogicalType} :
    ofDecimal width scale = .ok t ↔ width.toNat ≤ 38 ∧ t = .decimal width scale := by
  have hgt : width > 38 ↔ 38 < width.toNat := Iff.rfl
  rw [ofDecimal]
  simp only [hgt]
  split_ifs with hwide
  · exact iff_of_false nofun fun h ↦ absurd h.1 (Nat.not_le.mpr hwide)
  · rw [Except.ok.injEq, eq_comm]
    exact (and_iff_right (Nat.le_of_not_lt hwide)).symm

/-- `logical_type`. -/
def logicalType : SubstraitType → Except Thrown LogicalType
  | .bool => .ok .boolean
  | .i8 => .ok .tinyint
  | .i16 => .ok .smallint
  | .i32 => .ok .integer
  | .i64 => .ok .bigint
  | .fp32 => .ok .float
  | .fp64 => .ok .double
  | .string | .varchar => .ok .varchar
  | .date => .ok .date
  | .decimal precision scale =>
    LogicalType.ofDecimal precision.toUInt32.toUInt8 scale.toUInt32.toUInt8
  | .other => .error (.invalidArgument "unsupported StreamRead logical type")

/-- The schema of a stream: the names of its columns and, if it has a struct, their types. -/
structure NamedStruct where
  names : List Bytes
  types : Option (List SubstraitType)
  deriving DecidableEq

end MoSidecar
