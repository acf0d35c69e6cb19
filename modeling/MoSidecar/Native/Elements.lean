import MoSidecar.Native.HostRows

/-!
# Elements of a fixed width

An element that is not null is written in one of five ways, which depend on the type in the table as
well as on MatrixOne's. All of them write the same function of the number that the table holds:
`elementBytes`, which is the sign-extended number for every type but the unsigned integers and the
dates.
-/

namespace MoSidecar

open LittleEndian Bitmap Chunks

/-- The bytes of an element in a table. -/
def CudfType.width : CudfType → ℕ
  | .bool8 | .int8 => 1
  | .int16 => 2
  | .int32 | .float32 | .decimal32 | .timestampDays => 4
  | .int64 | .float64 | .decimal64 => 8
  | .decimal128 => 16
  | .string | .other => 0

/-- What is written for a number, if it can be. -/
def elementBytes (tae : TaeTypes) (schema : NativeResultColumn) (z : ℤ) : Option Bytes :=
  if schema.is .uint32 then
    if z < 0 ∨ z > 2 ^ 32 - 1 then none else some (bytes 4 z.toNat)
  else if schema.is .date then
    if z > 2 ^ 31 - 1 - kMoUnixEpochDays then none
    else some (signedBytes 4 (z + kMoUnixEpochDays))
  else some (signedBytes (tae.moTypeSize schema.oid.toNat) z)

variable {tae : TaeTypes} {decimalOfDouble : NativeResultColumn → Bytes → Except Thrown ℤ}
  {c : ColumnMetadata} {a : HostAllocation} {schema : NativeResultColumn} {oid oid' : MoTypeOid}
  {bs : Bytes} {row : ℕ} {z : ℤ} {what : String}

/-! ## Types that match -/

theorem isText_iff_typeId (hmatches : sourceTypeMatches c schema = true) :
    isText schema.oid = true ↔ c.typeId = .string := by
  obtain ⟨oid, hoid⟩ := exists_oid_of_sourceTypeMatches hmatches
  rw [sourceTypeMatches, hoid, MoTypeOid.ofCode?_code] at hmatches
  rw [isText, hoid]
  cases oid <;> cases htype : c.typeId <;> simp_all [MoTypeOid.code]

theorem is_eq_false (h : schema.is oid = true) (hne : oid ≠ oid') : schema.is oid' = false := by
  rw [NativeResultColumn.is, beq_iff_eq] at h
  rw [NativeResultColumn.is, h, beq_eq_false_iff_ne]
  exact fun hcode ↦ hne (MoTypeOid.code_injective hcode)

theorem typeId_of_uint32 (hmatches : sourceTypeMatches c schema = true)
    (huint : schema.is .uint32 = true) : c.typeId = .int64 := by
  rw [sourceTypeMatches, beq_iff_eq.mp huint, MoTypeOid.ofCode?_code] at hmatches
  exact beq_iff_eq.mp hmatches

theorem typeId_of_date (hmatches : sourceTypeMatches c schema = true)
    (hdate : schema.is .date = true) : c.typeId = .timestampDays := by
  rw [sourceTypeMatches, beq_iff_eq.mp hdate, MoTypeOid.ofCode?_code] at hmatches
  exact beq_iff_eq.mp hmatches

/-- What is copied as it is has the same width on both sides. -/
theorem moTypeSize_eq_width (tae : TaeTypes) (hmatches : sourceTypeMatches c schema = true)
    (htext : isText schema.oid = false) (huint : ¬schema.is .uint32)
    (hnarrow : ¬(schema.is .decimal64 ∧ c.typeId = .decimal32))
    (hdouble : ¬((schema.is .decimal64 ∨ schema.is .decimal128) ∧ c.typeId = .float64))
    (hwide : ¬(schema.is .decimal128 ∧ schema.scale = 0 ∧ c.typeId = .int64)) :
    tae.moTypeSize schema.oid.toNat = c.typeId.width := by
  obtain ⟨oid, hoid⟩ := exists_oid_of_sourceTypeMatches hmatches
  rw [sourceTypeMatches, hoid, MoTypeOid.ofCode?_code] at hmatches
  rw [hoid, tae.moTypeSize_code]
  simp only [NativeResultColumn.is, isText, hoid] at htext huint hnarrow hdouble hwide
  cases oid <;> cases htype : c.typeId <;>
    simp_all [MoTypeOid.code, MoTypeOid.width, CudfType.width]

/-- No element is wider in the table, but for the unsigned integers. -/
theorem width_le_moTypeSize (tae : TaeTypes) (hmatches : sourceTypeMatches c schema = true)
    (htext : isText schema.oid = false) (huint : schema.is .uint32 = false) :
    0 < c.typeId.width ∧ c.typeId.width ≤ tae.moTypeSize schema.oid.toNat := by
  obtain ⟨oid, hoid⟩ := exists_oid_of_sourceTypeMatches hmatches
  rw [sourceTypeMatches, hoid, MoTypeOid.ofCode?_code] at hmatches
  rw [hoid, tae.moTypeSize_code]
  simp only [NativeResultColumn.is, isText, hoid] at htext huint
  cases oid <;> cases htype : c.typeId <;>
    simp_all [MoTypeOid.code, MoTypeOid.width, CudfType.width]

/-- The size that the buffer is checked for is that of its elements. -/
theorem sourceSize_eq_width (tae : TaeTypes) (hmatches : sourceTypeMatches c schema = true)
    (htext : isText schema.oid = false) : sourceSize tae c schema = c.typeId.width := by
  obtain ⟨oid, hoid⟩ := exists_oid_of_sourceTypeMatches hmatches
  rw [sourceTypeMatches, hoid, MoTypeOid.ofCode?_code] at hmatches
  rw [sourceSize, hoid, tae.moTypeSize_code]
  simp only [NativeResultColumn.is, isText, hoid] at htext ⊢
  cases oid <;> cases htype : c.typeId <;>
    simp_all [MoTypeOid.code, MoTypeOid.width, CudfType.width]

/-! ## Numbers -/

theorem narrowUint32_eq_ok : narrowUint32 z = .ok bs ↔
    (if z < 0 ∨ z > 2 ^ 32 - 1 then none else some (bytes 4 z.toNat)) = some bs := by
  rw [narrowUint32, bind_eq_ok]
  simp only [throwOverflowIf_eq_ok, exists_const]
  split_ifs with hbad
  · exact iff_of_false (fun h ↦ h.1 hbad) (by simp)
  · rw [Except.ok.injEq, Option.some.injEq]
    exact and_iff_right hbad

theorem shiftDate_eq_ok : shiftDate z what = .ok bs ↔
    (if z > 2 ^ 31 - 1 - kMoUnixEpochDays then none
      else some (signedBytes 4 (z + kMoUnixEpochDays))) = some bs := by
  rw [shiftDate, bind_eq_ok]
  simp only [throwOverflowIf_eq_ok, exists_const]
  split_ifs with hbad
  · exact iff_of_false (fun h ↦ h.1 hbad) (by simp)
  · rw [Except.ok.injEq, Option.some.injEq]
    exact and_iff_right hbad

theorem elementBytes_of_number (huint : ¬schema.is .uint32) (hdate : ¬schema.is .date) (z : ℤ) :
    elementBytes tae schema z = some (signedBytes (tae.moTypeSize schema.oid.toNat) z) := by
  rw [elementBytes, if_neg huint, if_neg hdate]

theorem signed_widen {w w' : ℕ} (hbs : bs.length = w) (hw : 0 < w) (hle : w ≤ w') :
    signed (signedBytes w' (signed bs)) = signed bs := by
  obtain ⟨hlower, hupper⟩ := signed_bounds hbs hw
  have hpow : (2 : ℤ) ^ (8 * w) ≤ 2 ^ (8 * w') :=
    pow_le_pow_right₀ (by decide) (Nat.mul_le_mul_left 8 hle)
  exact signed_signedBytes (by omega) (by omega)

/-- **An element is written as the number that the table holds**, whichever way it is. -/
theorem encodeElement_eq_ok (hmatches : sourceTypeMatches c schema = true)
    (htext : isText schema.oid = false)
    (hdouble : ¬((schema.is .decimal64 ∨ schema.is .decimal128) ∧ c.typeId = .float64)) :
    encodeElement tae decimalOfDouble c a schema row = .ok bs ↔ ∃ read,
      copyHostBytes a (address c.dataOffset (row * c.typeId.width)) c.typeId.width = .ok read ∧
        elementBytes tae schema (signed read) = some bs := by
  rw [encodeElement]
  simp only
  split_ifs with huint hdate hnarrow hwide
  · rw [typeId_of_uint32 hmatches huint, bind_eq_ok]
    simp only [elementBytes, huint, if_true, narrowUint32_eq_ok]
    rfl
  · rw [typeId_of_date hmatches hdate, bind_eq_ok]
    simp only [elementBytes, huint, hdate, if_true, shiftDate_eq_ok]
    rfl
  · have hsize : tae.moTypeSize schema.oid.toNat = 8 := moTypeSize_of_is hnarrow.1
    rw [hnarrow.2, bind_eq_ok]
    simp only [elementBytes_of_number huint hdate, hsize, Except.ok.injEq, Option.some.injEq]
    rfl
  · have hsize : tae.moTypeSize schema.oid.toNat = 16 := moTypeSize_of_is hwide.1
    rw [hwide.2.2, bind_eq_ok]
    simp only [elementBytes_of_number huint hdate, hsize, Except.ok.injEq, Option.some.injEq]
    rfl
  · -- The bytes are copied, and are those of the number that they say.
    have hsize := moTypeSize_eq_width tae hmatches htext huint hnarrow hdouble hwide
    simp only [elementBytes_of_number huint hdate, hsize, Option.some.injEq]
    constructor
    · intro h
      exact ⟨bs, h, signedBytes_signed (HostAllocation.length_of_copyHostBytes h)⟩
    · rintro ⟨read, hread, rfl⟩
      rw [signedBytes_signed (HostAllocation.length_of_copyHostBytes hread)]
      exact hread

end MoSidecar
