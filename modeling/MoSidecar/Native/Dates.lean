import MoSidecar.Native.LogicalRows
import MoSidecar.Native.Preservation

/-!
# Dates there and back

MatrixOne counts days from another epoch than DuckDB, so a date is shifted when a batch is scanned
and shifted back when a result is encoded. Both encoders check that the sum is an `int32_t`;
`fill_column` subtracts from whatever stands in the batch, for rows that are null as well. The sum
cannot overflow where the difference did not: a date comes back from every vector whose subtraction
stays in range, and that is all there is to say, by `dates_return_iff`.
-/

namespace MoSidecar

open LittleEndian Bitmap Chunks

/-- One round of the loop over dates, where the difference must be an `int32_t`. -/
def NativeColumnView.subtractEpoch (c : NativeColumnView) (row : ℕ) : Except Fault Bytes := do
  let index ← word row
  let offset ← word (index * 4)
  let bytes ← peek c.data offset 4
  let days := signed bytes - kMoUnixEpochDays
  if -2 ^ 31 ≤ days ∧ days < 2 ^ 31 then .ok (signedBytes 4 days) else .error .wraps

/-- The rows that `fill_column` converts, null or not. It leaves a constant that is null alone. -/
def NativeColumnView.convertedRows (c : NativeColumnView) (count : ℕ) : ℕ :=
  if c.isConstant then if c.data.isEmpty || c.nullAt 0 then 0 else 1 else count

/-- Where a chunk or a table has the bytes `date`, of a row that is not null, a column of dates is
encoded as the bytes `original`. -/
structure EncodesBack (tae : TaeTypes) (date original : Bytes) : Prop where
  encodeColumn_eq : ∀ (schema : NativeResultColumn) (v : ChunkVector) (row : ℕ),
    schema.is .date = true → v.rowIsValid (v.sel row) = true →
    v.data.element 4 (v.sel row) = .ok date →
      encodeColumn tae v row 1 schema = .ok ⟨original, [], []⟩
  encodeHostColumn_eq : ∀ (decimalOfDouble : NativeResultColumn → Bytes → Except Thrown ℤ)
    (schema : NativeResultColumn) (m : ColumnMetadata) (a : HostAllocation) (row : ℕ),
    schema.is .date = true → m.Readable tae schema row 1 → rowNull m a row = .ok false →
    copyHostBytes a (address m.dataOffset (row * 4)) 4 = .ok date →
    encodeHostColumn tae decimalOfDouble m a row 1 schema = .ok ⟨original, [], []⟩

/-- The dates of a vector that is filled are differences that do not overflow, and are encoded as
the dates of the batch. -/
def NativeColumnView.DatesReturn (tae : TaeTypes) (c : NativeColumnView) (count offset : ℕ) :
    Prop :=
  ∃ v written, fillColumn tae c count offset = .ok v ∧ v.data = .bytes written ∧
    ∀ row < c.convertedRows count,
      c.subtractEpoch (c.sourceRow offset row) = .ok (chunk 4 written row) ∧
        EncodesBack tae (chunk 4 written row) (c.element 4 (c.sourceRow offset row))

/-- No date that is converted is so early that the difference overflows. -/
def NativeColumnView.DatesInRange (c : NativeColumnView) (count offset : ℕ) : Prop :=
  ∀ row < c.convertedRows count,
    -2 ^ 31 + kMoUnixEpochDays ≤ signed (c.element 4 (c.sourceRow offset row))

variable {tae : TaeTypes} {expected : SubstraitType} {c : NativeColumnView}
  {schema : NativeResultColumn} {bs nulls : Bytes} {row rows count offset : ℕ}

/-! ## The encoders -/

theorem layoutColumn_element (width : ℕ) (bs : Bytes) :
    layoutColumn width [.element bs] = ⟨bs, [], []⟩ := by
  rw [layoutColumn, cellData, cellData, List.append_nil]
  rfl

/-- What a date is encoded as. -/
theorem elementBytes_date (hdate : schema.is .date = true) (hbs : bs.length = 4)
    (hle : -2 ^ 31 + kMoUnixEpochDays ≤ signed bs) :
    elementBytes tae schema (signed (signedBytes 4 (signed bs - kMoUnixEpochDays))) = some bs := by
  have hbounds := signed_bounds hbs (by decide)
  have huint : schema.is .uint32 = false := is_eq_false hdate (by decide)
  rw [kMoUnixEpochDays] at hle
  rw [signed_signedBytes (by rw [kMoUnixEpochDays]; omega) (by rw [kMoUnixEpochDays]; omega),
    elementBytes, huint, if_neg Bool.false_ne_true, if_pos hdate, if_neg, Int.sub_add_cancel,
    signedBytes_signed hbs]
  rw [kMoUnixEpochDays]
  omega

/-- A difference that does not overflow is encoded back. -/
theorem encodesBack (tae : TaeTypes) (hbs : bs.length = 4)
    (hle : -2 ^ 31 + kMoUnixEpochDays ≤ signed bs) :
    EncodesBack tae (signedBytes 4 (signed bs - kMoUnixEpochDays)) bs := by
  constructor
  · intro schema v row hdate hvalid helement
    have htext : isText schema.oid = false := isText_eq_isVarlena (beq_iff_eq.mp hdate)
    have hread : readWidth tae schema = 4 := by
      rw [readWidth, is_eq_false hdate (by decide), if_neg Bool.false_ne_true]
      exact moTypeSize_of_is hdate
    rw [encodeColumn_eq_ok]
    refine ⟨[.element bs], Nat.two_pow_pos 32, rfl, fun i hi ↦ ?_, (layoutColumn_element _ bs).symm⟩
    obtain rfl : i = 0 := Nat.lt_one_iff.mp hi
    rw [readChunkCell_eq_ok, Nat.add_zero, hvalid]
    refine ⟨rfl, by rw [List.getElem_singleton, Cell.isNull, Bool.and_false], fun _ ↦ ?_⟩
    rw [readChunkValue, htext, if_neg Bool.false_ne_true, map_eq_ok]
    refine ⟨bs, ?_, rfl⟩
    rw [encodeChunkElement_eq_ok, hread]
    exact ⟨_, helement, elementBytes_date hdate hbs hle⟩
  · intro decimalOfDouble schema m a row hdate hreadable hnull hcopy
    have htext : isText schema.oid = false := isText_eq_isVarlena (beq_iff_eq.mp hdate)
    have hnot : ¬((schema.is .decimal64 ∨ schema.is .decimal128) ∧ m.typeId = .float64) := by
      rw [is_eq_false hdate (by decide), is_eq_false hdate (by decide)]
      rintro ⟨hdecimal, -⟩
      simp at hdecimal
    rw [encodeHostColumn_eq_ok]
    refine ⟨hreadable, [.element bs], Nat.two_pow_pos 32, rfl, fun i hi ↦ ?_,
      (layoutColumn_element _ bs).symm⟩
    obtain rfl : i = 0 := Nat.lt_one_iff.mp hi
    rw [readCell_eq_ok, Nat.add_zero, hnull]
    refine ⟨rfl, by rw [List.getElem_singleton, Cell.isNull, Bool.and_false], fun _ ↦ ?_⟩
    rw [readValue_of_not_text htext, map_eq_ok]
    refine ⟨bs, ?_, rfl⟩
    rw [encodeElement_eq_ok hreadable.matches_eq htext hnot,
      typeId_of_date hreadable.matches_eq hdate]
    exact ⟨_, hcopy, elementBytes_date hdate hbs hle⟩

/-! ## The scan -/

namespace NativeColumnView

/-- The rows that are converted are rows of the vector, and so have their bytes. -/
theorem converted_inside (hc : c.Valid tae rows expected) (hdate : c.isDate = true)
    (hrange : offset + count ≤ rows) (hrow : row < c.convertedRows count) :
    c.sourceRow offset row * 4 + 4 ≤ c.data.length := by
  refine hc.element_inside _ ?_ (moTypeSize_date hdate)
  rw [convertedRows] at hrow
  rw [sourceRow, physicalRows]
  cases hconstant : c.isConstant with
  | true =>
    rw [hconstant, if_pos rfl] at hrow
    split_ifs at hrow with hempty
    · exact absurd hrow (Nat.not_lt_zero row)
    · rw [Bool.or_eq_true, not_or] at hempty
      rw [if_pos rfl, if_pos (beq_iff_eq.mp hconstant), if_neg hempty.1]
      exact Nat.one_pos
  | false =>
    rw [hconstant, if_neg Bool.false_ne_true] at hrow
    have hflat : c.vectorClass ≠ kMoVectorConstant := fun h ↦ by
      rw [isConstant, h] at hconstant
      cases hconstant
    rw [if_neg Bool.false_ne_true, if_neg hflat]
    omega

/-- What is left in the vector for a row that is converted. -/
theorem filled_dates (hdate : c.isDate = true) :
    ∃ written, (c.filled tae count offset).data = .bytes written ∧
      ∀ row < c.convertedRows count, chunk 4 written row
        = signedBytes 4 (signed (c.element 4 (c.sourceRow offset row)) - kMoUnixEpochDays) := by
  have htext := isText_of_isDate hdate
  have hcopied (k start : ℕ) : c.copied tae k start = .bytes ((List.range k).map fun row ↦
      signedBytes 4 (signed (c.element 4 (start + row)) - kMoUnixEpochDays)).flatten := by
    rw [copied, htext, if_neg Bool.false_ne_true, if_pos hdate]
  have hchunk (k start row : ℕ) (hrow : row < k) : chunk 4 ((List.range k).map fun row ↦
      signedBytes 4 (signed (c.element 4 (start + row)) - kMoUnixEpochDays)).flatten row
        = signedBytes 4 (signed (c.element 4 (start + row)) - kMoUnixEpochDays) := by
    rw [chunk_flatten (c.length_dates k start)
      (by rw [List.length_map, List.length_range]; exact hrow), List.getElem_map,
        List.getElem_range]
  rw [filled, convertedRows]
  cases hconstant : c.isConstant with
  | true =>
    rw [if_pos rfl, if_pos rfl]
    by_cases hempty : (c.data.isEmpty || c.nullAt 0) = true
    · rw [if_pos (Bool.or_eq_true_iff.mp hempty), if_pos hempty]
      exact ⟨[], rfl, fun row hrow ↦ absurd hrow (Nat.not_lt_zero row)⟩
    · rw [if_neg (mt Bool.or_eq_true_iff.mpr hempty), if_neg hempty]
      refine ⟨_, hcopied 1 0, fun row hrow ↦ ?_⟩
      obtain rfl := Nat.lt_one_iff.mp hrow
      rw [hchunk 1 0 0 Nat.one_pos, sourceRow, hconstant, if_pos rfl]
  | false =>
    rw [if_neg Bool.false_ne_true, if_neg Bool.false_ne_true]
    refine ⟨_, hcopied count offset, fun row hrow ↦ ?_⟩
    rw [hchunk count offset row hrow, sourceRow, hconstant, if_neg Bool.false_ne_true]

/-- The subtraction succeeds exactly for the dates that are not too early. -/
theorem subtractEpoch_eq_ok {date : Bytes} (hinside : row * 4 + 4 ≤ c.data.length)
    (hlt : c.data.length < 2 ^ 32) : c.subtractEpoch row = .ok date ↔
      -2 ^ 31 + kMoUnixEpochDays ≤ signed (c.element 4 row) ∧
        date = signedBytes 4 (signed (c.element 4 row) - kMoUnixEpochDays) := by
  have hbounds := signed_bounds (length_slice_of_le hinside) (by decide)
  have helement : slice c.data (row * 4) 4 = c.element 4 row := rfl
  rw [helement] at hbounds
  have hrange : (-2 ^ 31 ≤ signed (c.element 4 row) - kMoUnixEpochDays ∧
      signed (c.element 4 row) - kMoUnixEpochDays < 2 ^ 31) ↔
        -2 ^ 31 + kMoUnixEpochDays ≤ signed (c.element 4 row) := by
    rw [kMoUnixEpochDays]
    omega
  rw [subtractEpoch, word_of_lt (by omega), ok_bind_eq, word_of_lt (by omega), ok_bind_eq,
    peek_of_le hinside, ok_bind_eq, helement]
  simp only [hrange]
  split_ifs with hle
  · rw [Except.ok.injEq, eq_comm]
    exact (and_iff_right hle).symm
  · exact iff_of_false (by simp) fun h ↦ hle h.1

theorem datesReturn_of_valid (hc : c.Valid tae rows expected)
    (hnulls : IsNullBitmap rows nulls c.nullCount c.nullWords) (hpos : 0 < rows)
    (hrows : rows < 2 ^ 32) (hrange : offset + count ≤ rows) (hdate : c.isDate = true) :
    c.DatesReturn tae count offset ↔ c.DatesInRange count offset := by
  have hfill := fillColumn_eq hc hnulls hpos hrows hrange
  obtain ⟨written, hwritten, hdates⟩ : ∃ written,
    (c.filled tae count offset).data = .bytes written ∧
      ∀ row < c.convertedRows count, chunk 4 written row
        = signedBytes 4 (signed (c.element 4 (c.sourceRow offset row)) - kMoUnixEpochDays) :=
    filled_dates hdate
  constructor
  · rintro ⟨v, written', hv, -, hreturn⟩ row hrow
    have hinside := converted_inside hc hdate hrange hrow
    exact ((subtractEpoch_eq_ok hinside hc.data_lt).mp (hreturn row hrow).1).1
  · intro hearly
    refine ⟨_, written, hfill, hwritten, fun row hrow ↦ ?_⟩
    have hinside := converted_inside hc hdate hrange hrow
    rw [hdates row hrow]
    exact ⟨(subtractEpoch_eq_ok hinside hc.data_lt).mpr ⟨hearly row hrow, rfl⟩,
      encodesBack tae (length_slice_of_le hinside) (hearly row hrow)⟩

end NativeColumnView

/-! ## Batches -/

variable {envelope : NativeBatchFrame} {named : NamedStruct} {b : DecodedBatch}

/-- **The dates of an accepted batch come back**, from a chunk or from a table, exactly if none that
is converted is so early that the subtraction overflows. -/
theorem dates_return_iff (hbatch : nativeBatchView tae envelope named = .ok b) (hc : c ∈ b.columns)
    (hdate : c.isDate = true) (hrange : offset + count ≤ b.rows) :
    c.DatesReturn tae count offset ↔ c.DatesInRange count offset := by
  obtain ⟨hpos, hlt, -⟩ := of_nativeBatchView hbatch
  obtain ⟨expected, -, hvalid, bs, typeBytes, nulls, sorted, henc⟩ := valid_of_mem hbatch hc
  exact NativeColumnView.datesReturn_of_valid hvalid henc.nulls_eq hpos hlt hrange hdate

/-- A schema of one column of dates. -/
def dateSchema : NamedStruct := ⟨[[0x64]], some [.date]⟩

/-- A column for it with one row, of the given four bytes. -/
def dateColumn (date : Bytes) : NativeColumnView where
  encoded := [kMoVectorFlat] ++ (MoType.bytes ⟨50, 0, 0, 0, 4, 0, 0⟩ ++ (bytes 4 1
    ++ (sectionBytes date ++ (sectionBytes [] ++ (sectionBytes [] ++ [0])))))
  vectorClass := kMoVectorFlat
  type := ⟨50, 0, 0, 0, 4, 0, 0⟩
  logicalRows := 1
  data := date
  area := []
  sorted := false
  nullCount := 0
  nullWords := []

/-- The batch of that column. -/
def dateFrame (date : Bytes) : NativeBatchFrame where
  sequence := 1
  payload := signedBytes 8 1 ++ (signedBytes 4 1 ++ (sectionBytes (dateColumn date).encoded
    ++ List.replicate 16 0))

/-- The first day of the epoch of MatrixOne. -/
theorem dates_return_iff_first : (dateColumn [0, 0, 0, 0]).DatesReturn TaeTypes.documented 1 0 := by
  have hbatch : nativeBatchView TaeTypes.documented (dateFrame [0, 0, 0, 0]) dateSchema
      = .ok ⟨1, 1, 70, [dateColumn [0, 0, 0, 0]]⟩ := rfl
  rw [dates_return_iff hbatch List.mem_cons_self rfl (Nat.le_refl 1)]
  intro row hrow
  obtain rfl := Nat.lt_one_iff.mp hrow
  decide

/-- The smallest number is accepted as a date, and the subtraction from it overflows. -/
theorem not_datesReturn_earliest : ∃ b,
    nativeBatchView TaeTypes.documented (dateFrame [0, 0, 0, 0x80]) dateSchema = .ok b ∧
    ∃ c ∈ b.columns, c.isDate = true ∧ 0 + 1 ≤ b.rows ∧
      (c.subtractEpoch 0 = .error .wraps ∧ ¬c.DatesReturn TaeTypes.documented 1 0) := by
  have hbatch : nativeBatchView TaeTypes.documented (dateFrame [0, 0, 0, 0x80]) dateSchema
      = .ok ⟨1, 1, 70, [dateColumn [0, 0, 0, 0x80]]⟩ := rfl
  have hwraps : (dateColumn [0, 0, 0, 0x80]).subtractEpoch 0 = .error .wraps := rfl
  refine ⟨_, hbatch, _, List.mem_cons_self, rfl, Nat.le_refl 1, hwraps, ?_⟩
  rintro ⟨v, written, -, -, hreturn⟩
  have hok := (hreturn 0 Nat.one_pos).1
  rw [show (dateColumn [0, 0, 0, 0x80]).sourceRow 0 0 = 0 from rfl, hwraps] at hok
  cases hok

end MoSidecar
