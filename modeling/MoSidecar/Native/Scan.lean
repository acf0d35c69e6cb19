import MoSidecar.Native.Reading

/-!
# Scanning a native batch

`fill_column` copies a part of a column into a vector of DuckDB. It checks nothing: the payload was
checked when the batch was constructed, and what a column holds are parts of the payload. Here every
read of the copy is checked by the model instead. A read outside of what is read, or a size that
does not fit into the machine's words, is a `Fault`; that a batch which was accepted never comes to
one is `nativeBatchView_reads_inside`.

What the copy leaves in the vector is `NativeColumnView.filled`, which reads nothing outside by its
form: `fillColumn_eq` is the one lemma about the copy, and everything else is about `filled`.
-/

namespace MoSidecar

open LittleEndian Bitmap

/-- How the copy can fail. -/
inductive Fault where
  /-- A read outside of a column's data, area or null words. -/
  | outside
  /-- A size or an index that wraps. -/
  | wraps
  | thrown (e : Thrown)
  deriving DecidableEq

/-- An index or a size, which is a `std::size_t`. -/
def word (n : ℕ) : Except Fault ℕ := if n < 2 ^ 64 then .ok n else .error .wraps

/-- The bytes that a copy reads. -/
def peek (buffer : Bytes) (offset size : ℕ) : Except Fault Bytes :=
  if offset + size ≤ buffer.length then .ok (slice buffer offset size) else .error .outside

/-! ## The copy -/

/-- What is written to the data of a vector, from its front. -/
inductive VectorData where
  | bytes (written : Bytes)
  /-- The strings that are set, one place for each row. -/
  | strings (rows : List (Option Bytes))
  deriving DecidableEq

/-- A vector of DuckDB after `fill_column`. -/
structure FilledVector where
  constant : Bool
  valid : List Bool
  data : VectorData
  deriving DecidableEq

namespace NativeColumnView

def isConstant (c : NativeColumnView) : Bool := c.vectorClass == kMoVectorConstant

/-- `is_null`. -/
def isNull (c : NativeColumnView) (row : ℕ) : Except Fault Bool :=
  if c.nullWords.isEmpty then .ok false
  else do
    let bytes ← peek c.nullWords (8 * (row / 64)) 8
    .ok ((value bytes).testBit (row % 64))

/-- Whether the vector is one of strings. -/
def isText (c : NativeColumnView) : Bool :=
  c.type.oid.toNat == MoTypeOid.char.code || c.type.oid.toNat == MoTypeOid.varchar.code

def isDate (c : NativeColumnView) : Bool := c.type.oid.toNat == MoTypeOid.date.code

end NativeColumnView

/-- The string of a descriptor. -/
def readText (area v : Bytes) : Except Fault Bytes :=
  if Varlena.isInline v then peek v 1 (Varlena.inlineLength v)
  else peek area (Varlena.bigOffset v) (Varlena.bigLength v)

/-- One round of the loop over strings. -/
def fillText (c : NativeColumnView) (row : ℕ) : Except Fault (Option Bytes) := do
  let index ← word row
  let null ← c.isNull index
  if null then .ok none
  else do
    let offset ← word (index * kVarlenaSize)
    let v ← peek c.data offset kVarlenaSize
    let text ← readText c.area v
    .ok (some text)

/-- One round of the loop over dates. The difference is an `int32_t`. -/
def fillDate (c : NativeColumnView) (row : ℕ) : Except Fault Bytes := do
  let index ← word row
  let offset ← word (index * 4)
  let bytes ← peek c.data offset 4
  .ok (signedBytes 4 (signed bytes - kMoUnixEpochDays))

/-- The copy of elements of a fixed width. -/
def fillFixed (tae : TaeTypes) (c : NativeColumnView) (rows offset : ℕ) : Except Fault Bytes :=
  let width := tae.moTypeFixedSize c.type.oid.toNat
  if width ≤ 0 then .error (.thrown (.invalidArgument "unsupported MO stream vector type"))
  else do
    let start ← word (offset * width.toNat)
    let size ← word (rows * width.toNat)
    peek c.data start size

/-- The three ways to copy rows. -/
def fillData (tae : TaeTypes) (c : NativeColumnView) (rows offset : ℕ) : Except Fault VectorData :=
  if c.isText then do
    let strings ← (List.range rows).mapM fun row ↦ fillText c (offset + row)
    .ok (.strings strings)
  else if c.isDate then do
    let dates ← (List.range rows).mapM fun row ↦ fillDate c (offset + row)
    .ok (.bytes dates.flatten)
  else do
    let written ← fillFixed tae c rows offset
    .ok (.bytes written)

/-- The validity of a flat vector. -/
def fillValidity (c : NativeColumnView) (count offset : ℕ) : Except Fault (List Bool) :=
  if c.nullCount ≠ 0 then (List.range count).mapM fun row ↦ do
    let index ← word (offset + row)
    let null ← c.isNull index
    .ok (!null)
  else .ok (List.replicate count true)

/-- `fill_column`. -/
def fillColumn (tae : TaeTypes) (c : NativeColumnView) (count offset : ℕ) :
    Except Fault FilledVector :=
  if c.isConstant then
    if c.data.isEmpty then .ok ⟨true, [false], .bytes []⟩
    else do
      let null ← c.isNull 0
      if null then .ok ⟨true, [false], .bytes []⟩
      else do
        let data ← fillData tae c 1 0
        .ok ⟨true, [true], data⟩
  else do
    let data ← fillData tae c count offset
    let valid ← fillValidity c count offset
    .ok ⟨false, valid, data⟩

/-! ## What is copied -/

namespace NativeColumnView

/-- Whether a row's bit is set. -/
def nullAt (c : NativeColumnView) (row : ℕ) : Bool := bit (wordsOf c.nullWords) row

/-- The bytes of an element. -/
def element (c : NativeColumnView) (width row : ℕ) : Bytes := slice c.data (row * width) width

/-- The string of a row. -/
def textAt (c : NativeColumnView) (row : ℕ) : Bytes :=
  let v := c.element kVarlenaSize row
  if Varlena.isInline v then slice v 1 (Varlena.inlineLength v)
  else slice c.area (Varlena.bigOffset v) (Varlena.bigLength v)

/-- The rows of a vector that `fill_column` sets. -/
def outputRows (c : NativeColumnView) (count : ℕ) : ℕ := if c.isConstant then 1 else count

/-- The row that an output row is taken from. -/
def sourceRow (c : NativeColumnView) (offset row : ℕ) : ℕ :=
  if c.isConstant then 0 else offset + row

/-- The data of `rows` rows from `offset` on. -/
def copied (tae : TaeTypes) (c : NativeColumnView) (rows offset : ℕ) : VectorData :=
  if c.isText then
    .strings ((List.range rows).map fun row ↦
      if c.nullAt (offset + row) then none else some (c.textAt (offset + row)))
  else if c.isDate then
    .bytes ((List.range rows).map fun row ↦
      signedBytes 4 (signed (c.element 4 (offset + row)) - kMoUnixEpochDays)).flatten
  else
    let width := (tae.moTypeFixedSize c.type.oid.toNat).toNat
    .bytes (slice c.data (offset * width) (rows * width))

/-- What `fill_column` leaves in the vector. -/
def filled (tae : TaeTypes) (c : NativeColumnView) (count offset : ℕ) : FilledVector :=
  if c.isConstant then
    if c.data.isEmpty ∨ c.nullAt 0 then ⟨true, [false], .bytes []⟩
    else ⟨true, [true], c.copied tae 1 0⟩
  else ⟨false, (List.range count).map fun row ↦ !c.nullAt (offset + row), c.copied tae count offset⟩

end NativeColumnView

/-! ## Reads that succeed -/

theorem mapM_eq_ok_map {ε α β : Type} {f : α → Except ε β} {g : α → β} {xs : List α}
    (h : ∀ x ∈ xs, f x = .ok (g x)) : xs.mapM f = .ok (xs.map g) := by
  induction xs with
  | nil => rfl
  | cons x xs ih =>
    rw [List.mapM_cons, h x List.mem_cons_self, ok_bind_eq,
      ih fun y hy ↦ h y (List.mem_cons_of_mem x hy), ok_bind_eq]
    rfl

variable {n offset size count row rows : ℕ} {buffer : Bytes} {tae : TaeTypes}
  {expected : SubstraitType} {c : NativeColumnView} {nulls : Bytes} {oid : MoTypeOid}

theorem word_of_lt (h : n < 2 ^ 64) : word n = .ok n := if_pos h

theorem peek_of_le (h : offset + size ≤ buffer.length) :
    peek buffer offset size = .ok (slice buffer offset size) := if_pos h

theorem length_slice_of_le (h : offset + size ≤ buffer.length) :
    (slice buffer offset size).length = size := by
  rw [slice, List.length_take, List.length_drop]
  omega

theorem IsNullBitmap.length_mod {nullWords : Bytes}
    (h : IsNullBitmap rows nulls count nullWords) : nullWords.length % 8 = 0 := by
  rcases h.bytes_eq with ⟨-, hwords⟩ | ⟨bitLength, -, -, -, hlength⟩
  · rw [hwords, List.length_nil]
  · omega

namespace NativeColumnView

theorem isText_eq (hoid : c.type.oid.toNat = oid.code) : c.isText = oid.isVarlena := by
  rw [isText, hoid]
  cases oid <;> rfl

/-- The bitmap holds a bit for every row. -/
theorem isNull_eq (hnulls : IsNullBitmap rows nulls c.nullCount c.nullWords) (hrow : row < rows) :
    c.isNull row = .ok (c.nullAt row) := by
  rw [isNull, nullAt]
  rcases hnulls.bytes_eq with ⟨-, hwords⟩ | ⟨bitLength, -, hbits, -, hlength⟩
  · have hwordsOf : wordsOf [] = [] := rfl
    rw [hwords, if_pos List.isEmpty_nil, hwordsOf, bit, List.getD_nil, Nat.zero_testBit]
  · have hne : ¬c.nullWords.isEmpty = true := by
      rw [List.isEmpty_iff, ← List.length_eq_zero_iff]
      omega
    rw [if_neg hne, peek_of_le (by omega), ok_bind_eq, bit_wordsOf (by omega)]
    rfl

/-- A bit that is set is in the bitmap. -/
theorem div_lt_of_nullAt (hnull : c.nullAt row = true) : row / 64 < c.nullWords.length / 8 := by
  by_contra hge
  have hword : (wordsOf c.nullWords).length ≤ row / 64 := by
    rw [length_wordsOf]
    omega
  rw [nullAt, bit, List.getD_eq_default _ _ hword, Nat.zero_testBit] at hnull
  cases hnull

/-- Only rows of the batch are null. -/
theorem lt_of_nullAt (hnulls : IsNullBitmap rows nulls c.nullCount c.nullWords)
    (hnull : c.nullAt row = true) : row < rows := by
  have hword := div_lt_of_nullAt hnull
  exact hnulls.rows_lt row (by omega) hnull

/-- The count of the bitmap is the number of its bits. -/
theorem nullCount_eq (hnulls : IsNullBitmap rows nulls c.nullCount c.nullWords) :
    c.nullCount = (List.range (8 * c.nullWords.length)).countP c.nullAt := by
  rw [hnulls.count_eq, total_eq, mul_wordsOf _ hnulls.length_mod]
  rfl

/-- The elements of a valid column are inside its data. -/
theorem Valid.data_inside (hc : c.Valid tae rows expected) (row : ℕ)
    (hrow : row ≤ physicalRows c.vectorClass c.data rows) :
    row * tae.moTypeSize c.type.oid.toNat ≤ c.data.length := by
  have hlength := hc.data_length
  rw [physicalRows] at hrow
  split_ifs at hrow hlength with hconstant hempty
  · rw [Nat.le_zero.mp hrow, Nat.zero_mul]
    exact Nat.zero_le _
  · rw [hlength]
    exact Nat.le_trans (Nat.mul_le_mul_right _ hrow) (Nat.le_of_eq (Nat.one_mul _))
  · rw [hlength]
    exact Nat.mul_le_mul_right _ hrow

theorem Valid.element_inside (hc : c.Valid tae rows expected) (row : ℕ)
    (hrow : row < physicalRows c.vectorClass c.data rows)
    (hsize : tae.moTypeSize c.type.oid.toNat = size) : row * size + size ≤ c.data.length := by
  have hinside := hc.data_inside (row + 1) hrow
  rw [hsize, Nat.succ_mul] at hinside
  exact hinside

/-- The string of a descriptor that was checked. -/
theorem readText_eq {v : Bytes} (hv : v.length = kVarlenaSize) {data area : Bytes}
    (hrow : slice data (row * kVarlenaSize) kVarlenaSize = v)
    (hcheck : checkVarlena data area row = .ok ()) :
    readText area v = .ok (if Varlena.isInline v then slice v 1 (Varlena.inlineLength v)
      else slice area (Varlena.bigOffset v) (Varlena.bigLength v)) := by
  rw [readText]
  split_ifs with hinline
  · have hle : Varlena.inlineLength v ≤ kVarlenaInlineMax := of_decide_eq_true hinline
    rw [kVarlenaInlineMax] at hle
    exact peek_of_le (by rw [hv, kVarlenaSize]; omega)
  · rw [checkVarlena, hrow, if_neg hinline] at hcheck
    split_ifs at hcheck with hbad
    rw [not_or, not_or] at hbad
    exact peek_of_le (by omega)

theorem fillText_eq (hc : c.Valid tae rows expected)
    (hnulls : IsNullBitmap rows nulls c.nullCount c.nullWords) (htext : c.isText = true)
    (hrow : row < physicalRows c.vectorClass c.data rows) (hlt : row < rows)
    (hrows : rows < 2 ^ 32) : fillText c row
      = .ok (if c.nullAt row then none else some (c.textAt row)) := by
  obtain ⟨oid, hoid⟩ := exists_oid_of_matches hc.type_matches
  rw [isText_eq hoid] at htext
  have hvarlena : c.fixedSize tae < 0 := by
    rw [fixedSize, hoid]
    exact tae.moTypeFixedSize_of_varlena oid htext
  have hsize : tae.moTypeSize c.type.oid.toNat = kVarlenaSize := if_pos hvarlena
  have hinside := hc.element_inside _ hrow hsize
  have hword : row * kVarlenaSize < 2 ^ 64 := by
    rw [kVarlenaSize]
    omega
  rw [fillText, word_of_lt (by omega), ok_bind_eq, isNull_eq hnulls hlt, ok_bind_eq]
  split_ifs with hnull
  · rfl
  · rw [word_of_lt hword, ok_bind_eq, peek_of_le hinside, ok_bind_eq,
      readText_eq (length_slice_of_le hinside) rfl ((hc.varlenas hvarlena).2 row hrow), ok_bind_eq]
    rfl

theorem fillDate_eq (hc : c.Valid tae rows expected) (hdate : c.isDate = true)
    (hrow : row < physicalRows c.vectorClass c.data rows) (hlt : row < rows)
    (hrows : rows < 2 ^ 32) :
    fillDate c row = .ok (signedBytes 4 (signed (c.element 4 row) - kMoUnixEpochDays)) := by
  have hoid : c.type.oid.toNat = MoTypeOid.date.code := beq_iff_eq.mp hdate
  have hsize : tae.moTypeSize c.type.oid.toNat = 4 := by
    rw [hoid, tae.moTypeSize_code]
    rfl
  rw [fillDate, word_of_lt (by omega), ok_bind_eq, word_of_lt (by omega), ok_bind_eq,
    peek_of_le (hc.element_inside _ hrow hsize), ok_bind_eq]
  rfl

theorem fillFixed_eq (hc : c.Valid tae rows expected) (htext : c.isText = false)
    (hrange : offset + n ≤ physicalRows c.vectorClass c.data rows) :
    let width := (tae.moTypeFixedSize c.type.oid.toNat).toNat
    fillFixed tae c n offset = .ok (slice c.data (offset * width) (n * width)) := by
  obtain ⟨oid, hoid⟩ := exists_oid_of_matches hc.type_matches
  rw [isText_eq hoid] at htext
  have hfixed := tae.moTypeFixedSize_of_fixed oid htext
  have hpos := oid.width_pos
  have hinside := hc.data_inside _ hrange
  have hlt := hc.data_lt
  rw [hoid, tae.moTypeSize_code, Nat.add_mul] at hinside
  rw [fillFixed, hoid, hfixed]
  simp only [Int.toNat_natCast]
  rw [if_neg (by omega), word_of_lt (by omega), ok_bind_eq, word_of_lt (by omega), ok_bind_eq]
  exact peek_of_le hinside

theorem fillData_eq (hc : c.Valid tae rows expected)
    (hnulls : IsNullBitmap rows nulls c.nullCount c.nullWords)
    (hrange : offset + n ≤ physicalRows c.vectorClass c.data rows)
    (hle : physicalRows c.vectorClass c.data rows ≤ rows) (hrows : rows < 2 ^ 32) :
    fillData tae c n offset = .ok (c.copied tae n offset) := by
  rw [fillData, copied]
  split_ifs with htext hdate
  · rw [mapM_eq_ok_map fun row hrow ↦ fillText_eq hc hnulls htext
      (Nat.lt_of_lt_of_le (Nat.add_lt_add_left (List.mem_range.mp hrow) offset) hrange)
      (by have := List.mem_range.mp hrow; omega) hrows, ok_bind_eq]
  · rw [mapM_eq_ok_map fun row hrow ↦ fillDate_eq hc hdate
      (Nat.lt_of_lt_of_le (Nat.add_lt_add_left (List.mem_range.mp hrow) offset) hrange)
      (by have := List.mem_range.mp hrow; omega) hrows, ok_bind_eq]
  · rw [fillFixed_eq hc (Bool.not_eq_true _ ▸ htext) hrange, ok_bind_eq]

theorem fillValidity_eq (hnulls : IsNullBitmap rows nulls c.nullCount c.nullWords)
    (hrange : offset + count ≤ rows) (hrows : rows < 2 ^ 32) :
    fillValidity c count offset
      = .ok ((List.range count).map fun row ↦ !c.nullAt (offset + row)) := by
  rw [fillValidity]
  split_ifs with hcount
  · refine mapM_eq_ok_map fun row hrow ↦ ?_
    have hlt := List.mem_range.mp hrow
    rw [word_of_lt (by omega), ok_bind_eq, isNull_eq hnulls (by omega), ok_bind_eq]
  · -- Without a null, no bit is set in the bitmap.
    rw [ne_eq, not_not, nullCount_eq hnulls, List.countP_eq_zero] at hcount
    refine congrArg Except.ok ?_
    refine (List.eq_replicate_iff.mpr ⟨by rw [List.length_map, List.length_range], ?_⟩).symm
    intro valid hvalid
    obtain ⟨row, -, rfl⟩ := List.mem_map.mp hvalid
    cases hnull : c.nullAt (offset + row) with
    | false => rfl
    | true =>
      have hword := div_lt_of_nullAt hnull
      exact absurd hnull (hcount (offset + row) (List.mem_range.mpr (by omega)))

/-- The copy never reads outside. -/
theorem fillColumn_eq (hc : c.Valid tae rows expected)
    (hnulls : IsNullBitmap rows nulls c.nullCount c.nullWords) (hpos : 0 < rows)
    (hrows : rows < 2 ^ 32) (hrange : offset + count ≤ rows) :
    fillColumn tae c count offset = .ok (c.filled tae count offset) := by
  rw [fillColumn, filled]
  split_ifs with hconstant hempty hnull hnull
  · rfl
  · exact absurd (Or.inl hempty) hnull
  · rw [isNull_eq hnulls hpos, ok_bind_eq, if_pos (hnull.resolve_left hempty)]
  · rw [not_or] at hnull
    have hphysical : physicalRows c.vectorClass c.data rows = 1 := by
      rw [physicalRows, if_pos (beq_iff_eq.mp hconstant), if_neg hempty]
    rw [isNull_eq hnulls hpos, ok_bind_eq, if_neg hnull.2,
      fillData_eq hc hnulls (by omega) (by omega) hrows, ok_bind_eq]
  · have hphysical : physicalRows c.vectorClass c.data rows = rows := by
      rw [physicalRows, if_neg (mt beq_iff_eq.mpr hconstant)]
    rw [fillData_eq hc hnulls (by omega) (by omega) hrows, ok_bind_eq,
      fillValidity_eq hnulls hrange hrows, ok_bind_eq]

end NativeColumnView

variable {envelope : NativeBatchFrame} {schema : NamedStruct} {b : DecodedBatch}

/-- Every read of a column of an accepted batch is inside what is read, whatever the payload. -/
theorem nativeBatchView_reads_inside (h : nativeBatchView tae envelope schema = .ok b) :
    (0 < b.rows ∧ b.rows < 2 ^ 32) ∧ ∀ c ∈ b.columns,
      (c.nullCount = (List.range (8 * c.nullWords.length)).countP c.nullAt ∧
        ∀ row, c.nullAt row = true → row < b.rows) ∧
      (c.logicalRows * tae.moTypeSize c.type.oid.toNat < 2 ^ 64 ∧
        physicalRows c.vectorClass c.data c.logicalRows * tae.moTypeSize c.type.oid.toNat
          = c.data.length ∧ c.data.length < 2 ^ 32) ∧
      (∀ row < b.rows, c.isNull row = .ok (c.nullAt row)) ∧
      ∀ offset count, offset + count ≤ b.rows → ∃ v, fillColumn tae c count offset = .ok v := by
  obtain ⟨hpos, hlt, -⟩ := of_nativeBatchView h
  refine ⟨⟨hpos, hlt⟩, fun c hmem ↦ ?_⟩
  obtain ⟨expected, -, hc, bs, typeBytes, nulls, sorted, henc⟩ := valid_of_mem h hmem
  have hnulls := henc.nulls_eq
  refine ⟨⟨NativeColumnView.nullCount_eq hnulls, fun row ↦ NativeColumnView.lt_of_nullAt hnulls⟩,
    ⟨?_, ?_, hc.data_lt⟩, fun row ↦ NativeColumnView.isNull_eq hnulls, fun offset count hrange ↦
      ⟨_, NativeColumnView.fillColumn_eq hc hnulls hpos hlt hrange⟩⟩
  · obtain ⟨oid, hoid⟩ := exists_oid_of_matches hc.type_matches
    have hwidth := oid.width_le
    rw [hoid, tae.moTypeSize_code, hc.logicalRows_eq]
    calc b.rows * oid.width ≤ 2 ^ 32 * 24 := Nat.mul_le_mul (Nat.le_of_lt hlt) hwidth
      _ < 2 ^ 64 := by decide
  · rw [hc.logicalRows_eq, hc.data_length, physicalRows]
    split_ifs with hconstant hempty
    · exact Nat.zero_mul _
    · exact Nat.one_mul _
    · rfl

/-- A schema of one column of decimals of four digits. -/
def smallDecimalSchema : NamedStruct := ⟨[[0x64]], some [.decimal 4 2]⟩

/-- A column for it with one row, the number 0.01, in the eight bytes of a `decimal64`. -/
def smallDecimalColumn : NativeColumnView where
  encoded := [kMoVectorFlat] ++ (MoType.bytes ⟨60, 0, 0, 0, 8, 4, 2⟩ ++ (bytes 4 1
    ++ (sectionBytes (bytes 8 1) ++ (sectionBytes [] ++ (sectionBytes [] ++ [0])))))
  vectorClass := kMoVectorFlat
  type := ⟨60, 0, 0, 0, 8, 4, 2⟩
  logicalRows := 1
  data := bytes 8 1
  area := []
  sorted := false
  nullCount := 0
  nullWords := []

/-- The batch of that column. -/
def smallDecimalFrame : NativeBatchFrame where
  sequence := 1
  payload := signedBytes 8 1 ++ (signedBytes 4 1 ++ (sectionBytes smallDecimalColumn.encoded
    ++ List.replicate 16 0))

theorem nativeBatchView_smallDecimal :
    nativeBatchView TaeTypes.documented smallDecimalFrame smallDecimalSchema
      = .ok ⟨1, 1, smallDecimalFrame.payload.length, [smallDecimalColumn]⟩ := by
  rfl

theorem nativeBatchView_reads_inside_small :
    ∃ v, fillColumn TaeTypes.documented smallDecimalColumn 1 0 = .ok v :=
  ((nativeBatchView_reads_inside nativeBatchView_smallDecimal).2 _ List.mem_cons_self).2.2.2 0 1
    (Nat.le_refl 1)

end MoSidecar
