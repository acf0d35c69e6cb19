import MoSidecar.Native.ChunkReading
import MoSidecar.Native.RoundTrip
import MoSidecar.Native.Splitting

/-!
# Rows on both sides

A chunk and a table in host memory hold the same rows if each row has the same value in both. What
an encoder writes for a row is a function of that value, `cellOf`: that is shown for the table, and
for the vectors of a chunk whose elements have the width the encoder takes them to have.
-/

namespace MoSidecar

open LittleEndian Bitmap Chunks

/-- The cell that is to be written for a value, if it can be. -/
def cellOf (tae : TaeTypes) (schema : NativeResultColumn) : Option Value → Option Cell
  | none => if schema.notNullable then none else some .null
  | some (.text s) => some (.text s)
  | some (.number z) => (elementBytes tae schema z).map .element

/-! ## Chunks -/

/-- The rows of a vector lie in its buffer. -/
def ChunkVector.Inside (v : ChunkVector) (rows : ℕ) : Prop :=
  match v.data with
  | .strings values => v.type = .varchar ∧ ∀ row < rows, v.sel row < values.length
  | .bytes buffer => v.type ≠ .varchar ∧ ∃ width, v.type.physicalWidth = some width ∧
      ∀ row < rows, (v.sel row + 1) * width ≤ buffer.length

/-- The value of a row of a vector, or nothing where it is null. -/
def ChunkVector.valueAt (v : ChunkVector) (row : ℕ) : Option Value :=
  if v.rowIsValid (v.sel row) then
    match v.data with
    | .strings values => some (.text (values.getD (v.sel row) []))
    | .bytes buffer =>
      let width := v.type.physicalWidth.getD 0
      some (.number (signed (slice buffer (v.sel row * width) width)))
  else none

/-- The bytes that `encode_column` reads of an element. -/
def readWidth (tae : TaeTypes) (schema : NativeResultColumn) : ℕ :=
  if schema.is .uint32 then 8 else tae.moTypeSize schema.oid.toNat

variable {tae : TaeTypes} {decimalOfDouble : NativeResultColumn → Bytes → Except Thrown ℤ}
  {c : ColumnMetadata} {a : HostAllocation} {schema : NativeResultColumn} {v : ChunkVector}
  {data : ChunkData} {bs : Bytes} {row rows sourceRow : ℕ} {cell : Cell}

theorem element_eq_ok {size : ℕ} : data.element size sourceRow = .ok bs ↔
    ∃ buffer, data = .bytes buffer ∧ sourceRow * size + size ≤ buffer.length ∧
      bs = slice buffer (sourceRow * size) size := by
  cases data with
  | strings values => exact iff_of_false nofun fun ⟨_, hdata, _⟩ ↦ nomatch hdata
  | bytes buffer =>
    simp only [ChunkData.element, peek, ChunkData.bytes.injEq, exists_eq_left']
    split_ifs with hle
    · rw [Except.ok.injEq, eq_comm]
      exact (and_iff_right hle).symm
    · exact iff_of_false nofun fun h ↦ hle h.1

theorem encodeChunkElement_eq_ok :
    encodeChunkElement tae schema data sourceRow = .ok bs ↔
      ∃ read, data.element (readWidth tae schema) sourceRow = .ok read ∧
        elementBytes tae schema (signed read) = some bs := by
  rw [encodeChunkElement]
  split_ifs with huint hdate
  · rw [bind_eq_ok, readWidth, if_pos huint]
    simp only [elementBytes, huint, if_true, thrown_eq_ok, narrowUint32_eq_ok]
  · have hsize : tae.moTypeSize schema.oid.toNat = 4 := moTypeSize_of_is hdate
    rw [bind_eq_ok, readWidth, if_neg huint, hsize]
    simp only [elementBytes, huint, hdate, if_true, thrown_eq_ok, shiftDate_eq_ok]
    rfl
  · rw [readWidth, if_neg huint]
    simp only [elementBytes_of_number huint hdate, Option.some.injEq]
    have hlength {read : Bytes} (hread : data.element (tae.moTypeSize schema.oid.toNat) sourceRow
        = .ok read) : read.length = tae.moTypeSize schema.oid.toNat := by
      obtain ⟨buffer, -, hle, rfl⟩ := element_eq_ok.mp hread
      exact length_slice_of_le hle
    constructor
    · intro h
      exact ⟨bs, h, signedBytes_signed (hlength h)⟩
    · rintro ⟨read, hread, rfl⟩
      rw [signedBytes_signed (hlength hread)]
      exact hread

/-- A row that is null is written as a null, unless nulls are not allowed. -/
theorem null_iff {P : Prop} : (cell.isNull = true ∧ (schema.notNullable && cell.isNull) = false ∧
    (cell.isNull = false → P)) ↔ cellOf tae schema none = some cell := by
  rw [cellOf]
  constructor
  · rintro ⟨hnull, hrequired, -⟩
    rw [hnull, Bool.and_true] at hrequired
    rw [hrequired, if_neg Bool.false_ne_true]
    cases cell with
    | null => rfl
    | text s => cases hnull
    | element bs => cases hnull
  · intro h
    split_ifs at h with hrequired
    rw [← Option.some.inj h, Cell.isNull, Bool.and_true]
    exact ⟨rfl, Bool.eq_false_iff.mpr hrequired, by simp⟩

/-- What is written for a row of a vector, where its elements have the width that is read. -/
theorem readChunkCell_eq_cellOf (hinside : v.Inside rows) (hrow : row < rows)
    (htext : isText schema.oid = true ↔ v.type = .varchar)
    (hwidth : isText schema.oid = false → v.type.physicalWidth = some (readWidth tae schema)) :
    readChunkCell tae v schema row = .ok cell ↔ cellOf tae schema (v.valueAt row) = some cell := by
  rw [readChunkCell_eq_ok, ChunkVector.valueAt]
  cases hvalid : v.rowIsValid (v.sel row) with
  | false =>
    rw [if_neg Bool.false_ne_true, Bool.not_false]
    exact null_iff
  | true =>
    rw [if_pos rfl, Bool.not_true]
    have hvalue : (cell.isNull = false ∧ (schema.notNullable && cell.isNull) = false ∧
        (cell.isNull = false → readChunkValue tae schema v.data (v.sel row) = .ok cell)) ↔
          readChunkValue tae schema v.data (v.sel row) = .ok cell := by
      constructor
      · rintro ⟨hnull, -, hread⟩
        exact hread hnull
      · intro hread
        have hnull := isNull_of_readChunkValue hread
        exact ⟨hnull, by rw [hnull, Bool.and_false], fun _ ↦ hread⟩
    rw [hvalue, readChunkValue]
    rw [ChunkVector.Inside] at hinside
    cases hdata : v.data with
    | strings values =>
      simp only [hdata] at hinside ⊢
      have hsel := hinside.2 row hrow
      have hstring : (ChunkData.strings values).string (v.sel row) = .ok values[v.sel row] := by
        simp only [ChunkData.string, List.getElem?_eq_getElem hsel]
      rw [if_pos (htext.mpr hinside.1), hstring, map_eq_ok, List.getD_eq_getElem _ _ hsel, cellOf]
      simp only [Except.ok.injEq, exists_eq_left', Option.some.injEq]
    | bytes buffer =>
      simp only [hdata] at hinside ⊢
      obtain ⟨hne, width, hphysical, hbuffer⟩ := hinside
      have hnot : isText schema.oid = false := by
        rw [Bool.eq_false_iff]
        exact fun h ↦ hne (htext.mp h)
      obtain rfl := Option.some.inj (hphysical.symm.trans (hwidth hnot))
      have hsel := hbuffer row hrow
      rw [Nat.succ_mul] at hsel
      rw [hnot, if_neg Bool.false_ne_true, hphysical, Option.getD_some, cellOf,
        Option.map_eq_some_iff,
        map_eq_ok]
      refine exists_congr fun bs ↦ and_congr_left fun _ ↦ ?_
      rw [encodeChunkElement_eq_ok]
      constructor
      · rintro ⟨read, hread, hbs⟩
        obtain ⟨buffer', hbuffer', -, rfl⟩ := element_eq_ok.mp hread
        obtain rfl := ChunkData.bytes.inj hbuffer'
        exact hbs
      · intro hbs
        exact ⟨_, element_eq_ok.mpr ⟨buffer, rfl, hsel, rfl⟩, hbs⟩

/-! ## Tables -/

theorem copied_of_decimal (h : schema.is .decimal64 ∨ schema.is .decimal128) :
    ¬schema.is .uint32 = true ∧ ¬schema.is .date = true := by
  rw [Bool.not_eq_true, Bool.not_eq_true]
  rcases h with h | h
  · exact ⟨is_eq_false h nofun, is_eq_false h nofun⟩
  · exact ⟨is_eq_false h nofun, is_eq_false h nofun⟩

/-- A decimal that is a double in the table is what that is rounded to. -/
theorem encodeElement_of_double
    (hdouble : (schema.is .decimal64 ∨ schema.is .decimal128) ∧ c.typeId = .float64) :
    encodeElement tae decimalOfDouble c a schema row = (do
      let bs ← copyHostBytes a (address c.dataOffset (row * c.typeId.width)) c.typeId.width
      let z ← decimalOfDouble schema bs
      .ok (signedBytes (tae.moTypeSize schema.oid.toNat) z)) := by
  have hnarrow : ¬(schema.is .decimal64 = true ∧ c.typeId = .decimal32) := fun h ↦ by
    rw [hdouble.2] at h
    cases h.2
  obtain ⟨huint, hdate⟩ := copied_of_decimal hdouble.1
  rw [encodeElement]
  simp only
  rw [if_neg huint, if_neg hdate, if_neg hnarrow, if_pos hdouble, hdouble.2]
  rfl

/-- A row of a table holds a value. A double holds a decimal if that is what it is rounded to. -/
def ColumnMetadata.HoldsValue (decimalOfDouble : NativeResultColumn → Bytes → Except Thrown ℤ)
    (c : ColumnMetadata) (a : HostAllocation) (schema : NativeResultColumn) (row : ℕ)
    (value : Option Value) : Prop :=
  if (schema.is .decimal64 ∨ schema.is .decimal128) ∧ c.typeId = .float64 then
    if c.nullAt a row then value = none
    else ∃ z, decimalOfDouble schema (slice a.memory (address c.dataOffset (row * c.typeId.width))
      c.typeId.width) = .ok z ∧ value = some (.number z)
  else c.valueAt a row = value

/-- A column of a table holds the rows of a vector: its buffers lie in the allocation and are as
long as the rows need, and the values are the same. -/
structure ColumnMetadata.Holds (tae : TaeTypes)
    (decimalOfDouble : NativeResultColumn → Bytes → Except Thrown ℤ) (a : HostAllocation)
    (c : ColumnMetadata) (schema : NativeResultColumn) (v : ChunkVector) (rows : ℕ) : Prop extends
    c.WellFormed tae a schema where
  mask_inside : c.hasNullMask = true → c.nullMaskOffset.toNat + c.nullMaskSize.toNat ≤ a.sizeBytes
  data_inside : c.dataOffset.toNat + c.dataSize.toNat ≤ a.sizeBytes
  holdsValue : ∀ row < rows, c.HoldsValue decimalOfDouble a schema row (v.valueAt row)

theorem address_of_lt {base : UInt64} {offset : ℕ} (h : base.toNat + offset < 2 ^ 64) :
    address base offset = base.toNat + offset := Nat.mod_eq_of_lt h

namespace ColumnMetadata.Holds

variable (h : c.Holds tae decimalOfDouble a schema v rows) (hsize : a.sizeBytes < 2 ^ 64)
  (hrow : row < c.numRows.toInt.toNat)
include h hsize hrow

theorem rowNull_eq : rowNull c a row = .ok (c.nullAt a row) := by
  have hexists : ∃ null, rowNull c a row = .ok null := by
    rw [rowNull]
    cases hmask : c.hasNullMask with
    | false => exact ⟨false, if_neg Bool.false_ne_true⟩
    | true =>
      have hle := h.mask_le hmask
      have hinside := h.mask_inside hmask
      have haddress : address c.nullMaskOffset (row / 8) = c.nullMaskOffset.toNat + row / 8 :=
        address_of_lt (by omega)
      rw [if_pos rfl, readNull]
      exact ⟨_, bind_eq_ok.mpr ⟨_, HostAllocation.copyHostBytes_eq_ok.mpr ⟨by omega, rfl⟩, rfl⟩⟩
  obtain ⟨null, hnull⟩ := hexists
  rw [hnull, nullAt_of_rowNull hnull]

/-- A string of the table is read as it stands in the memory. -/
theorem readValue_of_text (htext : isText schema.oid = true) :
    readValue tae decimalOfDouble c a schema row = .ok (.text (slice a.memory
      (address c.dataOffset (c.spanAt a row).1) (c.spanLength a row))) := by
  obtain ⟨hdata, offsets, hchildren, hoffsets⟩ := h.offsets_ok htext
  have hfirst := hoffsets.le_succ row hrow
  have hlast : offsets.offsetValue a (row + 1) ≤ c.dataSize.toNat := hoffsets.le_limit hrow
  have hinside := h.data_inside
  have hoffsetsOf : offsetsOf c c.hasData
      "Sirius string result has invalid offsets or characters" = .ok offsets := by
    rw [hdata]
    exact hoffsets.offsetsOf_eq_ok hchildren rfl
  have hspan := hoffsets.readSpan_eq_ok hchildren rfl hsize hrow
  have haddress : address c.dataOffset (offsets.offsetValue a row)
      = c.dataOffset.toNat + offsets.offsetValue a row := address_of_lt (by omega)
  have hcopy : copyHostBytes a (address c.dataOffset (c.spanAt a row).1)
      ((c.spanAt a row).2 - (c.spanAt a row).1) = .ok (slice a.memory
        (address c.dataOffset (c.spanAt a row).1) (c.spanLength a row)) := by
    refine HostAllocation.copyHostBytes_eq_ok.mpr ⟨?_, rfl⟩
    rw [ColumnMetadata.spanAt, hchildren]
    simp only [haddress]
    omega
  rw [MoSidecar.readValue_of_text htext hoffsetsOf, map_eq_ok]
  exact ⟨_, bind_eq_ok.mpr ⟨_, hspan, hcopy⟩, rfl⟩

/-- An element of the table can be read. -/
theorem copy_element (htext : isText schema.oid = false)
    (hmatches : sourceTypeMatches c schema = true) :
    copyHostBytes a (address c.dataOffset (row * c.typeId.width)) c.typeId.width
      = .ok (slice a.memory (address c.dataOffset (row * c.typeId.width)) c.typeId.width) := by
  obtain ⟨-, hle⟩ := h.elements_le htext
  have hinside := h.data_inside
  have hmul : row * c.typeId.width + c.typeId.width
      ≤ c.numRows.toInt.toNat * sourceSize tae c schema := by
    rw [← Nat.succ_mul, sourceSize_eq_width tae hmatches htext]
    exact Nat.mul_le_mul_right _ hrow
  have haddress : address c.dataOffset (row * c.typeId.width)
      = c.dataOffset.toNat + row * c.typeId.width := address_of_lt (by omega)
  exact HostAllocation.copyHostBytes_eq_ok.mpr ⟨by omega, rfl⟩

/-- A row that is not null is written as what is read of it. -/
theorem readCell_of_not_null (hnull : c.nullAt a row = false) :
    readCell tae decimalOfDouble c a schema row = .ok cell ↔
      readValue tae decimalOfDouble c a schema row = .ok cell := by
  rw [readCell_eq_ok, h.rowNull_eq hsize hrow, Except.ok.injEq, hnull]
  constructor
  · rintro ⟨hcell, -, hread⟩
    exact hread hcell.symm
  · intro hread
    have hcell := isNull_of_readValue hread
    exact ⟨hcell.symm, by rw [hcell, Bool.and_false], fun _ ↦ hread⟩

/-- What is written for a row of a table. -/
theorem readCell_eq_cellOf (hmatches : sourceTypeMatches c schema = true) {value : Option Value}
    (hvalue : c.HoldsValue decimalOfDouble a schema row value) :
    readCell tae decimalOfDouble c a schema row = .ok cell ↔
      cellOf tae schema value = some cell := by
  rw [ColumnMetadata.HoldsValue, ColumnMetadata.valueAt] at hvalue
  cases hnull : c.nullAt a row with
  | true =>
    have hnone : value = none := by
      rw [if_pos hnull, if_pos hnull] at hvalue
      split_ifs at hvalue
      · exact hvalue
      · exact hvalue.symm
    rw [readCell_eq_ok, h.rowNull_eq hsize hrow, Except.ok.injEq, hnull, hnone, eq_comm]
    exact null_iff
  | false =>
    have hnot : ¬c.nullAt a row = true := by
      rw [hnull]
      exact Bool.false_ne_true
    rw [if_neg hnot, if_neg hnot] at hvalue
    rw [h.readCell_of_not_null hsize hrow hnull]
    cases htext : isText schema.oid with
    | true =>
      have hstring := (isText_iff_typeId hmatches).mp htext
      have hdouble : ¬((schema.is .decimal64 ∨ schema.is .decimal128) ∧ c.typeId = .float64) :=
        fun hboth ↦ by
          rw [hstring] at hboth
          cases hboth.2
      rw [if_neg hdouble, if_pos hstring] at hvalue
      rw [h.readValue_of_text hsize hrow htext, ← hvalue, cellOf, Except.ok.injEq,
        Option.some.injEq]
    | false =>
      have hne : c.typeId ≠ .string := fun heq ↦ by
        rw [(isText_iff_typeId hmatches).mpr heq] at htext
        cases htext
      have hcopy := h.copy_element hsize hrow htext hmatches
      rw [if_neg hne] at hvalue
      rw [readValue_of_not_text htext, map_eq_ok]
      split_ifs at hvalue with hdouble
      · obtain ⟨z, hz, rfl⟩ := hvalue
        rw [cellOf, Option.map_eq_some_iff]
        refine exists_congr fun bs ↦ and_congr_left fun _ ↦ ?_
        obtain ⟨huint, hdate⟩ := copied_of_decimal hdouble.1
        rw [encodeElement_of_double hdouble, hcopy, ok_bind_eq, hz, ok_bind_eq,
          elementBytes_of_number huint hdate, Except.ok.injEq, Option.some.injEq]
      · rw [← hvalue, cellOf, Option.map_eq_some_iff]
        refine exists_congr fun bs ↦ and_congr_left fun _ ↦ ?_
        rw [encodeElement_eq_ok hmatches htext hdouble, hcopy]
        simp only [Except.ok.injEq, exists_eq_left']

end ColumnMetadata.Holds

end MoSidecar
