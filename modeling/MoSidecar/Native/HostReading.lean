import MoSidecar.Native.Cells

/-!
# What the encoder reads

The blocks of an allocation are one memory, and a read of the encoder answers a part of it. A row of
a column is read on its own: `readCell` is the cell of a row, and a column is encoded exactly if its
metadata pass and a cell is read for each of its rows, as the layout of those cells. That is
`encodeHostColumn_eq_ok`, and nothing after it looks into the loops of the encoder.
-/

namespace MoSidecar

open LittleEndian Bitmap Chunks

/-! ## Host memory -/

theorem slice_add (bs : Bytes) (offset m n : ℕ) :
    slice bs offset (m + n) = slice bs offset m ++ slice bs (offset + m) n := by
  rw [slice, slice, slice, List.take_add, List.drop_drop]

/-- A part of a part. -/
theorem slice_chunk {w i start size : ℕ} (bs : Bytes) (h : start + size ≤ w) :
    slice (chunk w bs i) start size = slice bs (i * w + start) size := by
  rw [slice, slice, chunk, List.drop_take, List.take_take, List.drop_drop,
    Nat.min_eq_left (by omega)]

namespace HostAllocation

variable {a : HostAllocation} {offset size rounds : ℕ} {bs : Bytes}

/-- The bytes of all blocks. -/
def memory (a : HostAllocation) : Bytes := a.blocks.flatten

theorem sizeBytes_le_length (a : HostAllocation) : a.sizeBytes ≤ a.memory.length := by
  rw [memory, length_flatten a.length_of_mem]
  exact a.sizeBytes_le

/-- A part of a block is a part of the memory. -/
theorem slice_block (hoffset : offset < a.memory.length)
    (hsize : offset % a.blockSize + size ≤ a.blockSize) :
    slice (a.blocks.getD (offset / a.blockSize) []) (offset % a.blockSize) size
      = slice a.memory offset size := by
  have hblock : offset / a.blockSize < a.blocks.length := by
    rw [memory, length_flatten a.length_of_mem] at hoffset
    exact Nat.div_lt_of_lt_mul (Nat.mul_comm _ _ ▸ hoffset)
  have hdecompose : offset / a.blockSize * a.blockSize + offset % a.blockSize = offset :=
    Nat.div_add_mod' offset a.blockSize
  rw [List.getD_eq_getElem _ _ hblock, ← chunk_flatten a.length_of_mem hblock,
    slice_chunk _ hsize, hdecompose]
  rfl

theorem copyBlocks_eq (hrounds : size ≤ rounds) (hsize : offset + size ≤ a.memory.length) :
    copyBlocks a rounds offset size = slice a.memory offset size := by
  induction rounds generalizing offset size with
  | zero =>
    rw [Nat.le_zero.mp hrounds, copyBlocks, slice, List.take_zero]
  | succ rounds ih =>
    rw [copyBlocks]
    split_ifs with hzero
    · rw [hzero, slice, List.take_zero]
    · -- A round copies at least one byte, up to the end of its block.
      have hmod := Nat.mod_lt offset a.blockSize_pos
      have hpos : 0 < min size (a.blockSize - offset % a.blockSize) :=
        Nat.lt_min.mpr ⟨Nat.pos_of_ne_zero hzero, Nat.sub_pos_of_lt hmod⟩
      have hle := Nat.min_le_left size (a.blockSize - offset % a.blockSize)
      have hblock := Nat.min_le_right size (a.blockSize - offset % a.blockSize)
      simp only
      rw [slice_block (by omega) (by omega), ih (by omega) (by omega), ← slice_add,
        Nat.add_sub_cancel' hle]

theorem copyHostBytes_eq_ok : copyHostBytes a offset size = .ok bs ↔
    offset + size ≤ a.sizeBytes ∧ bs = slice a.memory offset size := by
  have hmemory := a.sizeBytes_le_length
  rw [copyHostBytes, bind_eq_ok]
  constructor
  · rintro ⟨⟨⟩, hrange, h⟩
    rw [throwIf_eq_ok] at hrange
    rw [copyBlocks_eq (Nat.le_refl size) (by omega)] at h
    exact ⟨by omega, (Except.ok.inj h).symm⟩
  · rintro ⟨hrange, rfl⟩
    refine ⟨(), throwIf_eq_ok.mpr (by omega), ?_⟩
    rw [copyBlocks_eq (Nat.le_refl size) (by omega)]

theorem length_of_copyHostBytes (h : copyHostBytes a offset size = .ok bs) : bs.length = size := by
  obtain ⟨hrange, rfl⟩ := copyHostBytes_eq_ok.mp h
  have hmemory := a.sizeBytes_le_length
  rw [slice, List.length_take, List.length_drop]
  omega

end HostAllocation

theorem throwOverflowIf_eq_ok {bad : Prop} [Decidable bad] {what : String} {u : Unit} :
    throwOverflowIf bad what = .ok u ↔ ¬bad := by
  rw [throwOverflowIf]
  split_ifs with hbad
  · simp [hbad]
  · simp [hbad]

/-! ## Rows -/

/-- A string of a column: its span, and then its characters. -/
def readString (c : ColumnMetadata) (a : HostAllocation) (offsets : BufferMetadata)
    (sourceRow : ℕ) : Except Thrown Bytes := do
  let (first, last) ← readSpan c a offsets sourceRow
  copyHostBytes a (address c.dataOffset first) (last - first)

/-- What is read of a row that is not null. -/
def readValue (tae : TaeTypes) (decimalOfDouble : NativeResultColumn → Bytes → Except Thrown ℤ)
    (c : ColumnMetadata) (a : HostAllocation) (schema : NativeResultColumn) (sourceRow : ℕ) :
    Except Thrown Cell :=
  if isText schema.oid then do
    let offsets ← offsetsOf c c.hasData "Sirius string result has invalid offsets or characters"
    let s ← readString c a offsets sourceRow
    .ok (.text s)
  else do
    let bs ← encodeElement tae decimalOfDouble c a schema sourceRow
    .ok (.element bs)

/-- Whether a row is null. -/
def rowNull (c : ColumnMetadata) (a : HostAllocation) (sourceRow : ℕ) : Except Thrown Bool :=
  if c.hasNullMask then readNull c a sourceRow else .ok false

/-- What is read of a row. -/
def readCell (tae : TaeTypes) (decimalOfDouble : NativeResultColumn → Bytes → Except Thrown ℤ)
    (c : ColumnMetadata) (a : HostAllocation) (schema : NativeResultColumn) (sourceRow : ℕ) :
    Except Thrown Cell := do
  let null ← rowNull c a sourceRow
  throwIf (schema.notNullable && null) "required native result column contains nulls"
  if null then .ok .null else readValue tae decimalOfDouble c a schema sourceRow

/-- What the encoder checks of a column's metadata, for a range of rows. -/
structure ColumnMetadata.Readable (tae : TaeTypes) (c : ColumnMetadata)
    (schema : NativeResultColumn) (rowOffset rowCount : ℕ) : Prop where
  matches_eq : sourceTypeMatches c schema = true
  numRows_nonneg : 0 ≤ c.numRows.toInt
  range_le : rowOffset + rowCount ≤ c.numRows.toInt.toNat
  mask_le : c.hasNullMask = true → (rowOffset + rowCount + 7) / 8 ≤ c.nullMaskSize.toNat
  offsets_ok : isText schema.oid = true → ∃ offsets,
    offsetsOf c c.hasData "Sirius string result has invalid offsets or characters" = .ok offsets
  data_le : isText schema.oid = false → c.hasData = true ∧
    c.numRows.toInt.toNat * sourceSize tae c schema ≤ c.dataSize.toNat

section

variable {tae : TaeTypes} {decimalOfDouble : NativeResultColumn → Bytes → Except Thrown ℤ}
  {c : ColumnMetadata} {a : HostAllocation} {schema : NativeResultColumn} {nulls : List Bool}
  {rowOffset rowCount row k : ℕ} {out out' : Bytes × Bytes} {offsets : BufferMetadata}
  {enc : EncodedColumn} {cells : List Cell} {cell : Cell}

theorem readNulls_eq_ok : readNulls c a rowOffset rowCount schema.notNullable = .ok nulls ↔
    (c.hasNullMask = true → (rowOffset + rowCount + 7) / 8 ≤ c.nullMaskSize.toNat) ∧
      nulls.length = rowCount ∧ ∀ i (h : i < nulls.length),
        rowNull c a (rowOffset + i) = .ok nulls[i] ∧ (schema.notNullable && nulls[i]) = false := by
  rw [readNulls]
  simp only [rowNull]
  cases hmask : c.hasNullMask with
  | false =>
    rw [Bool.not_false, if_pos rfl]
    constructor
    · intro h
      obtain rfl := Except.ok.inj h
      refine ⟨by simp, List.length_replicate, fun i hi ↦ ?_⟩
      rw [List.getElem_replicate, Bool.and_false]
      exact ⟨rfl, rfl⟩
    · rintro ⟨-, hlength, hrows⟩
      refine congrArg Except.ok (List.eq_replicate_iff.mpr ⟨hlength, ?_⟩).symm
      intro null hnull
      obtain ⟨i, hi, rfl⟩ := List.mem_iff_getElem.mp hnull
      exact (Except.ok.inj (hrows i hi).1).symm
  | true =>
    rw [Bool.not_true, if_neg Bool.false_ne_true, bind_eq_ok, imp_iff_right rfl]
    simp only [throwIf_eq_ok, Nat.not_lt, mapM_range_eq_ok, exists_const, if_true]
    refine and_congr_right fun _ ↦ and_congr_right fun _ ↦ forall_congr' fun i ↦
      forall_congr' fun hi ↦ ?_
    constructor
    · intro h
      obtain ⟨null, hnull, h⟩ := bind_eq_ok.mp h
      obtain ⟨⟨⟩, hrequired, h⟩ := bind_eq_ok.mp h
      rw [← Except.ok.inj h]
      exact ⟨hnull, Bool.eq_false_iff.mpr (throwIf_eq_ok.mp hrequired)⟩
    · rintro ⟨hnull, hrequired⟩
      exact bind_eq_ok.mpr ⟨_, hnull,
        bind_eq_ok.mpr ⟨(), throwIf_eq_ok.mpr (Bool.eq_false_iff.mp hrequired), rfl⟩⟩

/-- A string goes behind the data and the area as a cell, if the area has room for it. -/
theorem appendString_eq_ok {length : ℕ} {copy : Except Thrown Bytes}
    (hcopy : ∀ s, copy = .ok s → s.length = length) (hout : out.2.length < 2 ^ 32) :
    appendString length copy out = .ok out' ↔ ∃ s, copy = .ok s ∧
      out.2.length + (Cell.text s).area.length < 2 ^ 32 ∧
      out' = (out.1 ++ (Cell.text s).piece kVarlenaSize out.2.length,
        out.2 ++ (Cell.text s).area) := by
  rw [appendString]
  split_ifs with hinline
  · rw [bind_eq_ok]
    refine exists_congr fun s ↦ and_congr_right fun hs ↦ ?_
    have hlength : s.length ≤ kVarlenaInlineMax := hcopy s hs ▸ hinline
    rw [Cell.area, Cell.piece, if_pos hlength, if_pos hlength, List.append_nil]
    constructor
    · intro h
      exact ⟨hout, (Except.ok.inj h).symm⟩
    · rintro ⟨-, rfl⟩
      rfl
  · rw [bind_eq_ok]
    simp only [throwOverflowIf_eq_ok, not_or, Nat.not_lt, bind_eq_ok, exists_const]
    have hroom : (out.2.length ≤ 2 ^ 32 - 1 ∧ length ≤ 2 ^ 32 - 1 - out.2.length) ↔
        out.2.length + length < 2 ^ 32 := by omega
    rw [hroom, ← exists_and_left]
    refine exists_congr fun s ↦ ?_
    rw [and_left_comm]
    refine and_congr_right fun hs ↦ ?_
    have hlength := hcopy s hs
    rw [Cell.area, Cell.piece, hlength, if_neg hinline, if_neg hinline, hlength]
    refine and_congr_right fun _ ↦ ?_
    rw [Except.ok.injEq, eq_comm]

theorem length_of_readString {s : Bytes} {first last : ℕ}
    (h : copyHostBytes a (address c.dataOffset first) (last - first) = .ok s) :
    s.length = last - first :=
  HostAllocation.length_of_copyHostBytes h

/-- One round of the loop over strings puts a cell behind those before it. -/
theorem encodeString_eq_ok (hout : out.2.length < 2 ^ 32) :
    encodeString c a offsets rowOffset nulls out row = .ok out' ↔
      ∃ cell, (if nulls.getD row false then .ok .null
        else (readString c a offsets (rowOffset + row)).map Cell.text) = Except.ok cell ∧
          out.2.length + cell.area.length < 2 ^ 32 ∧
          out' = (out.1 ++ cell.piece kVarlenaSize out.2.length, out.2 ++ cell.area) := by
  rw [encodeString]
  split_ifs with hnull
  · constructor
    · intro h
      refine ⟨.null, rfl, hout, ?_⟩
      rw [← Except.ok.inj h, Cell.area, List.append_nil]
      rfl
    · rintro ⟨cell, hcell, -, rfl⟩
      obtain rfl := Except.ok.inj hcell
      rw [Cell.area, List.append_nil]
      rfl
  · rw [bind_eq_ok]
    constructor
    · rintro ⟨⟨first, last⟩, hspan, h⟩
      obtain ⟨s, hs, hroom, rfl⟩ := (appendString_eq_ok (fun s ↦ length_of_readString) hout).mp h
      exact ⟨.text s, map_eq_ok.mpr ⟨s, bind_eq_ok.mpr ⟨(first, last), hspan, hs⟩, rfl⟩, hroom, rfl⟩
    · rintro ⟨cell, hcell, hroom, rfl⟩
      obtain ⟨s, hstring, rfl⟩ := map_eq_ok.mp hcell
      obtain ⟨⟨first, last⟩, hspan, hs⟩ := bind_eq_ok.mp hstring
      exact ⟨(first, last), hspan,
        (appendString_eq_ok (fun s ↦ length_of_readString) hout).mpr ⟨s, hs, hroom, rfl⟩⟩

/-- The loop over strings answers the layout of the cells of the rows. -/
theorem encodeStringRounds_eq_ok :
    (List.range k).foldlM (encodeString c a offsets rowOffset nulls) ([], []) = .ok out ↔
      ∃ cells, cells.length = k ∧ (∀ i (h : i < cells.length),
        (if nulls.getD i false then .ok .null
          else (readString c a offsets (rowOffset + i)).map Cell.text) = Except.ok cells[i]) ∧
        (cellArea cells).length < 2 ^ 32 ∧
        out = (cellData kVarlenaSize 0 cells, cellArea cells) := by
  have hnil : (cellArea []).length < 2 ^ 32 := by decide
  have hround (cells : List Cell) (out : Bytes × Bytes) (harea : (cellArea cells).length < 2 ^ 32) :
      encodeString c a offsets rowOffset nulls (cellData kVarlenaSize 0 cells, cellArea cells)
          cells.length = .ok out ↔
        ∃ cell, (if nulls.getD cells.length false then .ok .null
            else (readString c a offsets (rowOffset + cells.length)).map Cell.text)
              = Except.ok cell ∧ (cellArea (cells ++ [cell])).length < 2 ^ 32 ∧
          out = (cellData kVarlenaSize 0 (cells ++ [cell]), cellArea (cells ++ [cell])) := by
    rw [encodeString_eq_ok harea]
    refine exists_congr fun cell ↦ ?_
    rw [cellData_concat, cellArea_concat, List.length_append]
  exact foldlM_range_eq_ok (fun cells ↦ (cellData kVarlenaSize 0 cells, cellArea cells))
    (fun cells ↦ (cellArea cells).length < 2 ^ 32) hnil (fun _ _ ↦ length_cellArea_lt) hround

/-- A cell that is null, or one that is read. -/
theorem ite_null_eq_ok {null : Bool} {x : Except Thrown Cell}
    (hx : ∀ cell, x = .ok cell → cell.isNull = false) :
    (if null then .ok .null else x) = Except.ok cell ↔
      cell.isNull = null ∧ (cell.isNull = false → x = .ok cell) := by
  cases null with
  | true =>
    rw [if_pos rfl]
    constructor
    · intro h
      obtain rfl := Except.ok.inj h
      exact ⟨rfl, nofun⟩
    · rintro ⟨hnull, -⟩
      cases cell with
      | null => rfl
      | text s => cases hnull
      | element bs => cases hnull
  | false =>
    rw [if_neg Bool.false_ne_true]
    constructor
    · intro h
      exact ⟨hx cell h, fun _ ↦ h⟩
    · rintro ⟨hnull, h⟩
      exact h hnull

theorem readValue_of_text (htext : isText schema.oid = true)
    (hoffsets : offsetsOf c c.hasData "Sirius string result has invalid offsets or characters"
      = .ok offsets) (row : ℕ) : readValue tae decimalOfDouble c a schema row
        = (readString c a offsets row).map Cell.text := by
  rw [readValue, if_pos htext, hoffsets, ok_bind_eq]
  cases readString c a offsets row <;> rfl

theorem readValue_of_not_text (htext : isText schema.oid = false) (row : ℕ) :
    readValue tae decimalOfDouble c a schema row
      = (encodeElement tae decimalOfDouble c a schema row).map Cell.element := by
  rw [readValue, if_neg (Bool.eq_false_iff.mp htext)]
  cases encodeElement tae decimalOfDouble c a schema row <;> rfl

theorem isNull_of_readValue (h : readValue tae decimalOfDouble c a schema row = .ok cell) :
    cell.isNull = false := by
  rw [readValue] at h
  split_ifs at h with htext
  · obtain ⟨offsets, -, h⟩ := bind_eq_ok.mp h
    obtain ⟨s, -, h⟩ := bind_eq_ok.mp h
    obtain rfl := Except.ok.inj h
    rfl
  · obtain ⟨bs, -, h⟩ := bind_eq_ok.mp h
    obtain rfl := Except.ok.inj h
    rfl

theorem readCell_eq_ok : readCell tae decimalOfDouble c a schema row = .ok cell ↔
    rowNull c a row = .ok cell.isNull ∧ (schema.notNullable && cell.isNull) = false ∧
      (cell.isNull = false → readValue tae decimalOfDouble c a schema row = .ok cell) := by
  have hvalue (cell : Cell) (h : readValue tae decimalOfDouble c a schema row = .ok cell) :
      cell.isNull = false := isNull_of_readValue h
  rw [readCell, bind_eq_ok]
  constructor
  · rintro ⟨null, hnull, h⟩
    obtain ⟨⟨⟩, hrequired, h⟩ := bind_eq_ok.mp h
    obtain ⟨rfl, hread⟩ := (ite_null_eq_ok hvalue).mp h
    exact ⟨hnull, Bool.eq_false_iff.mpr (throwIf_eq_ok.mp hrequired), hread⟩
  · rintro ⟨hnull, hrequired, hread⟩
    exact ⟨cell.isNull, hnull, bind_eq_ok.mpr
      ⟨(), throwIf_eq_ok.mpr (Bool.eq_false_iff.mp hrequired),
      (ite_null_eq_ok hvalue).mpr ⟨rfl, hread⟩⟩⟩

/-- The cells of some rows, where it is known which are null. -/
def ReadsAs (tae : TaeTypes) (decimalOfDouble : NativeResultColumn → Bytes → Except Thrown ℤ)
    (c : ColumnMetadata) (a : HostAllocation) (schema : NativeResultColumn)
    (rowOffset rowCount : ℕ) (nulls : List Bool) (cells : List Cell) : Prop :=
  cells.length = rowCount ∧ ∀ i (h : i < cells.length), cells[i].isNull = nulls.getD i false ∧
    (cells[i].isNull = false →
      readValue tae decimalOfDouble c a schema (rowOffset + i) = .ok cells[i])

theorem encodeStrings_eq_ok (tae : TaeTypes)
    (decimalOfDouble : NativeResultColumn → Bytes → Except Thrown ℤ)
    (htext : isText schema.oid = true) :
    encodeStrings c a rowOffset rowCount nulls = .ok out ↔
      (∃ offsets, offsetsOf c c.hasData "Sirius string result has invalid offsets or characters"
        = .ok offsets) ∧ ∃ cells,
          ReadsAs tae decimalOfDouble c a schema rowOffset rowCount nulls cells ∧
            (cellArea cells).length < 2 ^ 32 ∧
            out = (cellData kVarlenaSize 0 cells, cellArea cells) := by
  have hcells {offsets : BufferMetadata}
      (hoffsets : offsetsOf c c.hasData "Sirius string result has invalid offsets or characters"
        = .ok offsets) (cells : List Cell) : (∀ i (h : i < cells.length),
      (if nulls.getD i false then .ok .null
        else (readString c a offsets (rowOffset + i)).map Cell.text) = Except.ok cells[i]) ↔
      ∀ i (h : i < cells.length), cells[i].isNull = nulls.getD i false ∧
        (cells[i].isNull = false →
          readValue tae decimalOfDouble c a schema (rowOffset + i) = .ok cells[i]) := by
    refine forall_congr' fun i ↦ forall_congr' fun hi ↦ ?_
    have hvalue : readValue tae decimalOfDouble c a schema (rowOffset + i)
        = (readString c a offsets (rowOffset + i)).map Cell.text :=
          readValue_of_text htext hoffsets _
    rw [← hvalue]
    exact ite_null_eq_ok fun cell ↦ isNull_of_readValue
  rw [encodeStrings, bind_eq_ok]
  constructor
  · rintro ⟨offsets, hoffsets, h⟩
    obtain ⟨cells, hlength, hread, harea, rfl⟩ := encodeStringRounds_eq_ok.mp h
    exact ⟨⟨offsets, hoffsets⟩, cells, ⟨hlength, (hcells hoffsets cells).mp hread⟩, harea, rfl⟩
  · rintro ⟨⟨offsets, hoffsets⟩, cells, ⟨hlength, hread⟩, harea, rfl⟩
    exact ⟨offsets, hoffsets, encodeStringRounds_eq_ok.mpr
      ⟨cells, hlength, (hcells hoffsets cells).mpr hread, harea, rfl⟩⟩

theorem area_of_readsAs (htext : isText schema.oid = false)
    (h : ReadsAs tae decimalOfDouble c a schema rowOffset rowCount nulls cells) :
    ∀ cell ∈ cells, cell.area = [] := by
  intro cell hcell
  obtain ⟨i, hi, rfl⟩ := List.mem_iff_getElem.mp hcell
  cases hnull : cells[i].isNull with
  | true =>
    cases hc : cells[i] with
    | null => rfl
    | text s => rw [hc] at hnull; cases hnull
    | element bs => rfl
  | false =>
    have hread := (h.2 i hi).2 hnull
    rw [readValue_of_not_text htext, map_eq_ok] at hread
    obtain ⟨bs, -, hbs⟩ := hread
    rw [← hbs]
    rfl

theorem encodeElements_eq_ok {data : Bytes} (htext : isText schema.oid = false) :
    encodeElements tae decimalOfDouble c a rowOffset rowCount nulls schema = .ok data ↔
      (c.hasData = true ∧ c.numRows.toInt.toNat * sourceSize tae c schema ≤ c.dataSize.toNat) ∧
        ∃ cells, ReadsAs tae decimalOfDouble c a schema rowOffset rowCount nulls cells ∧
          data = cellData (tae.moTypeSize schema.oid.toNat) 0 cells := by
  have hrow (row : ℕ) : (if nulls.getD row false then
        .ok (List.replicate (tae.moTypeSize schema.oid.toNat) 0)
      else encodeElement tae decimalOfDouble c a schema (rowOffset + row))
      = (if nulls.getD row false then .ok .null
        else readValue tae decimalOfDouble c a schema (rowOffset + row)).map
          (Cell.piece (tae.moTypeSize schema.oid.toNat) 0) := by
    split_ifs
    · rfl
    · rw [readValue_of_not_text htext]
      cases encodeElement tae decimalOfDouble c a schema (rowOffset + row) <;> rfl
  have hcells (cells : List Cell) : ((List.range rowCount).mapM fun row ↦
      if nulls.getD row false then .ok .null
        else readValue tae decimalOfDouble c a schema (rowOffset + row)) = .ok cells ↔
      ReadsAs tae decimalOfDouble c a schema rowOffset rowCount nulls cells := by
    rw [mapM_range_eq_ok]
    refine and_congr_right fun _ ↦ forall_congr' fun i ↦ forall_congr' fun hi ↦ ?_
    exact ite_null_eq_ok fun cell ↦ isNull_of_readValue
  rw [encodeElements, bind_eq_ok]
  simp only [throwIf_eq_ok, not_or, Bool.not_eq_true', Bool.not_eq_false, Nat.not_lt, exists_const,
    bind_eq_ok, hrow, mapM_map_eq_ok, hcells]
  refine and_congr_right fun _ ↦ ?_
  constructor
  · rintro ⟨elements, ⟨cells, hread, rfl⟩, h⟩
    refine ⟨cells, hread, ?_⟩
    rw [cellData_of_area_nil (area_of_readsAs htext hread)]
    exact (Except.ok.inj h).symm
  · rintro ⟨cells, hread, rfl⟩
    refine ⟨_, ⟨cells, hread, rfl⟩, ?_⟩
    rw [cellData_of_area_nil (area_of_readsAs htext hread)]

theorem moTypeSize_of_text (htext : isText schema.oid = true) :
    tae.moTypeSize schema.oid.toNat = kVarlenaSize := by
  rcases Bool.or_eq_true_iff.mp htext with hoid | hoid
  · rw [beq_iff_eq.mp hoid, tae.moTypeSize_code]
    rfl
  · rw [beq_iff_eq.mp hoid, tae.moTypeSize_code]
    rfl

/-- The cells that are read say which rows are null. -/
theorem readCells_iff : (∃ nulls, (nulls.length = rowCount ∧ ∀ i (h : i < nulls.length),
      rowNull c a (rowOffset + i) = .ok nulls[i] ∧ (schema.notNullable && nulls[i]) = false) ∧
      ReadsAs tae decimalOfDouble c a schema rowOffset rowCount nulls cells ∧
      enc = ⟨cellData (tae.moTypeSize schema.oid.toNat) 0 cells, cellArea cells,
        encodeNulls nulls⟩) ↔
    cells.length = rowCount ∧ (∀ i (h : i < cells.length),
      readCell tae decimalOfDouble c a schema (rowOffset + i) = .ok cells[i]) ∧
      enc = layoutColumn (tae.moTypeSize schema.oid.toNat) cells := by
  constructor
  · rintro ⟨nulls, ⟨hlength, hnulls⟩, ⟨hcells, hread⟩, rfl⟩
    have hmap : cells.map Cell.isNull = nulls := by
      refine List.ext_getElem (by rw [List.length_map, hcells, hlength]) fun i hi hi' ↦ ?_
      rw [List.getElem_map, (hread i (by omega)).1, List.getD_eq_getElem _ _ hi']
    refine ⟨hcells, fun i hi ↦ ?_, by rw [layoutColumn, hmap]⟩
    have hi' : i < nulls.length := by omega
    have hnull := (hread i hi).1
    rw [List.getD_eq_getElem _ _ hi'] at hnull
    rw [readCell_eq_ok, hnull]
    exact ⟨(hnulls i hi').1, (hnulls i hi').2, fun h ↦ (hread i hi).2 (hnull.trans h)⟩
  · rintro ⟨hcells, hread, rfl⟩
    have hrow (i : ℕ) (hi : i < cells.length) := readCell_eq_ok.mp (hread i hi)
    refine ⟨cells.map Cell.isNull, ⟨by rw [List.length_map, hcells], fun i hi ↦ ?_⟩,
      ⟨hcells, fun i hi ↦ ⟨?_, (hrow i hi).2.2⟩⟩, rfl⟩
    · rw [List.getElem_map]
      rw [List.length_map] at hi
      exact ⟨(hrow i hi).1, (hrow i hi).2.1⟩
    · rw [List.getD_eq_getElem _ _ (by rw [List.length_map]; exact hi), List.getElem_map]

/-- A column is encoded if its metadata pass and a cell is read for each of its rows. -/
theorem encodeHostColumn_eq_ok :
    encodeHostColumn tae decimalOfDouble c a rowOffset rowCount schema = .ok enc ↔
      c.Readable tae schema rowOffset rowCount ∧ ∃ cells : List Cell,
        (cellArea cells).length < 2 ^ 32 ∧ cells.length = rowCount ∧
        (∀ i (h : i < cells.length),
          readCell tae decimalOfDouble c a schema (rowOffset + i) = .ok cells[i]) ∧
        enc = layoutColumn (tae.moTypeSize schema.oid.toNat) cells := by
  simp only [← readCells_iff]
  rw [encodeHostColumn]
  simp only [bind_eq_ok, throwIf_eq_ok, exists_const, readNulls_eq_ok, not_or, Bool.not_eq_true',
    Bool.not_eq_false, Int.not_lt, Nat.not_lt]
  constructor
  · rintro ⟨⟨hmatches, hnonneg, hoffset, hcount⟩, nulls, ⟨hmask, hlength, hnulls⟩, h⟩
    cases htext : isText schema.oid with
    | true =>
      rw [htext, if_pos rfl, bind_eq_ok] at h
      obtain ⟨⟨data, area⟩, hstrings, h⟩ := h
      obtain ⟨hoffsets, cells, hread, harea, hout⟩ :=
        (encodeStrings_eq_ok tae decimalOfDouble htext).mp hstrings
      obtain ⟨rfl, rfl⟩ := Prod.mk.inj hout
      refine ⟨⟨hmatches, hnonneg, by omega, hmask, fun _ ↦ hoffsets, fun hnot ↦ ?_⟩, cells, harea,
        nulls, ⟨hlength, hnulls⟩, hread, ?_⟩
      · rw [htext] at hnot
        cases hnot
      · rw [moTypeSize_of_text htext]
        exact (Except.ok.inj h).symm
    | false =>
      rw [htext, if_neg Bool.false_ne_true, bind_eq_ok] at h
      obtain ⟨data, helements, h⟩ := h
      obtain ⟨hdata, cells, hread, rfl⟩ := (encodeElements_eq_ok htext).mp helements
      have hnil := cellArea_of_area_nil (area_of_readsAs htext hread)
      refine ⟨⟨hmatches, hnonneg, by omega, hmask, fun hnot ↦ ?_, fun _ ↦ hdata⟩, cells, ?_,
        nulls, ⟨hlength, hnulls⟩, hread, ?_⟩
      · rw [htext] at hnot
        cases hnot
      · rw [hnil]
        decide
      · rw [hnil]
        exact (Except.ok.inj h).symm
  · rintro ⟨hc, cells, harea, nulls, ⟨hlength, hnulls⟩, hread, rfl⟩
    have hrange := hc.range_le
    refine ⟨⟨hc.matches_eq, hc.numRows_nonneg, by omega, by omega⟩, nulls,
      ⟨hc.mask_le, hlength, hnulls⟩, ?_⟩
    cases htext : isText schema.oid with
    | true =>
      rw [if_pos rfl, bind_eq_ok]
      refine ⟨(cellData kVarlenaSize 0 cells, cellArea cells),
        (encodeStrings_eq_ok tae decimalOfDouble htext).mpr
        ⟨hc.offsets_ok htext, cells, hread, harea, rfl⟩, ?_⟩
      rw [moTypeSize_of_text htext]
    | false =>
      rw [if_neg Bool.false_ne_true, bind_eq_ok]
      refine ⟨_, (encodeElements_eq_ok htext).mpr ⟨hc.data_le htext, cells, hread, rfl⟩, ?_⟩
      rw [cellArea_of_area_nil (area_of_readsAs htext hread)]

end

end MoSidecar
