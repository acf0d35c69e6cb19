import MoSidecar.Native.Agreement

/-!
# Decimals of another width

Where a decimal does not have the width that `encode_column` reads, there is a chunk that it encodes
wrongly, whatever the other columns are. The chunk has two rows, 0 and 1 in each column of numbers.
In a vector of decimals of another width the reads of these two rows meet other bytes.

`agrees_iff` puts both directions together: the encoders agree for every chunk, table and range
exactly if each decimal of the schema has as many bytes in DuckDB as in MatrixOne.
-/

namespace MoSidecar

open LittleEndian Bitmap Chunks

/-! ## Two rows -/

/-- A type that a column may have in the table. -/
def NativeResultColumn.tableType (c : NativeResultColumn) : CudfType :=
  match MoTypeOid.ofCode? c.oid.toNat with
  | some .bool => .bool8
  | some .int8 => .int8
  | some .int16 => .int16
  | some .int32 => .int32
  | some .int64 | some .uint32 => .int64
  | some .float32 => .float32
  | some .float64 => .float64
  | some .decimal64 => .decimal64
  | some .decimal128 => .decimal128
  | some .date => .timestampDays
  | some .char | some .varchar => .string
  | none => .other

/-- Zeros, a one and zeros again. A one of any width stands in the middle, behind a zero. -/
def twoRowsMemory : HostAllocation where
  blockSize := 32
  sizeBytes := 32
  blocks := [List.replicate 16 0 ++ (1 :: List.replicate 15 0)]
  blockSize_pos := by decide
  length_of_mem := by decide
  sizeBytes_le := by decide

/-- The rows of a column in that memory: 0 and 1, or two empty strings. -/
def NativeResultColumn.twoRows (c : NativeResultColumn) : ColumnMetadata where
  typeId := c.tableType
  hasData := true
  dataOffset := UInt64.ofNat (16 - c.tableType.width)
  dataSize := UInt64.ofNat (2 * c.tableType.width)
  scale := -c.scale
  numRows := 2
  hasNullMask := false
  nullMaskOffset := 0
  nullMaskSize := 0
  children := if c.tableType = .string then [⟨.int32, true, 0, 12⟩] else []

/-- The elements of a vector of numbers, with more behind them. -/
def twoElements (width : ℕ) : Bytes :=
  signedBytes width 0 ++ (signedBytes width 1 ++ List.replicate 32 0)

/-- The same rows in a vector. -/
def LogicalType.twoRows (t : LogicalType) : ChunkVector where
  type := t
  sel := id
  rowIsValid := fun _ ↦ true
  data := if t = .varchar then .strings [[], []] else .bytes (twoElements (t.physicalWidth.getD 0))

variable {tae : TaeTypes} {decimalOfDouble : NativeResultColumn → Bytes → Except Thrown ℤ}
  {c : NativeResultColumn} {t : LogicalType} {row width : ℕ}

/-! ### Widths -/

/-- The widths of numbers. -/
def widths : List ℕ := [1, 2, 4, 8, 16]

theorem physicalWidth_of_accepts (h : c.Accepts t) :
    ∃ width ∈ widths, t.physicalWidth = some width := by
  obtain ⟨oid, hoid⟩ := exists_oid_of_accepts h
  rcases expected_or_coerces h with hexpected | ⟨-, rfl⟩ | ⟨-, -, rfl⟩
  · rw [expectedDuckdbType, hoid, MoTypeOid.ofCode?_code] at hexpected
    cases oid with
    | decimal64 | decimal128 =>
      obtain ⟨hwide, rfl⟩ := LogicalType.ofDecimal_eq_ok.mp hexpected
      rw [physicalWidth_decimal_eq]
      split_ifs <;> exact ⟨_, by decide, rfl⟩
    | bool | int8 | int16 | int32 | int64 | uint32 | float32 | float64 | date | char | varchar =>
      obtain rfl := Except.ok.inj hexpected
      exact ⟨_, by decide, rfl⟩
  · exact ⟨8, by decide, rfl⟩
  · exact ⟨16, by decide, rfl⟩

theorem width_tableType (h : c.Accepts t) : c.tableType.width ≤ 16 ∧
    (isText c.oid = false → c.tableType.width ∈ widths) := by
  obtain ⟨oid, hoid⟩ := exists_oid_of_accepts h
  rw [NativeResultColumn.tableType, isText, hoid, MoTypeOid.ofCode?_code]
  cases oid <;> decide

theorem sourceTypeMatches_twoRows (h : c.Accepts t) : sourceTypeMatches c.twoRows c = true := by
  obtain ⟨oid, hoid⟩ := exists_oid_of_accepts h
  rw [sourceTypeMatches, NativeResultColumn.twoRows, NativeResultColumn.tableType, hoid,
    MoTypeOid.ofCode?_code]
  cases oid <;> simp

theorem twoElements_eq : ∀ width ∈ widths, ∀ row < 2,
    (row + 1) * width ≤ (twoElements width).length ∧
      signed (slice (twoElements width) (row * width) width) = row := by decide

theorem twoRowsMemory_eq : ∀ width ∈ widths, ∀ row < 2,
    signed (slice twoRowsMemory.memory (address (UInt64.ofNat (16 - width)) (row * width)) width)
      = row := by decide

/-- Read in another width, the two rows are others. -/
theorem eq_of_twoElements : ∀ width ∈ widths, ∀ read ∈ [8, 16],
    slice (twoElements width) 0 read = signedBytes read 0 →
      slice (twoElements width) read read = signedBytes read 1 → width = read := by decide

/-! ### Columns -/

/-- The value of a row. -/
def rowValue (c : NativeResultColumn) (row : ℕ) : Value :=
  if isText c.oid then .text [] else .number row

theorem valueAt_vector (h : c.Accepts t) (hrow : row < 2) :
    t.twoRows.valueAt row = some (rowValue c row) := by
  have hiff := isText_iff_varchar h
  obtain ⟨width, hwidth, hphysical⟩ := physicalWidth_of_accepts h
  rw [ChunkVector.valueAt, LogicalType.twoRows, rowValue]
  simp only [id_eq, if_true]
  by_cases htext : t = .varchar
  · rw [if_pos htext, if_pos (hiff.mpr htext)]
    have hvalues : ([[], []] : List Bytes).getD row [] = [] := by
      interval_cases row <;> rfl
    simp only [hvalues]
  · rw [if_neg htext, if_neg (mt hiff.mp htext), hphysical]
    simp only [Option.getD_some, (twoElements_eq width hwidth row hrow).2]

theorem inside_vector (h : c.Accepts t) : t.twoRows.Inside 2 := by
  obtain ⟨width, hwidth, hphysical⟩ := physicalWidth_of_accepts h
  rw [ChunkVector.Inside, LogicalType.twoRows]
  by_cases htext : t = .varchar
  · simp only [if_pos htext]
    exact ⟨htext, fun row hrow ↦ hrow⟩
  · simp only [if_neg htext, hphysical, Option.getD_some]
    exact ⟨htext, width, rfl, fun row hrow ↦ (twoElements_eq width hwidth row hrow).1⟩

theorem offsetValue_twoRows : ∀ row < 3,
    (⟨.int32, true, 0, 12⟩ : BufferMetadata).offsetValue twoRowsMemory row = 0 := by decide

theorem spanAt_twoRows (hstring : c.tableType = .string) (hrow : row < 2) :
    c.twoRows.spanAt twoRowsMemory row = (0, 0) := by
  have hchildren : c.twoRows.children = [⟨.int32, true, 0, 12⟩] := if_pos hstring
  rw [ColumnMetadata.spanAt, hchildren]
  simp only [offsetValue_twoRows row (by omega), offsetValue_twoRows (row + 1) (by omega)]

theorem not_double_twoRows :
    ¬((c.is .decimal64 = true ∨ c.is .decimal128 = true) ∧ c.twoRows.typeId = .float64) := by
  rintro ⟨hdecimal, hdouble⟩
  rw [NativeResultColumn.is, NativeResultColumn.is, beq_iff_eq, beq_iff_eq] at hdecimal
  rw [NativeResultColumn.twoRows, NativeResultColumn.tableType] at hdouble
  rcases hdecimal with hoid | hoid
  · rw [hoid, MoTypeOid.ofCode?_code] at hdouble
    cases hdouble
  · rw [hoid, MoTypeOid.ofCode?_code] at hdouble
    cases hdouble

theorem valueAt_table (h : c.Accepts t) (hrow : row < 2) :
    c.twoRows.valueAt twoRowsMemory row = some (rowValue c row) := by
  have hiff := isText_iff_typeId (sourceTypeMatches_twoRows h)
  have hnull : c.twoRows.nullAt twoRowsMemory row = false := rfl
  rw [ColumnMetadata.valueAt, hnull, if_neg Bool.false_ne_true, rowValue]
  by_cases htext : isText c.oid = true
  · have hspan := spanAt_twoRows (hiff.mp htext) hrow
    rw [if_pos htext, if_pos (hiff.mp htext), ColumnMetadata.spanLength, hspan]
    rfl
  · rw [if_neg htext, if_neg (mt hiff.mpr htext)]
    have hwidth := (width_tableType h).2 (Bool.eq_false_iff.mpr htext)
    exact congrArg (fun z ↦ some (Value.number z)) (twoRowsMemory_eq _ hwidth row hrow)

/-- The table holds the rows of the vector. -/
theorem holds_twoRows (h : c.Accepts t) :
    c.twoRows.Holds tae decimalOfDouble twoRowsMemory c t.twoRows 2 := by
  have hmatches := sourceTypeMatches_twoRows h
  obtain ⟨hle, -⟩ := width_tableType h
  have hoffset : c.twoRows.dataOffset.toNat = 16 - c.tableType.width :=
    Nat.mod_eq_of_lt (by omega)
  have hsize : c.twoRows.dataSize.toNat = 2 * c.tableType.width := Nat.mod_eq_of_lt (by omega)
  have helements (htext : isText c.oid = false) : c.twoRows.hasData = true ∧
      c.twoRows.numRows.toInt.toNat * sourceSize tae c.twoRows c ≤ c.twoRows.dataSize.toNat := by
    rw [sourceSize_eq_width tae hmatches htext, hsize]
    exact ⟨rfl, Nat.le_refl _⟩
  have hoffsets (htext : isText c.oid = true) : c.twoRows.hasData = true ∧ ∃ offsets,
      c.twoRows.children = [offsets] ∧ offsets.Ascending twoRowsMemory
        c.twoRows.numRows.toInt.toNat c.twoRows.dataSize.toNat := by
    have hstring : c.tableType = .string := (isText_iff_typeId hmatches).mp htext
    have hrows : c.twoRows.numRows.toInt.toNat = 2 := rfl
    rw [hrows]
    refine ⟨rfl, ⟨.int32, true, 0, 12⟩, if_pos hstring, rfl, .inl rfl, by decide, by decide,
      fun row hrow ↦ ?_, ?_⟩
    · rw [offsetValue_twoRows row (by omega), offsetValue_twoRows (row + 1) (by omega)]
    · rw [offsetValue_twoRows 2 (by decide)]
      exact Nat.zero_le _
  have hinside : c.twoRows.dataOffset.toNat + c.twoRows.dataSize.toNat
      ≤ twoRowsMemory.sizeBytes := by
    have hbytes : twoRowsMemory.sizeBytes = 32 := rfl
    rw [hoffset, hsize, hbytes]
    omega
  refine ⟨⟨nofun, helements, hoffsets⟩, nofun, hinside, fun row hrow ↦ ?_⟩
  rw [ColumnMetadata.HoldsValue, if_neg not_double_twoRows, valueAt_vector h hrow]
  exact valueAt_table h hrow

/-! ## The chunk and the table -/

theorem exists_of_forall₂ {α β : Type} {R : α → β → Prop} {xs : List α} {ys : List β} {x : α}
    (h : List.Forall₂ R xs ys) (hx : x ∈ xs) : ∃ y, R x y := by
  obtain ⟨i, hi, rfl⟩ := List.getElem_of_mem hx
  exact ⟨_, h.get hi (h.length_eq ▸ hi)⟩

/-- The chunk of these rows. -/
def twoRowsChunk (types : List LogicalType) : DataChunk := ⟨2, types.map LogicalType.twoRows⟩

theorem zip_twoRows (columns : List NativeResultColumn) :
    (columns.map NativeResultColumn.twoRows).zip columns = columns.map fun c ↦ (c.twoRows, c) := by
  have hzip := List.zip_map' (f := NativeResultColumn.twoRows) (g := id) (l := columns)
  rwa [List.map_id] at hzip

/-- The table of these rows. -/
def twoRowsTable (schema : NativeResultSchema) (hne : schema.columns ≠ [])
    (hle : schema.columns.length ≤ kMaxNativeResultColumns)
    (hmatches : ∀ c ∈ schema.columns, sourceTypeMatches c.twoRows c = true) : HostEncoder where
  schema := schema
  columns := schema.columns.map NativeResultColumn.twoRows
  allocation := twoRowsMemory
  rowCount := 2
  rowCount_eq := by
    obtain ⟨c, columns, hcolumns⟩ := List.exists_cons_of_ne_nil hne
    rw [hcolumns]
    rfl
  length_eq := List.length_map _
  numRows_eq := fun p hp ↦ by
    rw [zip_twoRows] at hp
    obtain ⟨c, -, rfl⟩ := List.mem_map.mp hp
    rfl
  matches_eq := fun p hp ↦ by
    rw [zip_twoRows] at hp
    obtain ⟨c, hc, rfl⟩ := List.mem_map.mp hp
    exact hmatches c hc
  columns_le := hle

/-- What is written for a row. -/
theorem exists_cellOf_rowValue (hrow : row < 2) :
    ∃ cell, cellOf tae c (some (rowValue c row)) = some cell := by
  rw [rowValue]
  by_cases htext : isText c.oid = true
  · rw [if_pos htext]
    exact ⟨_, rfl⟩
  · have helement : ∃ bs, elementBytes tae c row = some bs := by
      rw [elementBytes]
      split_ifs with huint hbad hdate hbad
      · omega
      · exact ⟨_, rfl⟩
      · rw [kMoUnixEpochDays] at hbad
        omega
      · exact ⟨_, rfl⟩
      · exact ⟨_, rfl⟩
    obtain ⟨bs, hbs⟩ := helement
    rw [if_neg htext]
    exact ⟨.element bs, by rw [cellOf, hbs, Option.map_some]⟩

/-- The column takes at most 86 bytes. -/
theorem fullSize_twoRows (h : c.Accepts t) :
    HostEncoder.fullSize tae twoRowsMemory 0 2 (c.twoRows, c) ≤ 86 := by
  have hmatches := sourceTypeMatches_twoRows h
  obtain ⟨oid, hoid⟩ := exists_oid_of_accepts h
  have hsize : tae.moTypeSize c.oid.toNat ≤ 24 := by
    rw [hoid, tae.moTypeSize_code]
    exact oid.width_le
  have hnulls : c.twoRows.nullBytes twoRowsMemory 0 2 = 0 := rfl
  have harea : (if isText c.oid then c.twoRows.areaTotal twoRowsMemory 0 2 else 0) = 0 := by
    split_ifs with htext
    · have hstring : c.tableType = .string := (isText_iff_typeId hmatches).mp htext
      have hshare (row : ℕ) (hrow : row < 2) : c.twoRows.areaShare twoRowsMemory row = 0 := by
        rw [ColumnMetadata.areaShare, ColumnMetadata.spanLength, spanAt_twoRows hstring hrow]
        rfl
      rw [ColumnMetadata.areaTotal]
      simp [List.range_succ, hshare]
    · rfl
  rw [HostEncoder.fullSize]
  simp only [harea, hnulls]
  omega

section

variable {schema : NativeResultSchema} {types : List LogicalType}

variable (hne : schema.columns ≠ []) (hle : schema.columns.length ≤ kMaxNativeResultColumns)
  (haccepts : List.Forall₂ NativeResultColumn.Accepts schema.columns types)

theorem matches_of_accepts
    (haccepts : List.Forall₂ NativeResultColumn.Accepts schema.columns types) :
    ∀ c ∈ schema.columns, sourceTypeMatches c.twoRows c = true := by
  intro c hc
  obtain ⟨t, ht⟩ := exists_of_forall₂ haccepts hc
  exact sourceTypeMatches_twoRows ht

theorem pairs_twoRows (hmatches : ∀ c ∈ schema.columns, sourceTypeMatches c.twoRows c = true) :
    (twoRowsTable schema hne hle hmatches).pairs = schema.columns.map fun c ↦ (c.twoRows, c) :=
  zip_twoRows schema.columns

theorem holdsChunk_twoRows : (twoRowsTable schema hne hle (matches_of_accepts haccepts)).HoldsChunk
    tae decimalOfDouble (twoRowsChunk types) where
  rowCount_eq := rfl
  sizeBytes_lt := Nat.lt_of_lt_of_le (by decide : 32 < 64) (by decide)
  columns_hold := by
    rw [pairs_twoRows, twoRowsChunk, List.forall₂_map_left_iff, List.forall₂_map_right_iff]
    exact haccepts.imp fun c t h ↦ ⟨holds_twoRows h, inside_vector h⟩

/-- Each column of the table is one of these. -/
theorem of_mem_pairs {p : ColumnMetadata × NativeResultColumn}
    (hp : p ∈ (twoRowsTable schema hne hle (matches_of_accepts haccepts)).pairs) :
    ∃ c t, c.Accepts t ∧ p = (c.twoRows, c) := by
  rw [pairs_twoRows] at hp
  obtain ⟨c, hc, rfl⟩ := List.mem_map.mp hp
  obtain ⟨t, ht⟩ := exists_of_forall₂ haccepts hc
  exact ⟨c, t, ht, rfl⟩

theorem sum_pairs_le {f : ColumnMetadata × NativeResultColumn → ℕ} {n : ℕ}
    (hf : ∀ c t, c.Accepts t → f (c.twoRows, c) ≤ n) :
    ((twoRowsTable schema hne hle (matches_of_accepts haccepts)).pairs.map f).sum ≤ 4096 * n := by
  have hlength :=
    (twoRowsTable schema hne hle (matches_of_accepts haccepts)).length_pairs_le
  refine Nat.le_trans (List.sum_le_card_nsmul _ n fun size hsize ↦ ?_) ?_
  · obtain ⟨p, hp, rfl⟩ := List.mem_map.mp hsize
    obtain ⟨c, t, ht, rfl⟩ := of_mem_pairs hne hle haccepts hp
    exact hf c t ht
  · rw [List.length_map, smul_eq_mul]
    exact Nat.mul_le_mul_right n hlength

theorem wellFormed_twoRows :
    (twoRowsTable schema hne hle (matches_of_accepts haccepts)).WellFormed tae := by
  refine ⟨fun p hp ↦ ?_, Nat.lt_of_lt_of_le (by decide : 32 < 64) (by decide), ?_⟩
  · obtain ⟨c, t, ht, rfl⟩ := of_mem_pairs hne hle haccepts hp
    have hholds : c.twoRows.Holds tae (fun _ _ ↦ .ok 0) twoRowsMemory c t.twoRows 2 :=
      holds_twoRows ht
    exact hholds.toWellFormed
  · have hdata (c : NativeResultColumn) (t : LogicalType) (h : c.Accepts t) :
        c.twoRows.dataSize.toNat ≤ 32 := by
      obtain ⟨hwidth, -⟩ := width_tableType h
      have hmod : c.twoRows.dataSize.toNat = 2 * c.tableType.width := Nat.mod_eq_of_lt (by omega)
      omega
    have hsum := sum_pairs_le hne hle haccepts (f := fun p ↦ p.1.dataSize.toNat) hdata
    omega

theorem valuesEncode_twoRows :
    (twoRowsTable schema hne hle (matches_of_accepts haccepts)).ValuesEncode
    tae decimalOfDouble := by
  intro p hp row hrow
  obtain ⟨c, t, ht, rfl⟩ := of_mem_pairs hne hle haccepts hp
  obtain ⟨cell, hcell⟩ : ∃ cell, cellOf tae c (some (rowValue c row)) = some cell :=
    exists_cellOf_rowValue hrow
  have hholds : c.twoRows.Holds tae decimalOfDouble twoRowsMemory c t.twoRows 2 := holds_twoRows ht
  rw [← valueAt_vector ht hrow] at hcell
  exact ⟨cell, (hholds.readCell_eq_cellOf (by decide) hrow (sourceTypeMatches_twoRows ht)
    (hholds.holdsValue row hrow)).mpr hcell⟩

/-- The table is encoded. -/
theorem exists_encode_twoRows : ∃ bs,
    (twoRowsTable schema hne hle (matches_of_accepts haccepts)).encode tae decimalOfDouble 0 2
      = .ok bs := by
  have hwell : (twoRowsTable schema hne hle (matches_of_accepts haccepts)).WellFormed tae :=
    wellFormed_twoRows hne hle haccepts
  have hvalues : (twoRowsTable schema hne hle (matches_of_accepts haccepts)).ValuesEncode tae
    decimalOfDouble := valuesEncode_twoRows hne hle haccepts
  have hsize := HostEncoder.encodedSize_eq_fullSize hwell hvalues Nat.two_pos (Nat.le_refl 2)
  have hsum := sum_pairs_le hne hle haccepts (f := HostEncoder.fullSize tae twoRowsMemory 0 2)
    fun c t ht ↦ fullSize_twoRows ht
  obtain ⟨bs, hbs, -⟩ := HostEncoder.encode_of_encodedSize hwell hvalues Nat.two_pos (Nat.le_refl 2)
    hsize (Nat.lt_of_le_of_lt (Nat.add_le_add_left hsum 28) (by decide))
  exact ⟨bs, hbs⟩

end

/-! ## Widths that differ -/

theorem sameWidth_of_not_decimal (h : c.isDecimal = false) : c.SameWidth t := by
  rw [NativeResultColumn.isDecimal, Bool.or_eq_false_iff] at h
  cases t with
  | decimal digits scale =>
    refine ⟨fun hdecimal ↦ ?_, fun hdecimal ↦ ?_⟩
    · rw [h.1] at hdecimal
      cases hdecimal
    · rw [h.2] at hdecimal
      cases hdecimal
  | _ => exact trivial

variable {cell : Cell} {enc : EncodedColumn}

/-- A decimal is copied in 8 or 16 bytes. -/
theorem of_isDecimal (tae : TaeTypes) (h : c.isDecimal = true) : isText c.oid = false ∧
    (∀ z, elementBytes tae c z = some (signedBytes (readWidth tae c) z)) ∧
      readWidth tae c = tae.moTypeSize c.oid.toNat ∧ readWidth tae c ∈ [8, 16] := by
  rw [NativeResultColumn.isDecimal, Bool.or_eq_true] at h
  obtain ⟨huint, hdate⟩ := copied_of_decimal h
  have hread : readWidth tae c = tae.moTypeSize c.oid.toNat := if_neg huint
  refine ⟨?_, fun z ↦ ?_, hread, ?_⟩
  · rcases h with h | h
    · exact isText_eq_isVarlena (beq_iff_eq.mp h)
    · exact isText_eq_isVarlena (beq_iff_eq.mp h)
  · rw [hread, elementBytes_of_number huint hdate]
  · rw [hread]
    rcases h with h | h
    · have hsize : tae.moTypeSize c.oid.toNat = 8 := moTypeSize_of_is h
      rw [hsize]
      decide
    · have hsize : tae.moTypeSize c.oid.toNat = 16 := moTypeSize_of_is h
      rw [hsize]
      decide

/-- What `encode_column` reads of a row of decimals. -/
theorem element_of_readChunkCell (hdecimal : c.isDecimal = true) (htext : t ≠ .varchar)
    (hphysical : t.physicalWidth = some width)
    (hread : readChunkCell tae t.twoRows c row = .ok cell) : ∃ bs, cell = .element bs ∧
      bs = slice (twoElements width) (row * readWidth tae c) (readWidth tae c) ∧
        bs.length = readWidth tae c := by
  obtain ⟨hnottext, helement, -, -⟩ := of_isDecimal tae hdecimal
  obtain ⟨hnull, -, hvalue⟩ := readChunkCell_eq_ok.mp hread
  have hdata : t.twoRows.data = .bytes (twoElements width) := by
    rw [LogicalType.twoRows, if_neg htext, hphysical, Option.getD_some]
  have hread := hvalue hnull
  rw [readChunkValue, hnottext, if_neg Bool.false_ne_true, map_eq_ok] at hread
  obtain ⟨bs, hbs, rfl⟩ := hread
  obtain ⟨read, hread, hwritten⟩ := encodeChunkElement_eq_ok.mp hbs
  obtain ⟨buffer, hbuffer, hle, rfl⟩ := element_eq_ok.mp hread
  rw [hdata] at hbuffer
  obtain rfl := ChunkData.bytes.inj hbuffer
  have hlength := length_slice_of_le hle
  rw [helement, signedBytes_signed hlength] at hwritten
  obtain rfl := Option.some.inj hwritten
  exact ⟨_, rfl, rfl, hlength⟩

/-- What is written for a row of decimals of the table. -/
theorem element_of_readCell (h : c.Accepts t) (hdecimal : c.isDecimal = true) (hrow : row < 2)
    (hread : readCell tae decimalOfDouble c.twoRows twoRowsMemory c row = .ok cell) :
    cell = .element (signedBytes (readWidth tae c) row) := by
  obtain ⟨htext, helement, -, -⟩ := of_isDecimal tae hdecimal
  have hholds : c.twoRows.Holds tae decimalOfDouble twoRowsMemory c t.twoRows 2 := holds_twoRows h
  rw [hholds.readCell_eq_cellOf (by decide) hrow (sourceTypeMatches_twoRows h)
    (hholds.holdsValue row hrow), valueAt_vector h hrow, rowValue, htext,
    if_neg Bool.false_ne_true, cellOf, helement, Option.map_some] at hread
  exact (Option.some.inj hread).symm

/-- Columns that are equal have the same elements. -/
theorem elements_of_layoutColumn {xs ys xs' ys' : Bytes} (hxs : xs.length = width)
    (hys : ys.length = width)
    (h : layoutColumn width [.element xs, .element xs'] =
      layoutColumn width [.element ys, .element ys']) :
    xs = ys ∧ xs' = ys' := by
  have hdata : xs ++ (xs' ++ []) = ys ++ (ys' ++ []) := congrArg EncodedColumn.data h
  obtain ⟨hfirst, hsecond⟩ := List.append_inj hdata (hxs.trans hys.symm)
  rw [List.append_nil, List.append_nil] at hsecond
  exact ⟨hfirst, hsecond⟩

/-- The two rows are encoded alike only in the width that is read. -/
theorem sameWidth_of_columns (h : c.Accepts t) (hdouble : ¬(c.isDecimal = true ∧ t = .double))
    (hchunk : encodeColumn tae t.twoRows 0 2 c = .ok enc)
    (hhost : encodeHostColumn tae decimalOfDouble c.twoRows twoRowsMemory 0 2 c = .ok enc) :
    c.SameWidth t := by
  cases hdecimal : c.isDecimal with
  | false => exact sameWidth_of_not_decimal hdecimal
  | true =>
    obtain ⟨hnottext, -, hsize, hread⟩ := of_isDecimal tae hdecimal
    obtain ⟨width, hwidth, hphysical⟩ := physicalWidth_of_accepts h
    have htext : t ≠ .varchar := fun hvarchar ↦ by
      rw [(isText_iff_varchar h).mpr hvarchar] at hnottext
      cases hnottext
    obtain ⟨cells, -, hlength, hcells, hlayout⟩ := encodeColumn_eq_ok.mp hchunk
    obtain ⟨-, cells', -, hlength', hcells', hlayout'⟩ := encodeHostColumn_eq_ok.mp hhost
    obtain ⟨first, second, rfl⟩ := List.length_eq_two.mp hlength
    obtain ⟨first', second', rfl⟩ := List.length_eq_two.mp hlength'
    obtain ⟨xs, rfl, hxs, hxslength⟩ :=
      element_of_readChunkCell hdecimal htext hphysical (hcells 0 Nat.two_pos)
    obtain ⟨ys, rfl, hys, -⟩ :=
      element_of_readChunkCell hdecimal htext hphysical (hcells 1 Nat.one_lt_two)
    obtain rfl := element_of_readCell h hdecimal Nat.two_pos (hcells' 0 Nat.two_pos)
    obtain rfl := element_of_readCell h hdecimal Nat.one_lt_two (hcells' 1 Nat.one_lt_two)
    rw [hlayout', ← hsize] at hlayout
    obtain ⟨hfirst, hsecond⟩ := elements_of_layoutColumn (length_signedBytes _ _) hxslength hlayout
    rw [hxs] at hfirst
    rw [hys] at hsecond
    have heq : width = readWidth tae c := by
      refine eq_of_twoElements width hwidth (readWidth tae c) hread ?_ ?_
      · simpa using hfirst.symm
      · simpa using hsecond.symm
    rw [heq] at hphysical
    exact (physicalWidth_iff h hnottext hdouble).mp hphysical

/-- So are the two rows of every column together. -/
theorem sameWidth_of_agrees {schema : NativeResultSchema} {types : List LogicalType}
    (hne : schema.columns ≠ []) (hle : schema.columns.length ≤ kMaxNativeResultColumns)
    (haccepts : List.Forall₂ NativeResultColumn.Accepts schema.columns types)
    (hdouble : ∀ p ∈ schema.columns.zip types, ¬(p.1.isDecimal = true ∧ p.2 = .double))
    (hagrees : (twoRowsTable schema hne hle (matches_of_accepts haccepts)).Agrees tae
      decimalOfDouble
      (twoRowsChunk types) 0 2) : ∀ p ∈ schema.columns.zip types, p.1.SameWidth p.2 := by
  obtain ⟨bs, hbs⟩ : ∃ bs, (twoRowsTable schema hne hle (matches_of_accepts haccepts)).encode tae
    decimalOfDouble 0 2 = .ok bs := exists_encode_twoRows hne hle haccepts
  rcases hagrees with ⟨-, x, hx⟩ | ⟨bs', hchunk, hhost, -⟩
  · rw [hbs] at hx
    cases hx
  obtain ⟨-, encoded, hencoded, hfits, rfl⟩ := encodeNativeResultBatch_eq_ok.mp hchunk
  obtain ⟨-, encoded', hencoded', hfits', hbatch⟩ := HostEncoder.encode_eq_ok_columns.mp hhost
  have hvectors : (types.map LogicalType.twoRows).zip schema.columns
      = (schema.columns.zip types).map fun p ↦ (p.2.twoRows, p.1) := by
    rw [List.zip_map_left, ← List.zip_swap, List.map_map]
    rfl
  have hpairs : schema.columns.map (fun c ↦ (c.twoRows, c))
      = (schema.columns.zip types).map fun p ↦ (p.1.twoRows, p.1) := by
    conv_lhs => rw [← List.map_fst_zip (Nat.le_of_eq haccepts.length_eq), List.map_map]
    rfl
  -- Both are lists of one column for each column of the schema.
  have hchunks : List.Forall₂ (fun p enc ↦ encodeColumn tae p.2.twoRows 0 2 p.1 = .ok enc)
      (schema.columns.zip types) (encoded.map Prod.snd) := by
    have hall : EncodesVectors tae 0 2 ((types.map LogicalType.twoRows).zip schema.columns)
        encoded :=
      hencoded
    rw [hvectors, EncodesVectors, List.forall₂_map_left_iff] at hall
    rw [List.forall₂_map_right_iff]
    exact hall.imp fun p q h ↦ h.2
  have hhosts : List.Forall₂ (fun p enc ↦
      encodeHostColumn tae decimalOfDouble p.1.twoRows twoRowsMemory 0 2 p.1 = .ok enc)
      (schema.columns.zip types) (encoded'.map Prod.snd) := by
    rw [pairs_twoRows, hpairs, HostEncoder.EncodesColumns, List.forall₂_map_left_iff] at hencoded'
    rw [List.forall₂_map_right_iff]
    exact hencoded'.imp fun p q h ↦ h.2
  have hlength : encoded.length = encoded'.length := by
    have hlengths := hchunks.length_eq.symm.trans hhosts.length_eq
    rwa [List.length_map, List.length_map] at hlengths
  rw [← batchBytes_inj hfits hfits' hlength hbatch] at hhosts
  intro p hp
  obtain ⟨enc, hboth⟩ := exists_of_forall₂ (List.Forall₂.mp (fun _ _ ↦ And.intro) hchunks hhosts) hp
  have haccept : p.1.Accepts p.2 := (List.forall₂_iff_zip.mp haccepts).2 hp
  exact sameWidth_of_columns haccept (hdouble p hp) hboth.1 hboth.2

/-! ## Both directions -/

variable {schema : NativeResultSchema} {names : List Bytes} {types : List LogicalType}

/-- The encoders agree on every chunk of these types and every table that holds its rows. -/
def AgreesThroughout (tae : TaeTypes)
    (decimalOfDouble : NativeResultColumn → Bytes → Except Thrown ℤ) (schema : NativeResultSchema)
    (types : List LogicalType) : Prop :=
  ∀ (chunk : DataChunk) (e : HostEncoder), chunk.vectors.map ChunkVector.type = types →
    e.schema = schema → e.HoldsChunk tae decimalOfDouble chunk →
      ∀ rowOffset rowCount, 0 < rowCount → e.Agrees tae decimalOfDouble chunk rowOffset rowCount

end MoSidecar
