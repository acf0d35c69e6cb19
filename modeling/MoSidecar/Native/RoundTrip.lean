import MoSidecar.Native.Elements
import MoSidecar.Native.Preservation

/-!
# The decoder reads what the encoder writes

A batch that is encoded from a table is accepted by the decoder, for every schema whose types its
columns match, and each of its rows says what the row of the table says. Both sides were brought to
a common form: the encoder writes the layout of cells, and the decoder accepts the bytes of a vector
that is `Valid`. So the vector that the layout stands for is written down, `viewOf`, and what is
left is that it is valid and that its rows are the cells.

The two sides use different values, and `ColumnMetadata.valueAt` is where they are brought together:
a mask has a one for each row that is not null, a decimal or an integer may be narrower than what is
written, and the dates of a table are counted from another day.
-/

namespace MoSidecar

open LittleEndian Bitmap Chunks

/-! ## Values of a table -/

/-- The value of a row of a table, or nothing where it is null. -/
def ColumnMetadata.valueAt (c : ColumnMetadata) (a : HostAllocation) (row : ℕ) : Option Value :=
  if c.nullAt a row then none
  else if c.typeId = .string then
    some (.text (slice a.memory (address c.dataOffset (c.spanAt a row).1) (c.spanLength a row)))
  else some (.number (signed
    (slice a.memory (address c.dataOffset (row * c.typeId.width)) c.typeId.width)))

/-! ## Null bitmaps -/

/-- The words of the bitmap that is written. There are none if no row is null. -/
def nullWordsOf (nulls : List Bool) : Bytes :=
  if nulls.count true = 0 then [] else (pack nulls).flatMap (bytes 8)

variable {nulls : List Bool} {words : List ℕ} {row rows : ℕ}

/-- Words that are written are read. -/
theorem wordsOf_flatMap_bytes (hwords : ∀ word ∈ words, word < 2 ^ 64) :
    wordsOf (words.flatMap (bytes 8)) = words := by
  have hpieces : ∀ piece ∈ words.map (bytes 8), piece.length = 8 := by
    intro piece hpiece
    obtain ⟨word, -, rfl⟩ := List.mem_map.mp hpiece
    exact length_bytes 8 word
  have hcount : (words.flatMap (bytes 8)).length / 8 = words.length := by
    rw [length_flatMap_bytes, Nat.mul_div_cancel _ (by decide)]
  refine List.ext_getElem (by rw [length_wordsOf, hcount]) fun i hi hi' ↦ ?_
  have hpiece := chunk_flatten (i := i) hpieces (by rw [List.length_map]; exact hi')
  rw [List.getElem_map] at hpiece
  rw [chunk, Nat.mul_comm] at hpiece
  simp only [wordsOf, List.getElem_map, List.getElem_range, loadU64, slice, List.flatMap]
  rw [hpiece, value_bytes_of_lt (hwords _ (List.getElem_mem hi'))]

theorem getD_eq_false_of_count_eq_zero (h : nulls.count true = 0) (row : ℕ) :
    nulls.getD row false = false := by
  by_cases hrow : row < nulls.length
  · rw [List.getD_eq_getElem _ _ hrow, Bool.eq_false_iff]
    intro hnull
    exact List.count_eq_zero.mp h (hnull ▸ List.getElem_mem hrow)
  · exact List.getD_eq_default _ _ (Nat.le_of_not_lt hrow)

/-- The bits of the words are the nulls. -/
theorem bit_nullWordsOf (nulls : List Bool) (row : ℕ) :
    bit (wordsOf (nullWordsOf nulls)) row = nulls.getD row false := by
  rw [nullWordsOf]
  split_ifs with hcount
  · rw [getD_eq_false_of_count_eq_zero hcount]
    exact Nat.zero_testBit _
  · rw [wordsOf_flatMap_bytes (pack_lt nulls), bit_pack]

/-- The bitmap that is written is one, and its rows are the nulls. -/
theorem isNullBitmap_encodeNulls (hlt : nulls.length < 2 ^ 32) :
    IsNullBitmap nulls.length (encodeNulls nulls) (nulls.count true) (nullWordsOf nulls) where
  bytes_eq := by
    rw [encodeNulls, nullWordsOf]
    split_ifs with hcount
    · exact .inl ⟨rfl, rfl⟩
    · refine .inr ⟨nulls.length, ?_, Nat.le_refl _, hlt, ?_⟩
      · rw [length_flatMap_bytes]
      · rw [length_flatMap_bytes, length_pack, Nat.mul_comm]
  count_eq := by
    rw [nullWordsOf]
    split_ifs with hcount
    · rw [hcount]
      rfl
    · rw [wordsOf_flatMap_bytes (pack_lt nulls), total_pack]
  rows_lt row _ hbit := by
    rw [bit_nullWordsOf] at hbit
    by_contra hrow
    rw [List.getD_eq_default _ _ (Nat.le_of_not_lt hrow)] at hbit
    cases hbit

/-! ## Descriptors -/

namespace Varlena

variable {s : Bytes} {offset length : ℕ}

theorem isInline_inline (h : s.length ≤ kVarlenaInlineMax) : isInline (inline s) = true := by
  rw [isInline, inline, List.getD_cons_zero, UInt8.toNat_ofNat_of_lt']
  · exact decide_eq_true h
  · exact Nat.lt_of_le_of_lt h (by decide)

theorem inlineLength_inline (h : s.length ≤ kVarlenaInlineMax) :
    inlineLength (inline s) = s.length := by
  rw [inlineLength, inline, List.getD_cons_zero, UInt8.toNat_ofNat_of_lt']
  exact Nat.lt_of_le_of_lt h (by decide)

theorem slice_inline (s : Bytes) : slice (inline s) 1 s.length = s := by
  rw [inline, slice, List.drop_one, List.tail_cons, List.take_left]

theorem isInline_big (offset length : ℕ) : isInline (big offset length) = false := by
  have hmarker : bytes 4 kVarlenaBigMarker = [255, 255, 255, 255] := by decide
  rw [isInline, big, hmarker]
  rfl

theorem marker_big (offset length : ℕ) : marker (big offset length) = kVarlenaBigMarker := by
  rw [marker, big, slice, List.drop_zero, List.take_left' (length_bytes 4 _)]
  exact value_bytes_of_lt (by decide)

theorem bigOffset_big (h : offset < 2 ^ 32) : bigOffset (big offset length) = offset := by
  rw [bigOffset, big, slice_append (length_bytes 4 _) (length_bytes 4 _)]
  exact value_bytes_of_lt h

theorem bigLength_big (h : length < 2 ^ 32) : bigLength (big offset length) = length := by
  have hbefore : (bytes 4 kVarlenaBigMarker ++ bytes 4 offset).length = 8 := by
    rw [List.length_append, length_bytes, length_bytes]
  rw [bigLength, big, ← List.append_assoc, slice_append hbefore (length_bytes 4 _)]
  exact value_bytes_of_lt h

end Varlena

/-! ## Cells -/

/-- The value of a cell, of a column of dates or of another type. -/
def Cell.value (date : Bool) : Cell → Option Value
  | .null => none
  | .text s => some (.text s)
  | .element bs => some (.number (if date then signed bs - kMoUnixEpochDays else signed bs))

section

variable {tae : TaeTypes} {decimalOfDouble : NativeResultColumn → Bytes → Except Thrown ℤ}
  {c : ColumnMetadata} {a : HostAllocation} {schema : NativeResultColumn} {oid : MoTypeOid}
  {bs : Bytes} {cell : Cell}

/-- An element says the number that the table holds. -/
theorem signed_of_encodeElement (hmatches : sourceTypeMatches c schema = true)
    (htext : isText schema.oid = false) (huint : schema.is .uint32 = false)
    (hdouble : ¬((schema.is .decimal64 ∨ schema.is .decimal128) ∧ c.typeId = .float64))
    (h : encodeElement tae decimalOfDouble c a schema row = .ok bs) :
    (if schema.is .date then signed bs - kMoUnixEpochDays else signed bs) = signed
      (slice a.memory (address c.dataOffset (row * c.typeId.width)) c.typeId.width) := by
  obtain ⟨read, hread, hbs⟩ := (encodeElement_eq_ok hmatches htext hdouble).mp h
  have hlength := HostAllocation.length_of_copyHostBytes hread
  obtain ⟨-, hslice⟩ := HostAllocation.copyHostBytes_eq_ok.mp hread
  obtain ⟨hpos, hle⟩ := width_le_moTypeSize tae hmatches htext huint
  have hnot : ¬schema.is .uint32 := by
    rw [huint]
    exact Bool.false_ne_true
  rw [← hslice]
  split_ifs with hdate
  · -- A date is moved to the other epoch, and stays within 32 bits.
    rw [typeId_of_date hmatches hdate] at hlength hpos
    obtain ⟨hlower, -⟩ := signed_bounds hlength hpos
    rw [elementBytes, if_neg hnot, if_pos hdate] at hbs
    split_ifs at hbs with hlate
    rw [CudfType.width] at hlower
    rw [kMoUnixEpochDays] at *
    rw [← Option.some.inj hbs, signed_signedBytes (by omega) (by omega), Int.add_sub_cancel]
  · rw [elementBytes_of_number hnot hdate, Option.some.injEq] at hbs
    rw [← hbs, signed_widen hlength hpos hle]

/-- The cell that is read of a row has the row's value. -/
theorem value_of_readCell (hmatches : sourceTypeMatches c schema = true)
    (huint : schema.is .uint32 = false)
    (hdouble : ¬((schema.is .decimal64 ∨ schema.is .decimal128) ∧ c.typeId = .float64))
    (h : readCell tae decimalOfDouble c a schema row = .ok cell) :
    cell.value (schema.is .date) = c.valueAt a row := by
  obtain ⟨hnull, -, hread⟩ := readCell_eq_ok.mp h
  have hnullAt := nullAt_of_rowNull hnull
  rw [ColumnMetadata.valueAt, ← hnullAt]
  cases hc : cell.isNull with
  | true =>
    rw [if_pos rfl]
    cases cell with
    | null => rfl
    | text s => cases hc
    | element bs => cases hc
  | false =>
    have hvalue := hread hc
    rw [if_neg Bool.false_ne_true]
    cases htext : isText schema.oid with
    | true =>
      rw [if_pos ((isText_iff_typeId hmatches).mp htext)]
      rw [readValue, if_pos htext, bind_eq_ok] at hvalue
      obtain ⟨offsets, hoffsets, hvalue⟩ := hvalue
      obtain ⟨s, hstring, hvalue⟩ := bind_eq_ok.mp hvalue
      obtain rfl := Except.ok.inj hvalue
      obtain ⟨span, hspan, hcopy⟩ := bind_eq_ok.mp hstring
      obtain ⟨rfl, -, -⟩ := readSpan_eq (children_of_offsetsOf hoffsets) hspan
      rw [Cell.value, (HostAllocation.copyHostBytes_eq_ok.mp hcopy).2]
      rfl
    | false =>
      have hne : c.typeId ≠ .string := fun heq ↦ by
        rw [(isText_iff_typeId hmatches).mpr heq] at htext
        cases htext
      rw [if_neg hne]
      rw [readValue_of_not_text htext, map_eq_ok] at hvalue
      obtain ⟨bs, hbs, rfl⟩ := hvalue
      rw [Cell.value, signed_of_encodeElement hmatches htext huint hdouble hbs]

end

/-! ## Vectors -/

/-- The column that the decoder makes of a vector. -/
def viewOf (tae : TaeTypes) (rowCount : ℕ)
    (q : (ColumnMetadata × NativeResultColumn) × List Cell) : NativeColumnView where
  encoded := vectorBytes tae rowCount (layoutOf tae q)
  vectorClass := kMoVectorFlat
  type := q.1.2.moType tae
  logicalRows := rowCount
  data := cellData (tae.moTypeSize q.1.2.oid.toNat) 0 q.2
  area := cellArea q.2
  sorted := false
  nullCount := (q.2.map Cell.isNull).count true
  nullWords := nullWordsOf (q.2.map Cell.isNull)

section

variable {tae : TaeTypes} {decimalOfDouble : NativeResultColumn → Bytes → Except Thrown ℤ}
  {a : HostAllocation} {rowOffset rowCount i : ℕ}
  {q : (ColumnMetadata × NativeResultColumn) × List Cell} {expected : SubstraitType}

/-- The type is written with the OID of the schema, which is a byte. -/
theorem toNat_moType_oid {c : ColumnMetadata} {schema : NativeResultColumn}
    (hmatches : sourceTypeMatches c schema = true) :
    (schema.moType tae).oid.toNat = schema.oid.toNat := by
  obtain ⟨oid, hoid⟩ := exists_oid_of_sourceTypeMatches hmatches
  have hlt := oid.code_lt
  rw [NativeResultColumn.moType, UInt32.toNat_toUInt8, hoid]
  exact Nat.mod_eq_of_lt hlt

theorem viewOf_nullAt (hi : i < q.2.length) :
    (viewOf tae rowCount q).nullAt i = q.2[i].isNull := by
  rw [NativeColumnView.nullAt, viewOf, bit_nullWordsOf,
    List.getD_eq_getElem _ _ (by rw [List.length_map]; exact hi), List.getElem_map]

/-- An element of the vector is the piece of its cell. -/
theorem viewOf_element (hfits : ∀ cell ∈ q.2, cell.Fits (tae.moTypeSize q.1.2.oid.toNat))
    (hi : i < q.2.length) : (viewOf tae rowCount q).element (tae.moTypeSize q.1.2.oid.toNat) i
      = q.2[i].piece (tae.moTypeSize q.1.2.oid.toNat) (cellArea (q.2.take i)).length :=
  chunk_cellData hfits hi

/-- The string of a row is that of its cell, be it in the descriptor or in the area. -/
theorem viewOf_textAt {s : Bytes} (hfits : ∀ cell ∈ q.2, cell.Fits kVarlenaSize)
    (hsize : tae.moTypeSize q.1.2.oid.toNat = kVarlenaSize) (hlt : (cellArea q.2).length < 2 ^ 32)
    (hi : i < q.2.length) (hs : q.2[i] = .text s) : (viewOf tae rowCount q).textAt i = s := by
  have helement : (viewOf tae rowCount q).element (tae.moTypeSize q.1.2.oid.toNat) i
      = q.2[i].piece (tae.moTypeSize q.1.2.oid.toNat) (cellArea (q.2.take i)).length :=
    viewOf_element (hsize.symm ▸ hfits) hi
  rw [hsize, hs] at helement
  have hle := cellArea_take_le hi
  have hslice := slice_cellArea hi
  rw [hs, Cell.area] at hle hslice
  rw [NativeColumnView.textAt]
  simp only [helement, Cell.piece]
  split_ifs with hinline hmarked hmarked
  · rw [Varlena.inlineLength_inline hinline, Varlena.slice_inline]
  · exact absurd (Varlena.isInline_inline hinline) hmarked
  · rw [Varlena.isInline_big] at hmarked
    cases hmarked
  · rw [if_neg hinline] at hle hslice
    rw [Varlena.bigOffset_big (by omega), Varlena.bigLength_big (by omega)]
    exact hslice

variable (h : ReadsColumn tae decimalOfDouble a rowOffset rowCount q.1 q.2)
include h

theorem viewOf_isText : (viewOf tae rowCount q).isText = isText q.1.2.oid := by
  rw [NativeColumnView.isText, isText, viewOf, toNat_moType_oid h.readable.matches_eq]

theorem viewOf_isDate : (viewOf tae rowCount q).isDate = q.1.2.is .date := by
  rw [NativeColumnView.isDate, NativeResultColumn.is, viewOf,
    toNat_moType_oid h.readable.matches_eq]

/-- A row of the vector has the value of its cell. -/
theorem viewOf_valueAt (hi : i < q.2.length) :
    (viewOf tae rowCount q).valueAt tae i = q.2[i].value (q.1.2.is .date) := by
  have hflat : (viewOf tae rowCount q).isConstant = false := rfl
  have helement : (viewOf tae rowCount q).element (tae.moTypeSize q.1.2.oid.toNat) i
      = q.2[i].piece (tae.moTypeSize q.1.2.oid.toNat) (cellArea (q.2.take i)).length :=
    viewOf_element h.fits hi
  rw [NativeColumnView.valueAt, hflat, Bool.false_and, Bool.false_or, viewOf_nullAt hi,
    viewOf_isText h, viewOf_isDate h]
  cases htext : isText q.1.2.oid with
  | true =>
    have hsize : tae.moTypeSize q.1.2.oid.toNat = kVarlenaSize := moTypeSize_of_text htext
    rcases h.text_getElem htext hi with hc | ⟨s, hc, -⟩
    · rw [hc]
      rfl
    · rw [viewOf_textAt (hsize ▸ h.fits) hsize h.area_lt hi hc, hc]
      rfl
  | false =>
    rcases h.element_getElem htext hi with hc | ⟨bs, hc⟩
    · rw [hc]
      rfl
    · rw [hc, Cell.piece] at helement
      rw [hc, Cell.isNull, if_neg Bool.false_ne_true, if_neg Bool.false_ne_true, Cell.value]
      cases hdate : q.1.2.is .date with
      | true =>
        have hwidth : tae.moTypeSize q.1.2.oid.toNat = 4 := moTypeSize_of_is hdate
        rw [hwidth] at helement
        rw [helement, if_pos rfl, if_pos rfl]
      | false =>
        have hwidth : tae.moTypeSize (viewOf tae rowCount q).type.oid.toNat
            = tae.moTypeSize q.1.2.oid.toNat :=
          congrArg tae.moTypeSize (toNat_moType_oid h.readable.matches_eq)
        rw [hwidth, helement, if_neg Bool.false_ne_true, if_neg Bool.false_ne_true]

/-- The descriptors that are written are within the area. -/
theorem checkVarlena_viewOf (htext : isText q.1.2.oid = true) (hi : i < q.2.length) :
    checkVarlena (viewOf tae rowCount q).data (viewOf tae rowCount q).area i = .ok () := by
  have hsize : tae.moTypeSize q.1.2.oid.toNat = kVarlenaSize := moTypeSize_of_text htext
  have helement : (viewOf tae rowCount q).element (tae.moTypeSize q.1.2.oid.toNat) i
      = q.2[i].piece (tae.moTypeSize q.1.2.oid.toNat) (cellArea (q.2.take i)).length :=
    viewOf_element h.fits hi
  rw [hsize] at helement
  have hslice : slice (viewOf tae rowCount q).data (i * kVarlenaSize) kVarlenaSize
      = q.2[i].piece kVarlenaSize (cellArea (q.2.take i)).length := helement
  have harea := h.area_lt
  have hle := cellArea_take_le hi
  rw [checkVarlena]
  simp only [hslice]
  rcases h.text_getElem htext hi with hc | ⟨s, hc, -⟩
  · rw [hc]
    rfl
  · rw [hc, Cell.area] at hle
    rw [hc, Cell.piece]
    split_ifs with hinline hmarked hbad hmarked hbad
    · rfl
    · exact absurd (Varlena.isInline_inline hinline) hmarked
    · rfl
    · rfl
    · rw [if_neg hinline] at hle
      rw [Varlena.marker_big, Varlena.bigOffset_big (by omega), Varlena.bigLength_big (by omega)]
        at hbad
      have hlength : (viewOf tae rowCount q).area.length = (cellArea q.2).length := rfl
      omega
    · rfl

/-- The types without a fixed size are those of strings. -/
theorem fixedSize_viewOf : (viewOf tae rowCount q).fixedSize tae < 0 ↔ isText q.1.2.oid = true := by
  obtain ⟨oid, hoid⟩ := exists_oid_of_sourceTypeMatches h.readable.matches_eq
  have htext : isText q.1.2.oid = oid.isVarlena := isText_eq_isVarlena hoid
  rw [NativeColumnView.fixedSize, viewOf, toNat_moType_oid h.readable.matches_eq, hoid, htext]
  cases hvarlena : oid.isVarlena with
  | true => exact iff_of_true (tae.moTypeFixedSize_of_varlena oid hvarlena) rfl
  | false =>
    rw [tae.moTypeFixedSize_of_fixed oid hvarlena]
    exact iff_of_false (Int.not_lt.mpr (Int.natCast_nonneg _)) Bool.false_ne_true

/-- The vector passes the checks of the decoder. -/
theorem valid_viewOf (hfits : VectorFits tae rowCount (layoutOf tae q))
    (hmatches : substraitMatchesMo expected (q.1.2.moType tae) = true) :
    (viewOf tae rowCount q).Valid tae rowCount expected where
  vectorClass_eq := .inl rfl
  type_matches := hmatches
  logicalRows_eq := rfl
  data_lt := hfits.data_lt
  area_lt := h.area_lt
  data_length := by
    have hflat : kMoVectorFlat ≠ kMoVectorConstant := by decide
    simp only [viewOf, if_neg hflat, toNat_moType_oid h.readable.matches_eq,
      length_cellData h.fits, h.length_eq]
  area_eq_nil hfixed := by
    have htext : isText q.1.2.oid = false := by
      rw [Bool.eq_false_iff]
      exact fun htext ↦ absurd ((fixedSize_viewOf h).mpr htext) (Int.not_lt.mpr hfixed)
    exact h.cellArea_eq_nil htext
  varlenas hvarlena := by
    have htext := (fixedSize_viewOf h).mp hvarlena
    have hrows : physicalRows (viewOf tae rowCount q).vectorClass (viewOf tae rowCount q).data
      rowCount
        = rowCount := rfl
    have hdata : (viewOf tae rowCount q).data.length =
        q.2.length * tae.moTypeSize q.1.2.oid.toNat :=
      length_cellData h.fits 0
    rw [hrows, hdata, h.length_eq, moTypeSize_of_text htext]
    exact ⟨rfl, fun row hrow ↦ checkVarlena_viewOf h htext (h.length_eq.symm ▸ hrow)⟩

/-- Its bytes are those that the encoder writes. -/
theorem encodes_viewOf (hfits : VectorFits tae rowCount (layoutOf tae q)) :
    (viewOf tae rowCount q).Encodes rowCount (vectorBytes tae rowCount (layoutOf tae q))
      (q.1.2.moType tae).bytes (encodeNulls (q.2.map Cell.isNull)) 0 where
  encoded_eq := rfl
  type_eq := (MoType.load_bytes _).symm
  typeBytes_length := MoType.length_bytes _
  nulls_lt := hfits.nulls_lt
  nulls_eq := by
    have hlength : (q.2.map Cell.isNull).length = rowCount := by rw [List.length_map, h.length_eq]
    have hbitmap := isNullBitmap_encodeNulls (hlength.symm ▸ hfits.rows_lt)
    rw [hlength] at hbitmap
    exact hbitmap
  sorted_le := Nat.zero_le 1
  sorted_eq := rfl
  bytes_eq := rfl

end

/-! ## Batches -/

/-- No type of the plan stands for the unsigned integers of MatrixOne. -/
theorem is_uint32_of_matches {tae : TaeTypes} {expected : SubstraitType} {c : ColumnMetadata}
    {schema : NativeResultColumn} (hsource : sourceTypeMatches c schema = true)
    (hmatches : substraitMatchesMo expected (schema.moType tae) = true) :
    schema.is .uint32 = false := by
  obtain ⟨oid, hoid⟩ := exists_oid_of_sourceTypeMatches hsource
  have hwritten : (schema.moType tae).oid.toNat = oid.code := (toNat_moType_oid hsource).trans hoid
  rw [NativeResultColumn.is, hoid, beq_eq_false_iff_ne]
  intro heq
  rw [heq] at hwritten
  cases expected <;> simp [substraitMatchesMo, hwritten, MoTypeOid.code] at hmatches

namespace HostEncoder

variable {tae : TaeTypes} {decimalOfDouble : NativeResultColumn → Bytes → Except Thrown ℤ}
  {e : HostEncoder} {rowOffset rowCount : ℕ} {envelope : NativeBatchFrame} {schema : NamedStruct}

/-- No column is a decimal that is made of doubles. -/
def NoDecimalOfDouble (e : HostEncoder) : Prop :=
  ∀ p ∈ e.pairs, ¬((p.2.is .decimal64 ∨ p.2.is .decimal128) ∧ p.1.typeId = .float64)

theorem map_snd_pairs (e : HostEncoder) : e.pairs.map Prod.snd = e.schema.columns :=
  List.map_snd_zip (Nat.le_of_eq e.length_eq.symm)

/-- **The decoder reads what the encoder writes.** A range that is encoded is accepted for every
schema that its types match, and row `i` of each of its columns is null exactly if the row of the
table is, and has the same value. -/
theorem nativeBatchView_encode
    (hmatches : List.Forall₂ (fun expected column ↦
      substraitMatchesMo expected (column.moType tae) = true)
      (schema.types.getD []) e.schema.columns)
    (hnames : schema.names.length = (schema.types.getD []).length) (hdouble : e.NoDecimalOfDouble)
    (hencode : e.encode tae decimalOfDouble rowOffset rowCount = .ok envelope.payload) :
    ∃ b, nativeBatchView tae envelope schema = .ok b ∧ b.rows = rowCount ∧
      List.Forall₂ (fun p c ↦ ∀ i < rowCount,
        c.isNull i = .ok (p.1.nullAt e.allocation (rowOffset + i)) ∧
        c.valueAt tae i = p.1.valueAt e.allocation (rowOffset + i)) e.pairs b.columns := by
  obtain ⟨⟨hpos, hrange⟩, columns, ⟨hpairs, hreads⟩, hfits, hpayload⟩ := encode_eq_ok.mp hencode
  have hlt := e.rowCount_lt
  have hlength : (schema.types.getD []).length = columns.length := by
    rw [hmatches.length_eq, ← map_snd_pairs, ← hpairs, List.length_map, List.length_map]
  have hcolumns : columns.length ≤ kMaxNativeResultColumns := by
    rw [← hlength, hmatches.length_eq]
    exact e.columns_le
  have htypes : List.Forall₂ (fun q expected ↦
      substraitMatchesMo expected (NativeResultColumn.moType tae q.1.2) = true) columns
        (schema.types.getD []) := by
    rw [← map_snd_pairs, ← hpairs, List.map_map, List.forall₂_map_right_iff] at hmatches
    exact hmatches.flip
  have hall (q : (ColumnMetadata × NativeResultColumn) × List Cell) (hq : q ∈ columns) :
      ReadsColumn tae decimalOfDouble e.allocation rowOffset rowCount q.1 q.2 ∧
        VectorFits tae rowCount (layoutOf tae q) := ⟨hreads q hq, hfits q hq⟩
  have hboth := (List.forall₂_and_left columns _).mpr ⟨hall, htypes⟩
  -- each vector parses to its view, which is all the parser of the batch asks for
  have hparsed : ParsedColumns tae rowCount (schema.types.getD []) (columns.map fun q ↦
      (vectorBytes tae rowCount (layoutOf tae q), viewOf tae rowCount q)) := by
    rw [ParsedColumns, List.forall₂_map_right_iff]
    refine (hboth.imp fun q expected h ↦ ?_).flip
    obtain ⟨⟨hread, hfit⟩, hmatch⟩ := h
    exact ⟨hfit.vector_lt, (parseColumn_eq_ok hfit.rows_lt).mpr
      ⟨valid_viewOf hread hfit hmatch, _, _, _, encodes_viewOf hread hfit⟩⟩
  have huint : ∀ q ∈ columns, q.1.2.is .uint32 = false := by
    have hnot : List.Forall₂ (fun q _ ↦ q.1.2.is .uint32 = false ∧ True) columns
        (schema.types.getD []) :=
      hboth.imp fun q expected h ↦ ⟨is_uint32_of_matches h.1.1.readable.matches_eq h.2, trivial⟩
    exact ((List.forall₂_and_left columns _).mp hnot).1
  refine ⟨_, nativeBatchView_eq_ok_of_vectors hpos (by omega) hnames rfl
    (by rw [kMaxNativeResultColumns] at hcolumns; omega) hparsed ?_, rfl, ?_⟩
  · rw [hpayload, batchBytes, List.length_map, hlength, List.map_map, List.map_map]
    rfl
  · rw [← hpairs, List.map_map, List.forall₂_map_left_iff, List.forall₂_map_right_iff,
      List.forall₂_same]
    intro q hq i hi
    have hread := hreads q hq
    have hi' : i < q.2.length := hread.length_eq.symm ▸ hi
    have hcell := hread.readCell_eq i hi'
    have hnulls := (encodes_viewOf hread (hfits q hq)).nulls_eq
    have hmem : q.1 ∈ e.pairs := hpairs ▸ List.mem_map_of_mem hq
    constructor
    · rw [← hread.isNull_getElem hi', ← viewOf_nullAt hi']
      exact NativeColumnView.isNull_eq hnulls hi
    · rw [← value_of_readCell hread.readable.matches_eq (huint q hq) (hdouble q.1 hmem) hcell]
      exact viewOf_valueAt hread hi'

/-- A table of one column of decimals in four bytes, over blocks of four bytes: -5, and a null. -/
def negativeDecimal : HostEncoder where
  schema := ⟨1, [{ oid := 60, width := 9, scale := 2 }]⟩
  columns := [{
    typeId := .decimal32
    hasData := true
    dataOffset := 0
    dataSize := 8
    scale := -2
    numRows := 2
    hasNullMask := true
    nullMaskOffset := 8
    nullMaskSize := 1
    children := [] }]
  allocation := {
    blockSize := 4
    sizeBytes := 12
    blocks := [[0xfb, 0xff, 0xff, 0xff], [0, 0, 0, 0], [1, 0, 0, 0]]
    blockSize_pos := by decide
    length_of_mem := by decide
    sizeBytes_le := by decide }
  rowCount := 2
  rowCount_eq := rfl
  length_eq := rfl
  numRows_eq := by decide
  matches_eq := by decide
  columns_le := by decide

/-- The eight bytes of the decimal are read as -5. -/
theorem nativeBatchView_encode_negativeDecimal : ∃ bs b,
    negativeDecimal.encode TaeTypes.documented (fun _ _ ↦ .ok 0) 0 2 = .ok bs ∧
    nativeBatchView TaeTypes.documented ⟨1, bs⟩ ⟨[[]], some [.decimal 9 2]⟩ = .ok b ∧
    ∀ c ∈ b.columns, c.valueAt TaeTypes.documented 0 = some (.number (-5)) ∧
      c.valueAt TaeTypes.documented 1 = none := by
  let schema : NamedStruct := ⟨[[]], some [.decimal 9 2]⟩
  have hmatches : List.Forall₂ (fun expected column ↦
      substraitMatchesMo expected (NativeResultColumn.moType TaeTypes.documented column) = true)
      (schema.types.getD []) negativeDecimal.schema.columns := .cons (by decide) .nil
  have hdouble : negativeDecimal.NoDecimalOfDouble :=
    List.forall_mem_singleton.mpr fun hdecimal ↦ nomatch hdecimal.2
  obtain ⟨bs, hencode⟩ : ∃ bs, negativeDecimal.encode TaeTypes.documented (fun _ _ ↦ .ok 0) 0 2
      = .ok bs := ⟨_, rfl⟩
  let envelope : NativeBatchFrame := ⟨1, bs⟩
  have hbs : negativeDecimal.encode TaeTypes.documented (fun _ _ ↦ .ok 0) 0 2
      = .ok envelope.payload := hencode
  obtain ⟨b, hview, -, hcolumns⟩ := nativeBatchView_encode hmatches rfl hdouble hbs
  refine ⟨bs, b, hencode, hview, ?_⟩
  obtain ⟨c, columns, hrows, hnil, hb⟩ := List.forall₂_cons_left_iff.mp hcolumns
  rw [hb, List.forall₂_nil_left_iff.mp hnil]
  exact List.forall_mem_singleton.mpr ⟨(hrows 0 (by decide)).2, (hrows 1 (by decide)).2⟩

end HostEncoder

end MoSidecar
