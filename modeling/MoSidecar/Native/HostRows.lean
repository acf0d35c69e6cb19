import MoSidecar.Native.Batches

/-!
# What the rows of a table hold

A read that succeeds answers what stands in the memory: whether a row is null is `nullAt`, the
offsets around a string are `spanAt`. These are functions of the table, defined whether or not the
table may be read there.
-/

namespace MoSidecar

open LittleEndian Bitmap Chunks

/-- An offset, as it stands in the memory. -/
def BufferMetadata.offsetValue (offsets : BufferMetadata) (a : HostAllocation) (row : ℕ) : ℕ :=
  (signed (slice a.memory (address offsets.dataOffset (row * offsetWidth offsets))
    (offsetWidth offsets)) % 2 ^ 64).toNat

namespace ColumnMetadata

/-- Whether a row is null: its bit in the mask is zero. -/
def nullAt (c : ColumnMetadata) (a : HostAllocation) (row : ℕ) : Bool :=
  c.hasNullMask &&
    !(value (slice a.memory (address c.nullMaskOffset (row / 8)) 1)).testBit (row % 8)

/-- Where the characters of a row begin and end. -/
def spanAt (c : ColumnMetadata) (a : HostAllocation) (row : ℕ) : ℕ × ℕ :=
  match c.children with
  | [] => (0, 0)
  | offsets :: _ => (offsets.offsetValue a row, offsets.offsetValue a (row + 1))

/-- The bytes that a row spans in the characters. -/
def spanLength (c : ColumnMetadata) (a : HostAllocation) (row : ℕ) : ℕ :=
  (c.spanAt a row).2 - (c.spanAt a row).1

end ColumnMetadata

variable {tae : TaeTypes} {decimalOfDouble : NativeResultColumn → Bytes → Except Thrown ℤ}
  {c : ColumnMetadata} {a : HostAllocation} {schema : NativeResultColumn} {offsets : BufferMetadata}
  {row rowOffset rowCount n i : ℕ} {null hasData : Bool} {what : String} {cell : Cell}
  {cells : List Cell} {bs : Bytes} {p : ColumnMetadata × NativeResultColumn}

theorem nullAt_of_rowNull (h : rowNull c a row = .ok null) : null = c.nullAt a row := by
  rw [rowNull] at h
  rw [ColumnMetadata.nullAt]
  cases hmask : c.hasNullMask with
  | false =>
    rw [hmask, if_neg Bool.false_ne_true] at h
    exact (Except.ok.inj h).symm
  | true =>
    rw [hmask, if_pos rfl, readNull, bind_eq_ok] at h
    obtain ⟨byte, hbyte, h⟩ := h
    obtain ⟨-, rfl⟩ := HostAllocation.copyHostBytes_eq_ok.mp hbyte
    exact (Except.ok.inj h).symm

theorem children_of_offsetsOf (h : offsetsOf c hasData what = .ok offsets) :
    c.children = [offsets] := by
  rw [offsetsOf] at h
  split at h
  · next offsets' hchildren =>
    split_ifs at h
    rw [hchildren, Except.ok.inj h]
  · cases h

theorem offsetAt_eq (h : offsetAt a offsets row = .ok n) : n = offsets.offsetValue a row := by
  rw [offsetAt, bind_eq_ok] at h
  obtain ⟨bs, hbs, h⟩ := h
  obtain ⟨-, rfl⟩ := HostAllocation.copyHostBytes_eq_ok.mp hbs
  exact (Except.ok.inj h).symm

/-- A span that is read is the one in the memory, and it lies in the characters. -/
theorem readSpan_eq {span : ℕ × ℕ} (hchildren : c.children = [offsets])
    (h : readSpan c a offsets row = .ok span) :
    span = c.spanAt a row ∧ span.1 ≤ span.2 ∧ span.2 ≤ c.dataSize.toNat := by
  rw [readSpan, bind_eq_ok] at h
  obtain ⟨first, hfirst, h⟩ := h
  obtain ⟨last, hlast, h⟩ := bind_eq_ok.mp h
  obtain ⟨⟨⟩, hbad, h⟩ := bind_eq_ok.mp h
  obtain rfl := Except.ok.inj h
  rw [throwIf_eq_ok] at hbad
  rw [ColumnMetadata.spanAt, hchildren, offsetAt_eq hfirst, offsetAt_eq hlast]
  rw [offsetAt_eq hfirst, offsetAt_eq hlast] at hbad
  exact ⟨rfl, by simp only; omega, by simp only; omega⟩

/-- A string that is read is as long as its span. -/
theorem length_of_readValue {s : Bytes} (htext : isText schema.oid = true)
    (h : readValue tae decimalOfDouble c a schema row = .ok (.text s)) :
    s.length = c.spanLength a row := by
  rw [readValue, if_pos htext, bind_eq_ok] at h
  obtain ⟨offsets, hoffsets, h⟩ := h
  obtain ⟨s', hstring, h⟩ := bind_eq_ok.mp h
  obtain rfl := Cell.text.inj (Except.ok.inj h)
  obtain ⟨span, hspan, hcopy⟩ := bind_eq_ok.mp hstring
  obtain ⟨rfl, -, -⟩ := readSpan_eq (children_of_offsetsOf hoffsets) hspan
  exact HostAllocation.length_of_copyHostBytes hcopy

/-! ## Widths -/

theorem moTypeSize_of_is {oid : MoTypeOid} (h : schema.is oid = true) :
    tae.moTypeSize schema.oid.toNat = oid.width := by
  rw [beq_iff_eq.mp h, tae.moTypeSize_code]

/-- An element that is read has the width of its type. -/
theorem length_of_encodeElement (h : encodeElement tae decimalOfDouble c a schema row = .ok bs) :
    bs.length = tae.moTypeSize schema.oid.toNat := by
  rw [encodeElement] at h
  simp only at h
  split_ifs at h with huint hdate hdecimal hdouble hwide
  · obtain ⟨read, -, h⟩ := bind_eq_ok.mp h
    obtain ⟨⟨⟩, -, h⟩ := bind_eq_ok.mp h
    rw [← Except.ok.inj h, length_bytes, moTypeSize_of_is huint]
    rfl
  · obtain ⟨read, -, h⟩ := bind_eq_ok.mp h
    obtain ⟨⟨⟩, -, h⟩ := bind_eq_ok.mp h
    rw [← Except.ok.inj h, length_signedBytes, moTypeSize_of_is hdate]
    rfl
  · obtain ⟨read, -, h⟩ := bind_eq_ok.mp h
    rw [← Except.ok.inj h, length_signedBytes, moTypeSize_of_is hdecimal.1]
    rfl
  · obtain ⟨read, -, h⟩ := bind_eq_ok.mp h
    obtain ⟨z, -, h⟩ := bind_eq_ok.mp h
    rw [← Except.ok.inj h, length_signedBytes]
  · obtain ⟨read, -, h⟩ := bind_eq_ok.mp h
    rw [← Except.ok.inj h, length_signedBytes, moTypeSize_of_is hwide.1]
    rfl
  · exact HostAllocation.length_of_copyHostBytes h

theorem fits_of_readValue (h : readValue tae decimalOfDouble c a schema row = .ok cell) :
    cell.Fits (tae.moTypeSize schema.oid.toNat) := by
  cases htext : isText schema.oid with
  | true =>
    rw [readValue, if_pos htext, bind_eq_ok] at h
    obtain ⟨offsets, -, h⟩ := h
    obtain ⟨s, -, h⟩ := bind_eq_ok.mp h
    rw [← Except.ok.inj h]
    exact moTypeSize_of_text htext
  | false =>
    rw [readValue_of_not_text htext, map_eq_ok] at h
    obtain ⟨bs, hbs, rfl⟩ := h
    exact length_of_encodeElement hbs

/-- A schema that a column matches has one of MatrixOne's types. -/
theorem exists_oid_of_sourceTypeMatches (h : sourceTypeMatches c schema = true) :
    ∃ oid : MoTypeOid, schema.oid.toNat = oid.code := by
  rw [sourceTypeMatches] at h
  cases hcode : MoTypeOid.ofCode? schema.oid.toNat with
  | none =>
    rw [hcode] at h
    cases h
  | some oid => exact ⟨oid, (MoTypeOid.ofCode?_eq_some.mp hcode).symm⟩

/-- A table has as many rows as its first column, which counts them in 32 bits. -/
theorem HostEncoder.rowCount_lt (e : HostEncoder) : e.rowCount < 2 ^ 31 := by
  rw [e.rowCount_eq]
  cases e.columns with
  | nil => exact Nat.two_pow_pos 31
  | cons c columns =>
    have hlt := c.numRows.toInt_lt
    rw [List.head?_cons, Option.map_some, Option.getD_some]
    omega

namespace ReadsCells

variable (h : ReadsCells tae decimalOfDouble a rowOffset rowCount p cells)
include h

theorem isNull_getElem (hi : i < cells.length) : cells[i].isNull = p.1.nullAt a (rowOffset + i) :=
  nullAt_of_rowNull (readCell_eq_ok.mp (h.readCell_eq i hi)).1

theorem map_isNull :
    cells.map Cell.isNull = (List.range rowCount).map fun i ↦ p.1.nullAt a (rowOffset + i) := by
  refine List.ext_getElem ?_ fun i hi _ ↦ ?_
  · rw [List.length_map, List.length_map, List.length_range, h.length_eq]
  · rw [List.getElem_map, List.getElem_map, List.getElem_range, h.isNull_getElem]

theorem fits : ∀ cell ∈ cells, cell.Fits (tae.moTypeSize p.2.oid.toNat) := by
  intro cell hcell
  obtain ⟨i, hi, rfl⟩ := List.mem_iff_getElem.mp hcell
  have hread := (readCell_eq_ok.mp (h.readCell_eq i hi)).2.2
  cases hc : cells[i] with
  | null => trivial
  | text s =>
    rw [hc] at hread
    exact fits_of_readValue (hread rfl)
  | element bs =>
    rw [hc] at hread
    exact fits_of_readValue (hread rfl)

/-- The rows of a column of strings are strings. -/
theorem text_getElem (htext : isText p.2.oid = true) (hi : i < cells.length) :
    cells[i] = .null ∨ ∃ s, cells[i] = .text s ∧ s.length = p.1.spanLength a (rowOffset + i) := by
  have hread := (readCell_eq_ok.mp (h.readCell_eq i hi)).2.2
  cases hc : cells[i] with
  | null => exact .inl rfl
  | text s =>
    rw [hc] at hread
    exact .inr ⟨s, rfl, length_of_readValue htext (hread rfl)⟩
  | element bs =>
    rw [hc, readValue, if_pos htext] at hread
    obtain ⟨offsets, -, hread'⟩ := bind_eq_ok.mp (hread rfl)
    obtain ⟨s, -, hread''⟩ := bind_eq_ok.mp hread'
    cases Except.ok.inj hread''

/-- Those of any other column are not. -/
theorem element_getElem (htext : isText p.2.oid = false) (hi : i < cells.length) :
    cells[i] = .null ∨ ∃ bs, cells[i] = .element bs := by
  have hread := (readCell_eq_ok.mp (h.readCell_eq i hi)).2.2
  cases hc : cells[i] with
  | null => exact .inl rfl
  | element bs => exact .inr ⟨bs, rfl⟩
  | text s =>
    rw [hc, readValue_of_not_text htext, map_eq_ok] at hread
    obtain ⟨bs, -, hbs⟩ := hread rfl
    cases hbs

/-- So only strings have an area. -/
theorem cellArea_eq_nil (htext : isText p.2.oid = false) : cellArea cells = [] := by
  refine cellArea_of_area_nil fun cell hcell ↦ ?_
  obtain ⟨i, hi, rfl⟩ := List.mem_iff_getElem.mp hcell
  rcases h.element_getElem htext hi with hc | ⟨bs, hc⟩
  · rw [hc, Cell.area]
  · rw [hc, Cell.area]

end ReadsCells

end MoSidecar
