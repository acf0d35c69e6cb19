import MoSidecar.Native.LogicalRows
import MoSidecar.Native.PreparedTypes

/-!
# The two encoders

A chunk and a table that hold the same rows are to be encoded as the same bytes. They are, where the
elements of each vector of the chunk have the width that `encode_column` takes them to have: that of
MatrixOne's type. For a decimal nobody checks this. MatrixOne keeps one of up to 18 digits in 8
bytes and DuckDB in 2, 4 or 8, and the encoder of host memory widens what is narrower while
`encode_column` does not.
-/

namespace MoSidecar

open LittleEndian Bitmap Chunks

/-- A decimal has as many bytes in DuckDB as in MatrixOne: 10 to 18 digits in 8 bytes, and 19 digits
or more in 16. -/
def NativeResultColumn.SameWidth (schema : NativeResultColumn) : LogicalType → Prop
  | .decimal digits _ => (schema.is .decimal64 = true → 10 ≤ digits.toNat ∧ digits.toNat ≤ 18) ∧
      (schema.is .decimal128 = true → 19 ≤ digits.toNat)
  | _ => True

variable {tae : TaeTypes} {decimalOfDouble : NativeResultColumn → Bytes → Except Thrown ℤ}
  {c : ColumnMetadata} {a : HostAllocation} {schema : NativeResultColumn} {v : ChunkVector}
  {t : LogicalType} {rows rowOffset rowCount row index : ℕ} {enc : EncodedColumn} {oid : MoTypeOid}

/-! ## Types of a chunk -/

/-- The type of a column, if no other passes for it. -/
theorem expected_or_coerces (h : schema.Accepts t) :
    expectedDuckdbType schema = .ok t ∨ schema.Coerces t := by
  obtain ⟨⟨expected, hexpected, rfl | hcoerces⟩, -⟩ := h
  · exact .inl hexpected
  · exact .inr hcoerces

theorem exists_oid_of_accepts (h : schema.Accepts t) :
    ∃ oid : MoTypeOid, schema.oid.toNat = oid.code := by
  obtain ⟨⟨expected, hexpected, -⟩, -⟩ := h
  rw [expectedDuckdbType] at hexpected
  cases hcode : MoTypeOid.ofCode? schema.oid.toNat with
  | none =>
    rw [hcode] at hexpected
    cases hexpected
  | some oid => exact ⟨oid, (MoTypeOid.ofCode?_eq_some.mp hcode).symm⟩

/-- A vector of strings is one that is written as such. -/
theorem isText_iff_varchar (h : schema.Accepts t) :
    isText schema.oid = true ↔ t = .varchar := by
  obtain ⟨oid, hoid⟩ := exists_oid_of_accepts h
  rcases expected_or_coerces h with hexpected | ⟨hdecimal, rfl⟩ | ⟨hdecimal, -, rfl⟩
  · rw [expectedDuckdbType, hoid, MoTypeOid.ofCode?_code] at hexpected
    rw [isText, hoid]
    cases oid with
    | decimal64 | decimal128 =>
      obtain ⟨-, rfl⟩ := LogicalType.ofDecimal_eq_ok.mp hexpected
      simp [MoTypeOid.code]
    | bool | int8 | int16 | int32 | int64 | uint32 | float32 | float64 | date | char | varchar =>
      obtain rfl := Except.ok.inj hexpected
      simp [MoTypeOid.code]
  · rw [isText, hoid]
    simp only [NativeResultColumn.isDecimal, NativeResultColumn.is, hoid] at hdecimal
    cases oid <;> simp_all [MoTypeOid.code]
  · rw [isText, hoid]
    simp only [NativeResultColumn.is, hoid] at hdecimal
    cases oid <;> simp_all [MoTypeOid.code]

/-- The widths of decimals, by their digits. -/
theorem physicalWidth_decimal_eq (digits scale : UInt8) :
    (LogicalType.decimal digits scale).physicalWidth
      = if digits.toNat ≤ 4 then some 2 else if digits.toNat ≤ 9 then some 4
        else if digits.toNat ≤ 18 then some 8
          else if digits.toNat ≤ 38 then some 16 else none := rfl

/-- For the other types, the width that is read is that of the elements, unless it is a decimal of
another width. -/
theorem physicalWidth_iff (h : schema.Accepts t)
    (htext : isText schema.oid = false)
    (hdouble : ¬(schema.isDecimal = true ∧ t = .double)) :
    t.physicalWidth = some (readWidth tae schema) ↔ schema.SameWidth t := by
  obtain ⟨oid, hoid⟩ := exists_oid_of_accepts h
  rcases expected_or_coerces h with hexpected | hnot | ⟨hdecimal, -, rfl⟩
  · rw [expectedDuckdbType, hoid, MoTypeOid.ofCode?_code] at hexpected
    rw [readWidth, hoid, tae.moTypeSize_code]
    rw [isText, hoid] at htext
    simp only [NativeResultColumn.is, NativeResultColumn.SameWidth, hoid]
    cases oid with
    | decimal64 =>
      obtain ⟨hwide, htype⟩ := LogicalType.ofDecimal_eq_ok.mp hexpected
      generalize schema.width.toUInt32.toUInt8 = digits at hwide htype
      subst htype
      have hread : ¬(MoTypeOid.decimal64.code == MoTypeOid.uint32.code) = true := by decide
      rw [if_neg hread, physicalWidth_decimal_eq]
      split_ifs <;> simp [MoTypeOid.code, MoTypeOid.width] <;> omega
    | decimal128 =>
      obtain ⟨hwide, htype⟩ := LogicalType.ofDecimal_eq_ok.mp hexpected
      generalize schema.width.toUInt32.toUInt8 = digits at hwide htype
      subst htype
      have hread : ¬(MoTypeOid.decimal128.code == MoTypeOid.uint32.code) = true := by decide
      rw [if_neg hread, physicalWidth_decimal_eq]
      split_ifs <;> simp [MoTypeOid.code, MoTypeOid.width] <;> omega
    | char => cases htext
    | varchar => cases htext
    | bool | int8 | int16 | int32 | int64 | uint32 | float32 | float64 | date =>
      obtain rfl := Except.ok.inj hexpected
      exact iff_of_true rfl trivial
  · exact absurd hnot hdouble
  · have hnot : schema.is .uint32 = false := is_eq_false hdecimal (by decide)
    have hsize : tae.moTypeSize schema.oid.toNat = 16 := moTypeSize_of_is hdecimal
    rw [readWidth, hnot, if_neg Bool.false_ne_true, hsize]
    exact iff_of_true rfl trivial

/-! ## Columns -/

/-- A column of which each row is the cell of the value in a vector. -/
def IsLayoutOf (tae : TaeTypes) (rowOffset rowCount : ℕ) (v : ChunkVector)
    (schema : NativeResultColumn) (enc : EncodedColumn) : Prop :=
  ∃ cells : List Cell, cells.length = rowCount ∧
    (∀ i (h : i < cells.length), cellOf tae schema (v.valueAt (rowOffset + i)) = some cells[i]) ∧
      enc = layoutColumn (tae.moTypeSize schema.oid.toNat) cells

/-- The bytes of the values in a range of a chunk. -/
def IsBatchOf (tae : TaeTypes) (chunk : DataChunk) (schema : NativeResultSchema)
    (rowOffset rowCount : ℕ) (bs : Bytes) : Prop :=
  ∃ encoded, List.Forall₂ (fun p q ↦ q.1 = p.2 ∧ IsLayoutOf tae rowOffset rowCount p.1 p.2 q.2)
    (chunk.vectors.zip schema.columns) encoded ∧ bs = batchBytes tae rowCount encoded

/-- A column of a table and a vector that hold the same rows, in elements of the width that each
encoder reads. -/
structure Alike (tae : TaeTypes) (decimalOfDouble : NativeResultColumn → Bytes → Except Thrown ℤ)
    (a : HostAllocation) (rows : ℕ) (p : ColumnMetadata × NativeResultColumn) (v : ChunkVector) :
    Prop where
  holds : p.1.Holds tae decimalOfDouble a p.2 v rows
  inside : v.Inside rows
  numRows_eq : p.1.numRows.toInt = rows
  matches_eq : sourceTypeMatches p.1 p.2 = true
  text_iff : isText p.2.oid = true ↔ v.type = .varchar
  width_eq : isText p.2.oid = false → v.type.physicalWidth = some (readWidth tae p.2)

/-- What ends with an error ends with an exception, not with a read outside of a buffer. -/
def Throws {α : Type} (x : Except Fault α) : Prop :=
  ∀ fault, x = .error fault → ∃ e, fault = .thrown e

section

variable {α β : Type} {x : Except Fault α} {xs : List α}

theorem throws_ok (y : α) : Throws (.ok y) := nofun

theorem throws_thrown (x : Except Thrown α) : Throws (thrown x) := by
  intro fault h
  rw [thrown] at h
  cases x with
  | ok y => cases h
  | error e => exact ⟨e, (Except.error.inj h).symm⟩

theorem Throws.bind {f : α → Except Fault β} (hx : Throws x) (hf : ∀ y, x = .ok y → Throws (f y)) :
    Throws (x >>= f) := by
  cases x with
  | ok y => exact hf y rfl
  | error fault =>
    intro fault' h
    obtain rfl := Except.error.inj h
    exact hx fault rfl

theorem Throws.foldlM {f : β → α → Except Fault β} (hf : ∀ acc, ∀ y ∈ xs, Throws (f acc y))
    (acc : β) : Throws (xs.foldlM f acc) := by
  induction xs generalizing acc with
  | nil => exact throws_ok acc
  | cons y xs ih =>
    rw [List.foldlM_cons]
    exact (hf acc y List.mem_cons_self).bind fun next _ ↦
      ih (fun acc z hz ↦ hf acc z (List.mem_cons_of_mem y hz)) next

theorem Throws.mapM {f : α → Except Fault β} (hf : ∀ y ∈ xs, Throws (f y)) :
    Throws (xs.mapM f) := by
  induction xs with
  | nil => exact throws_ok []
  | cons y xs ih =>
    rw [List.mapM_cons]
    exact (hf y List.mem_cons_self).bind fun z _ ↦
      (ih fun y' hy ↦ hf y' (List.mem_cons_of_mem y hy)).bind fun zs _ ↦ throws_ok (z :: zs)

end

namespace Alike

variable {p : ColumnMetadata × NativeResultColumn} (h : Alike tae decimalOfDouble a rows p v)
include h

/-- Each row is written alike. -/
theorem readCell_iff (hsize : a.sizeBytes < 2 ^ 64) (hrow : row < rows) {cell : Cell} :
    readChunkCell tae v p.2 row = .ok cell ↔
      readCell tae decimalOfDouble p.1 a p.2 row = .ok cell := by
  have hrows := h.numRows_eq
  rw [readChunkCell_eq_cellOf h.inside hrow h.text_iff h.width_eq,
    h.holds.readCell_eq_cellOf hsize (by omega) h.matches_eq (h.holds.holdsValue row hrow)]

theorem readable (hrange : rowOffset + rowCount ≤ rows) :
    p.1.Readable tae p.2 rowOffset rowCount := by
  have hrows := h.numRows_eq
  refine ⟨h.matches_eq, by omega, by omega, fun hmask ↦ ?_, fun htext ↦ ?_, h.holds.elements_le⟩
  · have hle := h.holds.mask_le hmask
    omega
  · obtain ⟨hdata, offsets, hchildren, hoffsets⟩ := h.holds.offsets_ok htext
    rw [hdata]
    exact ⟨offsets, hoffsets.offsetsOf_eq_ok hchildren rfl⟩

/-- So is the column. -/
theorem encodeColumn_iff (hsize : a.sizeBytes < 2 ^ 64) (hrange : rowOffset + rowCount ≤ rows) :
    encodeColumn tae v rowOffset rowCount p.2 = .ok enc ↔
      encodeHostColumn tae decimalOfDouble p.1 a rowOffset rowCount p.2 = .ok enc := by
  rw [encodeColumn_eq_ok, encodeHostColumn_eq_ok, and_iff_right (h.readable hrange)]
  refine exists_congr fun cells ↦ and_congr_right fun _ ↦ and_congr_right fun hlength ↦
    and_congr_left fun _ ↦ forall_congr' fun i ↦ forall_congr' fun hi ↦ ?_
  exact h.readCell_iff hsize (by omega)

/-- No read leaves the buffer of the vector. -/
theorem throws_encodeChunkRow (hrow : row < rows) (out : Bytes × Bytes) :
    Throws (encodeChunkRow tae p.2 v.data (v.sel row) (v.rowIsValid (v.sel row)) out) := by
  have hinside := h.inside
  rw [ChunkVector.Inside] at hinside
  rw [encodeChunkRow]
  cases hvalid : v.rowIsValid (v.sel row) with
  | false =>
    simp only [Bool.false_eq_true, if_false]
    split_ifs <;> exact throws_ok _
  | true =>
    simp only [if_true]
    cases hdata : v.data with
    | strings values =>
      simp only [hdata] at hinside
      have hsel := hinside.2 row hrow
      have hstring : (ChunkData.strings values).string (v.sel row) = .ok values[v.sel row] := by
        simp only [ChunkData.string, List.getElem?_eq_getElem hsel]
      rw [if_pos (h.text_iff.mpr hinside.1), hstring]
      exact throws_thrown _
    | bytes buffer =>
      simp only [hdata] at hinside
      obtain ⟨hne, width, hphysical, hbuffer⟩ := hinside
      have hnot : isText p.2.oid = false := by
        rw [Bool.eq_false_iff]
        exact fun htext ↦ hne (h.text_iff.mp htext)
      -- the widths agree, so the element that is read lies inside the buffer
      obtain rfl := Option.some.inj (hphysical.symm.trans (h.width_eq hnot))
      have hsel := hbuffer row hrow
      rw [Nat.succ_mul] at hsel
      have helement : (ChunkData.bytes buffer).element (readWidth tae p.2) (v.sel row)
          = .ok (slice buffer (v.sel row * readWidth tae p.2) (readWidth tae p.2)) :=
        element_eq_ok.mpr ⟨buffer, rfl, hsel, rfl⟩
      rw [hnot, if_neg Bool.false_ne_true]
      refine Throws.bind ?_ fun _ _ ↦ throws_ok _
      rw [readWidth] at helement
      rw [encodeChunkElement]
      split_ifs at helement ⊢ with huint hdate
      · rw [helement]
        exact throws_thrown _
      · have hsize : tae.moTypeSize p.2.oid.toNat = 4 := moTypeSize_of_is hdate
        rw [hsize] at helement
        rw [helement]
        exact throws_thrown _
      · rw [helement]
        exact throws_ok _

theorem throws_encodeColumn (hrange : rowOffset + rowCount ≤ rows) :
    Throws (encodeColumn tae v rowOffset rowCount p.2) := by
  refine Throws.bind (Throws.foldlM (fun out row hrow ↦ ?_) _) fun _ _ ↦ throws_ok _
  have hlt := List.mem_range.mp hrow
  refine (throws_thrown _).bind fun _ _ ↦ ?_
  exact (h.throws_encodeChunkRow (by omega) _).bind fun _ _ ↦ throws_ok _

/-- What the column is made of. -/
theorem layout_of_encodeColumn (hrange : rowOffset + rowCount ≤ rows)
    (henc : encodeColumn tae v rowOffset rowCount p.2 = .ok enc) :
    IsLayoutOf tae rowOffset rowCount v p.2 enc := by
  obtain ⟨cells, -, hlength, hread, rfl⟩ := encodeColumn_eq_ok.mp henc
  refine ⟨cells, hlength, fun i hi ↦ ?_, rfl⟩
  rw [← readChunkCell_eq_cellOf h.inside (by omega) h.text_iff h.width_eq]
  exact hread i hi

end Alike

/-! ## Batches -/

namespace HostEncoder

variable {e : HostEncoder} {chunk : DataChunk} {types : List LogicalType} {bs : Bytes}

/-- A table holds the rows of a chunk. -/
structure HoldsChunk (tae : TaeTypes)
    (decimalOfDouble : NativeResultColumn → Bytes → Except Thrown ℤ) (e : HostEncoder)
    (chunk : DataChunk) : Prop where
  rowCount_eq : e.rowCount = chunk.size
  sizeBytes_lt : e.allocation.sizeBytes < 2 ^ 64
  columns_hold : List.Forall₂ (fun p v ↦
    p.1.Holds tae decimalOfDouble e.allocation p.2 v chunk.size ∧ v.Inside chunk.size)
      e.pairs chunk.vectors

/-- Both encoders throw, or both answer the same bytes: those of the values of the rows. A read
outside of a buffer is neither. -/
def Agrees (tae : TaeTypes) (decimalOfDouble : NativeResultColumn → Bytes → Except Thrown ℤ)
    (e : HostEncoder) (chunk : DataChunk) (rowOffset rowCount : ℕ) : Prop :=
  ((∃ x, encodeNativeResultBatch tae chunk rowOffset rowCount e.schema = .error (.thrown x)) ∧
      ∃ x, e.encode tae decimalOfDouble rowOffset rowCount = .error x) ∨
    ∃ bs, encodeNativeResultBatch tae chunk rowOffset rowCount e.schema = .ok bs ∧
      e.encode tae decimalOfDouble rowOffset rowCount = .ok bs ∧
        IsBatchOf tae chunk e.schema rowOffset rowCount bs

/-- The columns that are made of those of a table. -/
def EncodesColumns (tae : TaeTypes)
    (decimalOfDouble : NativeResultColumn → Bytes → Except Thrown ℤ) (a : HostAllocation)
    (rowOffset rowCount : ℕ) (pairs : List (ColumnMetadata × NativeResultColumn))
    (encoded : List (NativeResultColumn × EncodedColumn)) : Prop :=
  List.Forall₂ (fun p q ↦ q.1 = p.2 ∧
    encodeHostColumn tae decimalOfDouble p.1 a rowOffset rowCount p.2 = .ok q.2) pairs encoded

/-- A range of a table is encoded as the bytes of its columns. -/
theorem encode_eq_ok_columns : e.encode tae decimalOfDouble rowOffset rowCount = .ok bs ↔
    (0 < rowCount ∧ rowOffset + rowCount ≤ e.rowCount) ∧ ∃ encoded,
      EncodesColumns tae decimalOfDouble e.allocation rowOffset rowCount e.pairs encoded ∧
        (∀ q ∈ encoded, VectorFits tae rowCount q) ∧ bs = batchBytes tae rowCount encoded := by
  have hcolumn (p : ColumnMetadata × NativeResultColumn) (q : NativeResultColumn × EncodedColumn) :
      (do
        let encoded ← encodeHostColumn tae decimalOfDouble p.1 e.allocation rowOffset rowCount p.2
        Except.ok (p.2, encoded)) = .ok q ↔ q.1 = p.2 ∧
          encodeHostColumn tae decimalOfDouble p.1 e.allocation rowOffset rowCount p.2 =
            .ok q.2 := by
    rw [bind_eq_ok]
    constructor
    · rintro ⟨encoded, hencoded, h⟩
      obtain rfl := Except.ok.inj h
      exact ⟨rfl, hencoded⟩
    · rintro ⟨hschema, hencoded⟩
      exact ⟨q.2, hencoded, by rw [← hschema]⟩
  rw [encode, bind_eq_ok]
  simp only [bind_eq_ok, mapM_eq_ok, hcolumn, assembleNativeBatch_eq_ok]
  constructor
  · rintro ⟨⟨⟩, hrange, encoded, hencoded, hfits, rfl⟩
    exact ⟨checkRange_eq_ok.mp hrange, encoded, hencoded, hfits, rfl⟩
  · rintro ⟨hrange, encoded, hencoded, hfits, rfl⟩
    exact ⟨(), checkRange_eq_ok.mpr hrange, encoded, hencoded, hfits, rfl⟩

section

variable {pairs : List (ColumnMetadata × NativeResultColumn)} {vectors : List ChunkVector}
  (h : List.Forall₂ (Alike tae decimalOfDouble a rows) pairs vectors)
include h

/-- Each vector comes with the schema of a column that holds its rows. -/
theorem exists_alike {x : ChunkVector × NativeResultColumn}
    (hx : x ∈ vectors.zip (pairs.map Prod.snd)) :
    ∃ p, Alike tae decimalOfDouble a rows p x.1 ∧ p.2 = x.2 := by
  induction h with
  | nil => cases hx
  | @cons p v pairs vectors hp _ ih =>
    rw [List.map_cons, List.zip_cons_cons] at hx
    rcases List.mem_cons.mp hx with rfl | hx
    · exact ⟨p, hp, rfl⟩
    · exact ih hx

variable (hrange : rowOffset + rowCount ≤ rows)
include hrange

/-- The columns of both are encoded alike. -/
theorem encodesVectors_iff (hsize : a.sizeBytes < 2 ^ 64)
    {encoded : List (NativeResultColumn × EncodedColumn)} :
    EncodesVectors tae rowOffset rowCount (vectors.zip (pairs.map Prod.snd)) encoded ↔
      EncodesColumns tae decimalOfDouble a rowOffset rowCount pairs encoded := by
  induction h generalizing encoded with
  | nil =>
    rw [EncodesVectors, EncodesColumns, List.map_nil, List.zip_nil_right, List.forall₂_nil_left_iff,
      List.forall₂_nil_left_iff]
  | @cons p v pairs vectors hp _ ih =>
    rw [List.map_cons, List.zip_cons_cons, EncodesVectors, EncodesColumns,
      List.forall₂_cons_left_iff,
      List.forall₂_cons_left_iff]
    refine exists_congr fun q ↦ exists_congr fun rest ↦ ?_
    exact and_congr (and_congr_right fun _ ↦ hp.encodeColumn_iff hsize hrange)
      (and_congr_left fun _ ↦ ih)

/-- What they are made of. -/
theorem layouts_of_encodesVectors {encoded : List (NativeResultColumn × EncodedColumn)}
    (hencoded : EncodesVectors tae rowOffset rowCount (vectors.zip (pairs.map Prod.snd)) encoded) :
    List.Forall₂ (fun p q ↦ q.1 = p.2 ∧ IsLayoutOf tae rowOffset rowCount p.1 p.2 q.2)
      (vectors.zip (pairs.map Prod.snd)) encoded := by
  have hlayout : ∀ x ∈ vectors.zip (pairs.map Prod.snd), ∀ enc,
      encodeColumn tae x.1 rowOffset rowCount x.2 = .ok enc →
        IsLayoutOf tae rowOffset rowCount x.1 x.2 enc := by
    intro x hx enc henc
    obtain ⟨p, hp, hschema⟩ := exists_alike h hx
    rw [← hschema] at henc ⊢
    exact hp.layout_of_encodeColumn hrange henc
  refine ((List.forall₂_and_left _ _).mpr ⟨hlayout, hencoded⟩).imp ?_
  rintro x q ⟨hx, hschema, henc⟩
  exact ⟨hschema, hx q.2 henc⟩

theorem throws_encodeVectors : Throws ((vectors.zip (pairs.map Prod.snd)).mapM fun p ↦ do
    let encoded ← encodeColumn tae p.1 rowOffset rowCount p.2
    thrown (assembleVector tae rowCount p.2 encoded)) := by
  refine Throws.mapM fun x hx ↦ ?_
  obtain ⟨p, hp, hschema⟩ := exists_alike h hx
  rw [← hschema]
  exact (hp.throws_encodeColumn hrange).bind fun _ _ ↦ throws_thrown _

end

/-- The columns of a table that holds the rows of a chunk are like the vectors, where the widths
are. -/
theorem HoldsChunk.alike (h : e.HoldsChunk tae decimalOfDouble chunk)
    (htypes : List.Forall₂ (fun c t ↦ c.Accepts t ∧ ¬(c.isDecimal = true ∧ t = .double) ∧
      c.SameWidth t) e.schema.columns (chunk.vectors.map ChunkVector.type)) :
    List.Forall₂ (Alike tae decimalOfDouble e.allocation chunk.size) e.pairs chunk.vectors := by
  rw [← map_snd_pairs, List.forall₂_map_left_iff, List.forall₂_map_right_iff] at htypes
  have hchecked : ∀ p ∈ e.pairs,
      p.1.numRows.toInt = chunk.size ∧ sourceTypeMatches p.1 p.2 = true :=
    fun p hp ↦ ⟨h.rowCount_eq ▸ e.numRows_eq p hp, e.matches_eq p hp⟩
  have hboth := (List.forall₂_and_left _ _).mpr ⟨hchecked, h.columns_hold⟩
  refine List.Forall₂.mp (fun p v htype hp ↦ ?_) htypes hboth
  obtain ⟨haccepts, hdouble, hsame⟩ := htype
  obtain ⟨⟨hrows, hmatches⟩, hholds, hinside⟩ := hp
  exact
    { holds := hholds
      inside := hinside
      numRows_eq := hrows
      matches_eq := hmatches
      text_iff := isText_iff_varchar haccepts
      width_eq := fun htext ↦ (physicalWidth_iff haccepts htext hdouble).mpr hsame }

variable (halike : List.Forall₂ (Alike tae decimalOfDouble e.allocation chunk.size) e.pairs
  chunk.vectors)
include halike

theorem throws_encodeNativeResultBatch :
    Throws (encodeNativeResultBatch tae chunk rowOffset rowCount e.schema) := by
  rw [encodeNativeResultBatch, ← map_snd_pairs]
  refine (throws_thrown _).bind fun _ hrange ↦ ?_
  rw [thrown_eq_ok, throwIf_eq_ok] at hrange
  refine (throws_encodeVectors halike (by omega)).bind fun vectors _ ↦ ?_
  have hsizes : Throws (vectors.mapM fun vector ↦ do
      let size ← thrown (encodeU32 vector.length "native result vector")
      Except.ok (size ++ vector)) :=
    Throws.mapM fun _ _ ↦ (throws_thrown _).bind fun _ _ ↦ throws_ok _
  exact hsizes.bind fun _ _ ↦ throws_ok _

variable (h : e.HoldsChunk tae decimalOfDouble chunk)
include h

theorem encodeNativeResultBatch_iff :
    encodeNativeResultBatch tae chunk rowOffset rowCount e.schema = .ok bs ↔
      e.encode tae decimalOfDouble rowOffset rowCount = .ok bs := by
  have hlength : chunk.vectors.length = e.schema.columns.length := by
    rw [← halike.length_eq, ← map_snd_pairs, List.length_map]
  rw [encodeNativeResultBatch_eq_ok, encode_eq_ok_columns, and_iff_left hlength, h.rowCount_eq,
    ← map_snd_pairs]
  refine and_congr_right fun hrange ↦ exists_congr fun encoded ↦ and_congr_left fun _ ↦ ?_
  exact encodesVectors_iff halike hrange.2 h.sizeBytes_lt

/-- **The encoders agree** on a table and a chunk that are alike. -/
theorem agrees_of_alike : e.Agrees tae decimalOfDouble chunk rowOffset rowCount := by
  cases hencode : e.encode tae decimalOfDouble rowOffset rowCount with
  | ok bs =>
    have hchunk := (encodeNativeResultBatch_iff halike h).mpr hencode
    obtain ⟨⟨-, hrange, -⟩, encoded, hencoded, -, hbs⟩ := encodeNativeResultBatch_eq_ok.mp hchunk
    rw [← map_snd_pairs] at hencoded
    refine .inr ⟨bs, hchunk, hencode, encoded, ?_, hbs⟩
    rw [← map_snd_pairs]
    exact layouts_of_encodesVectors halike hrange hencoded
  | error x =>
    refine .inl ⟨?_, x, hencode⟩
    cases hchunk : encodeNativeResultBatch tae chunk rowOffset rowCount e.schema with
    | ok bs =>
      rw [(encodeNativeResultBatch_iff halike h).mp hchunk] at hencode
      cases hencode
    | error fault =>
      obtain ⟨y, rfl⟩ := throws_encodeNativeResultBatch halike fault hchunk
      exact ⟨y, rfl⟩

end HostEncoder

end MoSidecar
