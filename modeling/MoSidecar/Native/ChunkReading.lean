import MoSidecar.Native.Batches
import MoSidecar.Native.DataChunk

/-!
# What the encoder of data chunks writes

As for the encoder of host memory, a column is the layout of the cells of its rows. The loop of
`encode_column` builds the null bitmap as it goes; that makes no difference to the bytes.
-/

namespace MoSidecar

open LittleEndian Bitmap Chunks

/-! ## Rows -/

/-- What is read of a row that is not null. -/
def readChunkValue (tae : TaeTypes) (schema : NativeResultColumn) (data : ChunkData)
    (sourceRow : ℕ) : Except Fault Cell :=
  if isText schema.oid then (data.string sourceRow).map .text
  else (encodeChunkElement tae schema data sourceRow).map .element

/-- What is read of a row. -/
def readChunkCell (tae : TaeTypes) (v : ChunkVector) (schema : NativeResultColumn) (row : ℕ) :
    Except Fault Cell := do
  thrown (throwIf (!v.rowIsValid (v.sel row) ∧ schema.notNullable)
    "required native result column contains nulls")
  if v.rowIsValid (v.sel row) then readChunkValue tae schema v.data (v.sel row) else .ok .null

/-- The bitmap of the first rows, in the words of a larger one. -/
def setAll (words : List ℕ) (nulls : List Bool) : List ℕ :=
  (List.range nulls.length).foldl
    (fun words r ↦ if nulls.getD r false then set words r else words) words

/-- What the loop has made of some cells. -/
def columnOutput (width rowCount : ℕ) (cells : List Cell) : ColumnOutput where
  data := cellData width 0 cells
  area := cellArea cells
  nullWords := setAll (List.replicate ((rowCount + 63) / 64) 0) (cells.map Cell.isNull)
  nullCount := (cells.map Cell.isNull).count true

variable {α : Type} {tae : TaeTypes} {v : ChunkVector} {schema : NativeResultColumn}
  {data : ChunkData} {rowOffset rowCount row sourceRow width : ℕ} {valid : Bool}
  {out out' : Bytes × Bytes} {cell : Cell} {cells : List Cell} {words : List ℕ} {nulls : List Bool}
  {enc : EncodedColumn} {x : Except Thrown α} {a : α}

theorem thrown_eq_ok : thrown x = .ok a ↔ x = .ok a := by
  rw [thrown]
  cases x with
  | error e => exact iff_of_false nofun nofun
  | ok b => exact ⟨fun h ↦ congrArg Except.ok (Except.ok.inj h), fun h ↦
      congrArg Except.ok (Except.ok.inj h)⟩

theorem setAll_concat (words : List ℕ) (nulls : List Bool) (null : Bool) :
    setAll words (nulls ++ [null])
      = if null then set (setAll words nulls) nulls.length else setAll words nulls := by
  have hlast : (nulls ++ [null]).getD nulls.length false = null := by
    rw [List.getD_append_right _ _ _ _ (Nat.le_refl _), Nat.sub_self]
    rfl
  have hfirst : (List.range nulls.length).foldl
      (fun words r ↦ if (nulls ++ [null]).getD r false then set words r else words) words
        = setAll words nulls := by
    refine List.foldl_ext _ _ _ fun words r hr ↦ ?_
    rw [List.getD_append _ _ _ _ (List.mem_range.mp hr)]
  rw [setAll, List.length_append, List.length_singleton, List.range_succ, List.foldl_append, hfirst,
    List.foldl_cons, List.foldl_nil, hlast]

theorem isNull_of_readChunkValue (h : readChunkValue tae schema data sourceRow = .ok cell) :
    cell.isNull = false := by
  rw [readChunkValue] at h
  split_ifs at h
  · obtain ⟨s, -, rfl⟩ := map_eq_ok.mp h
    rfl
  · obtain ⟨bs, -, rfl⟩ := map_eq_ok.mp h
    rfl

theorem readChunkCell_eq_ok : readChunkCell tae v schema row = .ok cell ↔
    cell.isNull = !v.rowIsValid (v.sel row) ∧ (schema.notNullable && cell.isNull) = false ∧
      (cell.isNull = false → readChunkValue tae schema v.data (v.sel row) = .ok cell) := by
  rw [readChunkCell, bind_eq_ok]
  simp only [thrown_eq_ok, throwIf_eq_ok, exists_const]
  cases hvalid : v.rowIsValid (v.sel row) with
  | true =>
    rw [if_pos rfl, Bool.not_true]
    constructor
    · rintro ⟨-, hread⟩
      have hnull := isNull_of_readChunkValue hread
      exact ⟨hnull, by rw [hnull, Bool.and_false], fun _ ↦ hread⟩
    · rintro ⟨hnull, -, hread⟩
      exact ⟨fun hnot ↦ Bool.false_ne_true hnot.1, hread hnull⟩
  | false =>
    rw [if_neg Bool.false_ne_true, Bool.not_false]
    constructor
    · rintro ⟨hrequired, hread⟩
      obtain rfl := Except.ok.inj hread
      refine ⟨rfl, ?_, by rintro ⟨⟩⟩
      rw [Cell.isNull, Bool.and_true, Bool.eq_false_iff]
      exact fun hnot ↦ hrequired ⟨rfl, hnot⟩
    · rintro ⟨hnull, hrequired, -⟩
      rw [hnull, Bool.and_true] at hrequired
      refine ⟨fun hnot ↦ Bool.false_ne_true (hrequired.symm.trans hnot.2), ?_⟩
      cases cell with
      | null => rfl
      | text s => cases hnull
      | element bs => cases hnull

/-- A row is put behind the data and the area as its cell. -/
theorem encodeChunkRow_eq_ok (hout : out.2.length < 2 ^ 32) :
    encodeChunkRow tae schema data sourceRow valid out = .ok out' ↔
      ∃ cell, (if valid then readChunkValue tae schema data sourceRow else .ok .null) = .ok cell ∧
        out.2.length + cell.area.length < 2 ^ 32 ∧
        out' = (out.1 ++ cell.piece (tae.moTypeSize schema.oid.toNat) out.2.length,
          out.2 ++ cell.area) := by
  have hnull : (Except.ok (out.1 ++ List.replicate (tae.moTypeSize schema.oid.toNat) 0, out.2)
      : Except Fault (Bytes × Bytes)) = .ok out' ↔
      ∃ cell, (Except.ok Cell.null : Except Fault Cell) = .ok cell ∧
        out.2.length + cell.area.length < 2 ^ 32 ∧
        out' = (out.1 ++ cell.piece (tae.moTypeSize schema.oid.toNat) out.2.length,
          out.2 ++ cell.area) := by
    constructor
    · intro h
      refine ⟨.null, rfl, hout, ?_⟩
      rw [← Except.ok.inj h, Cell.area, List.append_nil]
      rfl
    · rintro ⟨cell, hcell, -, rfl⟩
      obtain rfl := Except.ok.inj hcell
      rw [Cell.area, List.append_nil]
      rfl
  rw [encodeChunkRow]
  cases valid with
  | false =>
    simp only [Bool.false_eq_true, if_false]
    cases htext : isText schema.oid with
    | true =>
      rw [if_pos rfl, ← moTypeSize_of_text htext]
      exact hnull
    | false =>
      rw [if_neg Bool.false_ne_true]
      exact hnull
  | true =>
    simp only [if_true, readChunkValue]
    split_ifs with htext
    · simp only [bind_eq_ok, thrown_eq_ok, map_eq_ok]
      have hcopy {s s' : Bytes} (hs : (Except.ok s : Except Thrown Bytes) = .ok s') :
          s'.length = s.length := by rw [Except.ok.inj hs]
      rw [moTypeSize_of_text htext]
      constructor
      · rintro ⟨s, hs, h⟩
        obtain ⟨s', hs', hroom, rfl⟩ := (appendString_eq_ok (fun _ ↦ hcopy) hout).mp h
        obtain rfl := Except.ok.inj hs'
        exact ⟨.text s, ⟨s, hs, rfl⟩, hroom, rfl⟩
      · rintro ⟨cell, ⟨s, hs, rfl⟩, hroom, rfl⟩
        exact ⟨s, hs, (appendString_eq_ok (fun _ ↦ hcopy) hout).mpr ⟨s, rfl, hroom, rfl⟩⟩
    · simp only [bind_eq_ok, map_eq_ok]
      constructor
      · rintro ⟨bs, hbs, h⟩
        refine ⟨.element bs, ⟨bs, hbs, rfl⟩, hout, ?_⟩
        rw [← Except.ok.inj h, Cell.area, List.append_nil]
        rfl
      · rintro ⟨cell, ⟨bs, hbs, rfl⟩, -, rfl⟩
        refine ⟨bs, hbs, ?_⟩
        rw [Cell.area, List.append_nil]
        rfl

/-! ## Columns -/

theorem encodeColumnRound_eq_ok {out out' : ColumnOutput} (harea : out.area.length < 2 ^ 32) :
    encodeColumnRound tae v rowOffset schema out row = .ok out' ↔
      ∃ cell, readChunkCell tae v schema (rowOffset + row) = .ok cell ∧
        out.area.length + cell.area.length < 2 ^ 32 ∧
        out' = ⟨out.data ++ cell.piece (tae.moTypeSize schema.oid.toNat) out.area.length,
          out.area ++ cell.area, if cell.isNull then set out.nullWords row else out.nullWords,
          if cell.isNull then out.nullCount + 1 else out.nullCount⟩ := by
  have hnull {valid : Bool} {cell : Cell} (hread : (if valid then readChunkValue tae schema v.data
      (v.sel (rowOffset + row)) else .ok .null) = .ok cell) : cell.isNull = !valid := by
    cases valid with
    | true => exact isNull_of_readChunkValue hread
    | false =>
      obtain rfl := Except.ok.inj hread
      rfl
  rw [encodeColumnRound]
  simp only [bind_eq_ok, readChunkCell, thrown_eq_ok, throwIf_eq_ok, exists_const]
  constructor
  · rintro ⟨hrequired, ⟨data, area⟩, hrow, h⟩
    obtain ⟨cell, hread, hroom, hout⟩ := (encodeChunkRow_eq_ok harea).mp hrow
    obtain ⟨rfl, rfl⟩ := Prod.mk.inj hout
    refine ⟨cell, ⟨hrequired, hread⟩, hroom, ?_⟩
    rw [← Except.ok.inj h, hnull hread]
    simp only [Bool.not_eq_true', ← Bool.not_eq_true, ite_not]
  · rintro ⟨cell, ⟨hrequired, hread⟩, hroom, rfl⟩
    refine ⟨hrequired, _, (encodeChunkRow_eq_ok harea).mpr ⟨cell, hread, hroom, rfl⟩, ?_⟩
    rw [hnull hread]
    simp only [Bool.not_eq_true', ← Bool.not_eq_true, ite_not]

/-- The loop answers what it makes of the cells of the rows. -/
theorem encodeColumnRounds_eq_ok {out : ColumnOutput} :
    (List.range rowCount).foldlM (encodeColumnRound tae v rowOffset schema)
        ⟨[], [], List.replicate ((rowCount + 63) / 64) 0, 0⟩ = .ok out ↔
      ∃ cells, cells.length = rowCount ∧ (∀ i (h : i < cells.length),
        readChunkCell tae v schema (rowOffset + i) = .ok cells[i]) ∧
        (cellArea cells).length < 2 ^ 32 ∧
        out = columnOutput (tae.moTypeSize schema.oid.toNat) rowCount cells := by
  have hnil : (cellArea []).length < 2 ^ 32 := by decide
  have hround (cells : List Cell) (out : ColumnOutput) (harea : (cellArea cells).length < 2 ^ 32) :
      encodeColumnRound tae v rowOffset schema
          (columnOutput (tae.moTypeSize schema.oid.toNat) rowCount cells) cells.length = .ok out ↔
        ∃ cell, readChunkCell tae v schema (rowOffset + cells.length) = .ok cell ∧
          (cellArea (cells ++ [cell])).length < 2 ^ 32 ∧
          out = columnOutput (tae.moTypeSize schema.oid.toNat) rowCount (cells ++ [cell]) := by
    rw [encodeColumnRound_eq_ok harea]
    refine exists_congr fun cell ↦ ?_
    rw [columnOutput, columnOutput, cellData_concat, cellArea_concat, List.length_append,
      List.map_append, List.map_singleton, setAll_concat, List.count_append, List.length_map]
    cases cell.isNull with
    | true => rfl
    | false => rfl
  exact foldlM_range_eq_ok (columnOutput (tae.moTypeSize schema.oid.toNat) rowCount)
    (fun cells ↦ (cellArea cells).length < 2 ^ 32) hnil (fun _ _ ↦ length_cellArea_lt) hround

/-- A column is the layout of the cells of its rows. -/
theorem encodeColumn_eq_ok : encodeColumn tae v rowOffset rowCount schema = .ok enc ↔
    ∃ cells, (cellArea cells).length < 2 ^ 32 ∧ cells.length = rowCount ∧
      (∀ i (h : i < cells.length), readChunkCell tae v schema (rowOffset + i) = .ok cells[i]) ∧
      enc = layoutColumn (tae.moTypeSize schema.oid.toNat) cells := by
  have hlayout (cells : List Cell) (hlength : cells.length = rowCount) :
      (⟨cellData (tae.moTypeSize schema.oid.toNat) 0 cells, cellArea cells,
        if (cells.map Cell.isNull).count true = 0 then []
        else bytes 8 ((cells.map Cell.isNull).count true) ++ (bytes 8 rowCount
          ++ (bytes 8 ((setAll (List.replicate ((rowCount + 63) / 64) 0)
            (cells.map Cell.isNull)).length * 8) ++
              (setAll (List.replicate ((rowCount + 63) / 64) 0)
              (cells.map Cell.isNull)).flatMap (bytes 8)))⟩ : EncodedColumn)
        = layoutColumn (tae.moTypeSize schema.oid.toNat) cells := by
    have hpack : setAll (List.replicate ((rowCount + 63) / 64) 0) (cells.map Cell.isNull)
        = pack (cells.map Cell.isNull) := by
      rw [setAll, pack, List.length_map, hlength]
    rw [layoutColumn, encodeNulls, hpack, List.length_map, hlength]
  rw [encodeColumn]
  simp only [bind_eq_ok, encodeColumnRounds_eq_ok]
  constructor
  · rintro ⟨out, ⟨cells, hlength, hread, harea, rfl⟩, h⟩
    exact ⟨cells, harea, hlength, hread, (Except.ok.inj h).symm.trans (hlayout cells hlength)⟩
  · rintro ⟨cells, harea, hlength, hread, rfl⟩
    exact ⟨_, ⟨cells, hlength, hread, harea, rfl⟩, congrArg Except.ok (hlayout cells hlength)⟩

/-! ## Batches -/

/-- The columns that are made of the vectors of a chunk. -/
def EncodesVectors (tae : TaeTypes) (rowOffset rowCount : ℕ)
    (pairs : List (ChunkVector × NativeResultColumn))
    (encoded : List (NativeResultColumn × EncodedColumn)) : Prop :=
  List.Forall₂ (fun p q ↦ q.1 = p.2 ∧ encodeColumn tae p.1 rowOffset rowCount p.2 = .ok q.2)
    pairs encoded

theorem encodeVectors_eq_ok {pairs : List (ChunkVector × NativeResultColumn)}
    {vectors : List Bytes} : ((pairs.mapM fun p ↦ do
        let encoded ← encodeColumn tae p.1 rowOffset rowCount p.2
        thrown (assembleVector tae rowCount p.2 encoded)) = .ok vectors ∧
      ∀ vector ∈ vectors, vector.length < 2 ^ 32) ↔
    ∃ encoded, EncodesVectors tae rowOffset rowCount pairs encoded ∧
      (∀ q ∈ encoded, VectorFits tae rowCount q) ∧
        vectors = encoded.map (vectorBytes tae rowCount) := by
  rw [mapM_eq_ok]
  constructor
  · rintro ⟨h, hlt⟩
    induction h with
    | nil => exact ⟨[], .nil, List.forall_mem_nil _, rfl⟩
    | @cons p vector pairs vectors hvector _ ih =>
      obtain ⟨hlt, htail⟩ := List.forall_mem_cons.mp hlt
      obtain ⟨enc, henc, hassemble⟩ := bind_eq_ok.mp hvector
      have hboth : assembleVector tae rowCount (p.2, enc).1 (p.2, enc).2 = .ok vector ∧
          vector.length < 2 ^ 32 := ⟨thrown_eq_ok.mp hassemble, hlt⟩
      obtain ⟨hfits, rfl⟩ := assembleVector_eq_ok.mp hboth
      obtain ⟨encoded, hencoded, hall, rfl⟩ := ih htail
      exact ⟨(p.2, enc) :: encoded, .cons ⟨rfl, henc⟩ hencoded,
        List.forall_mem_cons.mpr ⟨hfits, hall⟩,
        rfl⟩
  · rintro ⟨encoded, h, hfits, rfl⟩
    induction h with
    | nil => exact ⟨.nil, List.forall_mem_nil _⟩
    | @cons p q pairs encoded hq _ ih =>
      obtain ⟨hfit, htail⟩ := List.forall_mem_cons.mp hfits
      obtain ⟨hassemble, hlt⟩ := assembleVector_eq_ok.mpr ⟨hfit, rfl⟩
      obtain ⟨hvectors, hlts⟩ := ih htail
      refine ⟨.cons ?_ hvectors, List.forall_mem_cons.mpr ⟨hlt, hlts⟩⟩
      exact bind_eq_ok.mpr ⟨q.2, hq.2, thrown_eq_ok.mpr (hq.1 ▸ hassemble)⟩

/-- A range of a chunk is encoded as the bytes of its columns. -/
theorem encodeNativeResultBatch_eq_ok {chunk : DataChunk} {schema : NativeResultSchema}
    {bs : Bytes} :
    encodeNativeResultBatch tae chunk rowOffset rowCount schema = .ok bs ↔
      (0 < rowCount ∧ rowOffset + rowCount ≤ chunk.size ∧
        chunk.vectors.length = schema.columns.length) ∧
      ∃ encoded, EncodesVectors tae rowOffset rowCount (chunk.vectors.zip schema.columns) encoded ∧
        (∀ q ∈ encoded, VectorFits tae rowCount q) ∧ bs = batchBytes tae rowCount encoded := by
  have hsize (vector : Bytes) (sized : Bytes) : (do
      let size ← thrown (encodeU32 vector.length "native result vector")
      Except.ok (size ++ vector)) = .ok sized ↔
        vector.length < 2 ^ 32 ∧ sized = sectionBytes vector := by
    simp only [bind_eq_ok, thrown_eq_ok, encodeU32_eq_ok]
    constructor
    · rintro ⟨size, ⟨hlt, rfl⟩, h⟩
      exact ⟨hlt, (Except.ok.inj h).symm⟩
    · rintro ⟨hlt, rfl⟩
      exact ⟨_, ⟨hlt, rfl⟩, rfl⟩
  have hzero : signedBytes 4 0 ++ (signedBytes 4 0 ++ (signedBytes 4 0 ++ signedBytes 4 0))
      = List.replicate 16 0 := by decide
  have hrange : ¬(rowCount = 0 ∨ rowOffset > chunk.size ∨ rowCount > chunk.size - rowOffset ∨
      chunk.vectors.length ≠ schema.columns.length) ↔ 0 < rowCount ∧
        rowOffset + rowCount ≤ chunk.size ∧ chunk.vectors.length = schema.columns.length := by
    omega
  rw [encodeNativeResultBatch]
  simp only [bind_eq_ok, thrown_eq_ok, throwIf_eq_ok, exists_const, hrange,
    mapM_eq_ok_iff_map hsize, hzero]
  refine and_congr_right fun _ ↦ ?_
  constructor
  · rintro ⟨vectors, hvectors, sized, ⟨hlt, rfl⟩, h⟩
    obtain ⟨encoded, hencoded, hfits, rfl⟩ := encodeVectors_eq_ok.mp ⟨hvectors, hlt⟩
    refine ⟨encoded, hencoded, hfits, ?_⟩
    rw [← Except.ok.inj h, List.length_map]
    rfl
  · rintro ⟨encoded, hencoded, hfits, rfl⟩
    obtain ⟨hvectors, hlt⟩ := encodeVectors_eq_ok.mpr ⟨encoded, hencoded, hfits, rfl⟩
    refine ⟨_, hvectors, _, ⟨hlt, rfl⟩, ?_⟩
    rw [List.length_map]
    rfl

end MoSidecar
