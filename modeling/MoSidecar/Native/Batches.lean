import MoSidecar.Native.HostReading

/-!
# The bytes of a batch

`assemble_native_batch` writes the vectors of a batch one after another. What it writes is a
function of the columns, `batchBytes`, and it writes it if every length fits into 32 bits. Reading
the cells of every column and putting their layouts together is all there is to `encode`:
`encode_eq_ok`.
-/

namespace MoSidecar

open LittleEndian Bitmap Chunks

/-- The bytes of a vector. -/
def vectorBytes (tae : TaeTypes) (rowCount : ℕ) (p : NativeResultColumn × EncodedColumn) : Bytes :=
  [kMoVectorFlat] ++ ((p.1.moType tae).bytes ++ (bytes 4 rowCount ++ (sectionBytes p.2.data
    ++ (sectionBytes p.2.area ++ (sectionBytes p.2.nulls ++ [0])))))

/-- The bytes of a batch. -/
def batchBytes (tae : TaeTypes) (rowCount : ℕ)
    (columns : List (NativeResultColumn × EncodedColumn)) :
    Bytes :=
  signedBytes 8 rowCount ++ (signedBytes 4 columns.length
    ++ ((columns.map (vectorBytes tae rowCount)).flatMap sectionBytes ++ List.replicate 16 0))

/-- The lengths of a vector and of its parts have 32 bits. -/
structure VectorFits (tae : TaeTypes) (rowCount : ℕ) (p : NativeResultColumn × EncodedColumn) :
    Prop where
  rows_lt : rowCount < 2 ^ 32
  data_lt : p.2.data.length < 2 ^ 32
  area_lt : p.2.area.length < 2 ^ 32
  nulls_lt : p.2.nulls.length < 2 ^ 32
  vector_lt : (vectorBytes tae rowCount p).length < 2 ^ 32

variable {tae : TaeTypes} {rowCount rowOffset n : ℕ} {p : NativeResultColumn × EncodedColumn}
  {columns : List (NativeResultColumn × EncodedColumn)} {bs : Bytes} {what : String}

theorem encodeU32_eq_ok : encodeU32 n what = .ok bs ↔ n < 2 ^ 32 ∧ bs = bytes 4 n := by
  rw [encodeU32, bind_eq_ok]
  simp only [throwOverflowIf_eq_ok, exists_const, Except.ok.injEq, Nat.not_lt]
  constructor
  · rintro ⟨hle, rfl⟩
    exact ⟨by omega, rfl⟩
  · rintro ⟨hlt, rfl⟩
    exact ⟨by omega, rfl⟩

theorem length_sectionBytes (s : Bytes) : (sectionBytes s).length = 4 + s.length := by
  rw [sectionBytes, List.length_append, length_bytes]

theorem length_vectorBytes (tae : TaeTypes) (rowCount : ℕ)
    (p : NativeResultColumn × EncodedColumn) : (vectorBytes tae rowCount p).length
      = 34 + p.2.data.length + p.2.area.length + p.2.nulls.length := by
  have htype := (p.1.moType tae).length_bytes
  rw [kMoTypeBytes] at htype
  simp only [vectorBytes, List.length_append, length_sectionBytes, length_bytes, htype,
    List.length_singleton]
  omega

theorem length_batchBytes (tae : TaeTypes) (rowCount : ℕ)
    (columns : List (NativeResultColumn × EncodedColumn)) :
    (batchBytes tae rowCount columns).length
      = 28 + (columns.map fun p ↦ 4 + (vectorBytes tae rowCount p).length).sum := by
  have hsections : ((columns.map (vectorBytes tae rowCount)).flatMap sectionBytes).length
      = (columns.map fun p ↦ 4 + (vectorBytes tae rowCount p).length).sum := by
    rw [List.length_flatMap, List.map_map]
    refine congrArg List.sum (List.map_congr_left fun p _ ↦ ?_)
    exact length_sectionBytes _
  rw [batchBytes, List.length_append, List.length_append, List.length_append, hsections,
    length_signedBytes, length_signedBytes, List.length_replicate]
  omega

theorem assembleVector_eq_ok : (assembleVector tae rowCount p.1 p.2 = .ok bs ∧ bs.length < 2 ^ 32) ↔
    VectorFits tae rowCount p ∧ bs = vectorBytes tae rowCount p := by
  have hbytes : vectorBytes tae rowCount p = [kMoVectorFlat] ++ ((p.1.moType tae).bytes
      ++ (bytes 4 rowCount ++ (bytes 4 p.2.data.length ++ (p.2.data ++ (bytes 4 p.2.area.length
        ++ (p.2.area ++ (bytes 4 p.2.nulls.length ++ (p.2.nulls ++ [0])))))))) := by
    rw [vectorBytes, sectionBytes, sectionBytes, sectionBytes, List.append_assoc, List.append_assoc,
      List.append_assoc]
  rw [assembleVector]
  simp only [bind_eq_ok, encodeU32_eq_ok]
  constructor
  · rintro ⟨⟨rows, ⟨hrows, rfl⟩, data, ⟨hdata, rfl⟩, area, ⟨harea, rfl⟩, nulls, ⟨hnulls, rfl⟩, h⟩,
      hlt⟩
    have hbs := (Except.ok.inj h).symm.trans hbytes.symm
    exact ⟨⟨hrows, hdata, harea, hnulls, hbs ▸ hlt⟩, hbs⟩
  · rintro ⟨h, rfl⟩
    exact ⟨⟨_, ⟨h.rows_lt, rfl⟩, _, ⟨h.data_lt, rfl⟩, _, ⟨h.area_lt, rfl⟩, _, ⟨h.nulls_lt, rfl⟩,
      congrArg Except.ok hbytes.symm⟩, h.vector_lt⟩

theorem mapM_eq_ok_iff_map {ε α β : Type} {f : α → Except ε β} {P : α → Prop} {g : α → β}
    (hf : ∀ x y, f x = .ok y ↔ P x ∧ y = g x) {xs : List α} {ys : List β} :
    xs.mapM f = .ok ys ↔ (∀ x ∈ xs, P x) ∧ ys = xs.map g := by
  induction xs generalizing ys with
  | nil =>
    constructor
    · intro h
      exact ⟨List.forall_mem_nil _, (Except.ok.inj h).symm⟩
    · rintro ⟨-, rfl⟩
      rfl
  | cons x xs ih =>
    rw [List.mapM_cons, bind_eq_ok, List.forall_mem_cons]
    constructor
    · rintro ⟨y, hy, h⟩
      obtain ⟨ys', hys, h⟩ := bind_eq_ok.mp h
      obtain ⟨hx, rfl⟩ := (hf x y).mp hy
      obtain ⟨hxs, rfl⟩ := ih.mp hys
      exact ⟨⟨hx, hxs⟩, (Except.ok.inj h).symm⟩
    · rintro ⟨⟨hx, hxs⟩, rfl⟩
      exact ⟨g x, (hf x _).mpr ⟨hx, rfl⟩, bind_eq_ok.mpr ⟨xs.map g, ih.mpr ⟨hxs, rfl⟩, rfl⟩⟩

/-- A batch is written if its lengths have 32 bits. -/
theorem assembleNativeBatch_eq_ok : assembleNativeBatch tae rowCount columns = .ok bs ↔
    (∀ p ∈ columns, VectorFits tae rowCount p) ∧ bs = batchBytes tae rowCount columns := by
  have hvector (p : NativeResultColumn × EncodedColumn) (bs : Bytes) : (do
      let vector ← assembleVector tae rowCount p.1 p.2
      let size ← encodeU32 vector.length "native result vector"
      Except.ok (size ++ vector)) = .ok bs ↔
        VectorFits tae rowCount p ∧ bs = sectionBytes (vectorBytes tae rowCount p) := by
    simp only [bind_eq_ok, encodeU32_eq_ok]
    constructor
    · rintro ⟨vector, hassemble, size, ⟨hlt, rfl⟩, h⟩
      obtain ⟨hfits, rfl⟩ := assembleVector_eq_ok.mp ⟨hassemble, hlt⟩
      exact ⟨hfits, (Except.ok.inj h).symm⟩
    · rintro ⟨hfits, rfl⟩
      obtain ⟨hassemble, hlt⟩ := assembleVector_eq_ok.mpr ⟨hfits, rfl⟩
      exact ⟨_, hassemble, _, ⟨hlt, rfl⟩, rfl⟩
  have hzero : signedBytes 4 0 ++ (signedBytes 4 0 ++ (signedBytes 4 0 ++ signedBytes 4 0))
      = List.replicate 16 0 := by decide
  have hsections : (columns.map fun p ↦ sectionBytes (vectorBytes tae rowCount p)).flatten
      = (columns.map (vectorBytes tae rowCount)).flatMap sectionBytes := by
    rw [List.flatMap, List.map_map]
    rfl
  rw [assembleNativeBatch, bind_eq_ok]
  simp only [mapM_eq_ok_iff_map hvector]
  constructor
  · rintro ⟨vectors, ⟨hfits, rfl⟩, h⟩
    rw [hsections, hzero] at h
    exact ⟨hfits, (Except.ok.inj h).symm⟩
  · rintro ⟨hfits, rfl⟩
    refine ⟨_, ⟨hfits, rfl⟩, ?_⟩
    rw [hsections, hzero]
    rfl

/-! ## Batches that are equal -/

theorem sectionBytes_append_inj {s s' rest rest' : Bytes} (hs : s.length < 2 ^ 32)
    (hs' : s'.length < 2 ^ 32) (h : sectionBytes s ++ rest = sectionBytes s' ++ rest') :
    s = s' ∧ rest = rest' := by
  have hread : cursorSection (sectionBytes s ++ rest) = .ok (s, rest) :=
    cursorSection_eq_ok.mpr ⟨hs, rfl⟩
  rw [h, cursorSection_eq_ok.mpr ⟨hs', rfl⟩] at hread
  obtain ⟨hbytes, hrest⟩ := Prod.mk.inj (Except.ok.inj hread)
  exact ⟨hbytes.symm, hrest.symm⟩

/-- The bytes of a vector say what its column is. -/
theorem vectorBytes_inj {q : NativeResultColumn × EncodedColumn} (hp : VectorFits tae rowCount p)
    (hq : VectorFits tae rowCount q) (h : vectorBytes tae rowCount p = vectorBytes tae rowCount q) :
    p.2 = q.2 := by
  have htypes : (p.1.moType tae).bytes.length = (q.1.moType tae).bytes.length := by
    rw [MoType.length_bytes, MoType.length_bytes]
  obtain ⟨-, h⟩ := List.append_inj h rfl
  obtain ⟨-, h⟩ := List.append_inj h htypes
  obtain ⟨-, h⟩ := List.append_inj h rfl
  obtain ⟨hdata, h⟩ := sectionBytes_append_inj hp.data_lt hq.data_lt h
  obtain ⟨harea, h⟩ := sectionBytes_append_inj hp.area_lt hq.area_lt h
  obtain ⟨hnulls, -⟩ := sectionBytes_append_inj hp.nulls_lt hq.nulls_lt h
  obtain ⟨c, data, area, nulls⟩ := p
  obtain ⟨c', data', area', nulls'⟩ := q
  simp only [EncodedColumn.mk.injEq]
  exact ⟨hdata, harea, hnulls⟩

/-- So do those of a batch. -/
theorem batchBytes_inj {columns' : List (NativeResultColumn × EncodedColumn)}
    (hfits : ∀ p ∈ columns, VectorFits tae rowCount p)
    (hfits' : ∀ p ∈ columns', VectorFits tae rowCount p)
    (hlength : columns.length = columns'.length)
    (h : batchBytes tae rowCount columns = batchBytes tae rowCount columns') :
    columns.map Prod.snd = columns'.map Prod.snd := by
  have hcount : (signedBytes 4 columns.length).length = (signedBytes 4 columns'.length).length := by
    rw [length_signedBytes, length_signedBytes]
  obtain ⟨-, hcolumns⟩ := List.append_inj h rfl
  obtain ⟨-, hsections⟩ := List.append_inj hcolumns hcount
  clear h hcolumns hcount
  induction columns generalizing columns' with
  | nil =>
    obtain rfl := List.eq_nil_of_length_eq_zero hlength.symm
    rfl
  | cons p columns ih =>
    obtain ⟨q, columns', rfl⟩ := List.exists_cons_of_length_eq_add_one hlength.symm
    obtain ⟨hp, hcolumns⟩ := List.forall_mem_cons.mp hfits
    obtain ⟨hq, hcolumns'⟩ := List.forall_mem_cons.mp hfits'
    rw [List.map_cons, List.map_cons, List.flatMap_cons, List.flatMap_cons, List.append_assoc,
      List.append_assoc] at hsections
    obtain ⟨hvector, hrest⟩ := sectionBytes_append_inj hp.vector_lt hq.vector_lt hsections
    rw [List.map_cons, List.map_cons, vectorBytes_inj hp hq hvector,
      ih hcolumns hcolumns' (Nat.succ.inj hlength) hrest]

/-! ## The encoder -/

/-- The cells of the rows of a column. -/
structure ReadsCells (tae : TaeTypes)
    (decimalOfDouble : NativeResultColumn → Bytes → Except Thrown ℤ)
    (a : HostAllocation) (rowOffset rowCount : ℕ) (p : ColumnMetadata × NativeResultColumn)
    (cells : List Cell) : Prop where
  length_eq : cells.length = rowCount
  readCell_eq : ∀ i (h : i < cells.length),
    readCell tae decimalOfDouble p.1 a p.2 (rowOffset + i) = .ok cells[i]

/-- The cells of a column that passes the checks. -/
structure ReadsColumn (tae : TaeTypes)
    (decimalOfDouble : NativeResultColumn → Bytes → Except Thrown ℤ)
    (a : HostAllocation) (rowOffset rowCount : ℕ) (p : ColumnMetadata × NativeResultColumn)
    (cells : List Cell) : Prop extends
      ReadsCells tae decimalOfDouble a rowOffset rowCount p cells where
  readable : p.1.Readable tae p.2 rowOffset rowCount
  area_lt : (cellArea cells).length < 2 ^ 32

/-- A column of a schema, laid out. -/
def layoutOf (tae : TaeTypes) (q : (ColumnMetadata × NativeResultColumn) × List Cell) :
    NativeResultColumn × EncodedColumn :=
  (q.1.2, layoutColumn (tae.moTypeSize q.1.2.oid.toNat) q.2)

namespace HostEncoder

variable {decimalOfDouble : NativeResultColumn → Bytes → Except Thrown ℤ} {e : HostEncoder}

theorem checkRange_eq_ok : e.checkRange rowOffset rowCount = .ok () ↔
    0 < rowCount ∧ rowOffset + rowCount ≤ e.rowCount := by
  rw [checkRange, throwIf_eq_ok]
  omega

/-- The columns with the cells that are read of them. -/
def Reads (tae : TaeTypes) (decimalOfDouble : NativeResultColumn → Bytes → Except Thrown ℤ)
    (e : HostEncoder) (rowOffset rowCount : ℕ)
    (columns : List ((ColumnMetadata × NativeResultColumn) × List Cell)) : Prop :=
  columns.map Prod.fst = e.pairs ∧ ∀ q ∈ columns,
    ReadsColumn tae decimalOfDouble e.allocation rowOffset rowCount q.1 q.2

theorem encodeColumns_eq_ok {pairs : List (ColumnMetadata × NativeResultColumn)}
    {a : HostAllocation} {encoded : List (NativeResultColumn × EncodedColumn)} :
    (pairs.mapM fun p ↦ do
      let column ← encodeHostColumn tae decimalOfDouble p.1 a rowOffset rowCount p.2
      Except.ok (p.2, column)) = .ok encoded ↔
    ∃ columns : List ((ColumnMetadata × NativeResultColumn) × List Cell),
      (columns.map Prod.fst = pairs ∧ ∀ q ∈ columns,
        ReadsColumn tae decimalOfDouble a rowOffset rowCount q.1 q.2) ∧
      encoded = columns.map (layoutOf tae) := by
  induction pairs generalizing encoded with
  | nil =>
    constructor
    · intro h
      obtain rfl := Except.ok.inj h
      exact ⟨[], ⟨rfl, List.forall_mem_nil _⟩, rfl⟩
    · rintro ⟨columns, ⟨hcolumns, -⟩, rfl⟩
      rw [List.map_eq_nil_iff.mp hcolumns]
      rfl
  | cons p pairs ih =>
    rw [List.mapM_cons, bind_eq_ok]
    constructor
    · rintro ⟨encoded', h, h'⟩
      obtain ⟨column, hcolumn, h⟩ := bind_eq_ok.mp h
      obtain rfl := Except.ok.inj h
      obtain ⟨rest, hrest, h'⟩ := bind_eq_ok.mp h'
      obtain rfl := Except.ok.inj h'
      obtain ⟨hreadable, cells, harea, hlength, hread, rfl⟩ := encodeHostColumn_eq_ok.mp hcolumn
      obtain ⟨columns, ⟨rfl, hcolumns⟩, rfl⟩ := ih.mp hrest
      exact ⟨(p, cells) :: columns, ⟨rfl, List.forall_mem_cons.mpr
        ⟨⟨⟨hlength, hread⟩, hreadable, harea⟩, hcolumns⟩⟩, rfl⟩
    · rintro ⟨columns, ⟨hpairs, hcolumns⟩, rfl⟩
      obtain ⟨q, columns, rfl, rfl, rfl⟩ := List.map_eq_cons_iff.mp hpairs
      obtain ⟨hq, hrest⟩ := List.forall_mem_cons.mp hcolumns
      refine ⟨layoutOf tae q, bind_eq_ok.mpr ⟨_, encodeHostColumn_eq_ok.mpr
        ⟨hq.readable, q.2, hq.area_lt, hq.length_eq, hq.readCell_eq, rfl⟩, rfl⟩, ?_⟩
      exact bind_eq_ok.mpr ⟨_, ih.mpr ⟨columns, ⟨rfl, hrest⟩, rfl⟩, rfl⟩

/-- A range is encoded as the layout of its cells, if they are read and the lengths have 32 bits. -/
theorem encode_eq_ok : e.encode tae decimalOfDouble rowOffset rowCount = .ok bs ↔
    (0 < rowCount ∧ rowOffset + rowCount ≤ e.rowCount) ∧ ∃ columns,
      e.Reads tae decimalOfDouble rowOffset rowCount columns ∧
      (∀ q ∈ columns, VectorFits tae rowCount (layoutOf tae q)) ∧
      bs = batchBytes tae rowCount (columns.map (layoutOf tae)) := by
  rw [encode]
  simp only [bind_eq_ok, encodeColumns_eq_ok, assembleNativeBatch_eq_ok]
  constructor
  · rintro ⟨⟨⟩, hrange, encoded, ⟨columns, hreads, rfl⟩, hfits, rfl⟩
    exact ⟨checkRange_eq_ok.mp hrange, columns, hreads, fun q hq ↦ hfits _ (List.mem_map_of_mem hq),
      rfl⟩
  · rintro ⟨hrange, columns, hreads, hfits, rfl⟩
    refine ⟨(), checkRange_eq_ok.mpr hrange, _, ⟨columns, hreads, rfl⟩, ?_, rfl⟩
    intro p hp
    obtain ⟨q, hq, rfl⟩ := List.mem_map.mp hp
    exact hfits q hq

end HostEncoder

end MoSidecar
