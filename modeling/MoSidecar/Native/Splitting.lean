import MoSidecar.Execution.Splitting
import MoSidecar.Native.EncodedSize

/-!
# Splitting a table in host memory

`consume_batch` relies on three facts about an encoder, which are `ResultEncoder.Predictable`. Here
they are proved of the encoder of host memory: for a well-formed table whose values can be encoded,
a size is predicted for every range, it does not fall when rows are added to the range, and a range
that fits by its prediction is encoded in at most that many bytes.

Well-formed is what reading the rows that are not null does not show by itself. The spans of null
rows are read by the prediction, so the offsets of strings must be in order for all rows. Sums are
kept in 64 bits, and the format counts in 32.
-/

namespace MoSidecar

open LittleEndian Bitmap Chunks

/-! ## Well-formed tables -/

/-- Offsets that lie in the allocation, never fall, and end within `limit`. -/
structure BufferMetadata.Ascending (offsets : BufferMetadata) (a : HostAllocation)
    (rows limit : ℕ) : Prop where
  hasData_eq : offsets.hasData = true
  typeId_eq : offsets.typeId = .int32 ∨ offsets.typeId = .int64
  size_le : (rows + 1) * offsetWidth offsets ≤ offsets.dataSize.toNat
  inside : offsets.dataOffset.toNat + offsets.dataSize.toNat ≤ a.sizeBytes
  le_succ : ∀ row < rows, offsets.offsetValue a row ≤ offsets.offsetValue a (row + 1)
  last_le : offsets.offsetValue a rows ≤ limit

/-- A column whose buffers are as long as its rows need. -/
structure ColumnMetadata.WellFormed (tae : TaeTypes) (a : HostAllocation) (c : ColumnMetadata)
    (schema : NativeResultColumn) : Prop where
  mask_le : c.hasNullMask = true → (c.numRows.toInt.toNat + 7) / 8 ≤ c.nullMaskSize.toNat
  elements_le : isText schema.oid = false → c.hasData = true ∧
    c.numRows.toInt.toNat * sourceSize tae c schema ≤ c.dataSize.toNat
  offsets_ok : isText schema.oid = true → c.hasData = true ∧ ∃ offsets, c.children = [offsets] ∧
    offsets.Ascending a c.numRows.toInt.toNat c.dataSize.toNat

namespace HostEncoder

/-- A table of well-formed columns, whose characters leave room in 64 bits. -/
structure WellFormed (tae : TaeTypes) (e : HostEncoder) : Prop where
  columns_ok : ∀ p ∈ e.pairs, p.1.WellFormed tae e.allocation p.2
  sizeBytes_lt : e.allocation.sizeBytes < 2 ^ 64
  dataSizes_le : (e.pairs.map fun p ↦ p.1.dataSize.toNat).sum ≤ 2 ^ 63

/-- Every value encodes: a cell can be read for each row of each column. -/
def ValuesEncode (tae : TaeTypes) (decimalOfDouble : NativeResultColumn → Bytes → Except Thrown ℤ)
    (e : HostEncoder) : Prop :=
  ∀ p ∈ e.pairs, ∀ row < e.rowCount, ∃ cell,
    readCell tae decimalOfDouble p.1 e.allocation p.2 row = .ok cell

/-- No range that fits `maxBatchBytes` is too long for the 32-bit lengths of the format. The bound
of a request is at most 1 GiB; then this holds of every table. -/
def WithinFormat (tae : TaeTypes) (e : HostEncoder) (maxBatchBytes : ℕ) : Prop :=
  ∀ rowOffset rowCount size, e.encodedSize tae rowOffset rowCount = .ok size →
    size ≤ maxBatchBytes → size < 2 ^ 32

/-- The encoder, as `consume_batch` sees it. -/
def toResultEncoder (tae : TaeTypes)
    (decimalOfDouble : NativeResultColumn → Bytes → Except Thrown ℤ) (e : HostEncoder) :
    ResultEncoder where
  rows := e.rowCount
  encodedSize := e.encodedSize tae
  encode := e.encode tae decimalOfDouble

end HostEncoder

variable {tae : TaeTypes} {decimalOfDouble : NativeResultColumn → Bytes → Except Thrown ℤ}
  {e : HostEncoder} {c : ColumnMetadata} {a : HostAllocation} {offsets : BufferMetadata}
  {rowOffset rowCount size row rows limit maxBatchBytes : ℕ}
  {p : ColumnMetadata × NativeResultColumn} {cells : List Cell}

theorem HostEncoder.withinFormat_of_lt (h : maxBatchBytes < 2 ^ 32) :
    e.WithinFormat tae maxBatchBytes :=
  fun _ _ _ _ hle ↦ Nat.lt_of_le_of_lt hle h

/-! ## Offsets in order -/

namespace BufferMetadata.Ascending

variable (h : offsets.Ascending a rows limit)
include h

theorem offsetAt_eq_ok (hsize : a.sizeBytes < 2 ^ 64) (hrow : row ≤ rows) :
    offsetAt a offsets row = .ok (offsets.offsetValue a row) := by
  have hwidth : row * offsetWidth offsets + offsetWidth offsets
      ≤ (rows + 1) * offsetWidth offsets := by
    rw [← Nat.succ_mul]
    exact Nat.mul_le_mul_right _ (Nat.succ_le_succ hrow)
  have hend := h.size_le
  have hinside := h.inside
  have haddress : address offsets.dataOffset (row * offsetWidth offsets)
      = offsets.dataOffset.toNat + row * offsetWidth offsets := Nat.mod_eq_of_lt (by omega)
  rw [offsetAt, bind_eq_ok]
  exact ⟨_, HostAllocation.copyHostBytes_eq_ok.mpr ⟨by omega, rfl⟩, rfl⟩

theorem le_limit (hrow : row ≤ rows) : offsets.offsetValue a row ≤ limit := by
  induction hleft : rows - row generalizing row with
  | zero =>
    obtain rfl : row = rows := by omega
    exact h.last_le
  | succ left ih => exact Nat.le_trans (h.le_succ row (by omega)) (ih (by omega) (by omega))

theorem offsetsOf_eq_ok {what : String} (hchildren : c.children = [offsets])
    (hrows : rows = c.numRows.toInt.toNat) : offsetsOf c true what = .ok offsets := by
  have hsize := h.size_le
  have htype : (offsets.typeId == .int32 || offsets.typeId == .int64) = true := by
    rw [Bool.or_eq_true, beq_iff_eq, beq_iff_eq]
    exact h.typeId_eq
  rw [offsetsOf, hchildren]
  simp only
  rw [h.hasData_eq, htype, Bool.and_self, Bool.and_self, if_pos rfl,
    if_neg (by rw [← hrows]; omega)]

/-- The span of every row can be read. -/
theorem readSpan_eq_ok (hchildren : c.children = [offsets]) (hlimit : limit = c.dataSize.toNat)
    (hsize : a.sizeBytes < 2 ^ 64) (hrow : row < rows) :
    readSpan c a offsets row = .ok (c.spanAt a row) := by
  have hfirst := h.offsetAt_eq_ok hsize (Nat.le_of_lt hrow)
  have hlast : offsetAt a offsets (row + 1) = .ok (offsets.offsetValue a (row + 1)) :=
    h.offsetAt_eq_ok hsize hrow
  have hle := h.le_succ row hrow
  have hend : offsets.offsetValue a (row + 1) ≤ limit := h.le_limit hrow
  rw [readSpan, hfirst, ok_bind_eq, hlast, ok_bind_eq, bind_eq_ok]
  refine ⟨(), throwIf_eq_ok.mpr (by omega), ?_⟩
  rw [ColumnMetadata.spanAt, hchildren]

/-- The spans of a range lie one behind the other, so the area is no longer than the characters. -/
theorem areaTotal_add_le (hchildren : c.children = [offsets])
    (hrange : rowOffset + rowCount ≤ rows) :
    c.areaTotal a rowOffset rowCount + offsets.offsetValue a rowOffset
      ≤ offsets.offsetValue a (rowOffset + rowCount) := by
  induction rowCount with
  | zero => exact Nat.le_of_eq (Nat.zero_add _)
  | succ rowCount ih =>
    have hle := h.le_succ (rowOffset + rowCount) (by omega)
    have hshare : c.areaShare a (rowOffset + rowCount)
        ≤ offsets.offsetValue a (rowOffset + rowCount + 1)
          - offsets.offsetValue a (rowOffset + rowCount) := by
      rw [ColumnMetadata.areaShare, ColumnMetadata.spanLength, ColumnMetadata.spanAt, hchildren]
      split_ifs
      · exact Nat.le_refl _
      · exact Nat.zero_le _
    have hbefore := ih (by omega)
    have hsplit : c.areaTotal a rowOffset (rowCount + 1)
        = c.areaTotal a rowOffset rowCount + c.areaShare a (rowOffset + rowCount) := by
      rw [ColumnMetadata.areaTotal, List.range_succ, List.map_append, List.sum_append,
        List.map_singleton, List.sum_singleton]
      rfl
    rw [hsplit, ← Nat.add_assoc]
    omega

end BufferMetadata.Ascending

/-! ## Reading the rows of a range -/

/-- A list from its elements. -/
theorem exists_list {α : Type} {P : ℕ → α → Prop} {n : ℕ} (h : ∀ i < n, ∃ x, P i x) :
    ∃ xs : List α, xs.length = n ∧ ∀ i (hi : i < xs.length), P i xs[i] := by
  choose f hf using h
  refine ⟨List.ofFn fun i : Fin n ↦ f i i.isLt, List.length_ofFn, fun i hi ↦ ?_⟩
  rw [List.getElem_ofFn]
  exact hf i _

/-- A list of pairs from its first components. -/
theorem exists_pairs {α β : Type} {P : α → β → Prop} {xs : List α} (h : ∀ x ∈ xs, ∃ y, P x y) :
    ∃ ps : List (α × β), ps.map Prod.fst = xs ∧ ∀ p ∈ ps, P p.1 p.2 := by
  induction xs with
  | nil => exact ⟨[], rfl, List.forall_mem_nil _⟩
  | cons x xs ih =>
    obtain ⟨hx, hxs⟩ := List.forall_mem_cons.mp h
    obtain ⟨y, hy⟩ := hx
    obtain ⟨ps, rfl, hps⟩ := ih hxs
    exact ⟨(x, y) :: ps, rfl, List.forall_mem_cons.mpr ⟨hy, hps⟩⟩

/-- A loop that may throw ends, if none of its rounds throws. -/
theorem exists_foldlM_eq_ok {α β : Type} {f : β → α → Except Thrown β} {xs : List α}
    (h : ∀ acc, ∀ x ∈ xs, ∃ next, f acc x = .ok next) (acc : β) :
    ∃ last, xs.foldlM f acc = .ok last := by
  induction xs generalizing acc with
  | nil => exact ⟨acc, rfl⟩
  | cons x xs ih =>
    obtain ⟨next, hnext⟩ := h acc x List.mem_cons_self
    obtain ⟨last, hlast⟩ := ih (fun acc y hy ↦ h acc y (List.mem_cons_of_mem x hy)) next
    exact ⟨last, by rw [List.foldlM_cons, hnext, ok_bind_eq, hlast]⟩

namespace HostEncoder

/-- The types of the schema have at most the bytes of a descriptor. -/
theorem moTypeSize_le (hp : p ∈ e.pairs) : tae.moTypeSize p.2.oid.toNat ≤ kVarlenaSize := by
  obtain ⟨oid, hoid⟩ := exists_oid_of_sourceTypeMatches (e.matches_eq p hp)
  rw [hoid, tae.moTypeSize_code]
  exact oid.width_le

theorem hasNull_eq_ok (hmask : c.hasNullMask = true → (rowOffset + rowCount + 7) / 8
      ≤ c.nullMaskSize.toNat)
    (hrows : ∀ i < rowCount, ∃ null, rowNull c e.allocation (rowOffset + i) = .ok null) :
    e.hasNull c rowOffset rowCount = .ok (c.anyNull e.allocation rowOffset rowCount) := by
  have hexists : ∃ found, e.hasNull c rowOffset rowCount = .ok found := by
    rw [hasNull]
    simp only [rowNull] at hrows
    cases hnull : c.hasNullMask with
    | false => exact ⟨false, if_pos rfl⟩
    | true =>
      rw [Bool.not_true, if_neg Bool.false_ne_true]
      rw [hnull] at hrows
      have hround (found : Bool) (i : ℕ) (hi : i ∈ List.range rowCount) : ∃ next,
          (if found then .ok true else readNull c e.allocation (rowOffset + i)) =
            Except.ok next := by
        cases found with
        | true => exact ⟨true, if_pos rfl⟩
        | false => exact hrows i (List.mem_range.mp hi)
      obtain ⟨last, hlast⟩ := exists_foldlM_eq_ok hround false
      exact ⟨last, bind_eq_ok.mpr ⟨(), throwIf_eq_ok.mpr (Nat.not_lt.mpr (hmask hnull)), hlast⟩⟩
  obtain ⟨found, hfound⟩ := hexists
  rw [hfound, hasNull_eq hfound]

/-! ## The predicted size of a range -/

/-- What is predicted for a column, before it is cut to 64 bits. -/
def fullSize (tae : TaeTypes) (a : HostAllocation) (rowOffset rowCount : ℕ)
    (p : ColumnMetadata × NativeResultColumn) : ℕ :=
  4 + 34 + rowCount * tae.moTypeSize p.2.oid.toNat
    + (if isText p.2.oid then p.1.areaTotal a rowOffset rowCount else 0)
    + p.1.nullBytes a rowOffset rowCount

/-- A column takes its characters, and not much for each of at most `2 ^ 31` rows. -/
theorem fullSize_le (hwell : e.WellFormed tae) (hp : p ∈ e.pairs)
    (hrange : rowOffset + rowCount ≤ e.rowCount) :
    fullSize tae e.allocation rowOffset rowCount p ≤ 2 ^ 36 + p.1.dataSize.toNat := by
  have hrows := e.numRows_eq p hp
  have hlt := e.rowCount_lt
  have harea : (if isText p.2.oid then p.1.areaTotal e.allocation rowOffset rowCount else 0)
      ≤ p.1.dataSize.toNat := by
    split_ifs with htext
    · obtain ⟨-, offsets, hchildren, hoffsets⟩ := (hwell.columns_ok p hp).offsets_ok htext
      have hrange' : rowOffset + rowCount ≤ p.1.numRows.toInt.toNat := by omega
      have htotal := hoffsets.areaTotal_add_le hchildren hrange'
      have hlimit := hoffsets.le_limit hrange'
      omega
    · exact Nat.zero_le _
  have hnulls : p.1.nullBytes e.allocation rowOffset rowCount ≤ 24 + (rowCount + 63) / 64 * 8 := by
    rw [ColumnMetadata.nullBytes]
    split_ifs
    · exact Nat.le_refl _
    · exact Nat.zero_le _
  have helements : rowCount * tae.moTypeSize p.2.oid.toNat ≤ rowCount * 24 :=
    Nat.mul_le_mul_left _ (moTypeSize_le hp)
  rw [fullSize]
  omega

/-- Nothing is cut off. -/
theorem predictedSize_eq_fullSize (hwell : e.WellFormed tae) (hp : p ∈ e.pairs)
    (hrange : rowOffset + rowCount ≤ e.rowCount) :
    predictedSize tae e.allocation rowOffset rowCount p
      = fullSize tae e.allocation rowOffset rowCount p := by
  have hle := fullSize_le hwell hp hrange
  have hdata : p.1.dataSize.toNat ≤ 2 ^ 63 := Nat.le_trans
    (List.le_sum_of_mem (List.mem_map_of_mem (f := fun p ↦ p.1.dataSize.toNat) hp))
    hwell.dataSizes_le
  exact Nat.mod_eq_of_lt (by rw [fullSize] at hle; omega)

theorem length_pairs_le (e : HostEncoder) : e.pairs.length ≤ kMaxNativeResultColumns := by
  rw [pairs, List.length_zip, e.length_eq, Nat.min_self]
  exact e.columns_le

theorem sum_predictedSize_lt (hwell : e.WellFormed tae)
    (hrange : rowOffset + rowCount ≤ e.rowCount) :
    28 + (e.pairs.map (predictedSize tae e.allocation rowOffset rowCount)).sum < 2 ^ 64 := by
  have hsum : (e.pairs.map (predictedSize tae e.allocation rowOffset rowCount)).sum
      ≤ (e.pairs.map fun p ↦ 2 ^ 36 + p.1.dataSize.toNat).sum := by
    refine List.sum_le_sum fun p hp ↦ ?_
    rw [predictedSize_eq_fullSize hwell hp hrange]
    exact fullSize_le hwell hp hrange
  have hsplit : (e.pairs.map fun p ↦ 2 ^ 36 + p.1.dataSize.toNat).sum
      = e.pairs.length * 2 ^ 36 + (e.pairs.map fun p ↦ p.1.dataSize.toNat).sum := by
    rw [List.sum_map_add, List.map_const', List.sum_replicate, smul_eq_mul]
  have hcolumns : e.pairs.length * 2 ^ 36 ≤ 4096 * 2 ^ 36 :=
    Nat.mul_le_mul_right _ e.length_pairs_le
  have hdata := hwell.dataSizes_le
  omega

theorem columnSize_eq_ok (hwell : e.WellFormed tae) (hvalues : e.ValuesEncode tae decimalOfDouble)
    (hp : p ∈ e.pairs) (hrange : rowOffset + rowCount ≤ e.rowCount) :
    e.columnSize tae rowOffset rowCount p
      = .ok (predictedSize tae e.allocation rowOffset rowCount p) := by
  have hrows := e.numRows_eq p hp
  have hlt := e.rowCount_lt
  have hcolumn := hwell.columns_ok p hp
  have hmask (hmask : p.1.hasNullMask = true) :
      (rowOffset + rowCount + 7) / 8 ≤ p.1.nullMaskSize.toNat := by
    have hle := hcolumn.mask_le hmask
    omega
  have hread (i : ℕ) (hi : i < rowCount) :
      ∃ null, rowNull p.1 e.allocation (rowOffset + i) = .ok null := by
    obtain ⟨cell, hcell⟩ := hvalues p hp (rowOffset + i) (by omega)
    exact ⟨_, (readCell_eq_ok.mp hcell).1⟩
  have hexists : ∃ size, e.columnSize tae rowOffset rowCount p = .ok size := by
    rw [columnSize, hasNull_eq_ok hmask hread]
    split_ifs with htext
    · obtain ⟨-, offsets, hchildren, hoffsets⟩ := hcolumn.offsets_ok htext
      have hspan (row : ℕ) (hrow : row < rowCount) :
          ∃ span, readSpan p.1 e.allocation offsets (rowOffset + row) = .ok span :=
        ⟨_, hoffsets.readSpan_eq_ok hchildren rfl hwell.sizeBytes_lt (by omega)⟩
      have hrange' : rowOffset + rowCount ≤ p.1.numRows.toInt.toNat := by omega
      have htotal := hoffsets.areaTotal_add_le hchildren hrange'
      have hlimit := hoffsets.le_limit hrange'
      have hdata := p.1.dataSize.toNat_lt
      exact ⟨_, bind_eq_ok.mpr ⟨_, areaSize_eq_ok.mpr
        ⟨offsets, hoffsets.offsetsOf_eq_ok hchildren rfl, hspan, by omega, rfl⟩, rfl⟩⟩
    · exact ⟨_, rfl⟩
  obtain ⟨size, hsize⟩ := hexists
  rw [hsize, columnSize_eq hsize]

/-- A size is predicted for every range. -/
theorem encodedSize_eq_fullSize (hwell : e.WellFormed tae)
    (hvalues : e.ValuesEncode tae decimalOfDouble) (hrows : 0 < rowCount)
    (hrange : rowOffset + rowCount ≤ e.rowCount) : e.encodedSize tae rowOffset rowCount
      = .ok (28 + (e.pairs.map (fullSize tae e.allocation rowOffset rowCount)).sum) := by
  have hfull : e.pairs.map (predictedSize tae e.allocation rowOffset rowCount)
      = e.pairs.map (fullSize tae e.allocation rowOffset rowCount) :=
    List.map_congr_left fun p hp ↦ predictedSize_eq_fullSize hwell hp hrange
  rw [← hfull, encodedSize_eq_ok]
  exact ⟨⟨hrows, hrange⟩, fun p hp ↦ columnSize_eq_ok hwell hvalues hp hrange,
    sum_predictedSize_lt hwell hrange, rfl⟩

/-- A row alone takes no more than a range that it is in: not in the data, not in the area, and not
in the bitmap, which is there if one of the rows is null. -/
theorem fullSize_row_le (tae : TaeTypes) (a : HostAllocation)
    (p : ColumnMetadata × NativeResultColumn) (hfirst : rowOffset ≤ row)
    (hlast : row < rowOffset + rowCount) :
    fullSize tae a row 1 p ≤ fullSize tae a rowOffset rowCount p := by
  obtain ⟨i, rfl⟩ := Nat.exists_eq_add_of_le hfirst
  have hi : i ∈ List.range rowCount := List.mem_range.mpr (by omega)
  have hdata : 1 * tae.moTypeSize p.2.oid.toNat ≤ rowCount * tae.moTypeSize p.2.oid.toNat :=
    Nat.mul_le_mul_right _ (by omega)
  have harea : p.1.areaTotal a (rowOffset + i) 1 ≤ p.1.areaTotal a rowOffset rowCount := by
    have hone : p.1.areaTotal a (rowOffset + i) 1 = p.1.areaShare a (rowOffset + i) := by
      rw [ColumnMetadata.areaTotal, List.range_one, List.map_singleton, List.sum_singleton,
        Nat.add_zero]
    rw [hone]
    exact List.le_sum_of_mem (List.mem_map.mpr ⟨i, hi, rfl⟩)
  have hnulls : p.1.nullBytes a (rowOffset + i) 1 ≤ p.1.nullBytes a rowOffset rowCount := by
    rw [ColumnMetadata.nullBytes, ColumnMetadata.nullBytes]
    cases hone : p.1.anyNull a (rowOffset + i) 1 with
    | false =>
      rw [if_neg Bool.false_ne_true]
      exact Nat.zero_le _
    | true =>
      have hnull : p.1.nullAt a (rowOffset + i) = true := by
        rw [ColumnMetadata.anyNull, List.range_one, List.any_cons, List.any_nil,
          Bool.or_false] at hone
        exact hone
      have hany : p.1.anyNull a rowOffset rowCount = true := List.any_eq_true.mpr ⟨i, hi, hnull⟩
      rw [hany, if_pos rfl, if_pos rfl]
      omega
  rw [fullSize, fullSize]
  split_ifs <;> omega

/-! ## The encoding of a range -/

/-- The vector of a column takes at most what is predicted. -/
theorem length_vector_le (hreads : ReadsCells tae decimalOfDouble a rowOffset rowCount p cells) :
    4 + (vectorBytes tae rowCount (layoutOf tae (p, cells))).length
      ≤ fullSize tae a rowOffset rowCount p := by
  rw [hreads.length_vector, fullSize, areaTotal_eq]
  split_ifs <;> omega

theorem readsColumn_of_wellFormed (hwell : e.WellFormed tae) (hp : p ∈ e.pairs)
    (hrange : rowOffset + rowCount ≤ e.rowCount)
    (hreads : ReadsCells tae decimalOfDouble e.allocation rowOffset rowCount p cells)
    (hlt : fullSize tae e.allocation rowOffset rowCount p < 2 ^ 32) :
    ReadsColumn tae decimalOfDouble e.allocation rowOffset rowCount p cells := by
  have hrows := e.numRows_eq p hp
  have hcolumn := hwell.columns_ok p hp
  have hlength := length_vector_le hreads
  rw [length_vectorBytes] at hlength
  refine ⟨hreads, ⟨e.matches_eq p hp, by omega, by omega, fun hmask ↦ ?_, fun htext ↦ ?_,
    hcolumn.elements_le⟩, ?_⟩
  · have hle := hcolumn.mask_le hmask
    omega
  · obtain ⟨hdata, offsets, hchildren, hoffsets⟩ := hcolumn.offsets_ok htext
    rw [hdata]
    exact ⟨offsets, hoffsets.offsetsOf_eq_ok hchildren rfl⟩
  · simp only [layoutOf, layoutColumn] at hlength
    omega

theorem vectorFits_of_lt (hrange : rowOffset + rowCount ≤ e.rowCount)
    (hreads : ReadsCells tae decimalOfDouble e.allocation rowOffset rowCount p cells)
    (hlt : fullSize tae e.allocation rowOffset rowCount p < 2 ^ 32) :
    VectorFits tae rowCount (layoutOf tae (p, cells)) := by
  have hrows := e.rowCount_lt
  have hlength := length_vector_le hreads
  have hvector := length_vectorBytes tae rowCount (layoutOf tae (p, cells))
  exact ⟨by omega, by omega, by omega, by omega, by omega⟩

/-- A range that is predicted to take less than 4 GiB is encoded, in at most what is predicted. -/
theorem encode_of_encodedSize (hwell : e.WellFormed tae)
    (hvalues : e.ValuesEncode tae decimalOfDouble) (hrows : 0 < rowCount)
    (hrange : rowOffset + rowCount ≤ e.rowCount)
    (hsize : e.encodedSize tae rowOffset rowCount = .ok size) (hlt : size < 2 ^ 32) :
    ∃ bs, e.encode tae decimalOfDouble rowOffset rowCount = .ok bs ∧ bs.length ≤ size := by
  rw [encodedSize_eq_fullSize hwell hvalues hrows hrange] at hsize
  obtain rfl := Except.ok.inj hsize
  have hcolumn (p : ColumnMetadata × NativeResultColumn) (hp : p ∈ e.pairs) :
      ∃ cells, ReadsCells tae decimalOfDouble e.allocation rowOffset rowCount p cells := by
    obtain ⟨cells, hlength, hcells⟩ := exists_list fun i (hi : i < rowCount) ↦
      hvalues p hp (rowOffset + i) (by omega)
    exact ⟨cells, hlength, hcells⟩
  obtain ⟨columns, hpairs, hreads⟩ := exists_pairs hcolumn
  have hmem (q : (ColumnMetadata × NativeResultColumn) × List Cell) (hq : q ∈ columns) :
      q.1 ∈ e.pairs := hpairs ▸ List.mem_map_of_mem hq
  have hfull (q : (ColumnMetadata × NativeResultColumn) × List Cell) (hq : q ∈ columns) :
      fullSize tae e.allocation rowOffset rowCount q.1 < 2 ^ 32 := by
    have hle := List.le_sum_of_mem (List.mem_map_of_mem
      (f := fullSize tae e.allocation rowOffset rowCount) (hmem q hq))
    omega
  refine ⟨_, encode_eq_ok.mpr ⟨⟨hrows, hrange⟩, columns, ⟨hpairs, fun q hq ↦
    readsColumn_of_wellFormed hwell (hmem q hq) hrange (hreads q hq) (hfull q hq)⟩, fun q hq ↦
    vectorFits_of_lt hrange (hreads q hq) (hfull q hq), rfl⟩, ?_⟩
  rw [length_batchBytes, List.map_map, ← hpairs, List.map_map]
  exact Nat.add_le_add_left (List.sum_le_sum fun q hq ↦ length_vector_le (hreads q hq)) 28

/-! ## Splitting -/

theorem predictable (hwell : e.WellFormed tae) (hvalues : e.ValuesEncode tae decimalOfDouble)
    (hformat : e.WithinFormat tae maxBatchBytes) :
    (e.toResultEncoder tae decimalOfDouble).Predictable maxBatchBytes where
  size_ok offset rows hrows hrange := ⟨_, encodedSize_eq_fullSize hwell hvalues hrows hrange⟩
  row_le offset rows row size rowSize hfirst hlast hsize hrow := by
    have hrange := (encodedSize_eq_ok.mp hsize).1.2
    have hsize' := encodedSize_eq_fullSize hwell hvalues (by omega) hrange
    have hrow' := encodedSize_eq_fullSize hwell hvalues (Nat.one_pos) (Nat.le_trans hlast hrange)
    obtain rfl := Except.ok.inj (hsize.symm.trans hsize')
    obtain rfl := Except.ok.inj (hrow.symm.trans hrow')
    exact Nat.add_le_add_left
      (List.sum_le_sum fun p _ ↦ fullSize_row_le tae e.allocation p hfirst hlast) 28
  encode_ok offset rows size hrows hrange hsize hmax :=
    encode_of_encodedSize hwell hvalues hrows hrange hsize (hformat offset rows size hsize hmax)

/-- **Splitting is complete, bounded, and fails only where it must.** The ranges that are published
are not empty, lie one behind the other from row 0 on, and hold at most `maxBatchBytes`; they cover
the rows exactly if the loop returns. It throws nothing but the error of a row that is too large,
and that exactly if there is such a row. -/
theorem consumeBatch_splits (hwell : e.WellFormed tae)
    (hvalues : e.ValuesEncode tae decimalOfDouble) (hformat : e.WithinFormat tae maxBatchBytes) :
    ∃ published result stop,
      consumeBatch (e.toResultEncoder tae decimalOfDouble) maxBatchBytes 0 = (published, result) ∧
      published.length ≤ e.rowCount ∧ Covers 0 published stop ∧
        (result = .ok () ↔ stop = e.rowCount) ∧
      (∀ p ∈ published, e.encode tae decimalOfDouble p.offset p.rows = .ok p.payload ∧
        p.payload.length ≤ maxBatchBytes) ∧
      (result = .ok () ∨ result = .error rowTooLarge) ∧
      (result = .error rowTooLarge ↔
        ∃ row < e.rowCount, ∃ size, e.encodedSize tae row 1 = .ok size ∧ size > maxBatchBytes) := by
  have hpredictable := predictable hwell hvalues hformat
  obtain ⟨stop, hcovers, hfits, hend⟩ := consumeBatch_spec hpredictable (Nat.zero_le _)
  have hrowsFit (hok : (consumeBatch (e.toResultEncoder tae decimalOfDouble) maxBatchBytes 0).2
      = .ok ()) : ¬∃ row < e.rowCount, ∃ size,
        e.encodedSize tae row 1 = .ok size ∧ size > maxBatchBytes := by
    rintro ⟨row, hrow, size, hsize, hbig⟩
    exact absurd (rows_fit_of_consumed hpredictable hok hrow hsize) (by omega)
  refine ⟨_, _, stop, rfl, ?_, hcovers, ?_,
    fun p hp ↦ ⟨(hfits p hp).encode_eq, (hfits p hp).length_le⟩, ?_, ?_⟩
  · have hlength := hcovers.length_le
    rw [Nat.zero_add] at hlength
    rcases hend with ⟨-, hstop⟩ | ⟨-, hstop, -⟩
    · exact Nat.le_trans hlength (Nat.le_of_eq hstop)
    · exact Nat.le_trans hlength (Nat.le_of_lt hstop)
  · rcases hend with ⟨hok, hstop⟩ | ⟨herror, hstop, -⟩
    · exact iff_of_true hok hstop
    · rw [herror]
      exact iff_of_false nofun (Nat.ne_of_lt hstop)
  · rcases hend with ⟨hok, -⟩ | ⟨herror, -, -⟩
    · exact .inl hok
    · exact .inr herror
  · rcases hend with ⟨hok, -⟩ | ⟨herror, hstop, hsize⟩
    · refine iff_of_false ?_ (hrowsFit hok)
      rw [hok]
      nofun
    · exact iff_of_true herror ⟨stop, hstop, hsize⟩

theorem wellFormed_nullRow : nullRow.WellFormed TaeTypes.documented where
  columns_ok := by
    refine List.forall_mem_singleton.mpr ⟨by decide, nofun, fun _ ↦ ⟨rfl, _, rfl, ?_⟩⟩
    exact ⟨rfl, .inl rfl, by decide, by decide, by decide, by decide⟩
  sizeBytes_lt := by decide
  dataSizes_le := by decide

/-- The row of the table takes 146 bytes. -/
theorem consumeBatch_splits_nullRow :
    (consumeBatch (nullRow.toResultEncoder TaeTypes.documented fun _ _ ↦ .ok 0) 100 0).2
      = .error rowTooLarge := by
  have hvalues : nullRow.ValuesEncode TaeTypes.documented fun _ _ ↦ .ok 0 := by
    refine List.forall_mem_singleton.mpr fun row hrow ↦ ?_
    obtain rfl : row = 0 := Nat.lt_one_iff.mp hrow
    exact ⟨.null, rfl⟩
  obtain ⟨published, result, stop, hconsume, -, -, -, -, -, herror⟩ :=
    consumeBatch_splits wellFormed_nullRow hvalues (withinFormat_of_lt (by decide : 100 < 2 ^ 32))
  rw [hconsume]
  exact herror.mpr ⟨0, Nat.one_pos, 146, encodedSize_nullRow, by decide⟩

end HostEncoder

end MoSidecar
