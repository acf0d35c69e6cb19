import MoSidecar.Native.HostRows

/-!
# The predicted size of an encoding

`encoded_size` goes over the same columns as `encode`, and adds up what they will take. It differs
in one point. A null row of a column of strings is written as an empty descriptor, whatever its
offsets say, and nothing of it goes into the area; the prediction counts its span all the same. The
span of a null row is whatever the engine left there, and where it has more than the 23 bytes of an
inline string, the prediction is too large by that much. Sums are kept in 64 bits, so the exact
condition is on the sum of these spans as a 64-bit number: `encodedSize_eq_length_iff`.
-/

namespace MoSidecar

open LittleEndian Bitmap Chunks

/-! ## Sums of rows -/

namespace ColumnMetadata

/-- The bytes of a row in the area, as they are predicted. -/
def areaShare (c : ColumnMetadata) (a : HostAllocation) (row : ℕ) : ℕ :=
  if c.spanLength a row > kVarlenaInlineMax then c.spanLength a row else 0

/-- The area of some rows, as it is predicted. -/
def areaTotal (c : ColumnMetadata) (a : HostAllocation) (rowOffset rowCount : ℕ) : ℕ :=
  ((List.range rowCount).map fun i ↦ c.areaShare a (rowOffset + i)).sum

/-- The part of it that null rows are to blame for. -/
def nullArea (c : ColumnMetadata) (a : HostAllocation) (rowOffset rowCount : ℕ) : ℕ :=
  ((List.range rowCount).map fun i ↦
    if c.nullAt a (rowOffset + i) then c.areaShare a (rowOffset + i) else 0).sum

/-- The part that is written. -/
def textArea (c : ColumnMetadata) (a : HostAllocation) (rowOffset rowCount : ℕ) : ℕ :=
  ((List.range rowCount).map fun i ↦
    if c.nullAt a (rowOffset + i) then 0 else c.areaShare a (rowOffset + i)).sum

/-- Whether a row is null. -/
def anyNull (c : ColumnMetadata) (a : HostAllocation) (rowOffset rowCount : ℕ) : Bool :=
  (List.range rowCount).any fun i ↦ c.nullAt a (rowOffset + i)

/-- The bytes of the null bitmap of some rows. -/
def nullBytes (c : ColumnMetadata) (a : HostAllocation) (rowOffset rowCount : ℕ) : ℕ :=
  if c.anyNull a rowOffset rowCount then 24 + (rowCount + 63) / 64 * 8 else 0

end ColumnMetadata

/-- The bytes that are predicted for a column. The sum is one of 64 bits. -/
def predictedSize (tae : TaeTypes) (a : HostAllocation) (rowOffset rowCount : ℕ)
    (p : ColumnMetadata × NativeResultColumn) : ℕ :=
  (4 + 34 + rowCount * tae.moTypeSize p.2.oid.toNat
    + (if isText p.2.oid then p.1.areaTotal a rowOffset rowCount else 0)
    + p.1.nullBytes a rowOffset rowCount) % 2 ^ 64

/-- The bytes that null rows of a range span, beyond what an inline string holds. -/
def HostEncoder.nullSpan (e : HostEncoder) (rowOffset rowCount : ℕ) : ℕ :=
  (e.pairs.map fun p ↦
    if isText p.2.oid then p.1.nullArea e.allocation rowOffset rowCount else 0).sum

variable {tae : TaeTypes} {decimalOfDouble : NativeResultColumn → Bytes → Except Thrown ℤ}
  {e : HostEncoder} {c : ColumnMetadata} {a : HostAllocation} {offsets : BufferMetadata}
  {rowOffset rowCount size n k row : ℕ} {p : ColumnMetadata × NativeResultColumn}
  {cells : List Cell} {bs : Bytes} {found : Bool}

theorem areaTotal_eq (c : ColumnMetadata) (a : HostAllocation) (rowOffset rowCount : ℕ) :
    c.areaTotal a rowOffset rowCount
      = c.textArea a rowOffset rowCount + c.nullArea a rowOffset rowCount := by
  rw [ColumnMetadata.areaTotal, ColumnMetadata.textArea, ColumnMetadata.nullArea,
    ← List.sum_map_add]
  refine congrArg List.sum (List.map_congr_left fun i _ ↦ ?_)
  split_ifs
  · rw [Nat.zero_add]
  · rw [Nat.add_zero]

/-- A loop that adds checks every sum, and so the last. -/
theorem foldlM_add_eq_ok {α : Type} {f : ℕ → α → Except Thrown ℕ} {P : α → Prop} {g : α → ℕ}
    (hf : ∀ acc x t, acc < 2 ^ 64 →
      (f acc x = .ok t ↔ P x ∧ acc + g x < 2 ^ 64 ∧ t = acc + g x))
    {xs : List α} {acc t : ℕ} (hacc : acc < 2 ^ 64) : xs.foldlM f acc = .ok t ↔
      (∀ x ∈ xs, P x) ∧ acc + (xs.map g).sum < 2 ^ 64 ∧ t = acc + (xs.map g).sum := by
  induction xs generalizing acc with
  | nil =>
    rw [List.foldlM_nil, List.map_nil, List.sum_nil, Nat.add_zero]
    constructor
    · intro h
      exact ⟨List.forall_mem_nil _, hacc, (Except.ok.inj h).symm⟩
    · rintro ⟨-, -, rfl⟩
      rfl
  | cons x xs ih =>
    rw [List.foldlM_cons, bind_eq_ok, List.forall_mem_cons, List.map_cons, List.sum_cons,
      ← Nat.add_assoc]
    constructor
    · rintro ⟨middle, hx, hxs⟩
      obtain ⟨hP, hlt, rfl⟩ := (hf acc x middle hacc).mp hx
      obtain ⟨hall, hsum, rfl⟩ := (ih hlt).mp hxs
      exact ⟨⟨hP, hall⟩, hsum, rfl⟩
    · rintro ⟨⟨hP, hall⟩, hsum, rfl⟩
      have hlt : acc + g x < 2 ^ 64 := Nat.lt_of_le_of_lt (Nat.le_add_right _ _) hsum
      exact ⟨acc + g x, (hf acc x _ hacc).mpr ⟨hP, hlt, rfl⟩, (ih hlt).mpr ⟨hall, hsum, rfl⟩⟩

/-! ## The prediction -/

namespace HostEncoder

theorem addSpan_eq_ok (hchildren : c.children = [offsets]) {acc t : ℕ} (hacc : acc < 2 ^ 64) :
    e.addSpan c offsets rowOffset acc row = .ok t ↔
      (∃ span, readSpan c e.allocation offsets (rowOffset + row) = .ok span) ∧
        acc + c.areaShare e.allocation (rowOffset + row) < 2 ^ 64 ∧
        t = acc + c.areaShare e.allocation (rowOffset + row) := by
  have hshare {span : ℕ × ℕ}
      (hspan : readSpan c e.allocation offsets (rowOffset + row) = .ok span) :
      span.2 - span.1 = c.spanLength e.allocation (rowOffset + row) := by
    rw [ColumnMetadata.spanLength, (readSpan_eq hchildren hspan).1]
  have hroom (length : ℕ) : ¬(length > kVarlenaInlineMax ∧ length > 2 ^ 64 - 1 - acc) ↔
      acc + (if length > kVarlenaInlineMax then length else 0) < 2 ^ 64 := by
    split_ifs <;> omega
  rw [addSpan, bind_eq_ok]
  constructor
  · rintro ⟨⟨first, last⟩, hspan, h⟩
    obtain ⟨⟨⟩, hoverflow, h⟩ := bind_eq_ok.mp h
    have hlength := hshare hspan
    simp only at hlength h hoverflow
    rw [throwOverflowIf_eq_ok, hroom, hlength] at hoverflow
    rw [hlength] at h
    exact ⟨⟨_, hspan⟩, hoverflow, (Except.ok.inj h).symm⟩
  · rintro ⟨⟨⟨first, last⟩, hspan⟩, hlt, rfl⟩
    have hlength := hshare hspan
    simp only at hlength
    refine ⟨_, hspan, bind_eq_ok.mpr ⟨(), throwOverflowIf_eq_ok.mpr ?_, ?_⟩⟩
    · simp only [hroom, hlength]
      exact hlt
    · simp only [hlength]
      rfl

theorem areaSize_eq_ok : e.areaSize c rowOffset rowCount = .ok size ↔
    ∃ offsets, offsetsOf c true "Sirius string result has invalid offsets" = .ok offsets ∧
      (∀ row < rowCount, ∃ span, readSpan c e.allocation offsets (rowOffset + row) = .ok span) ∧
      c.areaTotal e.allocation rowOffset rowCount < 2 ^ 64 ∧
      size = c.areaTotal e.allocation rowOffset rowCount := by
  rw [areaSize, bind_eq_ok]
  refine exists_congr fun offsets ↦ and_congr_right fun hoffsets ↦ ?_
  have hround (acc row t : ℕ) (hacc : acc < 2 ^ 64) :
      e.addSpan c offsets rowOffset acc row = .ok t ↔
        (∃ span, readSpan c e.allocation offsets (rowOffset + row) = .ok span) ∧
          acc + c.areaShare e.allocation (rowOffset + row) < 2 ^ 64 ∧
          t = acc + c.areaShare e.allocation (rowOffset + row) :=
    addSpan_eq_ok (children_of_offsetsOf hoffsets) hacc
  rw [foldlM_add_eq_ok hround (Nat.two_pow_pos 64), Nat.zero_add]
  simp only [List.mem_range]
  rfl

/-- The loop that looks for a null finds the rows' own answer. -/
theorem hasNull_eq (h : e.hasNull c rowOffset rowCount = .ok found) :
    found = c.anyNull e.allocation rowOffset rowCount := by
  have hrounds {k : ℕ} {found : Bool} (hmask : c.hasNullMask = true)
      (h : (List.range k).foldlM (fun found row ↦
        if found then .ok true else readNull c e.allocation (rowOffset + row)) false
          = Except.ok found) : found = c.anyNull e.allocation rowOffset k := by
    induction k generalizing found with
    | zero => exact (Except.ok.inj h).symm
    | succ k ih =>
      rw [List.range_succ, List.foldlM_append, bind_eq_ok] at h
      obtain ⟨before, hbefore, h⟩ := h
      simp only [List.foldlM_cons, List.foldlM_nil, bind_pure] at h
      obtain rfl := ih hbefore
      rw [ColumnMetadata.anyNull, List.range_succ, List.any_append, List.any_cons, List.any_nil,
        Bool.or_false]
      split_ifs at h with hfound
      · rw [← Except.ok.inj h]
        rw [ColumnMetadata.anyNull] at hfound
        rw [hfound, Bool.true_or]
      · rw [ColumnMetadata.anyNull, Bool.not_eq_true] at hfound
        rw [hfound, Bool.false_or]
        exact nullAt_of_rowNull (by rw [rowNull, if_pos hmask]; exact h)
  rw [hasNull] at h
  cases hmask : c.hasNullMask with
  | false =>
    rw [hmask, Bool.not_false, if_pos rfl] at h
    rw [← Except.ok.inj h, ColumnMetadata.anyNull, eq_comm, List.any_eq_false]
    intro i _
    rw [ColumnMetadata.nullAt, hmask, Bool.false_and]
    exact Bool.false_ne_true
  | true =>
    rw [hmask, Bool.not_true, if_neg Bool.false_ne_true, bind_eq_ok] at h
    obtain ⟨⟨⟩, -, h⟩ := h
    exact hrounds hmask h

theorem columnSize_eq (h : e.columnSize tae rowOffset rowCount p = .ok size) :
    size = predictedSize tae e.allocation rowOffset rowCount p := by
  have hrest {areaBytes : ℕ} (h : (do
      let null ← e.hasNull p.1 rowOffset rowCount
      let nullBytes := if null then 24 + (rowCount + 63) / 64 * 8 else 0
      Except.ok
        ((4 + 34 + rowCount * tae.moTypeSize p.2.oid.toNat + areaBytes + nullBytes) % 2 ^ 64))
        = .ok size) : size = (4 + 34 + rowCount * tae.moTypeSize p.2.oid.toNat + areaBytes
          + p.1.nullBytes e.allocation rowOffset rowCount) % 2 ^ 64 := by
    obtain ⟨null, hnull, h⟩ := bind_eq_ok.mp h
    rw [← Except.ok.inj h, ColumnMetadata.nullBytes, hasNull_eq hnull]
  rw [columnSize] at h
  rw [predictedSize]
  split_ifs at h ⊢
  · obtain ⟨areaBytes, harea, h⟩ := bind_eq_ok.mp h
    obtain ⟨offsets, -, -, -, rfl⟩ := areaSize_eq_ok.mp harea
    exact hrest h
  · obtain ⟨areaBytes, harea, h⟩ := bind_eq_ok.mp h
    obtain rfl := Except.ok.inj harea
    exact hrest h

/-- The prediction is the sum of what is predicted for the columns. -/
theorem encodedSize_eq_ok : e.encodedSize tae rowOffset rowCount = .ok size ↔
    (0 < rowCount ∧ rowOffset + rowCount ≤ e.rowCount) ∧
      (∀ p ∈ e.pairs, e.columnSize tae rowOffset rowCount p
        = .ok (predictedSize tae e.allocation rowOffset rowCount p)) ∧
      28 + (e.pairs.map (predictedSize tae e.allocation rowOffset rowCount)).sum < 2 ^ 64 ∧
      size = 28 + (e.pairs.map (predictedSize tae e.allocation rowOffset rowCount)).sum := by
  have hround (acc : ℕ) (p : ColumnMetadata × NativeResultColumn) (t : ℕ) (hacc : acc < 2 ^ 64) :
      (do
        let size ← e.columnSize tae rowOffset rowCount p
        add acc size) = .ok t ↔
        (e.columnSize tae rowOffset rowCount p
            = .ok (predictedSize tae e.allocation rowOffset rowCount p)) ∧
          acc + predictedSize tae e.allocation rowOffset rowCount p < 2 ^ 64 ∧
          t = acc + predictedSize tae e.allocation rowOffset rowCount p := by
    simp only [bind_eq_ok, add, throwOverflowIf_eq_ok, exists_const]
    constructor
    · rintro ⟨size, hsize, hoverflow, h⟩
      obtain rfl := columnSize_eq hsize
      exact ⟨hsize, by omega, (Except.ok.inj h).symm⟩
    · rintro ⟨hsize, hlt, rfl⟩
      exact ⟨_, hsize, by omega, rfl⟩
  have hstart : 12 + 16 < 2 ^ 64 := by decide
  rw [encodedSize, bind_eq_ok]
  constructor
  · rintro ⟨⟨⟩, hrange, h⟩
    exact ⟨checkRange_eq_ok.mp hrange, (foldlM_add_eq_ok hround hstart).mp h⟩
  · rintro ⟨hrange, h⟩
    exact ⟨(), checkRange_eq_ok.mpr hrange, (foldlM_add_eq_ok hround hstart).mpr h⟩

end HostEncoder

/-! ## The encoding -/

namespace ReadsCells

variable (h : ReadsCells tae decimalOfDouble a rowOffset rowCount p cells)
include h

theorem length_nulls :
    (encodeNulls (cells.map Cell.isNull)).length = p.1.nullBytes a rowOffset rowCount := by
  have hany : (cells.map Cell.isNull).any id = p.1.anyNull a rowOffset rowCount := by
    rw [h.map_isNull, List.any_map]
    rfl
  rw [length_encodeNulls, hany, List.length_map, h.length_eq, ColumnMetadata.nullBytes]

/-- A cell takes what is predicted for its row in the area, unless it is null. -/
theorem length_area {i : ℕ} (hi : i < cells.length) (htext : isText p.2.oid = true) :
    cells[i].area.length = if p.1.nullAt a (rowOffset + i) then 0
      else p.1.areaShare a (rowOffset + i) := by
  rw [← h.isNull_getElem hi]
  rcases h.text_getElem htext hi with hc | ⟨s, hc, hlength⟩
  · rw [hc]
    rfl
  · rw [hc, Cell.isNull, if_neg Bool.false_ne_true, ColumnMetadata.areaShare, ← hlength, Cell.area]
    split_ifs
    · omega
    · rfl
    · rfl
    · omega

theorem length_cellArea : (cellArea cells).length
    = if isText p.2.oid then p.1.textArea a rowOffset rowCount else 0 := by
  cases htext : isText p.2.oid with
  | true =>
    rw [if_pos rfl, cellArea, List.length_flatMap, ColumnMetadata.textArea]
    refine congrArg List.sum (List.ext_getElem ?_ fun i hi _ ↦ ?_)
    · rw [List.length_map, List.length_map, List.length_range, h.length_eq]
    · rw [List.length_map] at hi
      rw [List.getElem_map, List.getElem_map, List.getElem_range, h.length_area hi htext]
  | false =>
    rw [if_neg Bool.false_ne_true]
    exact List.length_eq_zero_iff.mpr (h.cellArea_eq_nil htext)

/-- A vector is as long as predicted, but for the null rows. -/
theorem length_vector : 4 + (vectorBytes tae rowCount (layoutOf tae (p, cells))).length
    = 4 + 34 + rowCount * tae.moTypeSize p.2.oid.toNat
      + (if isText p.2.oid then p.1.textArea a rowOffset rowCount else 0)
      + p.1.nullBytes a rowOffset rowCount := by
  rw [length_vectorBytes, layoutOf, layoutColumn]
  simp only [length_cellData h.fits, h.length_cellArea, h.length_nulls, h.length_eq]
  omega

/-- What is predicted is the vector's length and the span of the null rows. -/
theorem predictedSize_eq : predictedSize tae a rowOffset rowCount p
    = (4 + (vectorBytes tae rowCount (layoutOf tae (p, cells))).length
      + if isText p.2.oid then p.1.nullArea a rowOffset rowCount else 0) % 2 ^ 64 := by
  rw [predictedSize, h.length_vector, areaTotal_eq]
  split_ifs
  · refine congrArg (· % 2 ^ 64) ?_
    omega
  · rfl

end ReadsCells

/-- The sum of some numbers and that of their residues. -/
theorem sum_map_mod {α : Type} (xs : List α) (f : α → ℕ) (m : ℕ) :
    (xs.map fun x ↦ f x % m).sum % m = (xs.map f).sum % m := by
  induction xs with
  | nil => rfl
  | cons x xs ih =>
    rw [List.map_cons, List.map_cons, List.sum_cons, List.sum_cons, Nat.add_mod, ih, Nat.mod_mod,
      ← Nat.add_mod]

namespace HostEncoder

/-- The predicted size and the length of the encoding differ by the span of the null rows. -/
theorem encodedSize_eq_length_add (hsize : e.encodedSize tae rowOffset rowCount = .ok size)
    (hencode : e.encode tae decimalOfDouble rowOffset rowCount = .ok bs) :
    size = (bs.length + e.nullSpan rowOffset rowCount) % 2 ^ 64 ∧ bs.length < 2 ^ 64 := by
  obtain ⟨-, -, hlt, rfl⟩ := encodedSize_eq_ok.mp hsize
  obtain ⟨-, columns, ⟨hpairs, hreads⟩, hfits, rfl⟩ := encode_eq_ok.mp hencode
  have hlength := length_batchBytes tae rowCount (columns.map (layoutOf tae))
  rw [List.map_map] at hlength
  constructor
  · have hpredicted : (e.pairs.map (predictedSize tae e.allocation rowOffset rowCount))
        = columns.map fun q ↦ (4 + (vectorBytes tae rowCount (layoutOf tae q)).length
          + if isText q.1.2.oid then q.1.1.nullArea e.allocation rowOffset rowCount else 0)
            % 2 ^ 64 := by
      rw [← hpairs, List.map_map]
      exact List.map_congr_left fun q hq ↦ (hreads q hq).predictedSize_eq
    have hspan : e.nullSpan rowOffset rowCount = (columns.map fun q ↦
        if isText q.1.2.oid then q.1.1.nullArea e.allocation rowOffset rowCount else 0).sum := by
      rw [nullSpan, ← hpairs, List.map_map]
      rfl
    -- the sums are taken modulo 2 ^ 64 column by column, which comes to the same
    have hmod := sum_map_mod columns (fun q ↦ 4 + (vectorBytes tae rowCount (layoutOf tae q)).length
      + if isText q.1.2.oid then q.1.1.nullArea e.allocation rowOffset rowCount else 0) (2 ^ 64)
    rw [List.sum_map_add] at hmod
    rw [hpredicted] at hlt ⊢
    rw [hlength, hspan]
    simp only [Function.comp_def]
    omega
  · have hle : (columns.map ((fun p ↦ 4 + (vectorBytes tae rowCount p).length) ∘ layoutOf tae)).sum
        ≤ columns.length * (4 + 2 ^ 32) := by
      have hbound := List.sum_le_card_nsmul
        (columns.map ((fun p ↦ 4 + (vectorBytes tae rowCount p).length) ∘ layoutOf tae))
          (4 + 2 ^ 32)
        fun k hk ↦ by
          obtain ⟨q, hq, rfl⟩ := List.mem_map.mp hk
          exact Nat.add_le_add_left (Nat.le_of_lt (hfits q hq).vector_lt) 4
      rw [List.length_map, smul_eq_mul] at hbound
      exact hbound
    -- 4096 columns of less than 2 ^ 32 bytes do not wrap
    have hcolumns : columns.length ≤ kMaxNativeResultColumns := by
      have hcount := congrArg List.length hpairs
      rw [List.length_map, pairs, List.length_zip, e.length_eq, Nat.min_self] at hcount
      rw [hcount]
      exact e.columns_le
    have hmax : columns.length * (4 + 2 ^ 32) ≤ 4096 * (4 + 2 ^ 32) :=
      Nat.mul_le_mul_right _ hcolumns
    rw [hlength]
    omega

/-- **The prediction is exact** if and only if the null rows of columns of strings span nothing
beyond what an inline string holds. -/
theorem encodedSize_eq_length_iff (hsize : e.encodedSize tae rowOffset rowCount = .ok size)
    (hencode : e.encode tae decimalOfDouble rowOffset rowCount = .ok bs) :
    size = bs.length ↔ e.nullSpan rowOffset rowCount % 2 ^ 64 = 0 := by
  obtain ⟨heq, hlt⟩ := encodedSize_eq_length_add hsize hencode
  omega

/-- That sum is zero if no null row spans more than an inline string. -/
theorem nullSpan_eq_zero_iff : e.nullSpan rowOffset rowCount = 0 ↔
    ∀ p ∈ e.pairs, isText p.2.oid = true → ∀ i < rowCount,
      p.1.nullAt e.allocation (rowOffset + i) = true →
        p.1.spanLength e.allocation (rowOffset + i) ≤ kVarlenaInlineMax := by
  have hshare (c : ColumnMetadata) (row : ℕ) : c.areaShare e.allocation row = 0 ↔
      c.spanLength e.allocation row ≤ kVarlenaInlineMax := by
    rw [ColumnMetadata.areaShare]
    split_ifs <;> omega
  rw [nullSpan, List.sum_eq_zero_iff, List.forall_mem_map]
  refine forall₂_congr fun p _ ↦ ?_
  cases htext : isText p.2.oid with
  | false => exact iff_of_true (if_neg Bool.false_ne_true) nofun
  | true =>
    rw [if_pos rfl, imp_iff_right rfl, ColumnMetadata.nullArea, List.sum_eq_zero_iff,
      List.forall_mem_map]
    simp only [List.mem_range]
    refine forall₂_congr fun i _ ↦ ?_
    cases hnull : p.1.nullAt e.allocation (rowOffset + i) with
    | false => exact iff_of_true (if_neg Bool.false_ne_true) nofun
    | true => rw [if_pos rfl, imp_iff_right rfl, hshare]

/-- A table of one row and one column of strings. The row is null, and spans 24 bytes. -/
def nullRow : HostEncoder where
  schema := ⟨1, [{ oid := 41 }]⟩
  columns := [{
    typeId := .string
    hasData := true
    dataOffset := 0
    dataSize := 24
    scale := 0
    numRows := 1
    hasNullMask := true
    nullMaskOffset := 32
    nullMaskSize := 1
    children := [⟨.int32, true, 24, 8⟩] }]
  allocation := {
    blockSize := 16
    sizeBytes := 48
    blocks := [List.replicate 16 0x61, List.replicate 8 0x61 ++ [0, 0, 0, 0, 24, 0, 0, 0],
      List.replicate 16 0]
    blockSize_pos := by decide
    length_of_mem := by decide
    sizeBytes_le := by decide }
  rowCount := 1
  rowCount_eq := rfl
  length_eq := rfl
  numRows_eq := by decide
  matches_eq := by decide
  columns_le := by decide

theorem encodedSize_nullRow : nullRow.encodedSize TaeTypes.documented 0 1 = .ok 146 := by
  rfl

theorem encode_nullRow : ∃ bs,
    nullRow.encode TaeTypes.documented (fun _ _ ↦ .ok 0) 0 1 = .ok bs ∧ bs.length = 122 := by
  exact ⟨_, rfl, rfl⟩

/-- The prediction is not always exact: it counts the 24 bytes of a null row. -/
theorem not_forall_encodedSize_eq_length : ¬∀ (tae : TaeTypes)
    (decimalOfDouble : NativeResultColumn → Bytes → Except Thrown ℤ) (e : HostEncoder)
    (rowOffset rowCount size : ℕ) (bs : Bytes), 1 ≤ rowCount →
    e.encodedSize tae rowOffset rowCount = .ok size →
    e.encode tae decimalOfDouble rowOffset rowCount = .ok bs → size = bs.length := by
  intro h
  obtain ⟨bs, hencode, hlength⟩ := encode_nullRow
  have heq := h _ _ nullRow 0 1 146 bs (Nat.le_refl 1) encodedSize_nullRow hencode
  rw [hlength] at heq
  exact absurd heq (by decide)

theorem encodedSize_eq_length_iff_nullRow : nullRow.nullSpan 0 1 % 2 ^ 64 ≠ 0 := by
  obtain ⟨bs, hencode, hlength⟩ := encode_nullRow
  have hiff := encodedSize_eq_length_iff encodedSize_nullRow hencode
  rw [hlength] at hiff
  exact fun hzero ↦ absurd (hiff.mpr hzero) (by decide)

end HostEncoder

end MoSidecar
