import MoSidecar.Layout.Chunks
import MoSidecar.Native.Scan

/-!
# What a scan preserves

A cell of a batch and a cell of a vector each denote a `Value`, and a copy is right if they denote
the same one, row by row, and if it fills the rows of the vector and no more. Three tables decide
this: `substraitMatchesMo` says which vectors may stand for a type of the plan, `logicalType` which
vector of DuckDB they are copied into, and `moTypeFixedSize` how many bytes an element has.

They agree for every type but the decimals. MatrixOne keeps a decimal in 8 bytes, or in 16 from 19
digits on; DuckDB takes 2, 4, 8 or 16, and takes the number of digits as a byte. So the copy is
right for 10 digits and more, up to 38, and for fewer digits it writes 8 bytes for each element of 2
or 4. `fillColumn_preserves_iff` gives the exact condition; a date that is too early for DuckDB is
the other way to fall out of it.
-/

namespace MoSidecar

open LittleEndian Bitmap Chunks

/-- What a cell that is not null says: a number or a string. The number of a decimal is its unscaled
integer, that of a date its days from 1970 on, and that of a float its bits. -/
inductive Value where
  | number (z : ℤ)
  | text (s : Bytes)
  deriving DecidableEq

/-- The cell of a row of a batch, or nothing where it is null. -/
def NativeColumnView.valueAt (tae : TaeTypes) (c : NativeColumnView) (row : ℕ) : Option Value :=
  if (c.isConstant && c.data.isEmpty) || c.nullAt row then none
  else if c.isText then some (.text (c.textAt row))
  else if c.isDate then some (.number (signed (c.element 4 row) - kMoUnixEpochDays))
  else some (.number (signed (c.element (tae.moTypeSize c.type.oid.toNat) row)))

/-- The cell of a row of a vector whose elements have `width` bytes. -/
def FilledVector.valueAt (width : ℕ) (v : FilledVector) (row : ℕ) : Option Value :=
  if v.valid.getD row false then
    match v.data with
    | .bytes written => some (.number (signed (chunk width written row)))
    | .strings rows => (rows.getD row none).map .text
  else none

/-- The bytes of a vector that are written. A string is a `string_t` there. -/
def VectorData.size : VectorData → ℕ
  | .bytes written => written.length
  | .strings rows => rows.length * 16

/-- A vector holds the rows of a column: it has their number of elements, is not written beyond
them, and each denotes what the column says. A constant null has no element. -/
structure FilledVector.Holds (tae : TaeTypes) (c : NativeColumnView) (count offset width : ℕ)
    (v : FilledVector) : Prop where
  constant_eq : v.constant = c.isConstant
  length_valid : v.valid.length = c.outputRows count
  size_eq : v.data.size = c.outputRows count * width ∨
    v.constant = true ∧ v.valid = [false] ∧ v.data.size = 0
  size_le : ∀ capacity, c.outputRows count ≤ capacity → v.data.size ≤ capacity * width
  valueAt_eq : ∀ row < c.outputRows count,
    v.valueAt width row = c.valueAt tae (c.sourceRow offset row)

/-- The copy of a column into a vector of type `t` is right. -/
def NativeColumnView.Preserved (tae : TaeTypes) (c : NativeColumnView) (t : LogicalType)
    (count offset : ℕ) : Prop :=
  ∃ width, t.physicalWidth = some width ∧
    ∃ v, fillColumn tae c count offset = .ok v ∧ v.Holds tae c count offset width

/-! ## The condition -/

/-- Whether any element is copied. -/
def NativeColumnView.Copies (c : NativeColumnView) (count : ℕ) : Prop :=
  if c.isConstant then c.data.isEmpty = false ∧ c.nullAt 0 = false else 0 < count

/-- A decimal has the same width on both sides, where anything is copied; in any case DuckDB has
such a decimal. Its number of digits there is a byte. -/
def SubstraitType.SameWidth (copies : Prop) : SubstraitType → Prop
  | .decimal precision _ =>
    let digits := precision.toUInt32.toUInt8.toNat
    digits ≤ 38 ∧ (copies → if precision ≤ 18 then 10 ≤ digits ∧ digits ≤ 18 else 19 ≤ digits)
  | _ => True

/-- No date of the rows is too early for DuckDB. -/
def NativeColumnView.DatesFit (tae : TaeTypes) (c : NativeColumnView) (count offset : ℕ) : Prop :=
  c.isDate = true → ∀ row < c.outputRows count, ∀ z,
    c.valueAt tae (c.sourceRow offset row) = some (.number z) → -2 ^ 31 ≤ z

/-! ## The tables -/

variable {tae : TaeTypes} {expected : SubstraitType} {c : NativeColumnView} {t : LogicalType}
  {oid : MoTypeOid} {count offset row rows k : ℕ} {nulls : Bytes}

theorem physicalWidth_decimal {precision scale : Int32} (hoid : oid = .decimal64 ∧ precision ≤ 18 ∨
    oid = .decimal128 ∧ ¬precision ≤ 18) (copies : Prop) :
    (∃ width, (LogicalType.decimal precision.toUInt32.toUInt8 scale.toUInt32.toUInt8).physicalWidth
      = some width ∧ (copies → oid.width = width)) ↔
        (SubstraitType.decimal precision scale).SameWidth copies := by
  have hlit4 : ∀ w : UInt8, w ≤ 4 ↔ w.toNat ≤ 4 := fun _ ↦ Iff.rfl
  have hlit9 : ∀ w : UInt8, w ≤ 9 ↔ w.toNat ≤ 9 := fun _ ↦ Iff.rfl
  have hlit18 : ∀ w : UInt8, w ≤ 18 ↔ w.toNat ≤ 18 := fun _ ↦ Iff.rfl
  have hlit38 : ∀ w : UInt8, w ≤ 38 ↔ w.toNat ≤ 38 := fun _ ↦ Iff.rfl
  rw [LogicalType.physicalWidth, SubstraitType.SameWidth]
  simp only [hlit4, hlit9, hlit18, hlit38]
  generalize precision.toUInt32.toUInt8.toNat = digits
  rcases hoid with ⟨rfl, hle⟩ | ⟨rfl, hle⟩
  · have hwidth : MoTypeOid.decimal64.width = 8 := rfl
    simp only [hwidth, if_pos hle]
    split_ifs <;> by_cases hcopies : copies <;> simp [hcopies] <;> omega
  · have hwidth : MoTypeOid.decimal128.width = 16 := rfl
    simp only [hwidth, if_neg hle]
    split_ifs <;> by_cases hcopies : copies <;> simp [hcopies] <;> omega

theorem exists_width_of_eq (hoid : c.type.oid.toNat = oid.code)
    (hwidth : t.physicalWidth = some oid.width) (copies : Prop) :
    ∃ width, t.physicalWidth = some width ∧
      (copies → tae.moTypeSize c.type.oid.toNat = width) :=
  ⟨oid.width, hwidth, fun _ ↦ by rw [hoid, tae.moTypeSize_code]⟩

/-- The three tables agree on the width of an element, but for the decimals. -/
theorem exists_width_iff (hmatches : substraitMatchesMo expected c.type = true)
    (ht : logicalType expected = .ok t) (htext : c.isText = false) (copies : Prop) :
    (∃ width, t.physicalWidth = some width ∧
      (copies → tae.moTypeSize c.type.oid.toNat = width)) ↔ expected.SameWidth copies := by
  cases expected with
  | decimal precision scale =>
    obtain ⟨-, rfl⟩ := LogicalType.ofDecimal_eq_ok.mp ht
    have hoid := (Bool.and_eq_true_iff.mp hmatches).1
    split_ifs at hoid with hprecision
    · rw [beq_iff_eq.mp hoid, tae.moTypeSize_code]
      exact physicalWidth_decimal (.inl ⟨rfl, hprecision⟩) copies
    · rw [beq_iff_eq.mp hoid, tae.moTypeSize_code]
      exact physicalWidth_decimal (.inr ⟨rfl, hprecision⟩) copies
  | string => exact absurd (htext.symm.trans hmatches) Bool.false_ne_true
  | varchar => exact absurd (htext.symm.trans hmatches) Bool.false_ne_true
  | other => cases hmatches
  | bool | i8 | i16 | i32 | i64 | fp32 | fp64 | date =>
    obtain rfl := Except.ok.inj ht
    exact iff_of_true (exists_width_of_eq (beq_iff_eq.mp hmatches) rfl copies) trivial

/-- Strings are copied into a vector of strings. -/
theorem physicalWidth_of_isText (hmatches : substraitMatchesMo expected c.type = true)
    (ht : logicalType expected = .ok t) (htext : c.isText = true) :
    t.physicalWidth = some 16 ∧ ∀ copies, expected.SameWidth copies := by
  obtain ⟨oid, hoid⟩ := exists_oid_of_matches hmatches
  rw [NativeColumnView.isText_eq hoid] at htext
  cases expected with
  | string | varchar =>
    obtain rfl := Except.ok.inj ht
    exact ⟨rfl, fun _ ↦ trivial⟩
  | decimal precision scale =>
    have hdecimal := (Bool.and_eq_true_iff.mp hmatches).1
    rw [hoid] at hdecimal
    split_ifs at hdecimal
    · rw [MoTypeOid.code_injective (beq_iff_eq.mp hdecimal)] at htext
      cases htext
    · rw [MoTypeOid.code_injective (beq_iff_eq.mp hdecimal)] at htext
      cases htext
  | other => cases hmatches
  | bool | i8 | i16 | i32 | i64 | fp32 | fp64 | date =>
    rw [substraitMatchesMo, hoid] at hmatches
    rw [MoTypeOid.code_injective (beq_iff_eq.mp hmatches)] at htext
    cases htext

/-! ## The rows -/

namespace NativeColumnView

/-- The bytes of an element in the vector that is filled, if it is the right one. -/
def outputWidth (tae : TaeTypes) (c : NativeColumnView) : ℕ :=
  if c.isText then 16 else tae.moTypeSize c.type.oid.toNat

/-- The element of a date or of a type of a fixed width is as long as its type. -/
theorem moTypeSize_eq (hc : c.Valid tae rows expected) (htext : c.isText = false) :
    tae.moTypeSize c.type.oid.toNat = (tae.moTypeFixedSize c.type.oid.toNat).toNat := by
  obtain ⟨oid, hoid⟩ := exists_oid_of_matches hc.type_matches
  rw [isText_eq hoid] at htext
  rw [hoid, tae.moTypeSize_code, tae.moTypeFixedSize_of_fixed oid htext, Int.toNat_natCast]

theorem moTypeSize_date (hdate : c.isDate = true) : tae.moTypeSize c.type.oid.toNat = 4 := by
  have hoid : c.type.oid.toNat = MoTypeOid.date.code := beq_iff_eq.mp hdate
  rw [hoid, tae.moTypeSize_code]
  rfl

theorem isText_of_isDate (hdate : c.isDate = true) : c.isText = false := by
  have hoid : c.type.oid.toNat = MoTypeOid.date.code := beq_iff_eq.mp hdate
  rw [isText_eq hoid]
  rfl

/-- The dates that are written, one by one. -/
theorem length_dates (c : NativeColumnView) (k offset : ℕ) :
    ∀ piece ∈ (List.range k).map fun row ↦
      signedBytes 4 (signed (c.element 4 (offset + row)) - kMoUnixEpochDays), piece.length = 4 := by
  intro piece hpiece
  obtain ⟨row, -, rfl⟩ := List.mem_map.mp hpiece
  exact length_signedBytes 4 _

theorem size_copied (hc : c.Valid tae rows expected)
    (hrange : offset + k ≤ physicalRows c.vectorClass c.data rows) :
    (c.copied tae k offset).size = k * c.outputWidth tae := by
  rw [copied, outputWidth]
  split_ifs with htext hdate
  · rw [VectorData.size, List.length_map, List.length_range]
  · rw [VectorData.size, length_flatten (c.length_dates k offset), List.length_map,
      List.length_range, moTypeSize_date hdate]
  · have hsize := moTypeSize_eq hc (Bool.not_eq_true _ ▸ htext)
    have hinside := hc.data_inside _ hrange
    rw [hsize, Nat.add_mul] at hinside
    rw [VectorData.size, hsize]
    exact length_slice_of_le hinside

/-- A row of the copy denotes what the column says, unless it is a date that wraps. -/
theorem valueAt_copied_iff (hc : c.Valid tae rows expected)
    (hrange : offset + k ≤ physicalRows c.vectorClass c.data rows) (hrow : row < k)
    (hdata : (c.isConstant && c.data.isEmpty) = false) {constant : Bool} {valid : List Bool}
    (hvalid : valid.getD row false = !c.nullAt (offset + row)) :
    FilledVector.valueAt (c.outputWidth tae) ⟨constant, valid, c.copied tae k offset⟩ row
      = c.valueAt tae (offset + row) ↔
        (c.isDate = true → ∀ z, c.valueAt tae (offset + row) = some (.number z) → -2 ^ 31 ≤ z) := by
  rw [FilledVector.valueAt, hvalid, valueAt, hdata, Bool.false_or]
  cases hnull : c.nullAt (offset + row) with
  | true => exact iff_of_true rfl fun _ z hz ↦ by simp at hz
  | false =>
    rw [Bool.not_false, if_pos rfl, if_neg Bool.false_ne_true, copied, outputWidth]
    cases htext : c.isText with
    | true =>
      have hgetD : ((List.range k).map fun row ↦ if c.nullAt (offset + row) = true then none
          else some (c.textAt (offset + row))).getD row none = some (c.textAt (offset + row)) := by
        rw [List.getD_eq_getElem _ _ (by rw [List.length_map, List.length_range]; exact hrow),
          List.getElem_map, List.getElem_range, hnull, if_neg Bool.false_ne_true]
      rw [if_pos rfl, if_pos rfl]
      exact iff_of_true (congrArg (Option.map Value.text) hgetD) fun _ z hz ↦ by simp at hz
    | false =>
      rw [if_neg Bool.false_ne_true, if_neg Bool.false_ne_true, if_neg Bool.false_ne_true]
      cases hdate : c.isDate with
      | true =>
        have hinside := hc.element_inside (offset + row) (by omega) (moTypeSize_date hdate)
        have hbounds := signed_bounds (length_slice_of_le hinside) (by decide)
        have hpiece := chunk_flatten (c.length_dates k offset) (i := row)
          (by rw [List.length_map, List.length_range]; exact hrow)
        rw [List.getElem_map, List.getElem_range] at hpiece
        rw [if_pos rfl, if_pos rfl, moTypeSize_date hdate]
        simp only [hpiece, Option.some.injEq, Value.number.injEq, forall_eq', true_imp_iff]
        have hepoch : kMoUnixEpochDays = 719162 := rfl
        constructor
        · intro h
          have hwrapped := signed_bounds (length_signedBytes 4
            (signed (c.element 4 (offset + row)) - kMoUnixEpochDays)) (by decide)
          rw [h] at hwrapped
          omega
        · intro h
          refine signed_signedBytes (by omega) ?_
          rw [element]
          omega
      | false =>
        have hsize := moTypeSize_eq hc htext
        rw [if_neg Bool.false_ne_true, if_neg Bool.false_ne_true, hsize]
        refine iff_of_true ?_ (by simp)
        refine congrArg (fun bs ↦ some (Value.number (signed bs))) ?_
        exact chunk_run hrow

/-- What is copied holds the rows if its elements have the right width and its dates fit. -/
theorem holds_copied_iff {from' width : ℕ} {constant : Bool} {valid : List Bool}
    (hc : c.Valid tae rows expected)
    (hrange : from' + k ≤ physicalRows c.vectorClass c.data rows)
    (hk : c.outputRows count = k) (hsource : ∀ row < k, c.sourceRow offset row = from' + row)
    (hdata : (c.isConstant && c.data.isEmpty) = false) (hconstant : constant = c.isConstant)
    (hlength : valid.length = k)
    (hvalid : ∀ row < k, valid.getD row false = !c.nullAt (from' + row))
    (hnonnull : ¬(constant = true ∧ valid = [false])) :
    FilledVector.Holds tae c count offset width ⟨constant, valid, c.copied tae k from'⟩ ↔
      (0 < k → c.outputWidth tae = width) ∧ c.DatesFit tae count offset := by
  have hsize := size_copied hc hrange
  constructor
  · intro h
    have hwidth : 0 < k → c.outputWidth tae = width := by
      intro hpos
      rcases h.size_eq with heq | ⟨htrue, hfalse, -⟩
      · rw [hk, hsize] at heq
        exact Nat.eq_of_mul_eq_mul_left hpos heq
      · exact absurd ⟨htrue, hfalse⟩ hnonnull
    refine ⟨hwidth, fun hdate row hrow z hz ↦ ?_⟩
    rw [hk] at hrow
    have hvalue := h.valueAt_eq row (hk ▸ hrow)
    rw [← hwidth (by omega), hsource row hrow] at hvalue
    rw [hsource row hrow] at hz
    exact (valueAt_copied_iff hc hrange hrow hdata (hvalid row hrow)).mp hvalue hdate z hz
  · rintro ⟨hwidth, hdates⟩
    have hbytes : k * c.outputWidth tae = k * width := by
      rcases Nat.eq_zero_or_pos k with rfl | hpos
      · rw [Nat.zero_mul, Nat.zero_mul]
      · rw [hwidth hpos]
    refine ⟨hconstant, hlength.trans hk.symm, .inl ?_, fun capacity hcapacity ↦ ?_,
      fun row hrow ↦ ?_⟩
    · rw [hk, hsize, hbytes]
    · rw [hk] at hcapacity
      rw [hsize, hbytes]
      exact Nat.mul_le_mul_right width hcapacity
    · have hdate := fun hdate ↦ hdates hdate row hrow
      rw [hk] at hrow
      rw [hsource row hrow] at hdate
      rw [← hwidth (by omega), hsource row hrow]
      exact (valueAt_copied_iff hc hrange hrow hdata (hvalid row hrow)).mpr hdate

/-- The vector that `fill_column` leaves, case by case: a constant null, a constant, a flat one. -/
theorem holds_filled_iff {width : ℕ} (hc : c.Valid tae rows expected)
    (hrange : offset + count ≤ rows) :
    FilledVector.Holds tae c count offset width (c.filled tae count offset) ↔
      (c.Copies count → c.outputWidth tae = width) ∧ c.DatesFit tae count offset := by
  cases hconstant : c.isConstant with
  | true =>
    -- a constant column is filled from its row 0, whatever the offset
    have hk : c.outputRows count = 1 := if_pos hconstant
    have hsource (row : ℕ) : c.sourceRow offset row = 0 := if_pos hconstant
    cases hempty : (c.data.isEmpty || c.nullAt 0) with
    | true =>
      have hnone : c.valueAt tae 0 = none := by
        rw [valueAt, hconstant, Bool.true_and, if_pos hempty]
      have hfilled : c.filled tae count offset = ⟨true, [false], .bytes []⟩ := by
        rw [filled, if_pos hconstant, if_pos (Bool.or_eq_true_iff.mp hempty)]
      refine iff_of_true ?_ ⟨fun hcopies ↦ ?_, fun _ row _ z hz ↦ ?_⟩
      · rw [hfilled]
        refine ⟨hconstant.symm, hk.symm, .inr ⟨rfl, rfl, rfl⟩, fun _ _ ↦ Nat.zero_le _, ?_⟩
        intro row hrow
        rw [hk, Nat.lt_one_iff] at hrow
        rw [hsource, hnone, hrow]
        rfl
      · rw [Copies, if_pos hconstant] at hcopies
        rw [hcopies.1, hcopies.2] at hempty
        cases hempty
      · rw [hsource, hnone] at hz
        cases hz
    | false =>
      rw [Bool.or_eq_false_iff] at hempty
      have hfilled : c.filled tae count offset = ⟨true, [true], c.copied tae 1 0⟩ := by
        rw [filled, if_pos hconstant, if_neg (by rw [hempty.1, hempty.2]; simp)]
      have hphysical : physicalRows c.vectorClass c.data rows = 1 := by
        rw [physicalRows, if_pos (beq_iff_eq.mp hconstant), hempty.1]
        rfl
      have hcopies : c.Copies count ↔ 0 < 1 := by
        rw [Copies, if_pos hconstant]
        exact iff_of_true hempty Nat.one_pos
      rw [hfilled, hcopies]
      refine holds_copied_iff hc (by rw [hphysical]) hk ?_ ?_ hconstant.symm rfl ?_ (by simp)
      · intro row hrow
        rw [hsource, Nat.lt_one_iff.mp hrow]
      · rw [hempty.1, Bool.and_false]
      · intro row hrow
        rw [Nat.lt_one_iff.mp hrow, hempty.2]
        rfl
  | false =>
    have hk : c.outputRows count = count := if_neg (Bool.eq_false_iff.mp hconstant)
    have hfilled : c.filled tae count offset = ⟨false,
        (List.range count).map fun row ↦ !c.nullAt (offset + row), c.copied tae count offset⟩ :=
      if_neg (Bool.eq_false_iff.mp hconstant)
    have hphysical : physicalRows c.vectorClass c.data rows = rows :=
      if_neg fun heq ↦ absurd (beq_iff_eq.mpr heq) (Bool.eq_false_iff.mp hconstant)
    have hcopies : c.Copies count ↔ 0 < count := by
      rw [Copies, if_neg (Bool.eq_false_iff.mp hconstant)]
    rw [hfilled, hcopies]
    refine holds_copied_iff hc (by rw [hphysical]; exact hrange) hk ?_ ?_ hconstant.symm ?_ ?_
      (by simp)
    · exact fun row _ ↦ if_neg (Bool.eq_false_iff.mp hconstant)
    · rw [hconstant, Bool.false_and]
    · rw [List.length_map, List.length_range]
    · intro row hrow
      rw [List.getD_eq_getElem _ _ (by rw [List.length_map, List.length_range]; exact hrow),
        List.getElem_map, List.getElem_range]

/-- When the copy of a valid column is right. -/
theorem preserved_iff (hc : c.Valid tae rows expected)
    (hnulls : IsNullBitmap rows nulls c.nullCount c.nullWords) (hpos : 0 < rows)
    (hrows : rows < 2 ^ 32) (hrange : offset + count ≤ rows) (ht : logicalType expected = .ok t) :
    c.Preserved tae t count offset ↔
      expected.SameWidth (c.Copies count) ∧ c.DatesFit tae count offset := by
  have hfill := fillColumn_eq hc hnulls hpos hrows hrange
  have hwidths : (∃ width, t.physicalWidth = some width ∧
    (c.Copies count → c.outputWidth tae = width))
      ↔ expected.SameWidth (c.Copies count) := by
    rw [outputWidth]
    cases htext : c.isText with
    | true =>
      obtain ⟨hwidth, hsame⟩ := physicalWidth_of_isText hc.type_matches ht htext
      exact iff_of_true ⟨16, hwidth, fun _ ↦ if_pos rfl⟩ (hsame _)
    | false =>
      rw [if_neg Bool.false_ne_true]
      exact exists_width_iff hc.type_matches ht htext _
  rw [← hwidths]
  constructor
  · rintro ⟨width, hwidth, v, hv, hholds⟩
    obtain rfl := Except.ok.inj (hfill.symm.trans hv)
    obtain ⟨hsame, hdates⟩ := (holds_filled_iff hc hrange).mp hholds
    exact ⟨⟨width, hwidth, hsame⟩, hdates⟩
  · rintro ⟨⟨width, hwidth, hsame⟩, hdates⟩
    exact ⟨width, hwidth, _, hfill, (holds_filled_iff hc hrange).mpr ⟨hsame, hdates⟩⟩

end NativeColumnView

/-! ## Streams -/

/-- What the constructor of `stream_input` keeps of a schema: the names and types of the columns. -/
def streamInput (schema : NamedStruct) : Except Thrown (List Bytes × List LogicalType) := do
  let types := schema.types.getD []
  throwIf (schema.types.isNone ∨ schema.names.length = 0 ∨ schema.names.length ≠ types.length)
    "StreamRead schema is incomplete"
  let logicalTypes ← types.mapM logicalType
  .ok (schema.names, logicalTypes)

variable {schema : NamedStruct} {envelope : NativeBatchFrame} {b : DecodedBatch}
  {names : List Bytes} {types : List LogicalType}

/-- The copy of a column of an accepted batch is right exactly if the column is no decimal of fewer
than 10 digits, or more than DuckDB has, and no date is too early. -/
theorem fillColumn_preserves_iff {i : ℕ} (hschema : streamInput schema = .ok (names, types))
    (hbatch : nativeBatchView tae envelope schema = .ok b) (hc : b.columns[i]? = some c) :
    ∃ expected t, (schema.types.getD [])[i]? = some expected ∧ types[i]? = some t ∧
      ∀ offset count, offset + count ≤ b.rows → (c.Preserved tae t count offset ↔
        expected.SameWidth (c.Copies count) ∧ c.DatesFit tae count offset) := by
  obtain ⟨hpos, hlt, -⟩ := of_nativeBatchView hbatch
  obtain ⟨expected, hexpected, hvalid, bs, typeBytes, nulls, sorted, henc⟩ :=
    valid_of_getElem? hbatch hc
  obtain ⟨⟨⟩, -, hrest⟩ := bind_eq_ok.mp hschema
  obtain ⟨types', htypes, hrest'⟩ := bind_eq_ok.mp hrest
  obtain ⟨-, rfl⟩ := Prod.mk.inj (Except.ok.inj hrest')
  have hpairs := mapM_eq_ok.mp htypes
  obtain ⟨hi, hget⟩ := List.getElem?_eq_some_iff.mp hexpected
  have hi' : i < types'.length := hpairs.length_eq ▸ hi
  have ht := (List.forall₂_iff_get.mp hpairs).2 i hi hi'
  rw [List.get_eq_getElem, List.get_eq_getElem, hget] at ht
  exact ⟨expected, types'[i], hexpected, List.getElem?_eq_getElem hi', fun offset count hrange ↦
    NativeColumnView.preserved_iff hvalid henc.nulls_eq hpos hlt hrange ht⟩

theorem fillColumn_preserves_iff_small :
    ¬smallDecimalColumn.Preserved TaeTypes.documented (.decimal 4 2) 1 0 := by
  have hschema : streamInput smallDecimalSchema
      = .ok (smallDecimalSchema.names, [.decimal 4 2]) := rfl
  obtain ⟨expected, t, hexpected, ht, hiff⟩ :=
    fillColumn_preserves_iff (i := 0) hschema nativeBatchView_smallDecimal rfl
  obtain rfl := Option.some.inj hexpected
  obtain rfl := Option.some.inj ht
  rw [hiff 0 1 (Nat.le_refl 1)]
  rintro ⟨⟨-, hdigits⟩, -⟩
  have htoo := (hdigits Nat.one_pos).1
  revert htoo
  decide

/-- The scan of a decimal of four digits writes eight bytes where an element has two. -/
theorem not_forall_preserved : ¬∀ (tae : TaeTypes) (schema : NamedStruct)
    (envelope : NativeBatchFrame) (names : List Bytes) (types : List LogicalType)
    (b : DecodedBatch), streamInput schema = .ok (names, types) →
    nativeBatchView tae envelope schema = .ok b →
      ∀ (i : ℕ) (c : NativeColumnView) (t : LogicalType),
    b.columns[i]? = some c → types[i]? = some t → ∀ offset count, offset + count ≤ b.rows →
    c.Preserved tae t count offset := by
  intro h
  obtain ⟨width, hwidth, v, hv, hholds⟩ := h TaeTypes.documented smallDecimalSchema
    smallDecimalFrame smallDecimalSchema.names [.decimal 4 2] _ rfl nativeBatchView_smallDecimal 0 _
    (.decimal 4 2) rfl rfl 0 1 (Nat.le_refl 1)
  obtain rfl : 2 = width := Option.some.inj hwidth
  have hfilled : fillColumn TaeTypes.documented smallDecimalColumn 1 0
      = .ok ⟨false, [true], .bytes (bytes 8 1)⟩ := rfl
  obtain rfl := Except.ok.inj (hfilled.symm.trans hv)
  have hle := hholds.size_le 1 (Nat.le_refl 1)
  revert hle
  decide

end MoSidecar
