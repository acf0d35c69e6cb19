import MoSidecar.Native.Batches
import MoSidecar.Native.DataChunk

/-!
# The types of a prepared result

`validate_native_result_schema` compares the schema that a client sends with the result that was
prepared: the names one by one, and each type with the one that the client's column stands for. A
decimal's type is made of the client's width and scale, two numbers of 32 bits, by a constructor
that takes bytes. So a width of 260 passes for one of 4, and it is 260 that is written into the
batch. Two other types are let pass for a decimal, whatever its width and scale are.

`pins_iff` says which of the accepted schemas have the types that were prepared.
-/

namespace MoSidecar

/-! ## What is accepted -/

namespace NativeResultColumn

/-- A column of decimals. -/
def isDecimal (c : NativeResultColumn) : Bool := c.is .decimal64 || c.is .decimal128

/-- The types that pass for decimals without being any. -/
def Coerces (c : NativeResultColumn) (t : LogicalType) : Prop :=
  c.isDecimal = true ∧ t = .double ∨ c.is .decimal128 = true ∧ c.scale = 0 ∧ t = .hugeint

/-- The types that pass for a column. -/
def Accepts (c : NativeResultColumn) (t : LogicalType) : Prop :=
  (∃ expected, expectedDuckdbType c = .ok expected ∧ (t = expected ∨ c.Coerces t)) ∧
    c.charset.toNat ≤ 255

/-- The types of a column of decimals that its width and its scale describe. -/
def Describes (c : NativeResultColumn) (t : LogicalType) : Prop :=
  (∃ w s : UInt8, t = .decimal w s ∧ (w.toNat : ℤ) = c.width.toInt ∧
      (s.toNat : ℤ) = c.scale.toInt) ∨
    (t = .double ∨ c.is .decimal128 = true ∧ c.scale = 0 ∧ t = .hugeint) ∧
      (1 ≤ c.width.toInt ∧ c.width.toInt ≤ 38) ∧ 0 ≤ c.scale.toInt ∧ c.scale.toInt ≤ c.width.toInt

/-- The width and the scale are bytes, and for a type that is no decimal they are also those of a
decimal. -/
def FitsBytes (c : NativeResultColumn) (t : LogicalType) : Prop :=
  ((0 ≤ c.width.toInt ∧ c.width.toInt < 256) ∧ 0 ≤ c.scale.toInt ∧ c.scale.toInt < 256) ∧
    (t = .double ∨ t = .hugeint → 0 < c.width.toInt ∧ c.scale.toInt ≤ c.width.toInt)

variable {c : NativeResultColumn} {t : LogicalType} {index : ℕ} {u : Unit}

theorem validateColumn_eq_ok : validateColumn c t index = .ok u ↔ c.Accepts t := by
  have hrefuses (expected : LogicalType) :
      ¬(t ≠ expected ∧ (!(c.isDecimal && t == .double)) = true ∧
        (!(c.is .decimal128 && c.scale == 0 && t == .hugeint)) = true) ↔
        t = expected ∨ c.Coerces t := by
    simp only [Coerces, not_and_or, not_not, Bool.not_eq_true', Bool.not_eq_false,
      Bool.and_eq_true, beq_iff_eq, and_assoc]
  rw [validateColumn, bind_eq_ok]
  constructor
  · rintro ⟨expected, hexpected, h⟩
    obtain ⟨⟨⟩, htype, hcharset⟩ := bind_eq_ok.mp h
    rw [throwIf_eq_ok] at htype hcharset
    exact ⟨⟨expected, hexpected, (hrefuses expected).mp htype⟩, Nat.le_of_not_lt hcharset⟩
  · rintro ⟨⟨expected, hexpected, htype⟩, hcharset⟩
    refine ⟨expected, hexpected, bind_eq_ok.mpr ⟨(), ?_, ?_⟩⟩
    · exact throwIf_eq_ok.mpr ((hrefuses expected).mpr htype)
    · exact throwIf_eq_ok.mpr (Nat.not_lt.mpr hcharset)

/-- What the constructor of a decimal is given of a number of 32 bits. -/
theorem toNat_truncated (z : Int32) : (z.toUInt32.toUInt8.toNat : ℤ) = z.toInt % 256 := by
  have hnat : z.toUInt32.toNat = z.toBitVec.toNat := rfl
  have hint : z.toInt = z.toBitVec.toInt := rfl
  have hlt := z.toBitVec.isLt
  rw [UInt32.toNat_toUInt8, hnat, hint, BitVec.toInt_eq_toNat_cond]
  split_ifs <;> omega

theorem expectedDuckdbType_of_isDecimal (h : c.isDecimal = true) : expectedDuckdbType c
    = LogicalType.ofDecimal c.width.toUInt32.toUInt8 c.scale.toUInt32.toUInt8 := by
  rw [isDecimal, Bool.or_eq_true, is, is, beq_iff_eq, beq_iff_eq] at h
  rw [expectedDuckdbType]
  rcases h with h | h
  · rw [h, MoTypeOid.ofCode?_code]
  · rw [h, MoTypeOid.ofCode?_code]

/-- A type that is accepted is described exactly if nothing was lost on the way to it. -/
theorem describes_iff (h : c.Accepts t) (hdecimal : c.isDecimal = true) :
    c.Describes t ↔ c.FitsBytes t := by
  obtain ⟨⟨expected, hexpected, htype⟩, -⟩ := h
  rw [expectedDuckdbType_of_isDecimal hdecimal, LogicalType.ofDecimal_eq_ok] at hexpected
  obtain ⟨hwide, rfl⟩ := hexpected
  have hwidth := toNat_truncated c.width
  have hscale := toNat_truncated c.scale
  constructor
  · rintro (⟨w, s, rfl, hw, hs⟩ | ⟨-, hw, hs⟩)
    · have hltw := w.toNat_lt
      have hlts := s.toNat_lt
      exact ⟨by omega, fun hother ↦ by rcases hother with hother | hother <;> cases hother⟩
    · exact ⟨by omega, fun _ ↦ by omega⟩
  · rintro ⟨hbytes, hcoerced⟩
    rcases htype with rfl | ⟨-, rfl⟩ | ⟨hlong, hzero, rfl⟩
    · exact .inl ⟨_, _, rfl, by omega, by omega⟩
    · have hvalid := hcoerced (.inl rfl)
      exact .inr ⟨.inl rfl, by omega, by omega⟩
    · have hvalid := hcoerced (.inr rfl)
      exact .inr ⟨.inr ⟨hlong, hzero, rfl⟩, by omega, by omega⟩

end NativeResultColumn

/-! ## Schemas -/

section

variable {α β γ : Type} {P : α → β → Prop} {Q : α → γ → Prop}

/-- Three lists of one length, taken together. -/
theorem forall_mem_zip_zip {xs : List α} {ys : List β} {zs : List γ} (hys : xs.length = ys.length)
    (hzs : xs.length = zs.length) : (∀ p ∈ xs.zip (ys.zip zs), P p.1 p.2.1 ∧ Q p.1 p.2.2) ↔
      List.Forall₂ P xs ys ∧ List.Forall₂ Q xs zs := by
  induction xs generalizing ys zs with
  | nil =>
    obtain rfl := List.eq_nil_of_length_eq_zero hys.symm
    obtain rfl := List.eq_nil_of_length_eq_zero hzs.symm
    simp
  | cons x xs ih =>
    obtain ⟨y, ys, rfl⟩ := List.exists_cons_of_length_eq_add_one hys.symm
    obtain ⟨z, zs, rfl⟩ := List.exists_cons_of_length_eq_add_one hzs.symm
    rw [List.zip_cons_cons, List.zip_cons_cons, List.forall_mem_cons,
      ih (Nat.succ.inj hys) (Nat.succ.inj hzs), List.forall₂_cons, List.forall₂_cons]
    exact and_and_and_comm

end

namespace NativeResultSchema

variable {wire : NativeResultSchema} {names : List Bytes} {types : List LogicalType}

/-- What `validate_native_result_schema` accepts. -/
theorem validate_eq_ok : validateNativeResultSchema wire names types = .ok () ↔
    (wire.version = kNativeResultSchemaVersion ∧ wire.columns ≠ []) ∧
      List.Forall₂ (fun c name ↦ c.name = name) wire.columns names ∧
        List.Forall₂ NativeResultColumn.Accepts wire.columns types := by
  have hround (p : (NativeResultColumn × Bytes × LogicalType) × ℕ) :
      validateNamed p.2 p.1.1 p.1.2.1 p.1.2.2 = .ok () ↔
        p.1.1.name = p.1.2.1 ∧ p.1.1.Accepts p.1.2.2 := by
    rw [validateNamed, bind_eq_ok]
    simp only [throwIf_eq_ok, not_not, exists_const, NativeResultColumn.validateColumn_eq_ok]
  rw [validateNativeResultSchema, bind_eq_ok]
  simp only [throwIf_eq_ok, exists_const, forM_eq_ok, hround, not_or, not_not, List.isEmpty_iff]
  have hzip : (∀ p ∈ (wire.columns.zip (names.zip types)).zipIdx,
      p.1.1.name = p.1.2.1 ∧ p.1.1.Accepts p.1.2.2) ↔
        ∀ p ∈ wire.columns.zip (names.zip types), p.1.name = p.2.1 ∧ p.1.Accepts p.2.2 := by
    -- The number of a column is in the error's text only.
    rw [← List.forall_mem_map (f := Prod.fst)
      (P := fun p : NativeResultColumn × Bytes × LogicalType ↦
        p.1.name = p.2.1 ∧ p.1.Accepts p.2.2),
      List.zipIdx_map_fst]
  rw [hzip]
  constructor
  · rintro ⟨⟨hversion, hne, htypes, hnames⟩, h⟩
    exact ⟨⟨hversion, hne⟩, (forall_mem_zip_zip hnames htypes).mp h⟩
  · rintro ⟨⟨hversion, hne⟩, hnames, htypes⟩
    exact ⟨⟨hversion, hne, htypes.length_eq, hnames.length_eq⟩,
      (forall_mem_zip_zip hnames.length_eq htypes.length_eq).mpr ⟨hnames, htypes⟩⟩

/-- The schema has the names and the types of the prepared result, and what is written into each
vector of decimals describes its type. -/
structure Pins (tae : TaeTypes) (wire : NativeResultSchema) (names : List Bytes)
    (types : List LogicalType) : Prop where
  names_eq : List.Forall₂ (fun c name ↦ c.name = name) wire.columns names
  types_length : wire.columns.length = types.length
  describes : ∀ p ∈ wire.columns.zip types, p.1.isDecimal = true → p.1.Describes p.2
  written : ∀ c ∈ wire.columns, ∀ rowCount encoded vector,
    assembleVector tae rowCount c encoded = .ok vector →
      (MoType.load ((vector.drop 1).take kMoTypeBytes)).width = c.width ∧
        (MoType.load ((vector.drop 1).take kMoTypeBytes)).scale = c.scale

/-- The type that a vector of a batch begins with. -/
theorem load_of_assembleVector {tae : TaeTypes} {rowCount : ℕ} {c : NativeResultColumn}
    {encoded : EncodedColumn} {vector : Bytes}
    (h : assembleVector tae rowCount c encoded = .ok vector) :
    MoType.load ((vector.drop 1).take kMoTypeBytes) = c.moType tae := by
  rw [assembleVector] at h
  obtain ⟨rows, -, h⟩ := bind_eq_ok.mp h
  obtain ⟨data, -, h⟩ := bind_eq_ok.mp h
  obtain ⟨area, -, h⟩ := bind_eq_ok.mp h
  obtain ⟨nulls, -, h⟩ := bind_eq_ok.mp h
  obtain rfl := Except.ok.inj h
  rw [List.singleton_append, List.drop_succ_cons, List.drop_zero,
    List.take_left' (MoType.length_bytes _), MoType.load_bytes]

/-- **The schemas that pin the result's type.** -/
theorem pins_iff {tae : TaeTypes} (h : validateNativeResultSchema wire names types = .ok ()) :
    wire.Pins tae names types ↔
      ∀ p ∈ wire.columns.zip types, p.1.isDecimal = true → p.1.FitsBytes p.2 := by
  obtain ⟨-, hnames, htypes⟩ := validate_eq_ok.mp h
  have haccepts : ∀ p ∈ wire.columns.zip types, p.1.Accepts p.2 := fun p hp ↦
    (List.forall₂_iff_zip.mp htypes).2 hp
  constructor
  · intro hpins p hp hdecimal
    exact (NativeResultColumn.describes_iff (haccepts p hp) hdecimal).mp
      (hpins.describes p hp hdecimal)
  · intro hfits
    refine ⟨hnames, htypes.length_eq, fun p hp hdecimal ↦ ?_,
      fun c _ rowCount encoded vector hv ↦ ?_⟩
    · exact (NativeResultColumn.describes_iff (haccepts p hp) hdecimal).mpr (hfits p hp hdecimal)
    · rw [load_of_assembleVector hv]
      exact ⟨rfl, rfl⟩

/-- A column of decimals and one that was computed as doubles. -/
theorem pins_iff_decimals : Pins TaeTypes.documented
    ⟨1, [{ oid := 60, width := 15, scale := 2 }, { oid := 61, width := 38, scale := 8 }]⟩ [[], []]
    [.decimal 15 2, .double] := by
  rw [pins_iff rfl]
  intro p hp hdecimal
  simp only [List.zip_cons_cons, List.zip_nil_right, List.mem_cons, List.not_mem_nil,
    or_false] at hp
  rcases hp with rfl | rfl
  · exact ⟨by decide, by decide⟩
  · exact ⟨by decide, by decide⟩

/-- A width of 260 passes for one of 4. -/
theorem not_pins_truncated :
    parseNativeResultSchema [0x08, 0x01, 0x12, 0x07, 0x10, 0x3c, 0x18, 0x84, 0x02, 0x20, 0x02]
      = .ok ⟨1, [{ oid := 60, width := 260, scale := 2 }]⟩ ∧
    validateNativeResultSchema ⟨1, [{ oid := 60, width := 260, scale := 2 }]⟩ [[]] [.decimal 4 2]
      = .ok () ∧
    ¬Pins TaeTypes.documented ⟨1, [{ oid := 60, width := 260, scale := 2 }]⟩ [[]]
      [.decimal 4 2] := by
  refine ⟨by decide, rfl, fun hpins ↦ ?_⟩
  rcases hpins.describes _ List.mem_cons_self rfl with ⟨w, s, htype, hw, -⟩ | ⟨-, ⟨-, hwide⟩, -⟩
  · obtain ⟨rfl, rfl⟩ := LogicalType.decimal.inj htype
    exact absurd hw (by decide)
  · exact absurd hwide (by decide)

end NativeResultSchema

end MoSidecar
