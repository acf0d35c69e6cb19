import MoSidecar.Protocol.ResultSchema

/-!
# How strict the grammar is

A message that a parser accepts is a list of records of the fields the parser knows. It knows them
by the low 32 bits of the field number: a tag whose number is `2 ^ 32 + 1` stands for field one.
So a message that is accepted keeps to the grammar exactly when no field number in it needs more
than 32 bits.
-/

namespace MoSidecar

open Protobuf

/-- No field number of the message needs more than 32 bits. -/
def Narrow (bytes : Bytes) : Prop := ∀ rs, Splits bytes rs → ∀ r ∈ rs, r.field < 2 ^ 32

theorem narrow_iff {bytes : Bytes} {rs : List Record} (h : Splits bytes rs) :
    Narrow bytes ↔ ∀ r ∈ rs, fieldKey r = r.field := by
  constructor
  · intro hnarrow r hr
    exact Nat.mod_eq_of_lt (hnarrow rs h r hr)
  · intro hkeys rs' h' r hr
    obtain rfl := h.functional h'
    rw [← hkeys r hr]
    exact Nat.mod_lt _ (by decide)

theorem map_fieldKey {rs : List Record} (h : ∀ r ∈ rs, fieldKey r = r.field) :
    rs.map fieldKey = rs.map Record.field := List.map_congr_left h

namespace ExecuteRequest

/-- The message has one record for each field, by its whole number, with the field's wire type and
a value in the field's range, and the request holds these values. -/
def Strict (bytes : Bytes) (request : ExecuteRequest) : Prop :=
  (∃ rs, Splits bytes rs ∧ (rs.map Record.field).Perm (List.range' 1 11) ∧
    ∀ r ∈ rs, r.wireType = (if r.field ∈ [1, 4, 5, 9, 10] then 0 else 2) ∧
      r.payload.size ≤ limit r.field ∧ field r.field request = r.payload) ∧
  request.queryId.length = 16 ∧ request.idempotencyKey.length = kSha256Bytes

theorem toNat_executeWireType {k : ℕ} (hk : 1 ≤ k) (hle : k ≤ 11) :
    (executeWireType k.toUInt32).toNat = if k ∈ [1, 4, 5, 9, 10] then 0 else 2 := by
  interval_cases k <;> rfl

theorem strict_iff {bytes : Bytes} {request : ExecuteRequest}
    (h : parseExecuteRequest bytes = .ok request) : Strict bytes request ↔ Narrow bytes := by
  obtain ⟨-, rs, hsplits, hrs, hperm, hfill, hquery, hkey⟩ := parseExecuteRequest_eq_ok.mp h
  have hnodup := hperm.nodup_iff.mpr List.nodup_range'
  constructor
  · rintro ⟨⟨rs', hsplits', hperm', -⟩, -⟩ rs'' hsplits'' r hr
    obtain rfl := hsplits'.functional hsplits''
    have hmem := hperm'.mem_iff.mp (List.mem_map_of_mem hr)
    rw [List.mem_range'_1] at hmem
    omega
  · intro hnarrow
    have hkeys := (narrow_iff hsplits).mp hnarrow
    refine ⟨⟨rs, hsplits, map_fieldKey hkeys ▸ hperm, fun r hr ↦ ?_⟩, hquery, hkey⟩
    have htakes := hrs r hr
    have hrkey : message.key r = r.field := hkeys r hr
    have hfits := htakes.fits
    have hwire := toNat_executeWireType htakes.pos htakes.le
    have hfield := lawful.field_fill hrs hnodup (m := {}) hr
    rw [hrkey] at hfits hwire hfield
    refine ⟨?_, hfits.2, hfill ▸ hfield⟩
    rw [hsplits.wireType_eq r hr, hfits.1, hwire]

end ExecuteRequest

namespace NativeResultColumn

/-- The column has a record for each field at most once, by its whole number, and one for its
OID. -/
def Strict (bytes : Bytes) : Prop :=
  ∃ rs, Splits bytes rs ∧ (∀ r ∈ rs, 1 ≤ r.field ∧ r.field ≤ 6) ∧ (rs.map Record.field).Nodup ∧
    2 ∈ rs.map Record.field

theorem strict_iff {bytes : Bytes} {column : NativeResultColumn}
    (h : parseNativeResultColumn bytes = .ok column) : Strict bytes ↔ Narrow bytes := by
  obtain ⟨rs, hsplits, hrs, hnodup, htwo, -, -⟩ := parseNativeResultColumn_eq_ok.mp h
  constructor
  · rintro ⟨rs', hsplits', hbounds, -⟩ rs'' hsplits'' r hr
    obtain rfl := hsplits'.functional hsplits''
    have := (hbounds r hr).2
    omega
  · intro hnarrow
    have hkeys := (narrow_iff hsplits).mp hnarrow
    rw [map_fieldKey hkeys] at hnodup htwo
    refine ⟨rs, hsplits, fun r hr ↦ ?_, hnodup, htwo⟩
    rw [← hkeys r hr]
    exact ⟨(hrs r hr).pos, (hrs r hr).le⟩

end NativeResultColumn

namespace NativeResultSchema

/-- The schema has one record for its version and otherwise columns, by their whole numbers, and
every column keeps to its grammar. -/
def Strict (bytes : Bytes) : Prop :=
  ∃ rs, Splits bytes rs ∧ (∀ r ∈ rs, r.field = 1 ∨ r.field = 2) ∧
    rs.countP (·.field = 1) = 1 ∧
      ∀ r ∈ rs, r.field = 2 → NativeResultColumn.Strict r.payload.contents

/-- No field number of the schema or of one of its columns needs more than 32 bits. -/
def NarrowThroughout (bytes : Bytes) : Prop :=
  Narrow bytes ∧ ∀ rs, Splits bytes rs → ∀ r ∈ rs, r.field = 2 → Narrow r.payload.contents

theorem strict_iff {bytes : Bytes} {schema : NativeResultSchema}
    (h : parseNativeResultSchema bytes = .ok schema) : Strict bytes ↔ NarrowThroughout bytes := by
  obtain ⟨-, rs, v, hsplits, hkeys, hv, -, hcolumns, -⟩ := parseNativeResultSchema_eq_ok.mp h
  -- Each record of a column has been read as one.
  have hparsed : ∀ r ∈ rs, fieldKey r = 2 →
      ∃ column, parseNativeResultColumn r.payload.contents = .ok column := by
    intro r hr hkey
    have hmem : r ∈ columnRecords rs := List.mem_filter.mpr ⟨hr, decide_eq_true hkey⟩
    obtain ⟨column, hcolumn⟩ := exists_column hcolumns hmem
    exact ⟨column, hcolumn.parse_eq⟩
  constructor
  · rintro ⟨rs', hsplits', hfields, -, hstrict⟩
    obtain rfl := hsplits.functional hsplits'
    have hsmall : ∀ r ∈ rs, fieldKey r = r.field := by
      intro r hr
      have := hfields r hr
      exact Nat.mod_eq_of_lt (by omega)
    refine ⟨(narrow_iff hsplits).mpr hsmall, fun rs'' hsplits'' r hr htwo ↦ ?_⟩
    obtain rfl := hsplits.functional hsplits''
    obtain ⟨column, hcolumn⟩ := hparsed r hr ((hsmall r hr).trans htwo)
    exact (NativeResultColumn.strict_iff hcolumn).mp (hstrict r hr htwo)
  · rintro ⟨hnarrow, hcolumnsNarrow⟩
    have hsmall := (narrow_iff hsplits).mp hnarrow
    refine ⟨rs, hsplits, fun r hr ↦ ?_, ?_, fun r hr htwo ↦ ?_⟩
    · rw [← hsmall r hr]
      exact (hkeys r hr).imp (fun h ↦ h.key_eq) id
    · have hcount : rs.countP (·.field = 1) = rs.countP (fieldKey · = 1) :=
        List.countP_congr fun r hr ↦ by rw [hsmall r hr]
      rw [hcount, List.countP_eq_length_filter, ← versions, hv]
      rfl
    · obtain ⟨column, hcolumn⟩ := hparsed r hr ((hsmall r hr).trans htwo)
      exact (NativeResultColumn.strict_iff hcolumn).mpr (hcolumnsNarrow rs hsplits r hr htwo)

end NativeResultSchema

/-- A message that is accepted keeps to the grammar exactly when no field number in it needs more
than 32 bits: for a command, and for a result schema with the columns inside it. -/
theorem strict_iff_narrow (bytes : Bytes) :
    (∀ request, parseExecuteRequest bytes = .ok request →
      (ExecuteRequest.Strict bytes request ↔ Narrow bytes)) ∧
    ∀ schema, parseNativeResultSchema bytes = .ok schema →
      (NativeResultSchema.Strict bytes ↔ NativeResultSchema.NarrowThroughout bytes) := by
  constructor
  · intro request h
    exact ExecuteRequest.strict_iff h
  · intro schema h
    exact NativeResultSchema.strict_iff h

/-- The records of a command after its first. -/
def commandTail : Bytes :=
  [0x04, 0x12, 0x00, 0x1a, 0x00, 0x20, 0x01, 0x28, 0x01, 0x32, 0x00, 0x3a, 0x10]
    ++ List.replicate 16 1 ++ [0x42, 0x20] ++ List.replicate 32 1
    ++ [0x48, 0x07, 0x50, 0x01, 0x5a, 0x00]

/-- A command, and a schema of one column. -/
theorem strict_iff_narrow_small :
    ∃ request schema, parseExecuteRequest (0x08 :: commandTail) = .ok request ∧
      (ExecuteRequest.Strict (0x08 :: commandTail) request ↔ Narrow (0x08 :: commandTail)) ∧
      parseNativeResultSchema [0x08, 0x01, 0x12, 0x02, 0x10, 0x17] = .ok schema ∧
      (NativeResultSchema.Strict [0x08, 0x01, 0x12, 0x02, 0x10, 0x17] ↔
        NativeResultSchema.NarrowThroughout [0x08, 0x01, 0x12, 0x02, 0x10, 0x17]) := by
  have hcommand : (parseExecuteRequest (0x08 :: commandTail)).isOk := by decide +kernel
  have hcolumn : (parseNativeResultSchema [0x08, 0x01, 0x12, 0x02, 0x10, 0x17]).isOk := by
    decide +kernel
  obtain ⟨request, hrequest⟩ := exists_eq_ok hcommand
  obtain ⟨schema, hschema⟩ := exists_eq_ok hcolumn
  exact ⟨request, schema, hrequest, (strict_iff_narrow _).1 _ hrequest, hschema,
    (strict_iff_narrow _).2 _ hschema⟩

/-- A command whose first tag has the field number `2 ^ 32 + 1`, in place of one. -/
def wideCommand : Bytes := [0x88, 0x80, 0x80, 0x80, 0x80, 0x01] ++ commandTail

theorem word_wideTag : Word [0x88, 0x80, 0x80, 0x80, 0x80, 0x01] (0x800000008 : UInt64) where
  varint := .more (by decide) (.more (by decide) (.more (by decide) (.more (by decide)
    (.more (by decide) (.last (by decide))))))
  length_le := by decide

/-- It is accepted as if the number were one. -/
theorem not_strict_wideCommand :
    ∃ request, parseExecuteRequest wideCommand = .ok request ∧
      ¬ExecuteRequest.Strict wideCommand request := by
  have haccepted : (parseExecuteRequest wideCommand).isOk := by decide +kernel
  obtain ⟨request, hrequest⟩ := exists_eq_ok haccepted
  refine ⟨request, hrequest, ?_⟩
  rintro ⟨⟨rs, hsplits, hperm, -⟩, -⟩
  obtain ⟨r, hr, htag⟩ := hsplits.head_tag word_wideTag
  have hmem := hperm.mem_iff.mp (List.mem_map_of_mem hr)
  rw [Record.field, htag, List.mem_range'_1] at hmem
  exact absurd hmem.2 (by decide)

end MoSidecar
