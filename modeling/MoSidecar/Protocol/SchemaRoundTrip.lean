import MoSidecar.Protocol.ResultSchema
import MoSidecar.Protocol.RoundTrip

/-!
# Decoding a result schema undoes its encoding

A schema written as proto3 parses back to itself: each column a message of its fields in any order,
those of default value written or left out, a negative width or scale as the 64-bit number of its
sign extension, and the version anywhere among the columns.
-/

namespace MoSidecar

open Protobuf

/-! ## Signed numbers -/

/-- The number that stands for a signed one on the wire. -/
def signExtended (w : Int32) : UInt64 := w.toInt64.toUInt64

theorem toNat_signExtended (w : Int32) :
    (signExtended w).toNat
      = w.toUInt32.toNat + if 2 ^ 31 ≤ w.toUInt32.toNat then 2 ^ 64 - 2 ^ 32 else 0 := by
  have hlt := w.toUInt32.toNat_lt
  have hextend : (signExtended w).toNat = (w.toBitVec.signExtend 64).toNat := rfl
  have hbits : w.toBitVec.toNat = w.toUInt32.toNat := rfl
  rw [hextend, BitVec.toNat_signExtend, BitVec.msb_eq_decide, BitVec.toNat_setWidth, hbits,
    Nat.mod_eq_of_lt (by omega)]
  simp only [decide_eq_true_eq]

/-- A number in one of the two ranges is the sign extension of its low 32 bits. -/
theorem signExtended_toInt32 {v : UInt64} (h : v.toNat ≤ 2 ^ 31 - 1 ∨ 2 ^ 64 - 2 ^ 31 ≤ v.toNat) :
    signExtended v.toUInt32.toInt32 = v := by
  have hlow : v.toUInt32.toInt32.toUInt32.toNat = v.toNat % 2 ^ 32 := UInt64.toNat_toUInt32 v
  have hlt := v.toNat_lt
  rw [← UInt64.toNat_inj, toNat_signExtended, hlow]
  split_ifs <;> omega

theorem signExtended_injective : Function.Injective signExtended := by
  intro w w' h
  have hlow : ∀ w : Int32, (signExtended w).toUInt32.toInt32 = w := by
    intro w
    have hword : (signExtended w).toUInt32 = w.toUInt32 := by
      have hlt := w.toUInt32.toNat_lt
      rw [← UInt32.toNat_inj, UInt64.toNat_toUInt32, toNat_signExtended]
      split_ifs <;> omega
    rw [hword]
    exact w.toInt32_toUInt32
  rw [← hlow w, h, hlow]

theorem signExtended_range (w : Int32) :
    (signExtended w).toNat ≤ 2 ^ 31 - 1 ∨ 2 ^ 64 - 2 ^ 31 ≤ (signExtended w).toNat := by
  have hlt := w.toUInt32.toNat_lt
  rw [toNat_signExtended]
  split_ifs <;> omega

/-! ## Columns -/

namespace NativeResultColumn

/-- The value of a numbered field. -/
def field : ℕ → NativeResultColumn → Payload
  | 1, c => .bytes c.name
  | 2, c => .varint c.oid.toUInt64
  | 3, c => .varint (signExtended c.width)
  | 4, c => .varint (signExtended c.scale)
  | 5, c => .varint c.charset.toUInt64
  | 6, c => .varint c.notNullable.toUInt64
  | _, _ => .bytes []

theorem toUInt64_toUInt32 {v : UInt64} (h : v.toNat ≤ 2 ^ 32 - 1) : v.toUInt32.toUInt64 = v := by
  rw [← UInt64.toNat_inj, UInt32.toNat_toUInt64, UInt64.toNat_toUInt32]
  omega

theorem flag_toUInt64 {v : UInt64} (h : v.toNat ≤ 1) : (decide (v ≠ 0)).toUInt64 = v := by
  obtain rfl | rfl : v = 0 ∨ v = 1 := by
    rw [← UInt64.toNat_inj, ← UInt64.toNat_inj, UInt64.toNat_zero, UInt64.toNat_one]
    omega
  all_goals rfl

theorem lawful : message.Lawful field where
  field_store {k p m} hfits hk hle := by
    have hle : k ≤ 6 := hle
    have hfits : Fits k p := hfits
    interval_cases k
    · exact (Payload.eq_bytes hfits.1).symm
    all_goals
      have hp := Payload.eq_varint hfits.1
      have hrange := hfits.2
      rw [hp, Payload.size] at hrange
      refine Eq.trans ?_ hp.symm
    · exact congrArg Payload.varint (toUInt64_toUInt32 hrange)
    · exact congrArg Payload.varint (signExtended_toInt32 hrange)
    · exact congrArg Payload.varint (signExtended_toInt32 hrange)
    · exact congrArg Payload.varint (toUInt64_toUInt32 (Nat.le_trans hrange (by decide)))
    · exact congrArg Payload.varint (flag_toUInt64 hrange)
  field_store_of_ne {j k p m} h := by
    change field j (store k p m) = field j m
    unfold store
    split
    all_goals
      unfold field
      split <;> first | rfl | exact absurd rfl h

theorem eq_of_field_eq {c c' : NativeResultColumn}
    (h : ∀ k, 1 ≤ k → k ≤ 6 → field k c = field k c') : c = c' := by
  have hoid : c.oid = c'.oid :=
    UInt32.toUInt64_inj.mp (Payload.varint.inj (h 2 (by decide) (by decide)))
  have hcharset : c.charset = c'.charset :=
    UInt32.toUInt64_inj.mp (Payload.varint.inj (h 5 (by decide) (by decide)))
  have hnullable : c.notNullable = c'.notNullable := by
    have hflag := Payload.varint.inj (h 6 (by decide) (by decide))
    cases hc : c.notNullable <;> cases hc' : c'.notNullable <;> rw [hc, hc'] at hflag <;>
      first | rfl | exact absurd hflag (by decide)
  cases c
  cases c'
  rw [NativeResultColumn.mk.injEq]
  exact ⟨Payload.bytes.inj (h 1 (by decide) (by decide)), hoid,
    signExtended_injective (Payload.varint.inj (h 3 (by decide) (by decide))),
    signExtended_injective (Payload.varint.inj (h 4 (by decide) (by decide))), hcharset, hnullable⟩

/-- The records of a column: each field at most once, in any order, and none left out but of
default value. -/
def Written (c : NativeResultColumn) (rs : List Record) : Prop :=
  ∃ ks : List ℕ, ks.Nodup ∧ (∀ k ∈ ks, 1 ≤ k ∧ k ≤ 6) ∧
    (∀ k, 1 ≤ k → k ≤ 6 → (field k c).size ≠ 0 → k ∈ ks) ∧
      rs = ks.map fun k ↦ Record.of k (field k c)

/-- A column with an OID and a charset of one byte. -/
structure WithinLimits (c : NativeResultColumn) : Prop where
  oid_ne : c.oid ≠ 0
  charset_le : c.charset.toNat ≤ 255

theorem fits_field {c : NativeResultColumn} (h : c.WithinLimits)
    (hname : c.name.length ≤ kMaxNativeResultSchemaBytes) {k : ℕ} (hk : 1 ≤ k) (hle : k ≤ 6) :
    message.Fits k (field k c) := by
  change Fits k (field k c)
  interval_cases k
  · exact ⟨rfl, hname⟩
  · refine ⟨rfl, ?_⟩
    have := c.oid.toNat_lt
    rw [field, Payload.size, UInt32.toNat_toUInt64]
    omega
  · exact ⟨rfl, signExtended_range c.width⟩
  · exact ⟨rfl, signExtended_range c.scale⟩
  · refine ⟨rfl, ?_⟩
    rw [field, Payload.size, UInt32.toNat_toUInt64]
    exact h.charset_le
  · refine ⟨rfl, ?_⟩
    cases hn : c.notNullable <;> rw [field, hn] <;> decide

/-- A field left out reads as the value it has. -/
theorem field_default_eq {c : NativeResultColumn} {k : ℕ} (hk : 1 ≤ k) (hle : k ≤ 6)
    (h : (field k c).size = 0) : field k {} = field k c := by
  have hwire : (field k {}).wireType = (field k c).wireType := by interval_cases k <;> rfl
  have hdefault : (field k {}).size = 0 := by interval_cases k <;> rfl
  exact Payload.eq_of_size_eq_zero hwire hdefault h

theorem parse_of_written {c : NativeResultColumn} (h : c.WithinLimits) {rs : List Record}
    (hrs : c.Written rs) {bytes : Bytes} (hsplits : Splits bytes rs)
    (hsize : bytes.length ≤ kMaxNativeResultSchemaBytes) :
    parseNativeResultColumn bytes = .ok c := by
  obtain ⟨ks, hnodup, hbounds, hwritten, rfl⟩ := hrs
  -- A name is written, and then within the message, or it is empty.
  have hname : c.name.length ≤ kMaxNativeResultSchemaBytes := by
    by_cases hzero : c.name.length = 0
    · rw [hzero]
      exact Nat.zero_le _
    · have hmem := hwritten 1 (by decide) (by decide) hzero
      have hle := hsplits.length_contents_le _ (List.mem_map_of_mem hmem)
      exact Nat.le_trans hle hsize
  have hreads : message.Reads field c ks :=
    { key_of := fun k p hk hle ↦ by
        have hle : k ≤ 6 := hle
        have hfield := Record.field_of (k := k) (by omega) p
        exact (congrArg (· % 2 ^ 32) hfield).trans (Nat.mod_eq_of_lt (by omega))
      maximum_lt := by decide
      nodup := hnodup
      bounds := hbounds
      fits := fun k hk ↦ fits_field h hname (hbounds k hk).1 (hbounds k hk).2
      length_lt := fun k hk ↦ by
        have hle := hsplits.length_contents_le _ (List.mem_map_of_mem hk)
        exact Nat.lt_of_le_of_lt (Nat.le_trans hle hsize) (by decide) }
  have hrenders : message.Renders field {} c _ := hreads.renders fun k hk hle hmem ↦ by
    refine field_default_eq hk hle ?_
    by_contra hne
    exact hmem (hwritten k hk hle hne)
  have hoid : 2 ∈ ks := by
    refine hwritten 2 (by decide) (by decide) fun hzero ↦ h.oid_ne ?_
    rw [field, Payload.size, UInt32.toNat_toUInt64] at hzero
    exact UInt32.toNat_inj.mp hzero
  have hfill : message.fill (ks.map fun k ↦ Record.of k (field k c)) {} = c :=
    eq_of_field_eq fun k hk hle ↦ lawful.field_fill_of_renders hrenders hk hle
  refine parseNativeResultColumn_eq_ok.mpr ⟨_, hsplits, hrenders.takes, hrenders.nodup, ?_,
    hfill.symm, h.oid_ne⟩
  exact hreads.map_key.symm ▸ hoid

end NativeResultColumn

/-! ## Schemas -/

namespace NativeResultSchema

/-- A record that carries a column. -/
def Carries (r : Record) (c : NativeResultColumn) : Prop :=
  ∃ cs bytes, c.Written cs ∧ Splits bytes cs ∧ r = Record.of 2 (.bytes bytes)

/-- The records of a schema: its columns in order, and its version somewhere among them. -/
def Written (schema : NativeResultSchema) (rs : List Record) : Prop :=
  ∃ before after, rs = before ++ Record.of 1 (.varint schema.version.toUInt64) :: after ∧
    List.Forall₂ Carries (before ++ after) schema.columns

structure WithinLimits (schema : NativeResultSchema) : Prop where
  version_eq : schema.version = kNativeResultSchemaVersion
  columns_ne : schema.columns ≠ []
  columns_le : schema.columns.length ≤ kMaxNativeResultColumns
  columns : ∀ c ∈ schema.columns, c.WithinLimits

theorem fieldKey_of {k : ℕ} (hk : k < 2 ^ 32) (p : Payload) : fieldKey (.of k p) = k := by
  rw [fieldKey, Record.field_of hk, Nat.mod_eq_of_lt hk]

theorem fieldKey_of_carries {r : Record} {c : NativeResultColumn} (h : Carries r c) :
    fieldKey r = 2 := by
  obtain ⟨cs, bytes, -, -, rfl⟩ := h
  exact fieldKey_of (by decide) _

theorem isColumn_of_carries {r : Record} {c : NativeResultColumn} (h : Carries r c)
    (hlimits : c.WithinLimits) (hsize : r.payload.size ≤ kMaxNativeResultSchemaBytes) :
    IsColumn r c := by
  have hkey := fieldKey_of_carries h
  obtain ⟨cs, bytes, hwritten, hsplits, rfl⟩ := h
  exact ⟨hkey, rfl, hsize, NativeResultColumn.parse_of_written hlimits hwritten hsplits hsize⟩

theorem isColumn_of_forall {rs : List Record} {columns : List NativeResultColumn}
    (h : List.Forall₂ Carries rs columns) (hlimits : ∀ c ∈ columns, c.WithinLimits)
    (hsize : ∀ r ∈ rs, r.payload.contents.length ≤ kMaxNativeResultSchemaBytes) :
    List.Forall₂ IsColumn rs columns ∧ ∀ r ∈ rs, fieldKey r = 2 := by
  induction h with
  | nil => exact ⟨.nil, List.forall_mem_nil _⟩
  | @cons r c rs columns hr _ ih =>
    rw [List.forall_mem_cons] at hlimits hsize ⊢
    obtain ⟨hcolumns, hkeys⟩ := ih hlimits.2 hsize.2
    have hsize : r.payload.size ≤ kMaxNativeResultSchemaBytes := by
      obtain ⟨cs, bytes, -, -, rfl⟩ := hr
      exact hsize.1
    exact ⟨.cons (isColumn_of_carries hr hlimits.1 hsize) hcolumns, fieldKey_of_carries hr, hkeys⟩

theorem versions_append (rs rs' : List Record) :
    versions (rs ++ rs') = versions rs ++ versions rs' := List.filter_append _ _

theorem columnRecords_append (rs rs' : List Record) :
    columnRecords (rs ++ rs') = columnRecords rs ++ columnRecords rs' := List.filter_append _ _

theorem versions_of_columns {rs : List Record} (h : ∀ r ∈ rs, fieldKey r = 2) :
    versions rs = [] := by
  refine List.filter_eq_nil_iff.mpr fun r hr ↦ ?_
  rw [h r hr]
  decide

theorem columnRecords_of_columns {rs : List Record} (h : ∀ r ∈ rs, fieldKey r = 2) :
    columnRecords rs = rs := List.filter_eq_self.mpr fun r hr ↦ decide_eq_true (h r hr)

theorem parse_of_written {schema : NativeResultSchema} (h : schema.WithinLimits)
    {rs : List Record} (hrs : schema.Written rs) {bytes : Bytes} (hsplits : Splits bytes rs)
    (hsize : bytes.length ≤ kMaxNativeResultSchemaBytes) :
    parseNativeResultSchema bytes = .ok schema := by
  obtain ⟨before, after, rfl, hcarries⟩ := hrs
  obtain ⟨v, hv⟩ : ∃ v, v = Record.of 1 (.varint schema.version.toUInt64) := ⟨_, rfl⟩
  rw [← hv] at hsplits
  have hlengths := hsplits.length_contents_le
  obtain ⟨hcolumns, hkeys⟩ := isColumn_of_forall hcarries h.columns fun r hr ↦ by
    refine Nat.le_trans (hlengths r ?_) hsize
    rw [List.mem_append] at hr
    rw [List.mem_append, List.mem_cons]
    exact hr.imp_right .inr
  have hbefore : ∀ r ∈ before, fieldKey r = 2 := fun r hr ↦ hkeys r (List.mem_append_left _ hr)
  have hafter : ∀ r ∈ after, fieldKey r = 2 := fun r hr ↦ hkeys r (List.mem_append_right _ hr)
  have hversion : IsVersion v := by
    rw [hv, h.version_eq]
    exact ⟨fieldKey_of (by decide) _, rfl, by decide⟩
  refine parseNativeResultSchema_eq_ok.mpr ⟨⟨?_, hsize⟩, _, v, hsplits, ?_, ?_, ?_, ?_,
    h.columns_ne, h.columns_le, h.version_eq⟩
  · rintro rfl
    have hnil := Splits.nil.functional hsplits
    exact absurd hnil.symm (List.append_ne_nil_of_right_ne_nil _ (List.cons_ne_nil _ _))
  · intro r hr
    rcases List.mem_append.mp hr with hr | hr
    · exact .inr (hbefore r hr)
    · rcases List.mem_cons.mp hr with rfl | hr
      · exact .inl hversion
      · exact .inr (hafter r hr)
  · rw [versions_append, versions_of_columns hbefore, versions_cons_of_version hversion.key_eq,
      versions_of_columns hafter]
    rfl
  · rw [hv, h.version_eq]
    rfl
  · rw [columnRecords_append, columnRecords_of_columns hbefore,
      columnRecords_cons_of_version hversion.key_eq, columnRecords_of_columns hafter]
    exact hcolumns

end NativeResultSchema

/-- A schema within the limits parses back from its proto3 encodings of at most one mebibyte. -/
theorem schema_round_trip (schema : NativeResultSchema) (rs : List Record) (bytes : Bytes)
    (h : schema.WithinLimits) (hrs : schema.Written rs) (hsplits : Splits bytes rs)
    (hsize : bytes.length ≤ kMaxNativeResultSchemaBytes) :
    parseNativeResultSchema bytes = .ok schema :=
  NativeResultSchema.parse_of_written h hrs hsplits hsize

/-- The records of a column of width `-1`, its OID last and all else left out. -/
def negativeColumn : List Record :=
  [.of 3 (.varint (signExtended (-1))), .of 2 (.varint 23)]

/-- The column before the version. -/
def negativeSchema : List Record := [.of 2 (.bytes (encodeAll negativeColumn)), .of 1 (.varint 1)]

theorem schema_round_trip_negative :
    parseNativeResultSchema (encodeAll negativeSchema) = .ok ⟨1, [{ oid := 23, width := -1 }]⟩ := by
  have hcolumn : Splits (encodeAll negativeColumn) negativeColumn := splits_encodeAll (by decide)
  have hschema : Splits (encodeAll negativeSchema) negativeSchema :=
    splits_encodeAll (by decide +kernel)
  refine schema_round_trip ⟨1, [{ oid := 23, width := -1 }]⟩ negativeSchema _ ?_ ?_ hschema
    (by decide +kernel)
  · exact ⟨rfl, List.cons_ne_nil _ _, by decide, fun c hc ↦ by
      obtain rfl := List.mem_singleton.mp hc
      exact ⟨by decide, by decide⟩⟩
  · refine ⟨[.of 2 (.bytes (encodeAll negativeColumn))], [], rfl, .cons ?_ .nil⟩
    refine ⟨negativeColumn, _, ⟨[3, 2], by decide, by decide, ?_, rfl⟩, hcolumn, rfl⟩
    intro k hk hle hsize
    interval_cases k <;> first | decide | exact absurd rfl hsize

end MoSidecar
