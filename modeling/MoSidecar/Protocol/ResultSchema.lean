import MoSidecar.Protocol.Envelopes

/-!
# The schema of native results

`parse_native_result_schema`: a message of a version and repeated columns, each column a message of
its own inside a byte string. The columns are read by the loop of `Envelopes`; the outer loop keeps
no marks, so its rounds are stated here: a record of field one the first time, or a column while
there is room for it.
-/

namespace MoSidecar

open Protobuf

def kNativeResultSchemaVersion : UInt32 := 1
def kMaxNativeResultColumns : ℕ := 4096

/-! ## Columns -/

/-- `native_result_column`. -/
structure NativeResultColumn where
  name : Bytes := []
  oid : UInt32 := 0
  width : Int32 := 0
  scale : Int32 := 0
  charset : UInt32 := 0
  notNullable : Bool := false
  deriving DecidableEq

/-- `native_result_schema`. -/
structure NativeResultSchema where
  version : UInt32 := 0
  columns : List NativeResultColumn := []
  deriving DecidableEq

/-- A number that is not the sign extension of a 32-bit one. -/
def OverflowsInt32 (value : UInt64) : Prop :=
  value.toNat > 2 ^ 31 - 1 ∧ value.toNat < 2 ^ 64 - 2 ^ 31

instance : DecidablePred OverflowsInt32 := fun _ ↦ inferInstanceAs (Decidable (_ ∧ _))

/-- The wire type a field of a column must have. -/
def columnWireType (field : UInt32) : UInt32 := if field = 1 then 2 else 0

/-- The value of one field, stored into the column; the rest of the input. -/
def parseColumnField (field : ℕ) (input : Bytes) (result : NativeResultColumn) :
    Except String (Bytes × NativeResultColumn) :=
  match field with
  | 1 => do
    let (value, rest) ← wireBytes kMaxNativeResultSchemaBytes input
    .ok (rest, { result with name := value })
  | 2 => do
    let (value, rest) ← varint input
    if value.toNat > 2 ^ 32 - 1 then .error "native result OID overflows uint32"
    else .ok (rest, { result with oid := value.toUInt32 })
  | 3 => do
    let (value, rest) ← varint input
    if OverflowsInt32 value then .error "native result width or scale overflows int32"
    else .ok (rest, { result with width := value.toUInt32.toInt32 })
  | 4 => do
    let (value, rest) ← varint input
    if OverflowsInt32 value then .error "native result width or scale overflows int32"
    else .ok (rest, { result with scale := value.toUInt32.toInt32 })
  | 5 => do
    let (value, rest) ← varint input
    if value.toNat > 2 ^ 8 - 1 then .error "native result charset overflows uint8"
    else .ok (rest, { result with charset := value.toUInt32 })
  | 6 => do
    let (value, rest) ← varint input
    if value.toNat > 1 then .error "native result nullability is invalid"
    else .ok (rest, { result with notNullable := value ≠ 0 })
  | _ => .error "unknown native result column field"

/-- One round of the loop of `parse_column`. -/
def parseColumnRecord : Bytes → UInt64 × NativeResultColumn →
    Except String (Bytes × UInt64 × NativeResultColumn) :=
  parseRecord 6 columnWireType "native result column has the wrong wire type"
    (fun tag ↦ (tag >>> 3).toUInt32.toNat) parseColumnField

/-- `parse_column`. -/
def parseNativeResultColumn (bytes : Bytes) : Except String NativeResultColumn := do
  let (seen, result) ← readRounds parseColumnRecord "unconsumed native result column"
    bytes.length bytes (0, {})
  if seen &&& ((1 : UInt64) <<< 1) = 0 ∨ result.oid = 0 then
    .error "native result column is missing its OID"
  else .ok result

namespace NativeResultColumn

/-- The payloads a field takes. -/
def Fits : ℕ → Payload → Prop
  | 1, p => p.wireType = 2 ∧ p.size ≤ kMaxNativeResultSchemaBytes
  | 2, p => p.wireType = 0 ∧ p.size ≤ 2 ^ 32 - 1
  | 3, p | 4, p => p.wireType = 0 ∧ (p.size ≤ 2 ^ 31 - 1 ∨ 2 ^ 64 - 2 ^ 31 ≤ p.size)
  | 5, p => p.wireType = 0 ∧ p.size ≤ 2 ^ 8 - 1
  | 6, p => p.wireType = 0 ∧ p.size ≤ 1
  | _, _ => False

def store : ℕ → Payload → NativeResultColumn → NativeResultColumn
  | 1, p, c => { c with name := p.contents }
  | 2, p, c => { c with oid := p.value.toUInt32 }
  | 3, p, c => { c with width := p.value.toUInt32.toInt32 }
  | 4, p, c => { c with scale := p.value.toUInt32.toInt32 }
  | 5, p, c => { c with charset := p.value.toUInt32 }
  | 6, p, c => { c with notNullable := p.value ≠ 0 }
  | _, _, c => c

def message : Message NativeResultColumn where
  key := fieldKey
  maximum := 6
  maximum_le := by decide
  Fits := Fits
  store := store

theorem parseColumnField_unknown {k : ℕ} {input rest : Bytes} {m m' : NativeResultColumn}
    (h : parseColumnField k input m = .ok (rest, m')) : 1 ≤ k ∧ k ≤ 6 := by
  by_contra hk
  rw [not_and_or, Nat.not_le, Nat.not_le] at hk
  rw [parseColumnField] at h
  · cases h
  all_goals omega

theorem parseColumnField_eq_ok {k : ℕ} (hk : 1 ≤ k) (hle : k ≤ 6) {input rest : Bytes}
    {m m' : NativeResultColumn} :
    parseColumnField k input m = .ok (rest, m') ↔
      ∃ (bs : Bytes) (p : Payload), p.Encodes bs ∧ message.Fits k p ∧ input = bs ++ rest ∧
        m' = store k p m := by
  have hsigned (v : UInt64) : ((Payload.varint v).size ≤ 2 ^ 31 - 1 ∨
      2 ^ 64 - 2 ^ 31 ≤ (Payload.varint v).size) ↔ ¬OverflowsInt32 v := by
    rw [OverflowsInt32, not_and_or, Nat.not_lt, Nat.not_lt, Payload.size]
  interval_cases k
  · exact readBytes_eq_ok (f := fun b ↦ { m with name := b })
  · exact readBelow_eq_ok (f := fun v ↦ { m with oid := v.toUInt32 })
  · exact readRanged_eq_ok (f := fun v ↦ { m with width := v.toUInt32.toInt32 })
      (R := fun p ↦ p.size ≤ 2 ^ 31 - 1 ∨ 2 ^ 64 - 2 ^ 31 ≤ p.size) hsigned
  · exact readRanged_eq_ok (f := fun v ↦ { m with scale := v.toUInt32.toInt32 })
      (R := fun p ↦ p.size ≤ 2 ^ 31 - 1 ∨ 2 ^ 64 - 2 ^ 31 ≤ p.size) hsigned
  · exact readBelow_eq_ok (f := fun v ↦ { m with charset := v.toUInt32 })
  · exact readBelow_eq_ok (f := fun v ↦ { m with notNullable := v ≠ 0 })

theorem parses : Parses message 6 columnWireType (fun tag ↦ (tag >>> 3).toUInt32.toNat)
    parseColumnField where
  maximum_eq := rfl
  number_eq r := fieldKey_eq r
  key_eq _ _ _ := rfl
  wireType_eq f p h := by
    have hone : f = 1 ↔ f.toNat = 1 := by rw [← UInt32.toNat_inj, UInt32.toNat_one]
    have h : Fits f.toNat p := h
    rw [columnWireType]
    unfold Fits at h
    split at h
    · rw [if_pos (hone.mpr ‹_›), h.1]
      rfl
    all_goals first | exact h.elim | skip
    all_goals
      rw [if_neg fun hf ↦ ?_, h.1]
      · rfl
      · rw [hone] at hf
        omega
  parseField_unknown := parseColumnField_unknown
  parseField_eq_ok := parseColumnField_eq_ok

/-- What `parse_column` accepts, and what it answers. -/
theorem parseNativeResultColumn_eq_ok {bytes : Bytes} {column : NativeResultColumn} :
    parseNativeResultColumn bytes = .ok column ↔
      ∃ rs, Splits bytes rs ∧ (∀ r ∈ rs, message.Takes r) ∧ (rs.map fieldKey).Nodup ∧
        2 ∈ rs.map fieldKey ∧ column = message.fill rs {} ∧ column.oid ≠ 0 := by
  have hoid {rs : List Record} (hrs : ∀ r ∈ rs, message.Takes r) :
      message.marks rs 0 &&& ((1 : UInt64) <<< 1) ≠ 0 ↔ 2 ∈ rs.map fieldKey := by
    have hmarked := message.marked_marks hrs 0 (j := 2) (by decide)
    rw [or_iff_right (not_marked_zero 2)] at hmarked
    exact (and_mask_ne_zero _ (k := 2) (by decide) (by decide)).trans hmarked
  rw [parseNativeResultColumn, bind_eq_ok]
  constructor
  · rintro ⟨⟨seen, result⟩, hread, h⟩
    obtain ⟨rs, hsplits, hrs, hnodup, hout⟩ := (parseRecords_eq_ok parses).mp hread
    obtain ⟨rfl, rfl⟩ := Prod.mk.inj hout
    simp only at h
    split_ifs at h with hmissing
    rw [not_or] at hmissing
    obtain rfl := Except.ok.inj h
    exact ⟨rs, hsplits, hrs, hnodup, (hoid hrs).mp hmissing.1, rfl, hmissing.2⟩
  · rintro ⟨rs, hsplits, hrs, hnodup, htwo, rfl, hne⟩
    refine ⟨_, (parseRecords_eq_ok parses).mpr ⟨rs, hsplits, hrs, hnodup, rfl⟩, ?_⟩
    simp only
    rw [if_neg]
    rw [not_or]
    exact ⟨(hoid hrs).mpr htwo, hne⟩

end NativeResultColumn

/-! ## The schema -/

/-- One round of the loop of `parse_native_result_schema`. -/
def parseSchemaRecord (input : Bytes) (s : Bool × NativeResultSchema) :
    Except String (Bytes × Bool × NativeResultSchema) := do
  let (tag, rest) ← varint input
  let field := (tag >>> 3).toUInt32
  let wire := (tag &&& 7).toUInt32
  if field = 1 then
    if s.1 ∨ wire ≠ 0 then .error "native result schema version is duplicated or malformed"
    else do
      let (value, rest) ← varint rest
      if value.toNat > 2 ^ 32 - 1 then .error "native result schema version overflows uint32"
      else .ok (rest, true, { s.2 with version := value.toUInt32 })
  else if field = 2 then
    if wire ≠ 2 ∨ s.2.columns.length ≥ kMaxNativeResultColumns then
      .error "native result schema columns are malformed or excessive"
    else do
      let (value, rest) ← wireBytes kMaxNativeResultSchemaBytes rest
      let column ← parseNativeResultColumn value
      .ok (rest, s.1, { s.2 with columns := s.2.columns ++ [column] })
  else .error "unknown native result schema field"

/-- `parse_native_result_schema`. -/
def parseNativeResultSchema (bytes : Bytes) : Except String NativeResultSchema :=
  if bytes.isEmpty ∨ bytes.length > kMaxNativeResultSchemaBytes then
    .error "native result schema is empty or too large"
  else do
    let (seenVersion, result) ← readRounds parseSchemaRecord "unconsumed native result schema"
      bytes.length bytes (false, {})
    if !seenVersion ∨ result.version ≠ kNativeResultSchemaVersion ∨ result.columns.isEmpty then
      .error "native result schema is incomplete or unsupported"
    else .ok result

namespace NativeResultSchema

/-- A record that gives the version. -/
structure IsVersion (r : Record) : Prop where
  key_eq : fieldKey r = 1
  wireType_eq : r.payload.wireType = 0
  size_le : r.payload.size ≤ 2 ^ 32 - 1

/-- A record that gives a column. -/
structure IsColumn (r : Record) (column : NativeResultColumn) : Prop where
  key_eq : fieldKey r = 2
  wireType_eq : r.payload.wireType = 2
  size_le : r.payload.size ≤ kMaxNativeResultSchemaBytes
  parse_eq : parseNativeResultColumn r.payload.contents = .ok column

/-- What a round does with a record. -/
inductive Step : Record → Bool × NativeResultSchema → Bool × NativeResultSchema → Prop
  | version {r : Record} {m : NativeResultSchema} (h : IsVersion r) :
      Step r (false, m) (true, { m with version := r.payload.value.toUInt32 })
  | column {r : Record} {seen : Bool} {m : NativeResultSchema} {column : NativeResultColumn}
      (h : IsColumn r column) (hroom : m.columns.length < kMaxNativeResultColumns) :
      Step r (seen, m) (seen, { m with columns := m.columns ++ [column] })

theorem parseSchemaRecord_readsBy : ReadsBy parseSchemaRecord Step := by
  rintro input ⟨seen, m⟩ rest t
  rw [parseSchemaRecord, bind_eq_ok]
  constructor
  · rintro ⟨⟨tag, afterTag⟩, htag, h⟩
    obtain ⟨ts, hword, rfl⟩ := varint_eq_ok.mp htag
    have hkey (p : Payload) {k : UInt32} (hk : (tag >>> 3).toUInt32 = k) :
        fieldKey ⟨tag, p⟩ = k.toNat := by
      rw [← fieldKey_eq ⟨tag, p⟩, hk]
    have hwire (p : Payload) {w : UInt32} (hw : (tag &&& 7).toUInt32 = w) :
        Record.wireType ⟨tag, p⟩ = w.toNat := by
      rw [← wireType_eq ⟨tag, p⟩, hw]
    simp only at h
    split_ifs at h with hone hbad htwo hbad
    · obtain ⟨⟨value, tail⟩, hvalue, hout⟩ := bind_eq_ok.mp h
      obtain ⟨vs, hvs, rfl⟩ := varint_eq_ok.mp hvalue
      simp only at hout
      split_ifs at hout with hbig
      rw [not_or, not_not, Bool.not_eq_true] at hbad
      obtain ⟨rfl, hbad⟩ := hbad
      obtain ⟨rfl, rfl⟩ := Prod.mk.inj (Except.ok.inj hout)
      refine ⟨ts ++ vs, ⟨tag, .varint value⟩, ⟨hwire _ hbad, ts, vs, hword, .varint hvs, rfl⟩,
        (List.append_assoc _ _ _).symm, .version ⟨hkey _ hone, rfl, Nat.not_lt.mp hbig⟩⟩
    · obtain ⟨⟨value, tail⟩, hvalue, hrest⟩ := bind_eq_ok.mp h
      obtain ⟨column, hcolumn, hout⟩ := bind_eq_ok.mp hrest
      obtain ⟨vs, hvs, hle, rfl⟩ := wireBytes_eq_ok.mp hvalue
      rw [not_or, not_not, ge_iff_le, Nat.not_le] at hbad
      obtain ⟨rfl, rfl⟩ := Prod.mk.inj (Except.ok.inj hout)
      refine ⟨ts ++ vs, ⟨tag, .bytes value⟩, ⟨hwire _ hbad.1, ts, vs, hword, hvs, rfl⟩,
        (List.append_assoc _ _ _).symm, .column ⟨hkey _ htwo, rfl, hle, hcolumn⟩ hbad.2⟩
  · rintro ⟨bs, r, ⟨hwire, ts, ps, hword, hp, rfl⟩, rfl, hstep⟩
    refine ⟨(r.tag, ps ++ rest), varint_eq_ok.mpr ⟨ts, hword, List.append_assoc _ _ _⟩, ?_⟩
    have hfield {k : UInt32} (hk : fieldKey r = k.toNat) : (r.tag >>> 3).toUInt32 = k := by
      rw [← UInt32.toNat_inj, fieldKey_eq, hk]
    have hwire' {w : UInt32} (hw : r.payload.wireType = w.toNat) : (r.tag &&& 7).toUInt32 = w := by
      rw [← UInt32.toNat_inj, wireType_eq, hwire, hw]
    cases hstep with
    | version h =>
      rw [Payload.eq_varint h.wireType_eq] at hp
      cases hp with
      | varint hvs =>
        have hsize := h.size_le
        rw [Payload.eq_varint h.wireType_eq, Payload.size] at hsize
        simp only
        rw [if_pos (hfield (k := 1) h.key_eq), if_neg, bind_eq_ok]
        · exact ⟨(r.payload.value, rest), varint_eq_ok.mpr ⟨ps, hvs, rfl⟩,
            if_neg (Nat.not_lt.mpr hsize)⟩
        · rw [not_or, not_not]
          exact ⟨Bool.false_ne_true, hwire' (w := 0) h.wireType_eq⟩
    | @column _ _ column h hroom =>
      have htwo := hfield (k := 2) h.key_eq
      have hsize := h.size_le
      rw [Payload.eq_bytes h.wireType_eq] at hp hsize
      simp only
      rw [if_neg (by rw [htwo]; decide), if_pos htwo, if_neg, bind_eq_ok]
      · refine ⟨(r.payload.contents, rest), wireBytes_eq_ok.mpr ⟨ps, hp, hsize, rfl⟩, ?_⟩
        exact bind_eq_ok.mpr ⟨column, h.parse_eq, rfl⟩
      · rw [not_or, not_not, ge_iff_le, Nat.not_le]
        exact ⟨hwire' (w := 2) h.wireType_eq, hroom⟩

/-- The records of a message that give its version. -/
def versions (rs : List Record) : List Record := rs.filter (fieldKey · = 1)

/-- The records of a message that give its columns. -/
def columnRecords (rs : List Record) : List Record := rs.filter (fieldKey · = 2)

theorem versions_cons_of_version {r : Record} (h : fieldKey r = 1) (rs : List Record) :
    versions (r :: rs) = r :: versions rs := List.filter_cons_of_pos (by simp [h])

theorem versions_cons_of_column {r : Record} (h : fieldKey r = 2) (rs : List Record) :
    versions (r :: rs) = versions rs := List.filter_cons_of_neg (by simp [h])

theorem columnRecords_cons_of_version {r : Record} (h : fieldKey r = 1) (rs : List Record) :
    columnRecords (r :: rs) = columnRecords rs := List.filter_cons_of_neg (by simp [h])

theorem columnRecords_cons_of_column {r : Record} (h : fieldKey r = 2) (rs : List Record) :
    columnRecords (r :: rs) = r :: columnRecords rs := List.filter_cons_of_pos (by simp [h])

theorem exists_column {rs : List Record} {columns : List NativeResultColumn}
    (h : List.Forall₂ IsColumn rs columns) {r : Record} (hr : r ∈ rs) :
    ∃ column, IsColumn r column := by
  induction h with
  | nil => exact absurd hr List.not_mem_nil
  | cons hcolumn _ ih =>
    rcases List.mem_cons.mp hr with rfl | hr
    · exact ⟨_, hcolumn⟩
    · exact ih hr

/-- What a run of the loop has read: only versions and columns, at most one version, and a column
for each column record, in the order of the records. -/
theorem runs_iff {rs : List Record} {seen : Bool} {m : NativeResultSchema}
    {t : Bool × NativeResultSchema} :
    Runs Step rs (seen, m) t ↔ (∀ r ∈ rs, IsVersion r ∨ fieldKey r = 2) ∧
      (versions rs).length + seen.toNat ≤ 1 ∧
        ∃ columns, List.Forall₂ IsColumn (columnRecords rs) columns ∧
          m.columns.length + columns.length ≤ max m.columns.length kMaxNativeResultColumns ∧
            t = (seen || !(versions rs).isEmpty,
              ⟨(versions rs).foldl (fun _ r ↦ r.payload.value.toUInt32) m.version,
                m.columns ++ columns⟩) := by
  induction rs generalizing seen m with
  | nil =>
    constructor
    · intro h
      cases h
      refine ⟨List.forall_mem_nil _, ?_, [], .nil, by simp, by simp [versions]⟩
      rw [versions, List.filter_nil, List.length_nil, Nat.zero_add]
      exact seen.toNat_le
    · rintro ⟨-, -, columns, hcolumns, -, rfl⟩
      cases hcolumns
      rw [List.append_nil]
      simp only [versions, List.filter_nil, List.isEmpty_nil, Bool.not_true, Bool.or_false,
        List.foldl_nil]
      exact .nil
  | cons r rs ih =>
    rw [List.forall_mem_cons]
    constructor
    · intro h
      cases h with
      | cons hstep hrest =>
        cases hstep with
        | version h =>
          -- the version: none has been seen, and none follows
          obtain ⟨hkeys, hone, columns, hcolumns, hroom, rfl⟩ := ih.mp hrest
          have hnil : versions rs = [] := by
            rw [Bool.toNat_true] at hone
            exact List.length_eq_zero_iff.mp (by omega)
          rw [versions_cons_of_version h.key_eq, columnRecords_cons_of_version h.key_eq, hnil]
          exact ⟨⟨.inl h, hkeys⟩, le_rfl, columns, hcolumns, hroom, rfl⟩
        | @column _ _ column h hlt =>
          -- a column: it goes behind those that were read, if there is room
          obtain ⟨hkeys, hone, columns, hcolumns, hroom, rfl⟩ := ih.mp hrest
          rw [versions_cons_of_column h.key_eq, columnRecords_cons_of_column h.key_eq]
          rw [List.length_append, List.length_singleton] at hroom
          refine ⟨⟨.inr h.key_eq, hkeys⟩, hone, column :: columns, .cons h hcolumns, ?_, ?_⟩
          · rw [List.length_cons]
            omega
          · rw [List.append_assoc, List.singleton_append]
    · rintro ⟨⟨hr, hkeys⟩, hone, columns, hcolumns, hroom, rfl⟩
      rcases hr with hr | hr
      · rw [versions_cons_of_version hr.key_eq, List.length_cons] at hone
        rw [columnRecords_cons_of_version hr.key_eq] at hcolumns
        have hnil : versions rs = [] := List.length_eq_zero_iff.mp (by omega)
        obtain rfl : seen = false := by
          cases seen with
          | false => rfl
          | true =>
            rw [Bool.toNat_true] at hone
            omega
        refine .cons (.version hr) (ih.mpr ⟨hkeys, ?_, columns, hcolumns, hroom, ?_⟩)
        · rw [hnil]
          rfl
        · rw [versions_cons_of_version hr.key_eq, hnil]
          rfl
      · rw [versions_cons_of_column hr] at hone
        rw [columnRecords_cons_of_column hr] at hcolumns
        cases hcolumns with
        | @cons _ column _ columns hcolumn hcolumns =>
          rw [List.length_cons] at hroom
          refine .cons (.column hcolumn (by omega))
            (ih.mpr ⟨hkeys, hone, columns, hcolumns, ?_, ?_⟩)
          · rw [List.length_append, List.length_singleton]
            omega
          · rw [versions_cons_of_column hr, List.append_assoc, List.singleton_append]

/-- What `parse_native_result_schema` accepts, and what it answers. -/
theorem parseNativeResultSchema_eq_ok {bytes : Bytes} {schema : NativeResultSchema} :
    parseNativeResultSchema bytes = .ok schema ↔
      (bytes ≠ [] ∧ bytes.length ≤ kMaxNativeResultSchemaBytes) ∧
        ∃ rs v, Splits bytes rs ∧ (∀ r ∈ rs, IsVersion r ∨ fieldKey r = 2) ∧ versions rs = [v] ∧
          v.payload.value.toUInt32 = kNativeResultSchemaVersion ∧
            List.Forall₂ IsColumn (columnRecords rs) schema.columns ∧ schema.columns ≠ [] ∧
              schema.columns.length ≤ kMaxNativeResultColumns ∧
                schema.version = kNativeResultSchemaVersion := by
  rw [parseNativeResultSchema]
  split_ifs with hsize
  · constructor
    · intro h
      cases h
    · rintro ⟨⟨hne, hle⟩, -⟩
      rcases hsize with hsize | hsize
      · exact absurd (List.isEmpty_iff.mp hsize) hne
      · omega
  · rw [not_or, List.isEmpty_iff, Nat.not_lt] at hsize
    rw [and_iff_right hsize, bind_eq_ok]
    constructor
    · rintro ⟨⟨seen, result⟩, hread, h⟩
      obtain ⟨rs, hsplits, hruns⟩ := (readRounds_eq_ok parseSchemaRecord_readsBy le_rfl).mp hread
      obtain ⟨hkeys, hone, columns, hcolumns, hroom, hout⟩ := runs_iff.mp hruns
      obtain ⟨rfl, rfl⟩ := Prod.mk.inj hout
      simp only [Bool.false_or, Bool.not_not, List.nil_append] at h
      split_ifs at h with hmissing
      obtain rfl := Except.ok.inj h
      rw [not_or, not_or, not_not, List.isEmpty_iff, List.isEmpty_iff] at hmissing
      obtain ⟨hversions, hversion, hne⟩ := hmissing
      -- One version at most, and some version: just one.
      obtain ⟨v, hv⟩ : ∃ v, versions rs = [v] := by
        have hpos := List.length_pos_iff.mpr hversions
        exact List.length_eq_one_iff.mp (Nat.le_antisymm hone hpos)
      rw [hv, List.foldl_cons, List.foldl_nil] at hversion ⊢
      refine ⟨rs, v, hsplits, hkeys, hv, hversion, hcolumns, hne, ?_, hversion⟩
      simpa using hroom
    · rintro ⟨rs, v, hsplits, hkeys, hv, hvalue, hcolumns, hne, hroom, hversion⟩
      obtain ⟨version, columns⟩ := schema
      have hruns : Runs Step rs (false, {}) (true, ⟨version, columns⟩) := by
        refine runs_iff.mpr ⟨hkeys, ?_, columns, hcolumns, ?_, ?_⟩
        · rw [hv]
          rfl
        · simpa using hroom
        · rw [hv, List.foldl_cons, List.foldl_nil, hvalue, ← hversion]
          rfl
      refine ⟨_, (readRounds_eq_ok parseSchemaRecord_readsBy le_rfl).mpr ⟨rs, hsplits, hruns⟩, ?_⟩
      simp only
      rw [if_neg]
      rw [not_or, not_or, not_not, List.isEmpty_iff]
      exact ⟨by decide, hversion, hne⟩

end NativeResultSchema

end MoSidecar
