import MoSidecar.Protocol.Reader

/-!
# Messages read field by field

The loops of `protocol.cpp` that take a tag, mark its field, check the wire type and store a value
are one loop, with the fields of the message as its parameters. Its rounds take records
(`parseRecord_readsBy`), so a message that is accepted is a list of records, one for each field, and
the value returned holds their payloads.

`ResolveTaeRead` looks at all the bits of a field number when it stores the value, the other
messages at the 32 that `expect_field` has checked: that difference is the parameter `number`.
-/

namespace MoSidecar

open Protobuf

/-! ## One round -/

section Round

variable {M : Type}

/-- One round of such a loop. -/
def parseRecord (maximum : UInt32) (wireType : UInt32 → UInt32) (wrongWire : String)
    (number : UInt64 → ℕ) (parseField : ℕ → Bytes → M → Except String (Bytes × M))
    (input : Bytes) (s : UInt64 × M) : Except String (Bytes × UInt64 × M) := do
  let (tag, rest) ← varint input
  let seen ← expectField tag maximum s.1
  if (tag &&& 7).toUInt32 ≠ wireType (tag >>> 3).toUInt32 then .error wrongWire
  else do
    let (rest, result) ← parseField (number tag) rest s.2
    .ok (rest, seen, result)

/-- What the pieces of a round have to do with the message they read. -/
structure Parses (T : Message M) (maximum : UInt32) (wireType : UInt32 → UInt32)
    (number : UInt64 → ℕ) (parseField : ℕ → Bytes → M → Except String (Bytes × M)) : Prop where
  maximum_eq : maximum.toNat = T.maximum
  number_eq : ∀ r : Record, number r.tag = T.key r
  key_eq : ∀ r : Record, 1 ≤ T.key r → T.key r ≤ T.maximum → fieldKey r = T.key r
  wireType_eq : ∀ (f : UInt32) (p : Payload), T.Fits f.toNat p → (wireType f).toNat = p.wireType
  parseField_unknown : ∀ {k : ℕ} {input rest : Bytes} {m m' : M},
    parseField k input m = .ok (rest, m') → 1 ≤ k ∧ k ≤ T.maximum
  parseField_eq_ok : ∀ {k : ℕ}, 1 ≤ k → k ≤ T.maximum → ∀ {input rest : Bytes} {m m' : M},
    parseField k input m = .ok (rest, m') ↔
      ∃ bs p, p.Encodes bs ∧ T.Fits k p ∧ input = bs ++ rest ∧ m' = T.store k p m

theorem parseRecord_readsBy {T : Message M} {maximum : UInt32} {wireType : UInt32 → UInt32}
    {wrongWire : String} {number : UInt64 → ℕ}
    {parseField : ℕ → Bytes → M → Except String (Bytes × M)}
    (h : Parses T maximum wireType number parseField) :
    ReadsBy (parseRecord maximum wireType wrongWire number parseField) T.step := by
  have hmaximum : maximum.toNat ≤ 64 := h.maximum_eq ▸ T.maximum_le
  intro input s rest t
  rw [parseRecord, bind_eq_ok]
  constructor
  · rintro ⟨⟨tag, afterTag⟩, htag, hout⟩
    obtain ⟨ts, hword, rfl⟩ := varint_eq_ok.mp htag
    obtain ⟨seen, hseen, hout⟩ := bind_eq_ok.mp hout
    simp only at hout
    split_ifs at hout with hwire
    obtain ⟨⟨afterField, m⟩, hfield, hout⟩ := bind_eq_ok.mp hout
    obtain ⟨rfl, rfl⟩ := Prod.mk.inj (Except.ok.inj hout)
    obtain ⟨hpos, hle⟩ := h.parseField_unknown hfield
    obtain ⟨ps, p, hp, hfits, rfl, rfl⟩ := (h.parseField_eq_ok hpos hle).mp hfield
    have hnumber := h.number_eq ⟨tag, p⟩
    simp only at hnumber
    rw [hnumber] at hpos hle hfits
    have hkey := h.key_eq ⟨tag, p⟩ hpos hle
    obtain ⟨-, -, hnew, rfl⟩ := (expectField_eq_ok (r := ⟨tag, p⟩) hmaximum).mp hseen
    rw [hkey] at hnew
    refine ⟨ts ++ ps, ⟨tag, p⟩, ⟨?_, ts, ps, hword, hp, rfl⟩, ?_, ⟨hpos, hle, hfits⟩, hnew, ?_⟩
    · have hfits' : T.Fits (tag >>> 3).toUInt32.toNat p := by
        rw [fieldKey_eq ⟨tag, p⟩, hkey]
        exact hfits
      rw [← h.wireType_eq _ _ hfits', ← not_not.mp hwire, wireType_eq ⟨tag, p⟩]
    · rw [List.append_assoc]
    · rw [hkey, hnumber]
  · rintro ⟨bs, r, ⟨hwire, ts, ps, hword, hp, rfl⟩, rfl, hr, hnew, rfl⟩
    have hkey := h.key_eq r hr.pos hr.le
    have hfits : T.Fits (r.tag >>> 3).toUInt32.toNat r.payload := by
      rw [fieldKey_eq, hkey]
      exact hr.fits
    refine ⟨(r.tag, ps ++ rest), varint_eq_ok.mpr ⟨ts, hword, List.append_assoc _ _ _⟩, ?_⟩
    refine bind_eq_ok.mpr ⟨markField s.1 (T.key r), ?_, ?_⟩
    · rw [expectField_eq_ok hmaximum, hkey, h.maximum_eq]
      exact ⟨hr.pos, hr.le, hnew, rfl⟩
    · simp only
      rw [if_neg, bind_eq_ok]
      · refine ⟨(rest, T.store (T.key r) r.payload s.2), ?_, rfl⟩
        rw [h.number_eq]
        exact (h.parseField_eq_ok hr.pos hr.le).mpr ⟨ps, r.payload, hp, hr.fits, rfl, rfl⟩
      · rw [not_not, ← UInt32.toNat_inj, wireType_eq, h.wireType_eq _ _ hfits, hwire]

/-- A loop of such rounds reads records of distinct fields, and stores them all. -/
theorem parseRecords_eq_ok {T : Message M} {maximum : UInt32} {wireType : UInt32 → UInt32}
    {wrongWire unread : String} {number : UInt64 → ℕ}
    {parseField : ℕ → Bytes → M → Except String (Bytes × M)}
    (h : Parses T maximum wireType number parseField) {input : Bytes} {m : M} {t : UInt64 × M} :
    readRounds (parseRecord maximum wireType wrongWire number parseField) unread input.length input
        (0, m) = .ok t ↔
      ∃ rs, Splits input rs ∧ (∀ r ∈ rs, T.Takes r) ∧ (rs.map T.key).Nodup ∧
        t = (T.marks rs 0, T.fill rs m) := by
  rw [readRounds_eq_ok (parseRecord_readsBy h) le_rfl]
  refine exists_congr fun rs ↦ and_congr_right' ?_
  rw [T.runs_iff]
  refine and_congr_right' (and_congr_right' ?_)
  exact and_iff_right fun r _ ↦ not_marked_zero _

/-- A number stored as it is. -/
theorem readNumber_eq_ok {f : UInt64 → M} {input rest : Bytes} {m : M} :
    (do let (value, rest) ← varint input; .ok (rest, f value)) = (.ok (rest, m) : Except String _) ↔
      ∃ (bs : Bytes) (p : Payload), p.Encodes bs ∧ (p.wireType = 0 ∧ p.size ≤ 2 ^ 64 - 1) ∧
        input = bs ++ rest ∧ m = f p.value := by
  rw [bind_eq_ok]
  constructor
  · rintro ⟨⟨v, tail⟩, hv, h⟩
    obtain ⟨bs, hword, rfl⟩ := varint_eq_ok.mp hv
    obtain ⟨rfl, rfl⟩ := Prod.mk.inj (Except.ok.inj h)
    exact ⟨bs, .varint v, .varint hword, ⟨rfl, Nat.le_pred_of_lt v.toNat_lt⟩, rfl, rfl⟩
  · rintro ⟨bs, p, hp, ⟨hwire, -⟩, rfl, rfl⟩
    rw [Payload.eq_varint hwire] at hp
    cases hp with
    | varint hword => exact ⟨(p.value, rest), varint_eq_ok.mpr ⟨bs, hword, rfl⟩, rfl⟩

/-- A number stored after its range is checked. -/
theorem readRanged_eq_ok {f : UInt64 → M} {P : UInt64 → Prop} [DecidablePred P] {error : String}
    {R : Payload → Prop} (hR : ∀ v, R (.varint v) ↔ ¬P v) {input rest : Bytes} {m : M} :
    (do
      let (value, rest) ← varint input
      if P value then .error error else .ok (rest, f value)) = .ok (rest, m) ↔
      ∃ (bs : Bytes) (p : Payload), p.Encodes bs ∧ (p.wireType = 0 ∧ R p) ∧ input = bs ++ rest ∧
        m = f p.value := by
  rw [bind_eq_ok]
  constructor
  · rintro ⟨⟨v, tail⟩, hv, h⟩
    obtain ⟨bs, hword, rfl⟩ := varint_eq_ok.mp hv
    simp only at h
    split_ifs at h with hbad
    obtain ⟨rfl, rfl⟩ := Prod.mk.inj (Except.ok.inj h)
    exact ⟨bs, .varint v, .varint hword, ⟨rfl, (hR v).mpr hbad⟩, rfl, rfl⟩
  · rintro ⟨bs, p, hp, ⟨hwire, hrange⟩, rfl, rfl⟩
    rw [Payload.eq_varint hwire] at hp hrange
    cases hp with
    | varint hword =>
      exact ⟨(p.value, rest), varint_eq_ok.mpr ⟨bs, hword, rfl⟩, if_neg ((hR _).mp hrange)⟩

/-- A number stored after its bound is checked. -/
theorem readBelow_eq_ok {f : UInt64 → M} {maximum : ℕ} {error : String} {input rest : Bytes}
    {m : M} :
    (do
      let (value, rest) ← varint input
      if value.toNat > maximum then .error error else .ok (rest, f value)) = .ok (rest, m) ↔
      ∃ (bs : Bytes) (p : Payload), p.Encodes bs ∧ (p.wireType = 0 ∧ p.size ≤ maximum) ∧
        input = bs ++ rest ∧ m = f p.value :=
  readRanged_eq_ok (P := fun v ↦ v.toNat > maximum) (R := fun p ↦ p.size ≤ maximum)
    fun _ ↦ Nat.not_lt.symm

/-- A byte string within its bound. -/
theorem readBytes_eq_ok {f : Bytes → M} {maximum : ℕ} {input rest : Bytes} {m : M} :
    (do let (value, rest) ← wireBytes maximum input; .ok (rest, f value))
        = (.ok (rest, m) : Except String _) ↔
      ∃ (bs : Bytes) (p : Payload), p.Encodes bs ∧ (p.wireType = 2 ∧ p.size ≤ maximum) ∧
        input = bs ++ rest ∧
        m = f p.contents := by
  rw [bind_eq_ok]
  constructor
  · rintro ⟨⟨value, tail⟩, hvalue, h⟩
    obtain ⟨bs, hencodes, hle, rfl⟩ := wireBytes_eq_ok.mp hvalue
    obtain ⟨rfl, rfl⟩ := Prod.mk.inj (Except.ok.inj h)
    exact ⟨bs, .bytes value, hencodes, ⟨rfl, hle⟩, rfl, rfl⟩
  · rintro ⟨bs, p, hp, ⟨hwire, hle⟩, rfl, rfl⟩
    rw [Payload.eq_bytes hwire] at hp hle
    exact ⟨(p.contents, rest), wireBytes_eq_ok.mpr ⟨bs, hp, hle, rfl⟩, rfl⟩

end Round

/-! ## ExecuteSubstrait -/

namespace ExecuteRequest

/-- The largest number, or the longest byte string, a field takes. -/
def limit : ℕ → ℕ
  | 1 => 2 ^ 32 - 1
  | 2 => 64
  | 3 | 8 => kSha256Bytes
  | 6 => kMaxPlanBytes
  | 7 => 16
  | 11 => kMaxNativeResultSchemaBytes
  | _ => 2 ^ 64 - 1

def store : ℕ → Payload → ExecuteRequest → ExecuteRequest
  | 1, p, r => { r with protocolVersion := p.value.toUInt32 }
  | 2, p, r => { r with substraitVersion := p.contents }
  | 3, p, r => { r with capabilityHash := p.contents }
  | 4, p, r => { r with maxBatchBytes := p.value }
  | 5, p, r => { r with deadlineUnixMs := p.value }
  | 6, p, r => { r with plan := p.contents }
  | 7, p, r => { r with queryId := p.contents }
  | 8, p, r => { r with idempotencyKey := p.contents }
  | 9, p, r => { r with accountId := p.value }
  | 10, p, r => { r with maxInputBatchBytes := p.value }
  | 11, p, r => { r with resultSchema := p.contents }
  | _, _, r => r

/-- The value of a numbered field. -/
def field : ℕ → ExecuteRequest → Payload
  | 1, r => .varint r.protocolVersion.toUInt64
  | 2, r => .bytes r.substraitVersion
  | 3, r => .bytes r.capabilityHash
  | 4, r => .varint r.maxBatchBytes
  | 5, r => .varint r.deadlineUnixMs
  | 6, r => .bytes r.plan
  | 7, r => .bytes r.queryId
  | 8, r => .bytes r.idempotencyKey
  | 9, r => .varint r.accountId
  | 10, r => .varint r.maxInputBatchBytes
  | 11, r => .bytes r.resultSchema
  | _, _ => .bytes []

def message : Message ExecuteRequest where
  key := fieldKey
  maximum := 11
  maximum_le := by decide
  Fits k p := p.wireType = (executeWireType k.toUInt32).toNat ∧ p.size ≤ limit k
  store := store

theorem parseExecuteField_unknown {k : ℕ} {input rest : Bytes} {m m' : ExecuteRequest}
    (h : parseExecuteField k input m = .ok (rest, m')) : 1 ≤ k ∧ k ≤ 11 := by
  by_contra hk
  rw [not_and_or, Nat.not_le, Nat.not_le] at hk
  rw [parseExecuteField] at h
  · cases h
  all_goals omega

theorem parseExecuteField_eq_ok {k : ℕ} (hk : 1 ≤ k) (hle : k ≤ 11) {input rest : Bytes}
    {m m' : ExecuteRequest} :
    parseExecuteField k input m = .ok (rest, m') ↔
      ∃ (bs : Bytes) (p : Payload), p.Encodes bs ∧ message.Fits k p ∧ input = bs ++ rest ∧
        m' = store k p m := by
  interval_cases k
  · refine readRanged_eq_ok (P := fun v ↦ v.toNat ≥ 2 ^ 32) (R := fun p ↦ p.size ≤ limit 1)
      (f := fun v ↦ { m with protocolVersion := v.toUInt32 }) fun v ↦ ?_
    rw [Payload.size, limit]
    omega
  · exact readBytes_eq_ok (f := fun b ↦ { m with substraitVersion := b })
  · exact readBytes_eq_ok (f := fun b ↦ { m with capabilityHash := b })
  · exact readNumber_eq_ok (f := fun v ↦ { m with maxBatchBytes := v })
  · exact readNumber_eq_ok (f := fun v ↦ { m with deadlineUnixMs := v })
  · exact readBytes_eq_ok (f := fun b ↦ { m with plan := b })
  · exact readBytes_eq_ok (f := fun b ↦ { m with queryId := b })
  · exact readBytes_eq_ok (f := fun b ↦ { m with idempotencyKey := b })
  · exact readNumber_eq_ok (f := fun v ↦ { m with accountId := v })
  · exact readNumber_eq_ok (f := fun v ↦ { m with maxInputBatchBytes := v })
  · exact readBytes_eq_ok (f := fun b ↦ { m with resultSchema := b })

theorem parses : Parses message 11 executeWireType (fun tag ↦ (tag >>> 3).toUInt32.toNat)
    parseExecuteField where
  maximum_eq := rfl
  number_eq r := fieldKey_eq r
  key_eq _ _ _ := rfl
  wireType_eq f p h := by
    rw [h.1, Nat.toUInt32_eq, UInt32.ofNat_toNat]
  parseField_unknown := parseExecuteField_unknown
  parseField_eq_ok := parseExecuteField_eq_ok

theorem parseExecuteRecords_eq {rounds : ℕ} {input : Bytes} {seen : UInt64} {r : ExecuteRequest} :
    parseExecuteRecords rounds input seen r =
      readRounds (parseRecord 11 executeWireType "wrong protobuf wire type"
        (fun tag ↦ (tag >>> 3).toUInt32.toNat) parseExecuteField)
        "unconsumed ExecuteSubstrait input" rounds input (seen, r) := by
  induction rounds generalizing input seen r with
  | zero => cases input <;> rfl
  | succ rounds ih =>
    cases input with
    | nil => rfl
    | cons byte tail =>
      rw [parseExecuteRecords, readRounds]
      refine bind_congr fun out ↦ ?_
      exact ih

/-- Reading a field back from what was stored. -/
theorem lawful : message.Lawful field where
  field_store {k p m} hfits hk hle := by
    obtain ⟨hwire, hsize⟩ := hfits
    have hle : k ≤ 11 := hle
    interval_cases k
    · have hp := Payload.eq_varint hwire
      have hvalue : p.value.toUInt32.toUInt64 = p.value := by
        rw [hp, Payload.size, limit] at hsize
        rw [← UInt64.toNat_inj, UInt32.toNat_toUInt64, UInt64.toNat_toUInt32]
        omega
      exact (congrArg Payload.varint hvalue).trans hp.symm
    all_goals first | exact (Payload.eq_bytes hwire).symm | exact (Payload.eq_varint hwire).symm
  field_store_of_ne {j k p m} h := by
    change field j (store k p m) = field j m
    unfold store
    split
    -- One case for each field stored; in each, every other field reads what it did.
    all_goals
      unfold field
      split <;> first | rfl | exact absurd rfl h

theorem fill_fingerprint (rs : List Record) (m : ExecuteRequest) :
    (message.fill rs m).fingerprint = m.fingerprint := by
  have hstore (k : ℕ) (p : Payload) (m : ExecuteRequest) :
      (store k p m).fingerprint = m.fingerprint := by
    unfold store
    split <;> rfl
  induction rs generalizing m with
  | nil => rfl
  | cons r rs ih =>
    rw [Message.fill, List.foldl_cons, ← Message.fill, ih]
    exact hstore _ _ _

/-- The numbered fields and the digest are all of a request. -/
theorem eq_of_field_eq {r r' : ExecuteRequest} (h : ∀ k, 1 ≤ k → k ≤ 11 → field k r = field k r')
    (hfingerprint : r.fingerprint = r'.fingerprint) : r = r' := by
  have hversion : r.protocolVersion = r'.protocolVersion :=
    UInt32.toUInt64_inj.mp (Payload.varint.inj (h 1 (by decide) (by decide)))
  cases r
  cases r'
  rw [ExecuteRequest.mk.injEq]
  exact ⟨hversion, Payload.bytes.inj (h 2 (by decide) (by decide)),
    Payload.bytes.inj (h 3 (by decide) (by decide)),
    Payload.varint.inj (h 4 (by decide) (by decide)),
    Payload.varint.inj (h 5 (by decide) (by decide)),
    Payload.bytes.inj (h 6 (by decide) (by decide)),
    Payload.bytes.inj (h 7 (by decide) (by decide)),
    Payload.bytes.inj (h 8 (by decide) (by decide)),
    Payload.varint.inj (h 9 (by decide) (by decide)),
    Payload.varint.inj (h 10 (by decide) (by decide)),
    Payload.bytes.inj (h 11 (by decide) (by decide)), hfingerprint⟩

/-- What `parse_execute_request` accepts, and what it answers. -/
theorem parseExecuteRequest_eq_ok {bytes : Bytes} {request : ExecuteRequest} :
    parseExecuteRequest bytes = .ok request ↔
      (bytes ≠ [] ∧ bytes.length ≤ kMaxPlanBytes + kMaxNativeResultSchemaBytes + 4096) ∧
        ∃ rs, Splits bytes rs ∧ (∀ r ∈ rs, message.Takes r) ∧
          (rs.map fieldKey).Perm (List.range' 1 11) ∧ request = message.fill rs {} ∧
            request.queryId.length = 16 ∧ request.idempotencyKey.length = kSha256Bytes := by
  have hfull {rs : List Record} (hrs : ∀ r ∈ rs, message.Takes r)
      (hnodup : (rs.map fieldKey).Nodup) :
      message.marks rs 0 = 0x7ff ↔ (rs.map fieldKey).Perm (List.range' 1 11) := by
    rw [← UInt64.toNat_inj]
    exact message.marks_eq_full_iff hrs hnodup
  rw [parseExecuteRequest]
  split_ifs with hsize
  · constructor
    · intro h
      cases h
    · rintro ⟨⟨hne, hle⟩, -⟩
      rcases hsize with hsize | hsize
      · exact absurd (List.isEmpty_iff.mp hsize) hne
      · omega
  · rw [not_or, List.isEmpty_iff, Nat.not_lt] at hsize
    rw [and_iff_right hsize, bind_eq_ok, parseExecuteRecords_eq]
    constructor
    · rintro ⟨⟨seen, result⟩, hread, h⟩
      obtain ⟨rs, hsplits, hrs, hnodup, hout⟩ := (parseRecords_eq_ok parses).mp hread
      obtain ⟨rfl, rfl⟩ := Prod.mk.inj hout
      simp only at h
      split_ifs at h with hmissing
      rw [not_or, not_or, not_not, not_not, not_not] at hmissing
      obtain ⟨hseen, hquery, hkey⟩ := hmissing
      obtain rfl := Except.ok.inj h
      exact ⟨rs, hsplits, hrs, (hfull hrs hnodup).mp hseen, rfl, hquery, hkey⟩
    · rintro ⟨rs, hsplits, hrs, hperm, rfl, hquery, hkey⟩
      have hnodup := hperm.nodup_iff.mpr List.nodup_range'
      refine ⟨_, (parseRecords_eq_ok parses).mpr ⟨rs, hsplits, hrs, hnodup, rfl⟩, ?_⟩
      simp only
      rw [if_neg]
      rw [not_or, not_or, not_not, not_not, not_not]
      exact ⟨(hfull hrs hnodup).mpr hperm, hquery, hkey⟩

end ExecuteRequest

/-! ## ResolveTaeRead -/

/-- `resolve_response`. -/
structure ResolveResponse where
  taeRead : Bytes := []
  manifest : Bytes := []
  canonicalSchema : Bytes := []
  deriving DecidableEq

def kMaxResponseBytes : ℕ := 64 * 1024 * 1024

/-- The value of one field of a `ResolveTaeRead` response; the rest of the input. -/
def parseResolveField (field : ℕ) (input : Bytes) (result : ResolveResponse) :
    Except String (Bytes × ResolveResponse) :=
  match field with
  | 1 => do
    let (value, rest) ← wireBytes (16 * 1024) input
    .ok (rest, { result with taeRead := value })
  | 2 => do
    let (value, rest) ← wireBytes kMaxResponseBytes input
    .ok (rest, { result with manifest := value })
  | 3 => do
    let (value, rest) ← wireBytes (1024 * 1024) input
    .ok (rest, { result with canonicalSchema := value })
  | _ => .error "unknown ResolveTaeRead field"

/-- One round of the loop of `parse_resolve_response`. -/
def parseResolveRecord : Bytes → UInt64 × ResolveResponse →
    Except String (Bytes × UInt64 × ResolveResponse) :=
  parseRecord 3 (fun _ ↦ 2) "wrong ResolveTaeRead wire type" (fun tag ↦ (tag >>> 3).toNat)
    parseResolveField

/-- `parse_resolve_response`. -/
def parseResolveResponse (bytes : Bytes) : Except String ResolveResponse :=
  if bytes.isEmpty ∨ bytes.length > kMaxResponseBytes then
    .error "ResolveTaeRead response is empty or too large"
  else do
    let (seen, result) ← readRounds parseResolveRecord "unconsumed ResolveTaeRead input"
      bytes.length bytes (0, {})
    if seen ≠ 0x7 ∨ result.taeRead.isEmpty ∨ result.manifest.isEmpty ∨
        result.canonicalSchema.isEmpty then
      .error "ResolveTaeRead response is missing a field"
    else .ok result

namespace ResolveResponse

/-- The longest byte string a field takes. -/
def limit : ℕ → ℕ
  | 1 => 16 * 1024
  | 2 => kMaxResponseBytes
  | _ => 1024 * 1024

def store : ℕ → Payload → ResolveResponse → ResolveResponse
  | 1, p, r => { r with taeRead := p.contents }
  | 2, p, r => { r with manifest := p.contents }
  | 3, p, r => { r with canonicalSchema := p.contents }
  | _, _, r => r

/-- The value of a numbered field. -/
def field : ℕ → ResolveResponse → Payload
  | 1, r => .bytes r.taeRead
  | 2, r => .bytes r.manifest
  | 3, r => .bytes r.canonicalSchema
  | _, _ => .bytes []

def message : Message ResolveResponse where
  key := Record.field
  maximum := 3
  maximum_le := by decide
  Fits k p := p.wireType = 2 ∧ p.size ≤ limit k
  store := store

theorem parseResolveField_unknown {k : ℕ} {input rest : Bytes} {m m' : ResolveResponse}
    (h : parseResolveField k input m = .ok (rest, m')) : 1 ≤ k ∧ k ≤ 3 := by
  by_contra hk
  rw [not_and_or, Nat.not_le, Nat.not_le] at hk
  rw [parseResolveField] at h
  · cases h
  all_goals omega

theorem parseResolveField_eq_ok {k : ℕ} (hk : 1 ≤ k) (hle : k ≤ 3) {input rest : Bytes}
    {m m' : ResolveResponse} :
    parseResolveField k input m = .ok (rest, m') ↔
      ∃ (bs : Bytes) (p : Payload), p.Encodes bs ∧ message.Fits k p ∧ input = bs ++ rest ∧
        m' = store k p m := by
  interval_cases k
  · exact readBytes_eq_ok (f := fun b ↦ { m with taeRead := b })
  · exact readBytes_eq_ok (f := fun b ↦ { m with manifest := b })
  · exact readBytes_eq_ok (f := fun b ↦ { m with canonicalSchema := b })

theorem parses : Parses message 3 (fun _ ↦ 2) (fun tag ↦ (tag >>> 3).toNat) parseResolveField where
  maximum_eq := rfl
  number_eq r := toNat_shiftRight_three r.tag
  -- The number is the whole field number here, and a small one is its own low 32 bits.
  key_eq r _ hle := Nat.mod_eq_of_lt (Nat.lt_of_le_of_lt hle (by decide))
  wireType_eq _ p h := h.1.symm
  parseField_unknown := parseResolveField_unknown
  parseField_eq_ok := parseResolveField_eq_ok

theorem lawful : message.Lawful field where
  field_store {k p m} hfits hk hle := by
    have hp := Payload.eq_bytes hfits.1
    have hle : k ≤ 3 := hle
    interval_cases k <;> exact hp.symm
  field_store_of_ne {j k p m} h := by
    change field j (store k p m) = field j m
    unfold store
    split
    all_goals
      unfold field
      split <;> first | rfl | exact absurd rfl h

theorem eq_of_field_eq {r r' : ResolveResponse}
    (h : ∀ k, 1 ≤ k → k ≤ 3 → field k r = field k r') : r = r' := by
  cases r
  cases r'
  rw [ResolveResponse.mk.injEq]
  exact ⟨Payload.bytes.inj (h 1 (by decide) (by decide)),
    Payload.bytes.inj (h 2 (by decide) (by decide)),
    Payload.bytes.inj (h 3 (by decide) (by decide))⟩

/-- What `parse_resolve_response` accepts, and what it answers. -/
theorem parseResolveResponse_eq_ok {bytes : Bytes} {response : ResolveResponse} :
    parseResolveResponse bytes = .ok response ↔
      (bytes ≠ [] ∧ bytes.length ≤ kMaxResponseBytes) ∧
        ∃ rs, Splits bytes rs ∧ (∀ r ∈ rs, message.Takes r) ∧
          (rs.map Record.field).Perm (List.range' 1 3) ∧ response = message.fill rs {} ∧
            response.taeRead ≠ [] ∧ response.manifest ≠ [] ∧ response.canonicalSchema ≠ [] := by
  have hfull {rs : List Record} (hrs : ∀ r ∈ rs, message.Takes r)
      (hnodup : (rs.map Record.field).Nodup) :
      message.marks rs 0 = 0x7 ↔ (rs.map Record.field).Perm (List.range' 1 3) := by
    rw [← UInt64.toNat_inj]
    exact message.marks_eq_full_iff hrs hnodup
  rw [parseResolveResponse]
  split_ifs with hsize
  · constructor
    · intro h
      cases h
    · rintro ⟨⟨hne, hle⟩, -⟩
      rcases hsize with hsize | hsize
      · exact absurd (List.isEmpty_iff.mp hsize) hne
      · omega
  · rw [not_or, List.isEmpty_iff, Nat.not_lt] at hsize
    rw [and_iff_right hsize, bind_eq_ok]
    constructor
    · rintro ⟨⟨seen, result⟩, hread, h⟩
      obtain ⟨rs, hsplits, hrs, hnodup, hout⟩ := (parseRecords_eq_ok parses).mp hread
      obtain ⟨rfl, rfl⟩ := Prod.mk.inj hout
      simp only [List.isEmpty_iff] at h
      split_ifs at h with hmissing
      rw [not_or, not_or, not_or, not_not] at hmissing
      obtain ⟨hseen, hrest⟩ := hmissing
      obtain rfl := Except.ok.inj h
      exact ⟨rs, hsplits, hrs, (hfull hrs hnodup).mp hseen, rfl, hrest⟩
    · rintro ⟨rs, hsplits, hrs, hperm, rfl, hrest⟩
      have hnodup := hperm.nodup_iff.mpr List.nodup_range'
      refine ⟨_, (parseRecords_eq_ok parses).mpr ⟨rs, hsplits, hrs, hnodup, rfl⟩, ?_⟩
      simp only [List.isEmpty_iff]
      rw [if_neg]
      rw [not_or, not_or, not_or, not_not]
      exact ⟨(hfull hrs hnodup).mpr hperm, hrest⟩

end ResolveResponse

end MoSidecar
