import MoSidecar.Protocol.Envelopes

/-!
# Requests that carry identities

`CancelExecution` and `UploadInput` are messages of two byte strings of 32 bytes: a ticket or an
idempotency key for the one, a ticket and a stream reference for the other. Their parsers are the
same loop, over records of any order and with numbers of any length; they differ in what they ask of
the fields that were there. What makes an encoding canonical is stated nowhere. It follows from the
bound on the length of the request: a record of 32 bytes takes at least 34, so where the bound
leaves no more, its tag and its length take one byte each.

For `UploadInput` that settles which requests are accepted. For `CancelExecution` it does not, as a
byte string that is there but empty is short: `one_identity_iff`.
-/

namespace MoSidecar

open Protobuf

/-! ## The parsers -/

section

variable {M : Type}

/-- The value of one of two fields, stored into the request; the rest of the input. -/
def parseIdentityField (first second : Bytes → M → M) (unknown : String) (field : ℕ)
    (input : Bytes) (result : M) : Except String (Bytes × M) :=
  match field with
  | 1 => do
    let (value, rest) ← wireBytes kSha256Bytes input
    .ok (rest, first value result)
  | 2 => do
    let (value, rest) ← wireBytes kSha256Bytes input
    .ok (rest, second value result)
  | _ => .error unknown

/-- One round of the loop over such fields. The `switch` is over all the bits of the number. -/
def parseIdentityRecord (first second : Bytes → M → M) (wrongWire unknown : String) :
    Bytes → UInt64 × M → Except String (Bytes × UInt64 × M) :=
  parseRecord 2 (fun _ ↦ 2) wrongWire (fun tag ↦ (tag >>> 3).toNat)
    (parseIdentityField first second unknown)

end

/-- `cancel_request`. -/
structure CancelRequest where
  ticket : Bytes := []
  idempotencyKey : Bytes := []
  deriving DecidableEq

/-- One round of the loop of `parse_cancel_request`. -/
def parseCancelRecord : Bytes → UInt64 × CancelRequest →
    Except String (Bytes × UInt64 × CancelRequest) :=
  parseIdentityRecord (fun value r ↦ { r with ticket := value })
    (fun value r ↦ { r with idempotencyKey := value }) "wrong CancelExecution wire type"
    "unknown CancelExecution field"

/-- `parse_cancel_request`. -/
def parseCancelRequest (bytes : Bytes) : Except String CancelRequest :=
  if bytes.isEmpty ∨ bytes.length > kSha256Bytes + 2 then
    .error "CancelExecution request is empty or too large"
  else do
    let (seen, result) ← readRounds parseCancelRecord "unconsumed CancelExecution input"
      bytes.length bytes (0, {})
    if (seen ≠ 0x1 ∧ seen ≠ 0x2) ∨ (!result.ticket.isEmpty ∧ result.ticket.length ≠ kSha256Bytes) ∨
        (!result.idempotencyKey.isEmpty ∧ result.idempotencyKey.length ≠ kSha256Bytes) then
      .error "CancelExecution requires exactly one 32-byte identity"
    else .ok result

/-- `upload_input_request`. -/
structure UploadInputRequest where
  ticket : Bytes := []
  streamRef : Bytes := []
  deriving DecidableEq

/-- One round of the loop of `parse_upload_input_request`. -/
def parseUploadInputRecord : Bytes → UInt64 × UploadInputRequest →
    Except String (Bytes × UInt64 × UploadInputRequest) :=
  parseIdentityRecord (fun value r ↦ { r with ticket := value })
    (fun value r ↦ { r with streamRef := value }) "wrong UploadInput wire type"
    "unknown UploadInput field"

/-- `parse_upload_input_request`. -/
def parseUploadInputRequest (bytes : Bytes) : Except String UploadInputRequest :=
  if bytes.isEmpty ∨ bytes.length > 2 * (kSha256Bytes + 2) then
    .error "UploadInput request is empty or too large"
  else do
    let (seen, result) ← readRounds parseUploadInputRecord "unconsumed UploadInput input"
      bytes.length bytes (0, {})
    if seen ≠ 0x3 ∨ result.ticket.length ≠ kSha256Bytes ∨
      result.streamRef.length ≠ kSha256Bytes then
      .error "UploadInput requires a ticket and stream reference"
    else .ok result

/-! ## Records of an identity -/

/-- The record of a field with a byte string in it. -/
def identityRecord (k : ℕ) (b : Bytes) : Record := .of k (.bytes b)

variable {k : ℕ} {b bs bytes : Bytes}

theorem eq_identityRecord {r : Record} (hwire : r.wireType = r.payload.wireType)
    (hbytes : r.payload.wireType = 2) : r = identityRecord r.field r.payload.contents := by
  have htag : 8 * r.field + 2 = r.tag.toNat := by
    rw [hbytes, Record.wireType] at hwire
    rw [Record.field]
    omega
  cases r with
  | mk tag payload =>
    rw [identityRecord, Record.of, ← Payload.eq_bytes hbytes, hbytes, htag, Nat.toUInt64_eq,
      UInt64.ofNat_toNat]

theorem encodes_identityRecord_iff (hk : k < 2 ^ 32) (hb : b.length < 2 ^ 64) :
    (identityRecord k b).Encodes bs ↔ ∃ ts ls, Word ts (8 * k + 2).toUInt64 ∧
      Word ls b.length.toUInt64 ∧ bs = ts ++ (ls ++ b) := by
  have hlength : b.length.toUInt64.toNat = b.length := by
    rw [Nat.toUInt64_eq, UInt64.toNat_ofNat']
    exact Nat.mod_eq_of_lt hb
  constructor
  · intro h
    obtain ⟨ts, ps, htag, hpayload, rfl⟩ := h.eq_append
    cases hpayload with
    | @bytes ls _ v hword hv =>
      rw [← hlength, UInt64.toNat_inj] at hv
      exact ⟨ts, ls, htag, hv ▸ hword, rfl⟩
  · rintro ⟨ts, ls, htag, hword, rfl⟩
    exact ⟨Record.wireType_of hk _, ts, ls ++ b, htag, .bytes hword hlength, rfl⟩

/-- A tag and a length take a byte each, at least. -/
theorem length_le_of_encodes (h : (identityRecord k b).Encodes bs) : b.length + 2 ≤ bs.length := by
  obtain ⟨ts, ps, htag, hpayload, rfl⟩ := h.eq_append
  have htag := List.length_pos_iff.mpr htag.varint.ne_nil
  cases hpayload with
  | @bytes ls _ v hword hv =>
    have hlength := List.length_pos_iff.mpr hword.varint.ne_nil
    rw [List.length_append, List.length_append]
    omega

theorem Varint.eq_singleton {n : ℕ} (h : Varint bs n) (hbs : bs.length ≤ 1) :
    bs = [n.toUInt8] := by
  cases h with
  | last hb => rw [Nat.toUInt8_eq, UInt8.ofNat_toNat]
  | more hb h =>
    rw [List.length_cons] at hbs
    exact absurd (List.length_eq_zero_iff.mp (by omega)) h.ne_nil

/-- Where there is room for no more than that, these are the bytes. -/
theorem encodes_identityRecord_short_iff (hk : k < 16) (hb : b.length < 128)
    (hbs : bs.length ≤ b.length + 2) : (identityRecord k b).Encodes bs ↔
      bs = (8 * k + 2).toUInt8 :: b.length.toUInt8 :: b := by
  have hsmall {n : ℕ} (hn : n < 256) : n.toUInt64.toNat = n := by
    rw [Nat.toUInt64_eq, UInt64.toNat_ofNat']
    omega
  rw [encodes_identityRecord_iff (by omega) (by omega)]
  constructor
  · rintro ⟨ts, ls, htag, hword, rfl⟩
    have htag' := List.length_pos_iff.mpr htag.varint.ne_nil
    have hword' := List.length_pos_iff.mpr hword.varint.ne_nil
    rw [List.length_append, List.length_append] at hbs
    rw [Varint.eq_singleton htag.varint (by omega), Varint.eq_singleton hword.varint (by omega),
      hsmall (by omega), hsmall (by omega)]
    rfl
  · rintro rfl
    have hone {n : ℕ} (hn : n < 128) : Word [n.toUInt8] n.toUInt64 := by
      have hword := word_groups n.toUInt64
      rw [hsmall (by omega), groups_of_lt hn] at hword
      exact hword
    exact ⟨_, _, hone (by omega), hone hb, rfl⟩

theorem encodes_of_shortest (hk : k < 16) (hb : b.length = kSha256Bytes) :
    (identityRecord k b).Encodes ((8 * k + 2).toUInt8 :: 0x20 :: b) := by
  have hsmall : b.length < 128 := by
    rw [hb]
    decide
  rw [encodes_identityRecord_short_iff hk hsmall (Nat.le_refl _), hb]
  rfl

/-! ## What the loop reads -/

section

variable {M : Type} {first second : Bytes → M → M} {wrongWire unknown unread : String} {m : M}
  {seen : UInt64} {result : M} {rs : List Record}

/-- The message of two byte strings. -/
def identityMessage (first second : Bytes → M → M) : Message M where
  key := Record.field
  maximum := 2
  maximum_le := by decide
  Fits _ p := p.wireType = 2 ∧ p.size ≤ kSha256Bytes
  store
    | 1, p, m => first p.contents m
    | 2, p, m => second p.contents m
    | _, _, m => m

theorem identityMessage_parses : Parses (identityMessage first second) 2 (fun _ ↦ 2)
    (fun tag ↦ (tag >>> 3).toNat) (parseIdentityField first second unknown) where
  maximum_eq := rfl
  number_eq r := toNat_shiftRight_three r.tag
  key_eq r _ hle := by
    have hle : r.field ≤ 2 := hle
    exact Nat.mod_eq_of_lt (Nat.lt_of_le_of_lt hle (by decide))
  wireType_eq _ p h := h.1.symm
  parseField_unknown {k} _ _ _ _ h := by
    have hmaximum : (identityMessage first second).maximum = 2 := rfl
    by_contra hk
    rw [hmaximum, not_and_or, Nat.not_le, Nat.not_le] at hk
    rw [parseIdentityField] at h
    · cases h
    all_goals omega
  parseField_eq_ok {k} hk hle input rest m m' := by
    have hle : k ≤ 2 := hle
    interval_cases k
    · exact readBytes_eq_ok (f := fun b ↦ first b m)
    · exact readBytes_eq_ok (f := fun b ↦ second b m)

/-- What the records of a request are, with the marks they leave and what they store. -/
inductive Identities (first second : Bytes → M → M) (m : M) : List Record → UInt64 → M → Prop
  | none : Identities first second m [] 0 m
  | first {b : Bytes} (hb : b.length ≤ kSha256Bytes) :
      Identities first second m [identityRecord 1 b] 1 (first b m)
  | second {b : Bytes} (hb : b.length ≤ kSha256Bytes) :
      Identities first second m [identityRecord 2 b] 2 (second b m)
  | both {b b' : Bytes} (hb : b.length ≤ kSha256Bytes) (hb' : b'.length ≤ kSha256Bytes) :
      Identities first second m [identityRecord 1 b, identityRecord 2 b'] 3
        (second b' (first b m))
  | swapped {b b' : Bytes} (hb : b.length ≤ kSha256Bytes) (hb' : b'.length ≤ kSha256Bytes) :
      Identities first second m [identityRecord 2 b', identityRecord 1 b] 3
        (first b (second b' m))

/-- Two numbers, each at most once. -/
theorem keys_cases {ks : List ℕ} (hks : ∀ k ∈ ks, 1 ≤ k ∧ k ≤ 2) (hnodup : ks.Nodup) :
    ks = [] ∨ ks = [1] ∨ ks = [2] ∨ ks = [1, 2] ∨ ks = [2, 1] := by
  match ks with
  | [] => exact .inl rfl
  | [k] =>
    have hk := hks k List.mem_cons_self
    obtain rfl | rfl : k = 1 ∨ k = 2 := by omega
    · exact .inr (.inl rfl)
    · exact .inr (.inr (.inl rfl))
  | [k, l] =>
    obtain ⟨hk, hl⟩ := List.forall_mem_cons.mp hks
    have hl := List.forall_mem_singleton.mp hl
    have hne : k ≠ l := fun h ↦ (List.nodup_cons.mp hnodup).1 (h ▸ List.mem_cons_self)
    obtain ⟨rfl, rfl⟩ | ⟨rfl, rfl⟩ : (k = 1 ∧ l = 2) ∨ (k = 2 ∧ l = 1) := by omega
    · exact .inr (.inr (.inr (.inl rfl)))
    · exact .inr (.inr (.inr (.inr rfl)))
  | k :: l :: j :: ks =>
    have hk := hks k List.mem_cons_self
    have hl := hks l (.tail _ List.mem_cons_self)
    have hj := hks j (.tail _ (.tail _ List.mem_cons_self))
    simp only [List.nodup_cons, List.mem_cons, not_or] at hnodup
    omega

/-- A record that the loop takes is one of an identity. -/
theorem eq_of_takes {r : Record} (hwire : r.wireType = r.payload.wireType)
    (h : (identityMessage first second).Takes r) :
    ∃ b, b.length ≤ kSha256Bytes ∧ r = identityRecord r.field b := by
  obtain ⟨hbytes, hsize⟩ := h.fits
  exact ⟨r.payload.contents, Nat.le_trans r.payload.length_contents_le_size hsize,
    eq_identityRecord hwire hbytes⟩

theorem field_identityRecord (hk : k < 2 ^ 32) (b : Bytes) : (identityRecord k b).field = k :=
  Record.field_of hk _

theorem takes_identityRecord (hpos : 1 ≤ k) (hle : k ≤ 2) (hb : b.length ≤ kSha256Bytes) :
    (identityMessage first second).Takes (identityRecord k b) := by
  have hkey : (identityMessage first second).key (identityRecord k b) = k :=
    field_identityRecord (by omega) b
  constructor
  · rw [hkey]
    exact hpos
  · rw [hkey]
    exact hle
  · exact ⟨rfl, hb⟩

theorem marks_eq (rs : List Record) : (identityMessage first second).marks rs 0
    = (rs.map Record.field).foldl markField 0 := by
  rw [List.foldl_map]
  rfl

theorem fill_cons (hk : k < 2 ^ 32) (b : Bytes) (rs : List Record) (m : M) :
    (identityMessage first second).fill (identityRecord k b :: rs) m
      = (identityMessage first second).fill rs
        ((identityMessage first second).store k (.bytes b) m) := by
  have hkey : (identityMessage first second).key (identityRecord k b) = k :=
    field_identityRecord hk b
  rw [Message.fill, List.foldl_cons, hkey]
  rfl

/-- Records of an identity are read as what they are. -/
theorem Identities.runs (h : Identities first second m rs seen result) :
    (∀ r ∈ rs, (identityMessage first second).Takes r) ∧ (rs.map Record.field).Nodup ∧
      seen = (identityMessage first second).marks rs 0 ∧
        result = (identityMessage first second).fill rs m := by
  rw [marks_eq]
  cases h with
  | none => exact ⟨List.forall_mem_nil _, List.nodup_nil, rfl, rfl⟩
  | first hb =>
    rw [fill_cons (by decide), List.map_singleton, field_identityRecord (by decide),
      List.forall_mem_singleton]
    exact ⟨takes_identityRecord (by decide) (by decide) hb, by decide, by decide, rfl⟩
  | second hb =>
    rw [fill_cons (by decide), List.map_singleton, field_identityRecord (by decide),
      List.forall_mem_singleton]
    exact ⟨takes_identityRecord (by decide) (by decide) hb, by decide, by decide, rfl⟩
  | both hb hb' =>
    rw [fill_cons (by decide), fill_cons (by decide), List.map_cons, List.map_singleton,
      field_identityRecord (by decide), field_identityRecord (by decide), List.forall_mem_cons,
      List.forall_mem_singleton]
    exact ⟨⟨takes_identityRecord (by decide) (by decide) hb,
      takes_identityRecord (by decide) (by decide) hb'⟩, by decide, by decide, rfl⟩
  | swapped hb hb' =>
    rw [fill_cons (by decide), fill_cons (by decide), List.map_cons, List.map_singleton,
      field_identityRecord (by decide), field_identityRecord (by decide), List.forall_mem_cons,
      List.forall_mem_singleton]
    exact ⟨⟨takes_identityRecord (by decide) (by decide) hb',
      takes_identityRecord (by decide) (by decide) hb⟩, by decide, by decide, rfl⟩

/-- What the loop has read when the input is used up. -/
theorem readIdentities_eq_ok : readRounds (parseIdentityRecord first second wrongWire unknown)
      unread bytes.length bytes (0, m) = .ok (seen, result) ↔
    ∃ rs, Splits bytes rs ∧ Identities first second m rs seen result := by
  rw [parseIdentityRecord, parseRecords_eq_ok identityMessage_parses]
  refine exists_congr fun rs ↦ and_congr_right fun hsplits ↦ ?_
  constructor
  · rintro ⟨htakes, hnodup, h⟩
    have hrecord (r : Record) (hr : r ∈ rs) :=
      eq_of_takes (hsplits.wireType_eq r hr) (htakes r hr)
    have hkeys : ∀ k ∈ rs.map Record.field, 1 ≤ k ∧ k ≤ 2 := by
      intro k hk
      obtain ⟨r, hr, rfl⟩ := List.mem_map.mp hk
      exact ⟨(htakes r hr).pos, (htakes r hr).le⟩
    -- Whatever the records are, they leave the marks and the value that `runs` says.
    have hlist : ∃ seen' result', Identities first second m rs seen' result' := by
      rcases keys_cases hkeys hnodup with hks | hks | hks | hks | hks
      · rw [List.map_eq_nil_iff.mp hks]
        exact ⟨_, _, .none⟩
      · obtain ⟨r, rfl, hr⟩ := List.map_eq_singleton_iff.mp hks
        obtain ⟨b, hb, hrb⟩ := hrecord r List.mem_cons_self
        rw [hrb, hr]
        exact ⟨_, _, .first hb⟩
      · obtain ⟨r, rfl, hr⟩ := List.map_eq_singleton_iff.mp hks
        obtain ⟨b, hb, hrb⟩ := hrecord r List.mem_cons_self
        rw [hrb, hr]
        exact ⟨_, _, .second hb⟩
      · obtain ⟨r, rs', rfl, hr, hks'⟩ := List.map_eq_cons_iff.mp hks
        obtain ⟨s, rfl, hs⟩ := List.map_eq_singleton_iff.mp hks'
        obtain ⟨b, hb, hrb⟩ := hrecord r List.mem_cons_self
        obtain ⟨b', hb', hsb⟩ := hrecord s (.tail r List.mem_cons_self)
        rw [hrb, hr, hsb, hs]
        exact ⟨_, _, .both hb hb'⟩
      · obtain ⟨s, rs', rfl, hs, hks'⟩ := List.map_eq_cons_iff.mp hks
        obtain ⟨r, rfl, hr⟩ := List.map_eq_singleton_iff.mp hks'
        obtain ⟨b', hb', hsb⟩ := hrecord s List.mem_cons_self
        obtain ⟨b, hb, hrb⟩ := hrecord r (.tail s List.mem_cons_self)
        rw [hrb, hr, hsb, hs]
        exact ⟨_, _, .swapped hb hb'⟩
    obtain ⟨seen', result', hids⟩ := hlist
    obtain ⟨rfl, rfl⟩ := Prod.mk.inj h
    obtain ⟨-, -, rfl, rfl⟩ := hids.runs
    exact hids
  · intro h
    obtain ⟨htakes, hnodup, rfl, rfl⟩ := h.runs
    exact ⟨htakes, hnodup, rfl⟩

end

/-! ## CancelExecution -/

namespace CancelRequest

variable {r : CancelRequest}

/-- One of the two identities is there, of 32 bytes, and the other is not. -/
def OneIdentity (r : CancelRequest) : Prop :=
  (r.ticket.length = kSha256Bytes ∧ r.idempotencyKey = []) ∨
    (r.ticket = [] ∧ r.idempotencyKey.length = kSha256Bytes)

instance (r : CancelRequest) : Decidable r.OneIdentity := inferInstanceAs (Decidable (_ ∨ _))

/-- The bytes are those of a request with one identity, in the shortest form. -/
def Canonical (bytes : Bytes) (r : CancelRequest) : Prop :=
  (r.ticket.length = kSha256Bytes ∧ r.idempotencyKey = [] ∧ bytes = 0x0a :: 0x20 :: r.ticket) ∨
    (r.ticket = [] ∧ r.idempotencyKey.length = kSha256Bytes ∧
      bytes = 0x12 :: 0x20 :: r.idempotencyKey)

/-- The bytes are the tag of a field, in however many groups, and the length zero. -/
def EmptyIdentity (bytes : Bytes) : Prop :=
  ∃ ts ls, (Word ts 0x0a ∨ Word ts 0x12) ∧ Word ls 0 ∧ bytes = ts ++ ls

theorem Canonical.oneIdentity (h : Canonical bytes r) : r.OneIdentity := by
  rcases h with ⟨hticket, hkey, -⟩ | ⟨hticket, hkey, -⟩
  · exact .inl ⟨hticket, hkey⟩
  · exact .inr ⟨hticket, hkey⟩

/-- What `parse_cancel_request` accepts, and what it answers: a record of one field, whose byte
string is empty or has 32 bytes. -/
theorem parseCancelRequest_eq_ok : parseCancelRequest bytes = .ok r ↔
    bytes.length ≤ kSha256Bytes + 2 ∧ ∃ b, (b = [] ∨ b.length = kSha256Bytes) ∧
      (((identityRecord 1 b).Encodes bytes ∧ r = ⟨b, []⟩) ∨
        (identityRecord 2 b).Encodes bytes ∧ r = ⟨[], b⟩) := by
  have hlengths (b : Bytes) : (!b.isEmpty ∧ b.length ≠ kSha256Bytes) ↔
      ¬(b = [] ∨ b.length = kSha256Bytes) := by
    rw [Bool.not_eq_true', ← Bool.not_eq_true, List.isEmpty_iff, not_or]
  rw [parseCancelRequest]
  simp only [hlengths, parseCancelRecord]
  split_ifs with hsize
  · constructor
    · intro h
      cases h
    · rintro ⟨hle, b, -, h⟩
      rw [List.isEmpty_iff] at hsize
      rcases hsize with hnil | hlong
      · rcases h with ⟨h, -⟩ | ⟨h, -⟩
        · exact absurd hnil h.ne_nil
        · exact absurd hnil h.ne_nil
      · omega
  · rw [not_or, Nat.not_lt] at hsize
    rw [and_iff_right hsize.2, bind_eq_ok]
    constructor
    · rintro ⟨⟨seen, result⟩, hread, h⟩
      obtain ⟨rs, hsplits, hids⟩ := readIdentities_eq_ok.mp hread
      simp only at h
      split_ifs at h with hbad
      rw [not_or, not_or, not_not, not_not] at hbad
      obtain ⟨hseen, hticket, hkey⟩ := hbad
      obtain rfl := Except.ok.inj h
      cases hids with
      | none => exact absurd (by decide) hseen
      | @first b hb => exact ⟨b, hticket, .inl ⟨Splits.singleton_iff.mp hsplits, rfl⟩⟩
      | @second b hb => exact ⟨b, hkey, .inr ⟨Splits.singleton_iff.mp hsplits, rfl⟩⟩
      | both hb hb' => exact absurd (by decide) hseen
      | swapped hb hb' => exact absurd (by decide) hseen
    · rintro ⟨b, hb, h⟩
      have hle : b.length ≤ kSha256Bytes := by
        rcases hb with rfl | hb
        · exact Nat.zero_le _
        · exact Nat.le_of_eq hb
      rcases h with ⟨h, rfl⟩ | ⟨h, rfl⟩
      · refine ⟨_, readIdentities_eq_ok.mpr ⟨_, Splits.singleton_iff.mpr h, .first hle⟩, ?_⟩
        exact if_neg fun hbad ↦ by simp [hb] at hbad
      · refine ⟨_, readIdentities_eq_ok.mpr ⟨_, Splits.singleton_iff.mpr h, .second hle⟩, ?_⟩
        exact if_neg fun hbad ↦ by simp [hb] at hbad

theorem emptyIdentity_of_encodes
    (h : (identityRecord 1 []).Encodes bytes ∨ (identityRecord 2 []).Encodes bytes) :
    EmptyIdentity bytes := by
  rw [encodes_identityRecord_iff (by decide) (by decide),
    encodes_identityRecord_iff (by decide) (by decide)] at h
  rcases h with ⟨ts, ls, htag, hlength, rfl⟩ | ⟨ts, ls, htag, hlength, rfl⟩
  · exact ⟨ts, ls, .inl htag, hlength, by rw [List.append_nil]⟩
  · exact ⟨ts, ls, .inr htag, hlength, by rw [List.append_nil]⟩

theorem parse_of_emptyIdentity (h : EmptyIdentity bytes) : parseCancelRequest bytes = .ok {} := by
  obtain ⟨ts, ls, htag, hlength, rfl⟩ := h
  have hls := hlength.length_le
  have hbytes : ts ++ ls = ts ++ (ls ++ []) := by rw [List.append_nil]
  rw [parseCancelRequest_eq_ok, List.length_append, kSha256Bytes]
  rcases htag with htag | htag
  · have hts := htag.length_le
    exact ⟨by omega, [], .inl rfl, .inl ⟨(encodes_identityRecord_iff (by decide) (by decide)).mpr
      ⟨ts, ls, htag, hlength, hbytes⟩, rfl⟩⟩
  · have hts := htag.length_le
    exact ⟨by omega, [], .inl rfl, .inr ⟨(encodes_identityRecord_iff (by decide) (by decide)).mpr
      ⟨ts, ls, htag, hlength, hbytes⟩, rfl⟩⟩

/-- A record of 32 bytes leaves no room for anything but the shortest tag and length. -/
theorem canonical_of_encodes {b : Bytes} (hb : b.length = kSha256Bytes)
    (hle : bytes.length ≤ kSha256Bytes + 2)
    (h : ((identityRecord 1 b).Encodes bytes ∧ r = ⟨b, []⟩) ∨
      (identityRecord 2 b).Encodes bytes ∧ r = ⟨[], b⟩) : Canonical bytes r := by
  have hsmall : b.length < 128 := by
    rw [hb]
    decide
  rw [← hb] at hle
  rcases h with ⟨h, rfl⟩ | ⟨h, rfl⟩
  · rw [encodes_identityRecord_short_iff (by decide) hsmall hle, hb] at h
    exact .inl ⟨hb, rfl, h⟩
  · rw [encodes_identityRecord_short_iff (by decide) hsmall hle, hb] at h
    exact .inr ⟨rfl, hb, h⟩

theorem encodes_of_canonical (h : Canonical bytes r) :
    bytes.length ≤ kSha256Bytes + 2 ∧ ∃ b, (b = [] ∨ b.length = kSha256Bytes) ∧
      (((identityRecord 1 b).Encodes bytes ∧ r = ⟨b, []⟩) ∨
        (identityRecord 2 b).Encodes bytes ∧ r = ⟨[], b⟩) := by
  obtain ⟨ticket, key⟩ := r
  rcases h with ⟨hb, hnil, rfl⟩ | ⟨hnil, hb, rfl⟩
  · obtain rfl : key = [] := hnil
    exact ⟨Nat.le_of_eq (congrArg (· + 2) hb), ticket, .inr hb,
      .inl ⟨encodes_of_shortest (by decide) hb, rfl⟩⟩
  · obtain rfl : ticket = [] := hnil
    exact ⟨Nat.le_of_eq (congrArg (· + 2) hb), key, .inr hb,
      .inr ⟨encodes_of_shortest (by decide) hb, rfl⟩⟩

/-- **A request that is accepted carries one identity**, in the shortest form, unless it is the tag
of a field with nothing in it. -/
theorem one_identity_iff (bytes : Bytes) :
    ((∀ r, parseCancelRequest bytes = .ok r → r.OneIdentity) ∧
      ∀ r, parseCancelRequest bytes = .ok r ↔ Canonical bytes r) ↔ ¬EmptyIdentity bytes := by
  constructor
  · rintro ⟨hone, -⟩ hempty
    have hnot : ¬({} : CancelRequest).OneIdentity := by decide
    exact hnot (hone _ (parse_of_emptyIdentity hempty))
  · intro hempty
    have hiff (r : CancelRequest) : parseCancelRequest bytes = .ok r ↔ Canonical bytes r := by
      rw [parseCancelRequest_eq_ok]
      constructor
      · rintro ⟨hle, b, hb, h⟩
        rcases hb with rfl | hb
        · exact absurd (emptyIdentity_of_encodes (h.imp And.left And.left)) hempty
        · exact canonical_of_encodes hb hle h
      · exact encodes_of_canonical
    exact ⟨fun r hr ↦ ((hiff r).mp hr).oneIdentity, hiff⟩

/-- The first field, empty: accepted, with no identity at all. -/
theorem not_oneIdentity_empty : ∃ r, parseCancelRequest [0x0a, 0x00] = .ok r ∧ ¬r.OneIdentity :=
  ⟨{}, by decide, by decide⟩

end CancelRequest

/-! ## UploadInput -/

namespace UploadInputRequest

variable {r : UploadInputRequest}

/-- What `parse_upload_input_request` accepts, and what it answers: two identities, in either
order. -/
theorem parseUploadInputRequest_eq_ok : parseUploadInputRequest bytes = .ok r ↔
    bytes.length ≤ 2 * (kSha256Bytes + 2) ∧
      (r.ticket.length = kSha256Bytes ∧ r.streamRef.length = kSha256Bytes) ∧
      (Splits bytes [identityRecord 1 r.ticket, identityRecord 2 r.streamRef] ∨
        Splits bytes [identityRecord 2 r.streamRef, identityRecord 1 r.ticket]) := by
  rw [parseUploadInputRequest]
  simp only [parseUploadInputRecord]
  split_ifs with hsize
  · constructor
    · intro h
      cases h
    · rintro ⟨hle, -, h⟩
      rw [List.isEmpty_iff] at hsize
      rcases hsize with rfl | hlong
      · rcases h with h | h
        · cases Splits.nil.functional h
        · cases Splits.nil.functional h
      · omega
  · rw [not_or, Nat.not_lt] at hsize
    rw [and_iff_right hsize.2, bind_eq_ok]
    constructor
    · rintro ⟨⟨seen, result⟩, hread, h⟩
      obtain ⟨rs, hsplits, hids⟩ := readIdentities_eq_ok.mp hread
      simp only at h
      split_ifs at h with hbad
      rw [not_or, not_or, not_not, not_not, not_not] at hbad
      obtain ⟨hseen, hlengths⟩ := hbad
      obtain rfl := Except.ok.inj h
      refine ⟨hlengths, ?_⟩
      cases hids with
      | none => exact absurd hseen (by decide)
      | first hb => exact absurd hseen (by decide)
      | second hb => exact absurd hseen (by decide)
      | both hb hb' => exact .inl hsplits
      | swapped hb hb' => exact .inr hsplits
    · rintro ⟨⟨hticket, href⟩, h⟩
      have hcheck : (if (3 : UInt64) ≠ 0x3 ∨ r.ticket.length ≠ kSha256Bytes ∨
          r.streamRef.length ≠ kSha256Bytes then
            .error "UploadInput requires a ticket and stream reference"
          else .ok r : Except String UploadInputRequest) = .ok r :=
        if_neg (by simp [hticket, href])
      rcases h with h | h
      · exact ⟨_, readIdentities_eq_ok.mpr
          ⟨_, h, .both (Nat.le_of_eq hticket) (Nat.le_of_eq href)⟩, hcheck⟩
      · exact ⟨_, readIdentities_eq_ok.mpr
          ⟨_, h, .swapped (Nat.le_of_eq hticket) (Nat.le_of_eq href)⟩, hcheck⟩

/-- Two records that fill the bound are in the shortest form. -/
theorem splits_iff {k l : ℕ} {b b' : Bytes} (hk : k < 16) (hl : l < 16)
    (hb : b.length = kSha256Bytes) (hb' : b'.length = kSha256Bytes) :
    (bytes.length ≤ 2 * (kSha256Bytes + 2) ∧ Splits bytes [identityRecord k b, identityRecord l b'])
      ↔ bytes = (8 * k + 2).toUInt8 :: 0x20 :: (b ++ (8 * l + 2).toUInt8 :: 0x20 :: b') := by
  rw [Splits.cons_iff]
  simp only [Splits.singleton_iff]
  constructor
  · rintro ⟨hle, bs, rest, hbs, hrest, rfl⟩
    have hlength := length_le_of_encodes hbs
    have hlength' := length_le_of_encodes hrest
    rw [List.length_append] at hle
    rw [encodes_identityRecord_short_iff hk (by rw [hb]; decide) (by omega)] at hbs
    rw [encodes_identityRecord_short_iff hl (by rw [hb']; decide) (by omega)] at hrest
    rw [hbs, hrest, hb, hb']
    rfl
  · rintro rfl
    refine ⟨?_, _, _, encodes_of_shortest hk hb, encodes_of_shortest hl hb', rfl⟩
    simp only [List.length_cons, List.length_append, hb, hb']
    decide

/-- The two encodings of an upload. -/
def Canonical (bytes : Bytes) (r : UploadInputRequest) : Prop :=
  (r.ticket.length = kSha256Bytes ∧ r.streamRef.length = kSha256Bytes) ∧
    (bytes = 0x0a :: 0x20 :: (r.ticket ++ 0x12 :: 0x20 :: r.streamRef) ∨
      bytes = 0x12 :: 0x20 :: (r.streamRef ++ 0x0a :: 0x20 :: r.ticket))

theorem parse_iff_canonical : parseUploadInputRequest bytes = .ok r ↔ Canonical bytes r := by
  rw [parseUploadInputRequest_eq_ok, Canonical, ← and_assoc, and_comm (b := _ ∧ _), and_assoc]
  refine and_congr_right fun ⟨hticket, href⟩ ↦ ?_
  rw [and_or_left, splits_iff (by decide) (by decide) hticket href,
    splits_iff (by decide) (by decide) href hticket]
  rfl

/-- The shortest form is that of the writer. -/
theorem encode_identityRecord {k : ℕ} {b : Bytes} (hk : k < 16) (hb : b.length = kSha256Bytes) :
    (identityRecord k b).encode = (8 * k + 2).toUInt8 :: 0x20 :: b := by
  have htag : (identityRecord k b).tag.toNat = 8 * k + 2 := Record.toNat_tag_of (by omega) _
  have hpayload : (identityRecord k b).payload.encode = groups b.length ++ b := rfl
  rw [Record.encode, hpayload, htag, hb, groups_of_lt (by omega), groups_of_lt (by decide)]
  rfl

theorem length_of_canonical (h : Canonical bytes r) : bytes.length = 2 * (kSha256Bytes + 2) := by
  obtain ⟨⟨hticket, href⟩, rfl | rfl⟩ := h
  · simp only [List.length_cons, List.length_append, hticket, href]
    rfl
  · simp only [List.length_cons, List.length_append, hticket, href]
    rfl

/-- **An upload has two encodings, and no other is accepted.** So its encoding is determined by the
order of its fields; its numbers are in the shortest form and its fields are the two that there are,
once each; and nothing can follow it. -/
theorem exactly_canonical :
    (∀ bytes r, parseUploadInputRequest bytes = .ok r ↔ Canonical bytes r) ∧
    (∀ bytes bytes' r, parseUploadInputRequest bytes = .ok r →
      parseUploadInputRequest bytes' = .ok r →
      bytes.head? = bytes'.head? → bytes = bytes') ∧
    (∀ bytes r rs, parseUploadInputRequest bytes = .ok r → Splits bytes rs →
      bytes = encodeAll rs ∧ (rs.map Record.field).Perm [1, 2]) ∧
    ∀ bytes r extra r', parseUploadInputRequest bytes = .ok r → extra ≠ [] →
      parseUploadInputRequest (bytes ++ extra) ≠ .ok r' := by
  refine ⟨fun bytes r ↦ parse_iff_canonical, fun bytes bytes' r h h' hhead ↦ ?_,
    fun bytes r rs h hsplits ↦ ?_, fun bytes r extra r' h hextra h' ↦ ?_⟩
  · obtain ⟨-, rfl | rfl⟩ := parse_iff_canonical.mp h
    · obtain ⟨-, rfl | rfl⟩ := parse_iff_canonical.mp h'
      · rfl
      · cases hhead
    · obtain ⟨-, rfl | rfl⟩ := parse_iff_canonical.mp h'
      · cases hhead
      · rfl
  · obtain ⟨hle, ⟨hticket, href⟩, h⟩ := parseUploadInputRequest_eq_ok.mp h
    have hfirst := encode_identityRecord (k := 1) (by decide) hticket
    have hsecond := encode_identityRecord (k := 2) (by decide) href
    rcases h with h | h
    · obtain rfl := hsplits.functional h
      rw [encodeAll, List.flatMap_cons, List.flatMap_singleton, hfirst, hsecond, List.map_cons,
        List.map_singleton, field_identityRecord (by decide), field_identityRecord (by decide)]
      exact ⟨(splits_iff (by decide) (by decide) hticket href).mp ⟨hle, h⟩, by decide⟩
    · obtain rfl := hsplits.functional h
      rw [encodeAll, List.flatMap_cons, List.flatMap_singleton, hfirst, hsecond, List.map_cons,
        List.map_singleton, field_identityRecord (by decide), field_identityRecord (by decide)]
      exact ⟨(splits_iff (by decide) (by decide) href hticket).mp ⟨hle, h⟩, by decide⟩
  · have hlength := length_of_canonical (parse_iff_canonical.mp h)
    have hlength' := length_of_canonical (parse_iff_canonical.mp h')
    rw [List.length_append, hlength] at hlength'
    have hpos := List.length_pos_iff.mpr hextra
    omega

/-- An upload whose stream reference comes first. -/
theorem exactly_canonical_swapped :
    let r : UploadInputRequest := ⟨List.replicate 32 1, List.replicate 32 2⟩
    let bytes := 0x12 :: 0x20 :: (r.streamRef ++ 0x0a :: 0x20 :: r.ticket)
    parseUploadInputRequest bytes = .ok r ∧
      ∀ r', parseUploadInputRequest (bytes ++ [0]) ≠ .ok r' := by
  have haccepted := (exactly_canonical.1 (0x12 :: 0x20 :: (List.replicate 32 2
    ++ 0x0a :: 0x20 :: List.replicate 32 1)) ⟨List.replicate 32 1, List.replicate 32 2⟩).mpr
      ⟨⟨rfl, rfl⟩, .inr rfl⟩
  exact ⟨haccepted, fun r' ↦ exactly_canonical.2.2.2 _ _ _ r' haccepted (List.cons_ne_nil 0 [])⟩

end UploadInputRequest

end MoSidecar
