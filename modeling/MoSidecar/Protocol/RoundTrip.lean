import MoSidecar.Protocol.Serialization

/-!
# Decoding undoes encoding

A command and a response of the read service, written record by record in whatever order, parse back
to the values they were written from. The bound on the size of a command never stands in the way:
its fields are bounded one by one, and what their tags and lengths add is far below the margin.
-/

namespace MoSidecar

open Protobuf

namespace ExecuteRequest

/-- The records of a request. -/
def records (r : ExecuteRequest) : List Record :=
  [.of 1 (.varint r.protocolVersion.toUInt64), .of 2 (.bytes r.substraitVersion),
    .of 3 (.bytes r.capabilityHash), .of 4 (.varint r.maxBatchBytes),
    .of 5 (.varint r.deadlineUnixMs), .of 6 (.bytes r.plan), .of 7 (.bytes r.queryId),
    .of 8 (.bytes r.idempotencyKey), .of 9 (.varint r.accountId),
    .of 10 (.varint r.maxInputBatchBytes), .of 11 (.bytes r.resultSchema)]

/-- The limits of the parser on the fields of a request. -/
structure WithinLimits (r : ExecuteRequest) : Prop where
  substraitVersion_le : r.substraitVersion.length ≤ 64
  capabilityHash_le : r.capabilityHash.length ≤ kSha256Bytes
  plan_le : r.plan.length ≤ kMaxPlanBytes
  queryId_eq : r.queryId.length = 16
  idempotencyKey_eq : r.idempotencyKey.length = kSha256Bytes
  resultSchema_le : r.resultSchema.length ≤ kMaxNativeResultSchemaBytes

theorem records_eq (r : ExecuteRequest) :
    r.records = (List.range' 1 11).map fun k ↦ Record.of k (field k r) := rfl

theorem fits_field {r : ExecuteRequest} (h : r.WithinLimits) {k : ℕ} (hk : 1 ≤ k) (hle : k ≤ 11) :
    message.Fits k (field k r) := by
  have hnumber (v : UInt64) : v.toNat ≤ 2 ^ 64 - 1 := Nat.le_pred_of_lt v.toNat_lt
  interval_cases k
  · refine ⟨rfl, ?_⟩
    have := r.protocolVersion.toNat_lt
    rw [field, Payload.size, UInt32.toNat_toUInt64, limit]
    omega
  · exact ⟨rfl, h.substraitVersion_le⟩
  · exact ⟨rfl, h.capabilityHash_le⟩
  · exact ⟨rfl, hnumber _⟩
  · exact ⟨rfl, hnumber _⟩
  · exact ⟨rfl, h.plan_le⟩
  · exact ⟨rfl, h.queryId_eq.le⟩
  · exact ⟨rfl, h.idempotencyKey_eq.le⟩
  · exact ⟨rfl, hnumber _⟩
  · exact ⟨rfl, hnumber _⟩
  · exact ⟨rfl, h.resultSchema_le⟩

theorem limit_lt (k : ℕ) : limit k < 2 ^ 64 := by
  unfold limit
  split <;> decide

theorem reads {r : ExecuteRequest} (h : r.WithinLimits) {ks : List ℕ}
    (hperm : ks.Perm (List.range' 1 11)) : message.Reads field r ks := by
  refine .of_perm hperm (fun k p hk hle ↦ ?_) (by decide) (fun k ↦ fits_field h)
    fun k hk hle ↦ ?_
  · have hle : k ≤ 11 := hle
    have hfield := Record.field_of (k := k) (by omega) p
    exact (congrArg (· % 2 ^ 32) hfield).trans (Nat.mod_eq_of_lt (by omega))
  · have hsize := (fits_field h hk hle).2
    exact Nat.lt_of_le_of_lt (Nat.le_trans (Payload.length_contents_le_size _) hsize) (limit_lt k)

/-- The records of a request fit the size of a command. -/
theorem length_encodeAll_records_le {r : ExecuteRequest} (h : r.WithinLimits) :
    (encodeAll r.records).length ≤ kMaxPlanBytes + kMaxNativeResultSchemaBytes + 4096 := by
  have hlengths : ∀ record ∈ r.records, record.payload.contents.length < 2 ^ 64 := by
    intro record hrecord
    rw [records_eq] at hrecord
    obtain ⟨k, hk, rfl⟩ := List.mem_map.mp hrecord
    exact (reads h (.refl _)).length_lt k hk
  have hle := length_encodeAll_le hlengths
  have hsum : (r.records.map (·.payload.contents.length)).sum
      = r.substraitVersion.length + (r.capabilityHash.length + (r.plan.length +
        (r.queryId.length + (r.idempotencyKey.length + r.resultSchema.length)))) := by
    simp [records, Record.of, Payload.contents]
  have hcount : r.records.length = 11 := rfl
  have hversion := h.substraitVersion_le
  have hhash := h.capabilityHash_le
  have hplan := h.plan_le
  have hquery := h.queryId_eq
  have hkey := h.idempotencyKey_eq
  have hschema := h.resultSchema_le
  rw [kSha256Bytes] at hhash hkey
  omega

theorem parse_encodeAll {r : ExecuteRequest} (h : r.WithinLimits) {rs : List Record}
    (hperm : rs.Perm r.records) :
    parseExecuteRequest (encodeAll rs) = .ok { r with fingerprint := [] } := by
  have hsize := length_encodeAll_records_le h
  rw [← length_encodeAll_perm hperm] at hsize
  rw [records_eq] at hperm
  obtain ⟨ks, hks, rfl⟩ := Message.exists_perm_range hperm
  have hreads := reads h hks
  have hrenders : message.Renders field {} r _ := hreads.renders_of_perm hks {}
  have hfill : message.fill (ks.map fun k ↦ Record.of k (field k r)) {}
      = { r with fingerprint := [] } := by
    refine eq_of_field_eq (fun k hk hle ↦ ?_) (fill_fingerprint _ _)
    rw [lawful.field_fill_of_renders hrenders hk hle]
    unfold field
    split <;> rfl
  refine parseExecuteRequest_eq_ok.mpr ⟨⟨?_, hsize⟩, _, hreads.splits, hrenders.takes, ?_,
    hfill.symm, h.queryId_eq, h.idempotencyKey_eq⟩
  · exact Message.encodeAll_ne_nil_of_perm (T := message) hks (by decide)
  · exact hreads.map_key.symm ▸ hks

end ExecuteRequest

namespace ResolveResponse

/-- The records of a response. -/
def records (r : ResolveResponse) : List Record :=
  [.of 1 (.bytes r.taeRead), .of 2 (.bytes r.manifest), .of 3 (.bytes r.canonicalSchema)]

/-- The limits of the parser on the fields of a response. -/
structure WithinLimits (r : ResolveResponse) : Prop where
  taeRead_ne : r.taeRead ≠ []
  taeRead_le : r.taeRead.length ≤ 16 * 1024
  manifest_ne : r.manifest ≠ []
  manifest_le : r.manifest.length ≤ kMaxResponseBytes
  canonicalSchema_ne : r.canonicalSchema ≠ []
  canonicalSchema_le : r.canonicalSchema.length ≤ 1024 * 1024

theorem records_eq (r : ResolveResponse) :
    r.records = (List.range' 1 3).map fun k ↦ Record.of k (field k r) := rfl

theorem fits_field {r : ResolveResponse} (h : r.WithinLimits) {k : ℕ} (hk : 1 ≤ k) (hle : k ≤ 3) :
    message.Fits k (field k r) := by
  interval_cases k
  · exact ⟨rfl, h.taeRead_le⟩
  · exact ⟨rfl, h.manifest_le⟩
  · exact ⟨rfl, h.canonicalSchema_le⟩

theorem limit_lt (k : ℕ) : limit k < 2 ^ 64 := by
  unfold limit
  split <;> decide

theorem reads {r : ResolveResponse} (h : r.WithinLimits) {ks : List ℕ}
    (hperm : ks.Perm (List.range' 1 3)) : message.Reads field r ks := by
  refine .of_perm hperm (fun k p hk hle ↦ ?_) (by decide) (fun k ↦ fits_field h)
    fun k hk hle ↦ ?_
  · have hle : k ≤ 3 := hle
    exact Record.field_of (by omega) p
  · have hsize := (fits_field h hk hle).2
    exact Nat.lt_of_le_of_lt (Nat.le_trans (Payload.length_contents_le_size _) hsize) (limit_lt k)

theorem parse_encodeAll_iff {r : ResolveResponse} (h : r.WithinLimits) {rs : List Record}
    (hperm : rs.Perm r.records) :
    parseResolveResponse (encodeAll rs) = .ok r ↔ (encodeAll rs).length ≤ kMaxResponseBytes := by
  rw [records_eq] at hperm
  obtain ⟨ks, hks, rfl⟩ := Message.exists_perm_range hperm
  have hreads := reads h hks
  have hrenders : message.Renders field {} r _ := hreads.renders_of_perm hks {}
  have hfill : message.fill (ks.map fun k ↦ Record.of k (field k r)) {} = r :=
    eq_of_field_eq fun k hk hle ↦ lawful.field_fill_of_renders hrenders hk hle
  constructor
  · intro hparse
    exact (parseResolveResponse_eq_ok.mp hparse).1.2
  · intro hsize
    refine parseResolveResponse_eq_ok.mpr ⟨⟨?_, hsize⟩, _, hreads.splits, hrenders.takes, ?_,
      hfill.symm, h.taeRead_ne, h.manifest_ne, h.canonicalSchema_ne⟩
    · exact Message.encodeAll_ne_nil_of_perm (T := message) hks (by decide)
    · exact hreads.map_key.symm ▸ hks

end ResolveResponse

/-- A command within the limits parses back from its records in any order, and its size is never
too large; so does a response of the read service, unless its own size is. -/
theorem envelope_round_trip :
    (∀ (r : ExecuteRequest) (rs : List Record), r.WithinLimits → rs.Perm r.records →
      parseExecuteRequest (encodeAll rs) = .ok { r with fingerprint := [] }) ∧
    ∀ (r : ResolveResponse) (rs : List Record), r.WithinLimits → rs.Perm r.records →
      (parseResolveResponse (encodeAll rs) = .ok r ↔
        (encodeAll rs).length ≤ kMaxResponseBytes) := by
  constructor
  · intro r rs h hperm
    exact ExecuteRequest.parse_encodeAll h hperm
  · intro r rs h hperm
    exact ResolveResponse.parse_encodeAll_iff h hperm

/-- A command of empty fields but for its identities. -/
def emptyCommand : ExecuteRequest :=
  { queryId := List.replicate 16 1, idempotencyKey := List.replicate 32 1 }

/-- It parses back from its records in reverse order, and so does a response of three bytes. -/
theorem envelope_round_trip_reverse :
    parseExecuteRequest (encodeAll emptyCommand.records.reverse) = .ok emptyCommand ∧
    (parseResolveResponse (encodeAll (ResolveResponse.mk [1] [2] [3]).records.reverse)
      = .ok ⟨[1], [2], [3]⟩ ↔
        (encodeAll (ResolveResponse.mk [1] [2] [3]).records.reverse).length ≤
          kMaxResponseBytes) := by
  constructor
  · refine envelope_round_trip.1 emptyCommand _ ?_ (List.reverse_perm _)
    exact ⟨by decide, by decide, by decide, by decide, by decide, by decide⟩
  · refine envelope_round_trip.2 ⟨[1], [2], [3]⟩ _ ?_ (List.reverse_perm _)
    exact ⟨by decide, by decide, by decide, by decide, by decide, by decide⟩

end MoSidecar
