import MoSidecar.Protobuf.Writing
import MoSidecar.Protocol.Envelopes
import MoSidecar.StreamInput.Slot

/-!
# Signed reads and acknowledgements on the wire

The writers of `protocol.cpp`. A field of value zero or of no bytes is left out, one field is always
written, and user bytes stand raw in the message; still two different values are never written
alike, because what is written is a list of records of different fields (`Writing`).

`resolve` compares the read that the read service echoes with the one it asked for byte by byte, so
a response it accepts repeats every field of the request.
-/

namespace MoSidecar

open Protobuf

/-! ## The writers -/

/-- `append_varint`. -/
def appendVarint (output : Bytes) (value : ℕ) : Bytes :=
  if value ≥ 0x80 then appendVarint (output ++ [(value % 0x80 + 0x80).toUInt8]) (value / 0x80)
  else output ++ [value.toUInt8]

/-- `append_uint`. -/
def appendUint (output : Bytes) (field : ℕ) (value : UInt64) : Bytes :=
  if value = 0 then output
  else appendVarint (appendVarint output (field * 8)) value.toNat

/-- `append_required_uint`. -/
def appendRequiredUint (output : Bytes) (field : ℕ) (value : UInt64) : Bytes :=
  appendVarint (appendVarint output (field * 8)) value.toNat

/-- `append_bytes`. -/
def appendBytes (output : Bytes) (field : ℕ) (value : Bytes) : Bytes :=
  if value.isEmpty then output
  else appendVarint (appendVarint output (field * 8 + 2)) value.length ++ value

theorem appendVarint_eq (output : Bytes) (value : ℕ) :
    appendVarint output value = output ++ groups value := by
  induction value using groups.induct generalizing output with
  | case1 value h =>
    rw [appendVarint, if_neg (Nat.not_le.mpr h), groups_of_lt h]
  | case2 value h ih =>
    rw [appendVarint, if_pos (Nat.le_of_not_lt h), ih, groups_of_not_lt h, List.append_assoc,
      List.singleton_append]

/-- What the writers of a number write. -/
theorem appendNumber_eq {field : ℕ} (hfield : field < 2 ^ 32) (output : Bytes) (value : UInt64) :
    appendVarint (appendVarint output (field * 8)) value.toNat
      = output ++ encodeAll [Record.of field (.varint value)] := by
  rw [appendVarint_eq, appendVarint_eq, List.append_assoc, encodeAll, List.flatMap_singleton,
    Record.encode, Record.toNat_tag_of hfield, Payload.wireType, Nat.add_zero, Nat.mul_comm 8]
  rfl

theorem appendRequiredUint_eq {field : ℕ} (hfield : field < 2 ^ 32) (output : Bytes)
    (value : UInt64) :
    appendRequiredUint output field value
      = output ++ encodeAll (Entry.records ⟨field, true, .varint value⟩) := by
  rw [appendRequiredUint, appendNumber_eq hfield, Entry.records, if_neg]
  simp

theorem appendUint_eq {field : ℕ} (hfield : field < 2 ^ 32) (output : Bytes) (value : UInt64) :
    appendUint output field value
      = output ++ encodeAll (Entry.records ⟨field, false, .varint value⟩) := by
  have hzero : value = 0 ↔ value.toNat = 0 := by rw [← UInt64.toNat_inj, UInt64.toNat_zero]
  rw [appendUint, Entry.records]
  by_cases h : value.toNat = 0
  · rw [if_pos (hzero.mpr h), if_pos ⟨h, rfl⟩, encodeAll, List.flatMap_nil, List.append_nil]
  · rw [if_neg (mt hzero.mp h), if_neg (fun hd ↦ h hd.1), appendNumber_eq hfield]

theorem appendBytes_eq {field : ℕ} (hfield : field < 2 ^ 32) (output value : Bytes) :
    appendBytes output field value
      = output ++ encodeAll (Entry.records ⟨field, false, .bytes value⟩) := by
  rw [appendBytes, Entry.records]
  by_cases h : value = []
  · rw [if_pos (List.isEmpty_iff.mpr h), if_pos ⟨List.length_eq_zero_iff.mpr h, rfl⟩, encodeAll,
      List.flatMap_nil, List.append_nil]
  · rw [if_neg (mt List.isEmpty_iff.mp h), if_neg (fun hd ↦ h (List.length_eq_zero_iff.mp hd.1)),
      appendVarint_eq, appendVarint_eq, encodeAll, List.flatMap_singleton, Record.encode,
      Record.toNat_tag_of hfield, Payload.wireType, Nat.mul_comm 8]
    simp only [List.append_assoc]
    rfl

/-! ## Signed reads -/

/-- The fields of `tae_read` that are serialized, the integers as wide as the writers take them. -/
structure TaeRead where
  protocolVersion : UInt64 := 0
  featureBits : UInt64 := 0
  readRef : Bytes := []
  queryId : Bytes := []
  accountId : UInt64 := 0
  tableId : UInt64 := 0
  snapshotTs : Bytes := []
  schemaDigest : Bytes := []
  manifestSha256 : Bytes := []
  capabilityHash : Bytes := []
  expiresAtUnixMs : UInt64 := 0
  databaseId : UInt64 := 0
  deriving DecidableEq

/-- The fields of `stream_read` that are serialized. -/
structure StreamRead where
  protocolVersion : UInt64 := 0
  featureBits : UInt64 := 0
  streamRef : Bytes := []
  queryId : Bytes := []
  accountId : UInt64 := 0
  snapshotTs : Bytes := []
  schemaDigest : Bytes := []
  capabilityHash : Bytes := []
  expiresAtUnixMs : UInt64 := 0
  deriving DecidableEq

/-- `serialize_tae_read`. -/
def serializeTaeRead (request : TaeRead) : Bytes :=
  let output := appendUint [] 1 request.protocolVersion
  let output := appendUint output 2 request.featureBits
  let output := appendBytes output 3 request.readRef
  let output := appendBytes output 4 request.queryId
  let output := appendRequiredUint output 5 request.accountId
  let output := appendUint output 6 request.tableId
  let output := appendBytes output 7 request.snapshotTs
  let output := appendBytes output 8 request.schemaDigest
  let output := appendBytes output 9 request.manifestSha256
  let output := appendBytes output 10 request.capabilityHash
  let output := appendUint output 11 request.expiresAtUnixMs
  appendUint output 12 request.databaseId

/-- `serialize_stream_read`. -/
def serializeStreamRead (request : StreamRead) : Bytes :=
  let output := appendUint [] 1 request.protocolVersion
  let output := appendUint output 2 request.featureBits
  let output := appendBytes output 3 request.streamRef
  let output := appendBytes output 4 request.queryId
  let output := appendRequiredUint output 5 request.accountId
  let output := appendBytes output 6 request.snapshotTs
  let output := appendBytes output 7 request.schemaDigest
  let output := appendBytes output 8 request.capabilityHash
  appendUint output 9 request.expiresAtUnixMs

/-- `serialize_resolve_request`. -/
def serializeResolveRequest (request : TaeRead) (requestedSchema : Bytes) : Bytes :=
  appendBytes (appendBytes [] 1 (serializeTaeRead request)) 2 requestedSchema

/-- `serialize_upload_input_ack`. -/
def serializeUploadInputAck (ack : UploadInputAck) : Bytes :=
  let output := appendUint [] 1 ack.acknowledgedBatches
  let output := appendUint output 2 ack.rows
  let output := appendUint output 3 ack.bytes
  let output := if ack.complete then appendUint output 4 1 else output
  let output := if ack.notNeeded then appendUint output 5 1 else output
  if ack.ready then appendUint output 6 1 else output

/-! ## Their entries -/

/-- The fields of a read, in the order they are written. -/
def TaeRead.entries (r : TaeRead) : List Entry :=
  [⟨1, false, .varint r.protocolVersion⟩, ⟨2, false, .varint r.featureBits⟩,
    ⟨3, false, .bytes r.readRef⟩, ⟨4, false, .bytes r.queryId⟩, ⟨5, true, .varint r.accountId⟩,
    ⟨6, false, .varint r.tableId⟩, ⟨7, false, .bytes r.snapshotTs⟩,
    ⟨8, false, .bytes r.schemaDigest⟩, ⟨9, false, .bytes r.manifestSha256⟩,
    ⟨10, false, .bytes r.capabilityHash⟩, ⟨11, false, .varint r.expiresAtUnixMs⟩,
    ⟨12, false, .varint r.databaseId⟩]

def StreamRead.entries (r : StreamRead) : List Entry :=
  [⟨1, false, .varint r.protocolVersion⟩, ⟨2, false, .varint r.featureBits⟩,
    ⟨3, false, .bytes r.streamRef⟩, ⟨4, false, .bytes r.queryId⟩, ⟨5, true, .varint r.accountId⟩,
    ⟨6, false, .bytes r.snapshotTs⟩, ⟨7, false, .bytes r.schemaDigest⟩,
    ⟨8, false, .bytes r.capabilityHash⟩, ⟨9, false, .varint r.expiresAtUnixMs⟩]

def resolveEntries (request : TaeRead) (requestedSchema : Bytes) : List Entry :=
  [⟨1, false, .bytes (serializeTaeRead request)⟩, ⟨2, false, .bytes requestedSchema⟩]

/-- A flag is written as the number one. -/
def flagPayload (b : Bool) : Payload := .varint b.toUInt64

def UploadInputAck.entries (ack : UploadInputAck) : List Entry :=
  [⟨1, false, .varint ack.acknowledgedBatches⟩, ⟨2, false, .varint ack.rows⟩,
    ⟨3, false, .varint ack.bytes⟩, ⟨4, false, flagPayload ack.complete⟩,
    ⟨5, false, flagPayload ack.notNeeded⟩, ⟨6, false, flagPayload ack.ready⟩]

theorem serializeTaeRead_eq (r : TaeRead) :
    serializeTaeRead r = encodeAll (r.entries.flatMap Entry.records) := by
  simp (disch := decide) only [serializeTaeRead, appendUint_eq, appendRequiredUint_eq,
    appendBytes_eq, TaeRead.entries, List.flatMap_cons, List.flatMap_nil, encodeAll_append,
    List.append_assoc, List.nil_append, List.append_nil]

theorem serializeStreamRead_eq (r : StreamRead) :
    serializeStreamRead r = encodeAll (r.entries.flatMap Entry.records) := by
  simp (disch := decide) only [serializeStreamRead, appendUint_eq, appendRequiredUint_eq,
    appendBytes_eq, StreamRead.entries, List.flatMap_cons, List.flatMap_nil, encodeAll_append,
    List.append_assoc, List.nil_append, List.append_nil]

theorem serializeResolveRequest_eq (request : TaeRead) (requestedSchema : Bytes) :
    serializeResolveRequest request requestedSchema
      = encodeAll ((resolveEntries request requestedSchema).flatMap Entry.records) := by
  simp (disch := decide) only [serializeResolveRequest, appendBytes_eq, resolveEntries,
    List.flatMap_cons, List.flatMap_nil, encodeAll_append, List.nil_append, List.append_nil]

theorem appendFlag_eq {field : ℕ} (hfield : field < 2 ^ 32) (output : Bytes) (b : Bool) :
    (if b then appendUint output field 1 else output)
      = output ++ encodeAll (Entry.records ⟨field, false, flagPayload b⟩) := by
  cases b with
  | false => exact (List.append_nil output).symm
  | true => exact appendUint_eq hfield output 1

theorem serializeUploadInputAck_eq (ack : UploadInputAck) :
    serializeUploadInputAck ack = encodeAll (ack.entries.flatMap Entry.records) := by
  simp (disch := decide) only [serializeUploadInputAck, appendFlag_eq]
  simp (disch := decide) only [appendUint_eq, UploadInputAck.entries, List.flatMap_cons,
    List.flatMap_nil, encodeAll_append, List.append_assoc, List.nil_append, List.append_nil]

/-! ## Different values are written differently -/

theorem TaeRead.entries_injective : Function.Injective TaeRead.entries := by
  intro a b h
  cases a
  cases b
  simpa [TaeRead.entries] using h

theorem serializeTaeRead_injective : Function.Injective serializeTaeRead := by
  refine Entry.injective_of_entries serializeTaeRead_eq (fun a b ↦ ?_)
    (fun r ↦ by simp [TaeRead.entries]) (fun r ↦ by simp [TaeRead.entries])
    TaeRead.entries_injective
  repeat' first | exact .nil | refine .cons ⟨rfl, rfl, rfl⟩ ?_

theorem StreamRead.entries_injective : Function.Injective StreamRead.entries := by
  intro a b h
  cases a
  cases b
  simpa [StreamRead.entries] using h

theorem serializeStreamRead_injective : Function.Injective serializeStreamRead := by
  refine Entry.injective_of_entries serializeStreamRead_eq (fun a b ↦ ?_)
    (fun r ↦ by simp [StreamRead.entries]) (fun r ↦ by simp [StreamRead.entries])
    StreamRead.entries_injective
  repeat' first | exact .nil | refine .cons ⟨rfl, rfl, rfl⟩ ?_

theorem flagPayload_injective : Function.Injective flagPayload := by
  intro a b h
  cases a <;> cases b <;> first | rfl | exact absurd h (by decide)

theorem UploadInputAck.entries_injective : Function.Injective UploadInputAck.entries := by
  intro a b h
  cases a
  cases b
  simpa [UploadInputAck.entries, flagPayload_injective.eq_iff] using h

theorem serializeUploadInputAck_injective : Function.Injective serializeUploadInputAck := by
  refine Entry.injective_of_entries serializeUploadInputAck_eq (fun a b ↦ ?_)
    (fun r ↦ by simp [UploadInputAck.entries]) (fun r ↦ by simp [UploadInputAck.entries])
    UploadInputAck.entries_injective
  repeat' first | exact .nil | refine .cons ⟨rfl, rfl, rfl⟩ ?_

theorem serializeResolveRequest_injective2 : Function.Injective2 serializeResolveRequest := by
  intro a b s t h
  rw [serializeResolveRequest_eq, serializeResolveRequest_eq] at h
  have halike : List.Forall₂ Entry.Alike (resolveEntries a s) (resolveEntries b t) := by
    repeat' first | exact .nil | refine .cons ⟨rfl, rfl, rfl⟩ ?_
  have hentries := Entry.eq_of_encodeAll_eq halike (by simp [resolveEntries])
    (by simp [resolveEntries]) h
  obtain ⟨hread, hschema⟩ : serializeTaeRead a = serializeTaeRead b ∧ s = t := by
    simpa [resolveEntries] using hentries
  exact ⟨serializeTaeRead_injective hread, hschema⟩

/-! ## The echo check -/

/-- `substrait_execution_error`, by its code. -/
inductive ReadError where
  | authenticationFailed (message : String)
  | readResolutionFailed (message : String)
  deriving DecidableEq

/-- What a resolver is bound to, and the services it uses. -/
structure Resolver where
  queryId : Bytes
  accountId : UInt64
  capabilityHash : Bytes
  sha256Bytes : Bytes → Bytes
  /-- `call_read_service`: it throws a `substrait_execution_error` or another exception. -/
  callReadService : Bytes → Except (ReadError ⊕ String) Bytes
  /-- Whether `ParseFromString` takes the bytes for a schema. -/
  parsesSchema : Bytes → Bool

/-- `resolve` on a `TaeRead`, up to the manifest file: the response that passes its checks.
`requestedSchema` is the schema serialized, or nothing when that fails. -/
def Resolver.resolve (resolver : Resolver) (request : TaeRead) (requestedSchema : Option Bytes) :
    Except ReadError ResolveResponse :=
  if request.queryId ≠ resolver.queryId ∨ request.accountId ≠ resolver.accountId then
    .error (.authenticationFailed "TaeRead identity does not match the Flight execution")
  else if request.capabilityHash ≠ resolver.capabilityHash then
    .error (.authenticationFailed "TaeRead capability hash does not match this sidecar")
  else match requestedSchema with
  | none => .error (.readResolutionFailed "cannot serialize the requested TAE schema")
  | some requestedSchemaBytes =>
    if resolver.sha256Bytes requestedSchemaBytes ≠ request.schemaDigest then
      .error (.authenticationFailed "TaeRead schema digest does not match the requested schema")
    else
      let canonicalRead := serializeTaeRead request
      let wireRequest := serializeResolveRequest request requestedSchemaBytes
      match resolver.callReadService wireRequest with
      | .error (.inl error) => .error error
      | .error (.inr message) =>
        .error (.readResolutionFailed ("invalid MatrixOne read response: " ++ message))
      | .ok body =>
        match parseResolveResponse body with
        | .error message =>
          .error (.readResolutionFailed ("invalid MatrixOne read response: " ++ message))
        | .ok response =>
          if response.taeRead ≠ canonicalRead then
            .error (.authenticationFailed
              "MatrixOne read response does not echo the requested TaeRead")
          else if resolver.sha256Bytes response.manifest ≠ request.manifestSha256 then
            .error (.authenticationFailed
              "MatrixOne read response has the wrong manifest digest")
          else if response.canonicalSchema ≠ requestedSchemaBytes ∨
              resolver.sha256Bytes response.canonicalSchema ≠ request.schemaDigest then
            .error (.authenticationFailed
              "MatrixOne read response has the wrong canonical schema")
          else if !resolver.parsesSchema response.canonicalSchema then
            .error (.readResolutionFailed
              "MatrixOne read response contains a malformed canonical schema")
          else .ok response

/-- What a response that passes the checks says. -/
structure Resolver.Accepts (resolver : Resolver) (request : TaeRead) (requestedSchema : Bytes)
    (response : ResolveResponse) : Prop where
  taeRead_eq : response.taeRead = serializeTaeRead request
  manifest_digest : resolver.sha256Bytes response.manifest = request.manifestSha256
  canonicalSchema_eq : response.canonicalSchema = requestedSchema
  schema_digest : resolver.sha256Bytes response.canonicalSchema = request.schemaDigest

theorem Resolver.accepts_of_resolve {resolver : Resolver} {request : TaeRead}
    {requestedSchema : Option Bytes} {response : ResolveResponse}
    (h : resolver.resolve request requestedSchema = .ok response) :
    ∃ schema, requestedSchema = some schema ∧ resolver.Accepts request schema response := by
  unfold resolve at h
  split_ifs at h
  split at h
  · cases h
  · split_ifs at h
    simp only at h
    split at h
    · cases h
    · cases h
    · split at h
      · cases h
      · split_ifs at h with hecho hmanifest hschema hparse
        obtain rfl := Except.ok.inj h
        rw [not_or, not_not, not_not] at hschema
        exact ⟨_, rfl, not_not.mp hecho, not_not.mp hmanifest, hschema.1, hschema.2⟩

/-- A read of one reference, with digests that are the bytes themselves. -/
def oneRead : TaeRead := { readRef := [1], schemaDigest := [2], manifestSha256 := [3] }

/-- A service that answers it. -/
def oneResolver : Resolver where
  queryId := []
  accountId := 0
  capabilityHash := []
  sha256Bytes := id
  callReadService _ := .ok [0x0a, 0x0b, 0x1a, 0x01, 0x01, 0x28, 0x00, 0x42, 0x01, 0x02, 0x4a, 0x01,
    0x03, 0x12, 0x01, 0x03, 0x1a, 0x01, 0x02]
  parsesSchema _ := true

end MoSidecar
