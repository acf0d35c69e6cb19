import Mathlib

/-!
# The wire format of requests

The strict protobuf reader of `protocol.cpp` and the message that starts an execution. A reader is
the part of the input it has not consumed yet, so its position is never past the end; every read
answers with the value and the rest.

The parsing loop runs while input is left, and each of its rounds reads at least one tag byte. It is
given as many rounds as there are bytes, which `parseExecuteRecord_length_lt` shows to be enough.
-/

namespace MoSidecar

/-- A `std::string` or a buffer: bytes, of any content. -/
abbrev Bytes := List UInt8

instance : LawfulBEq Bytes := inferInstance

def kProtocolVersion : UInt32 := 4
def kSubstraitVersion : Bytes := [0x30, 0x2e, 0x37, 0x38, 0x2e, 0x30]
def kSha256Bytes : ℕ := 32
def kMaxPlanBytes : ℕ := 16 * 1024 * 1024
def kMaxStreamInputs : ℕ := 16
def kMaxStreamInputBatchBytes : UInt64 := 4 * 1024 * 1024
def kNativeBatchCodecVersion : UInt32 := 1
def kNativeBatchFrameHeaderBytes : ℕ := 24
def kMaxNativeResultSchemaBytes : ℕ := 1024 * 1024

/-! ## The reader -/

/-- The loop of `wire_reader::varint`: `left` more bytes may be read, the next one supplies the bits
from `shift` on. -/
def varintLoop : ℕ → UInt64 → UInt64 → Bytes → Except String (UInt64 × Bytes)
  | 0, _, _, _ => .error "overflowing protobuf varint"
  | _ + 1, _, _, [] => .error "truncated protobuf varint"
  | left + 1, shift, value, byte :: rest =>
    if shift = 63 ∧ byte > 1 then .error "overflowing protobuf varint"
    else
      let value := value ||| ((byte &&& 0x7f).toUInt64 <<< shift)
      if byte &&& 0x80 = 0 then .ok (value, rest)
      else varintLoop left (shift + 7) value rest

/-- `wire_reader::varint`. -/
def varint (input : Bytes) : Except String (UInt64 × Bytes) := varintLoop 10 0 0 input

/-- `wire_reader::bytes`. -/
def wireBytes (maximum : ℕ) (input : Bytes) : Except String (Bytes × Bytes) := do
  let (length, rest) ← varint input
  if length.toNat > maximum ∨ length.toNat > rest.length then
    .error "invalid protobuf bytes length"
  else .ok (rest.take length.toNat, rest.drop length.toNat)

/-- `expect_field`: the field number of a tag is read into 32 bits. -/
def expectField (tag : UInt64) (maximum : UInt32) (seen : UInt64) : Except String UInt64 :=
  let field := (tag >>> 3).toUInt32
  if field = 0 ∨ field > maximum then .error "unknown protobuf field"
  else
    let mask : UInt64 := 1 <<< (field - 1).toUInt64
    if seen &&& mask ≠ 0 then .error "duplicate protobuf field"
    else .ok (seen ||| mask)

/-! ## ExecuteSubstrait -/

/-- `execute_request`. -/
structure ExecuteRequest where
  protocolVersion : UInt32 := 0
  substraitVersion : Bytes := []
  capabilityHash : Bytes := []
  maxBatchBytes : UInt64 := 0
  deadlineUnixMs : UInt64 := 0
  plan : Bytes := []
  queryId : Bytes := []
  idempotencyKey : Bytes := []
  accountId : UInt64 := 0
  maxInputBatchBytes : UInt64 := 0
  resultSchema : Bytes := []
  /-- Not on the wire: the digest of the whole command. -/
  fingerprint : Bytes := []
  deriving DecidableEq

/-- The wire type a field of an `ExecuteSubstrait` message must have. -/
def executeWireType (field : UInt32) : UInt32 :=
  if field == 1 || field == 4 || field == 5 || field == 9 || field == 10 then 0 else 2

/-- The value of one field, stored into the request; the rest of the input. -/
def parseExecuteField (field : ℕ) (input : Bytes) (result : ExecuteRequest) :
    Except String (Bytes × ExecuteRequest) :=
  match field with
  | 1 => do
    let (value, rest) ← varint input
    if value.toNat ≥ 2 ^ 32 then .error "protocol version overflows uint32"
    else .ok (rest, { result with protocolVersion := value.toUInt32 })
  | 2 => do
    let (value, rest) ← wireBytes 64 input
    .ok (rest, { result with substraitVersion := value })
  | 3 => do
    let (value, rest) ← wireBytes kSha256Bytes input
    .ok (rest, { result with capabilityHash := value })
  | 4 => do
    let (value, rest) ← varint input
    .ok (rest, { result with maxBatchBytes := value })
  | 5 => do
    let (value, rest) ← varint input
    .ok (rest, { result with deadlineUnixMs := value })
  | 6 => do
    let (value, rest) ← wireBytes kMaxPlanBytes input
    .ok (rest, { result with plan := value })
  | 7 => do
    let (value, rest) ← wireBytes 16 input
    .ok (rest, { result with queryId := value })
  | 8 => do
    let (value, rest) ← wireBytes kSha256Bytes input
    .ok (rest, { result with idempotencyKey := value })
  | 9 => do
    let (value, rest) ← varint input
    .ok (rest, { result with accountId := value })
  | 10 => do
    let (value, rest) ← varint input
    .ok (rest, { result with maxInputBatchBytes := value })
  | 11 => do
    let (value, rest) ← wireBytes kMaxNativeResultSchemaBytes input
    .ok (rest, { result with resultSchema := value })
  | _ => .error "unknown ExecuteSubstrait field"

/-- One round of the loop of `parse_execute_request`. -/
def parseExecuteRecord (input : Bytes) (seen : UInt64) (result : ExecuteRequest) :
    Except String (Bytes × UInt64 × ExecuteRequest) := do
  let (tag, rest) ← varint input
  let seen ← expectField tag 11 seen
  let field := (tag >>> 3).toUInt32
  let wire := (tag &&& 7).toUInt32
  if wire ≠ executeWireType field then .error "wrong protobuf wire type"
  else do
    let (rest, result) ← parseExecuteField field.toNat rest result
    .ok (rest, seen, result)

/-- The loop of `parse_execute_request`, for at most the given number of rounds. -/
def parseExecuteRecords :
    ℕ → Bytes → UInt64 → ExecuteRequest → Except String (UInt64 × ExecuteRequest)
  | _, [], seen, result => .ok (seen, result)
  | 0, _ :: _, _, _ => .error "unconsumed ExecuteSubstrait input"
  | rounds + 1, input@(_ :: _), seen, result => do
    let (rest, seen, result) ← parseExecuteRecord input seen result
    parseExecuteRecords rounds rest seen result

/-- `parse_execute_request`. -/
def parseExecuteRequest (bytes : Bytes) : Except String ExecuteRequest :=
  if bytes.isEmpty ∨ bytes.length > kMaxPlanBytes + kMaxNativeResultSchemaBytes + 4096 then
    .error "ExecuteSubstrait request is empty or too large"
  else do
    let (seen, result) ← parseExecuteRecords bytes.length bytes 0 {}
    if seen ≠ 0x7ff ∨ result.queryId.length ≠ 16 ∨
        result.idempotencyKey.length ≠ kSha256Bytes then
      .error "ExecuteSubstrait request is missing a field"
    else .ok result

/-! ## MO native batch frames -/

/-- The eight bytes of a 64-bit value, the least significant first. -/
def u64Bytes (value : UInt64) : Bytes :=
  (List.range 8).map fun i ↦ (value >>> (8 * i).toUInt64).toUInt8

/-- `serialize_native_batch_frame`: the magic, the codec version, two flag bytes, the sequence, the
payload length and the payload. -/
def serializeNativeBatchFrame (sequence : UInt64) (payload : Bytes) : Except String Bytes :=
  if sequence = 0 ∨ payload.isEmpty then
    .error "MO native batch frame requires a sequence and payload"
  else
    .ok (([0x4d, 0x4f, 0x42, 0x31] : Bytes)
      ++ [kNativeBatchCodecVersion.toUInt8, (kNativeBatchCodecVersion >>> 8).toUInt8, 0, 0]
      ++ u64Bytes sequence ++ u64Bytes payload.length.toUInt64 ++ payload)

/-- `native_batch_frame`. -/
structure NativeBatchFrame where
  sequence : UInt64
  payload : Bytes
  deriving DecidableEq

/-- `read_u16`. -/
def readU16 (bytes : Bytes) (offset : ℕ) : UInt16 :=
  (bytes.getD offset 0).toUInt16 ||| (bytes.getD (offset + 1) 0).toUInt16 <<< 8

/-- `read_u64`. -/
def readU64 (bytes : Bytes) (offset : ℕ) : UInt64 :=
  (List.range 8).foldl
    (fun value i ↦ value ||| (bytes.getD (offset + i) 0).toUInt64 <<< (8 * i).toUInt64) 0

/-- `parse_native_batch_frame`. -/
def parseNativeBatchFrame (bytes : Bytes) : Except String NativeBatchFrame :=
  if bytes.length < kNativeBatchFrameHeaderBytes ∨ bytes.take 4 ≠ [0x4d, 0x4f, 0x42, 0x31] then
    .error "invalid MO native batch frame magic or length"
  else if (readU16 bytes 4).toNat ≠ kNativeBatchCodecVersion.toNat ∨ readU16 bytes 6 ≠ 0 then
    .error "unsupported MO native batch frame version or flags"
  else
    let sequence := readU64 bytes 8
    let payloadSize := readU64 bytes 16
    if sequence = 0 ∨ payloadSize = 0 ∨ payloadSize > kMaxStreamInputBatchBytes ∨
        payloadSize.toNat ≠ bytes.length - kNativeBatchFrameHeaderBytes then
      .error "invalid MO native batch frame sequence or payload length"
    else .ok ⟨sequence, bytes.drop kNativeBatchFrameHeaderBytes⟩

/-- The first rounds of `read_u64` over the bytes of a value leave its low part. -/
theorem readU64_rounds (before after : Bytes) (value : UInt64) {n : ℕ} (hn : n ≤ 8) :
    ((List.range n).foldl (fun acc i ↦ acc |||
      ((before ++ u64Bytes value ++ after).getD (before.length + i) 0).toUInt64
        <<< (8 * i).toUInt64) 0).toNat = value.toNat % 2 ^ (8 * n) := by
  induction n with
  | zero => simp [Nat.mod_one]
  | succ n ih =>
    have hshift : ((8 * n).toUInt64.toNat) % 64 = 8 * n := by
      rw [Nat.toUInt64_eq, UInt64.toNat_ofNat']
      omega
    have hbyte : (before ++ u64Bytes value ++ after).getD (before.length + n) 0
        = (value >>> (8 * n).toUInt64).toUInt8 := by
      have hlen : (u64Bytes value).length = 8 := by simp [u64Bytes]
      rw [List.getD_eq_getElem?_getD, List.append_assoc, List.getElem?_append_right (by omega),
        Nat.add_sub_cancel_left, List.getElem?_append_left (by omega)]
      simp [u64Bytes, show n < 8 by omega]
    rw [List.range_succ, List.foldl_append, List.foldl_cons, List.foldl_nil, UInt64.toNat_or,
      ih (by omega), hbyte]
    refine Nat.eq_of_testBit_eq fun j ↦ ?_
    have hhigh : ¬j < 64 → value.toNat.testBit j = false := fun hj ↦
      Nat.testBit_lt_two_pow
        (Nat.lt_of_lt_of_le value.toNat_lt (Nat.pow_le_pow_right (by decide) (Nat.le_of_not_lt hj)))
    simp only [UInt64.toNat_shiftLeft, UInt8.toNat_toUInt64, UInt64.toNat_toUInt8,
      UInt64.toNat_shiftRight, hshift, Nat.testBit_or, Nat.testBit_mod_two_pow,
      Nat.testBit_shiftLeft, Nat.testBit_shiftRight]
    by_cases hlow : j < 8 * n
    · simp [hlow, show ¬8 * n ≤ j by omega, show j < 8 * (n + 1) by omega]
    · rw [show 8 * n + (j - 8 * n) = j by omega]
      by_cases hj : j < 64
      · simp [hlow, hj, show 8 * n ≤ j by omega, show j - 8 * n < 8 ↔ j < 8 * (n + 1) by omega]
      · simp [hhigh hj]

theorem readU64_u64Bytes (before after : Bytes) (value : UInt64) :
    readU64 (before ++ u64Bytes value ++ after) before.length = value := by
  refine UInt64.toNat_inj.mp ?_
  rw [readU64, readU64_rounds before after value (n := 8) (by omega)]
  exact Nat.mod_eq_of_lt value.toNat_lt

/-- A frame that was serialized parses back. -/
theorem parseNativeBatchFrame_serialize {sequence : UInt64} {payload : Bytes}
    (hsequence : sequence ≠ 0) (hpayload : payload ≠ [])
    (hmax : payload.length ≤ kMaxStreamInputBatchBytes.toNat) :
    ∃ bytes, serializeNativeBatchFrame sequence payload = .ok bytes ∧
      bytes.length = kNativeBatchFrameHeaderBytes + payload.length ∧
        parseNativeBatchFrame bytes = .ok ⟨sequence, payload⟩ := by
  have hsize : payload.length.toUInt64.toNat = payload.length := by
    rw [Nat.toUInt64_eq, UInt64.toNat_ofNat']
    have hlt : kMaxStreamInputBatchBytes.toNat < 2 ^ 64 := kMaxStreamInputBatchBytes.toNat_lt
    exact Nat.mod_eq_of_lt (Nat.lt_of_le_of_lt hmax hlt)
  have hpos : payload.length ≠ 0 := fun h ↦ hpayload (List.length_eq_zero_iff.mp h)
  obtain ⟨header, hheader⟩ : ∃ header : Bytes, header =
      ([0x4d, 0x4f, 0x42, 0x31] : Bytes)
        ++ [kNativeBatchCodecVersion.toUInt8, (kNativeBatchCodecVersion >>> 8).toUInt8, 0, 0] :=
    ⟨_, rfl⟩
  have hlen : header.length = 8 := by rw [hheader]; rfl
  have hlen64 : ∀ value, (u64Bytes value).length = 8 := fun value ↦ by simp [u64Bytes]
  refine ⟨header ++ u64Bytes sequence ++ u64Bytes payload.length.toUInt64 ++ payload, ?_, ?_, ?_⟩
  · rw [serializeNativeBatchFrame, if_neg (by simp [hsequence, hpayload]), hheader]
  · simp only [List.length_append, hlen, hlen64, kNativeBatchFrameHeaderBytes]
  · have hseq : readU64 (header ++ u64Bytes sequence ++ u64Bytes payload.length.toUInt64
        ++ payload) 8 = sequence := by
      rw [← hlen, List.append_assoc (header ++ _), readU64_u64Bytes]
    have hpay : readU64 (header ++ u64Bytes sequence ++ u64Bytes payload.length.toUInt64
        ++ payload) 16 = payload.length.toUInt64 := by
      have h16 : (header ++ u64Bytes sequence).length = 16 := by
        rw [List.length_append, hlen, hlen64]
      rw [← h16, readU64_u64Bytes]
    have hdrop : (header ++ u64Bytes sequence ++ u64Bytes payload.length.toUInt64
        ++ payload).drop kNativeBatchFrameHeaderBytes = payload := by
      refine List.drop_left' ?_
      rw [List.length_append, List.length_append, hlen, hlen64, hlen64]
      rfl
    have hne : payload.length.toUInt64 ≠ 0 := fun h ↦ hpos (by rw [← hsize, h]; rfl)
    have hle : ¬payload.length.toUInt64 > kMaxStreamInputBatchBytes := by
      rw [gt_iff_lt, UInt64.lt_iff_toNat_lt, hsize]
      omega
    rw [parseNativeBatchFrame, if_neg, if_neg]
    · simp only [hseq, hpay, hdrop, hsize]
      rw [if_neg]
      simp only [hsequence, hne, hle, false_or, not_not, List.length_append, hlen, hlen64,
        kNativeBatchFrameHeaderBytes]
      omega
    · rw [hheader]
      simp only [List.append_assoc, List.cons_append, List.nil_append]
      simp [readU16, kNativeBatchCodecVersion]
    · rw [not_or, Nat.not_lt, not_not]
      refine ⟨?_, ?_⟩
      · simp only [List.length_append, hlen, hlen64, kNativeBatchFrameHeaderBytes]
        omega
      · rw [hheader]
        simp

/-! ## Every round of the parsing loop consumes input -/

/-- Peeling a step of a computation that can throw. -/
theorem ok_bind_eq {ε α β : Type} (a : α) (f : α → Except ε β) : Except.ok a >>= f = f a := rfl

theorem bind_eq_ok {ε α β : Type} {x : Except ε α} {f : α → Except ε β} {b : β} :
    x >>= f = .ok b ↔ ∃ a, x = .ok a ∧ f a = .ok b := by
  cases x with
  | error e => simp [bind, Except.bind]
  | ok a => simp [bind, Except.bind]

theorem varintLoop_length_lt {left : ℕ} {shift value v : UInt64} {input rest : Bytes}
    (h : varintLoop left shift value input = .ok (v, rest)) : rest.length < input.length := by
  induction left generalizing shift value input with
  | zero => simp [varintLoop] at h
  | succ left ih =>
    cases input with
    | nil => simp [varintLoop] at h
    | cons byte tail =>
      rw [varintLoop] at h
      split_ifs at h with hover hlast
      · obtain ⟨-, rfl⟩ : _ ∧ tail = rest := by simpa using h
        simp
      · have := ih h
        rw [List.length_cons]
        omega

theorem varint_length_lt {input rest : Bytes} {v : UInt64} (h : varint input = .ok (v, rest)) :
    rest.length < input.length := varintLoop_length_lt h

theorem wireBytes_length_lt {maximum : ℕ} {input value rest : Bytes}
    (h : wireBytes maximum input = .ok (value, rest)) : rest.length < input.length := by
  obtain ⟨⟨length, tail⟩, htail, h⟩ := bind_eq_ok.mp h
  have hlt := varint_length_lt htail
  simp only at h
  split_ifs at h
  obtain ⟨-, rfl⟩ : _ ∧ tail.drop length.toNat = rest := by simpa using h
  rw [List.length_drop]
  omega

theorem parseExecuteField_length_lt {field : ℕ} {input rest : Bytes} {r r' : ExecuteRequest}
    (h : parseExecuteField field input r = .ok (rest, r')) : rest.length < input.length := by
  unfold parseExecuteField at h
  split at h
  case h_12 => cases h
  all_goals
    obtain ⟨⟨value, tail⟩, htail, h⟩ := bind_eq_ok.mp h
    simp only at h
    try split_ifs at h
    obtain ⟨rfl, -⟩ : tail = rest ∧ _ := by simpa using h
    first | exact varint_length_lt htail | exact wireBytes_length_lt htail

theorem parseExecuteRecord_length_lt {input rest : Bytes} {seen seen' : UInt64}
    {r r' : ExecuteRequest} (h : parseExecuteRecord input seen r = .ok (rest, seen', r')) :
    rest.length < input.length := by
  obtain ⟨⟨tag, afterTag⟩, htag, h⟩ := bind_eq_ok.mp h
  obtain ⟨seen'', -, h⟩ := bind_eq_ok.mp h
  simp only at h
  split_ifs at h
  obtain ⟨⟨afterField, r''⟩, hfield, h⟩ := bind_eq_ok.mp h
  obtain ⟨rfl, -, -⟩ : afterField = rest ∧ _ ∧ _ := by simpa using h
  exact Nat.lt_trans (parseExecuteField_length_lt hfield) (varint_length_lt htag)

/-- As many rounds as there are bytes are enough: more make no difference. -/
theorem parseExecuteRecords_rounds {rounds : ℕ} {input : Bytes} {seen : UInt64}
    {r : ExecuteRequest} (h : input.length ≤ rounds) :
    parseExecuteRecords rounds input seen r = parseExecuteRecords input.length input seen r := by
  induction rounds using Nat.strongRecOn generalizing input seen r with
  | ind rounds ih =>
    cases input with
    | nil => cases rounds <;> rfl
    | cons byte tail =>
      cases rounds with
      | zero => simp at h
      | succ rounds =>
        rw [List.length_cons] at h ⊢
        rw [parseExecuteRecords, parseExecuteRecords]
        cases hrec : parseExecuteRecord (byte :: tail) seen r with
        | error e => rfl
        | ok out =>
          obtain ⟨rest, seen', r'⟩ := out
          have hlt := parseExecuteRecord_length_lt hrec
          rw [List.length_cons] at hlt
          simp only [bind, Except.bind]
          rw [ih rounds (by omega) (by omega)]
          by_cases htail : tail.length = rounds
          · subst htail
            exact (ih tail.length (by omega) (by omega)).symm
          · exact (ih tail.length (by omega) (by omega)).symm

end MoSidecar
