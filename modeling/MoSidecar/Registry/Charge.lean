import MoSidecar.Protocol.Envelopes
import MoSidecar.Registry.Handles
import MoSidecar.Registry.Tickets

/-!
# The charge in numbers

The charge of an execution is a number of bytes that is computed on 64-bit words. Here it is said
which number, as `chargeBytes`, and that the checked operations answer it or throw: an operation
throws exactly when its own result has no room, and a result that has none leaves none for what is
computed from it. The one exception is the charge for no inputs, where the bytes of one input are
computed all the same.

For a request that the server lets through nothing can overflow, so the lease that was taken for as
many inputs as there may be shrinks to the charge for those there are.
-/

namespace MoSidecar

open Protobuf

/-- The largest `MO_SIDECAR_MAX_BATCH_BYTES` that a server can be configured with. -/
def kMaxConfiguredBatchBytes : UInt64 := 1024 * 1024 * 1024

/-! ## Checked arithmetic as arithmetic -/

/-- A number of bytes as a word, if it has room there. -/
def checked (bytes : ℕ) : Except Thrown UInt64 :=
  if bytes < 2 ^ 64 then .ok (UInt64.ofNat bytes)
  else .error (.exception "stream admission charge overflow")

theorem checked_eq_ok {bytes : ℕ} {x : UInt64} : checked bytes = .ok x ↔ x.toNat = bytes := by
  have hx := x.toNat_lt
  rw [checked]
  split_ifs with hroom
  · rw [Except.ok.injEq, ← UInt64.toNat_inj, UInt64.toNat_ofNat', Nat.mod_eq_of_lt hroom]
    exact eq_comm
  · constructor
    · exact nofun
    · omega

theorem checked_of_not_lt {bytes : ℕ} (h : ¬bytes < 2 ^ 64) :
    checked bytes = .error (.exception "stream admission charge overflow") := if_neg h

/-- Either the word of the number or the exception. -/
theorem checked_cases (bytes : ℕ) :
    checked bytes = .error (.exception "stream admission charge overflow") ∨
      ∃ x, checked bytes = .ok x ∧ x.toNat = bytes := by
  by_cases hroom : bytes < 2 ^ 64
  · have hok : checked bytes = .ok (UInt64.ofNat bytes) := if_pos hroom
    exact .inr ⟨_, hok, checked_eq_ok.mp hok⟩
  · exact .inl (checked_of_not_lt hroom)

theorem exists_checked {bytes : ℕ} (h : bytes < 2 ^ 64) :
    ∃ x, checked bytes = .ok x ∧ x.toNat = bytes :=
  ⟨_, if_pos h, checked_eq_ok.mp (if_pos h)⟩

/-- What is computed from a number without room has no room either, if it is not less. -/
theorem checked_bind {bytes total : ℕ} {f : UInt64 → Except Thrown UInt64} (hle : bytes ≤ total)
    (hf : ∀ x, x.toNat = bytes → f x = checked total) : checked bytes >>= f = checked total := by
  rcases checked_cases bytes with herror | ⟨x, hok, hx⟩
  · have hroom : ¬bytes < 2 ^ 64 := by
      intro hlt
      rw [checked, if_pos hlt] at herror
      cases herror
    rw [herror, checked_of_not_lt (by omega)]
    rfl
  · rw [hok]
    exact hf x hx

/-- What is a word exactly if it is that of `bytes`, and the exception otherwise, is the check. -/
theorem eq_checked {x : Except Thrown UInt64} {bytes : ℕ}
    (hok : ∀ word, x = .ok word ↔ word.toNat = bytes)
    (hcases : x = .error (.exception "stream admission charge overflow") ∨
      ∃ word, x = .ok word) : x = checked bytes := by
  rcases hcases with herror | ⟨word, hword⟩
  · rcases checked_cases bytes with hchecked | ⟨word, -, hword⟩
    · rw [herror, hchecked]
    · rw [(hok word).mpr hword] at herror
      cases herror
  · rw [hword, checked_eq_ok.mpr ((hok word).mp hword)]

theorem checkedAdd_eq (l r : UInt64) : checkedAdd l r = checked (l.toNat + r.toNat) := by
  refine eq_checked (fun _ ↦ checkedAdd_eq_ok) ?_
  rw [checkedAdd]
  split_ifs
  · exact .inl rfl
  · exact .inr ⟨_, rfl⟩

theorem checkedMultiply_eq (l r : UInt64) :
    checkedMultiply l r = checked (l.toNat * r.toNat) := by
  refine eq_checked (fun _ ↦ checkedMultiply_eq_ok) ?_
  rw [checkedMultiply]
  split_ifs
  · exact .inl rfl
  · exact .inr ⟨_, rfl⟩

/-! ## The number -/

/-- The next multiple of the charge's alignment. -/
def alignUp (bytes : ℕ) : ℕ := (bytes + 65535) / 65536 * 65536

theorem alignUp_mono {bytes bytes' : ℕ} (h : bytes ≤ bytes') : alignUp bytes ≤ alignUp bytes' := by
  rw [alignUp, alignUp]
  omega

theorem le_alignUp (bytes : ℕ) : bytes ≤ alignUp bytes := by
  rw [alignUp]
  omega

theorem alignUp_le (bytes : ℕ) : alignUp bytes ≤ bytes + 65535 := by
  rw [alignUp]
  omega

theorem dvd_alignUp (bytes : ℕ) : 65536 ∣ alignUp bytes := Nat.dvd_mul_left _ _

/-- A sum that has no room is aligned to the next multiple, and $2^{64}$ is one. -/
theorem alignCharge_eq (bytes : UInt64) : alignCharge bytes = checked (alignUp bytes.toNat) := by
  have hone : (kChargeAlignment - 1).toNat = 65535 := rfl
  have halignment : kChargeAlignment.toNat = 65536 := rfl
  rw [alignCharge, checkedAdd_eq, hone]
  by_cases hroom : bytes.toNat + 65535 < 2 ^ 64
  · obtain ⟨x, hok, hx⟩ := exists_checked hroom
    rw [hok]
    show checkedMultiply (x / kChargeAlignment) kChargeAlignment = _
    rw [checkedMultiply_eq, UInt64.toNat_div, hx, halignment, alignUp]
  · have halign : ¬alignUp bytes.toNat < 2 ^ 64 := by
      rw [alignUp]
      omega
    rw [checked_of_not_lt hroom, checked_of_not_lt halign]
    rfl

/-- What one input is charged. -/
def perReadBytes (maxInputBatchBytes : ℕ) : ℕ :=
  2 * alignUp (maxInputBatchBytes + 24 + 65536) + 64 * 1024 * 1024

theorem perReadBytes_mono {bytes bytes' : ℕ} (h : bytes ≤ bytes') :
    perReadBytes bytes ≤ perReadBytes bytes' := by
  have hframe : alignUp (bytes + 24 + 65536) ≤ alignUp (bytes' + 24 + 65536) :=
    alignUp_mono (by omega)
  rw [perReadBytes, perReadBytes]
  omega

/-- What is charged whatever the inputs are: for the result and for the request. -/
def fixedBytes (maxBatchBytes requestBytes : ℕ) : ℕ :=
  2 * alignUp (maxBatchBytes + 65536) + 2 * alignUp (requestBytes + 65536)

namespace ExecuteRequest

variable {request smaller : ExecuteRequest} {n m : ℕ}

/-- The charge of an execution, as a number of whatever size. -/
def chargeBytes (request : ExecuteRequest) (n : ℕ) : ℕ :=
  n * perReadBytes request.maxInputBatchBytes.toNat
    + fixedBytes request.maxBatchBytes.toNat
        (request.plan.length + request.resultSchema.length)

/-- Byte strings have sizes of 64 bits. -/
structure Sized (request : ExecuteRequest) : Prop where
  plan_lt : request.plan.length < 2 ^ 64
  resultSchema_lt : request.resultSchema.length < 2 ^ 64

/-! ## The charge is the number

The source's one chain of operations is cut where the bytes of one input are known. -/

/-- The first half of `stream_execution_charge`. -/
def chargePerRead (request : ExecuteRequest) : Except Thrown UInt64 := do
  let header ← checkedAdd request.maxInputBatchBytes kNativeBatchFrameHeaderBytes.toUInt64
  let frame ← checkedAdd header kTransportOverhead
  let inputFrame ← alignCharge frame
  checkedAdd (← checkedMultiply 2 inputFrame) kExpandedInputBytes

/-- The second half. -/
def chargeTotal (request : ExecuteRequest) (n : ℕ) (perRead : UInt64) : Except Thrown UInt64 := do
  let batch ← checkedAdd request.maxBatchBytes kTransportOverhead
  let result ← checkedMultiply 2 (← alignCharge batch)
  let requestBytes ← checkedAdd request.plan.length.toUInt64 request.resultSchema.length.toUInt64
  let transport ← checkedAdd requestBytes kTransportOverhead
  let requestOverlap ← checkedMultiply 2 (← alignCharge transport)
  checkedAdd (← checkedAdd (← checkedMultiply n.toUInt64 perRead) result) requestOverlap

theorem streamExecutionCharge_eq_bind (hn : n ≤ kMaxStreamInputs) :
    streamExecutionCharge request n = request.chargePerRead >>= request.chargeTotal n := by
  rw [streamExecutionCharge, if_neg (Nat.not_lt.mpr hn), chargePerRead]
  simp only [bind_assoc]
  rfl

theorem chargePerRead_eq (request : ExecuteRequest) :
    request.chargePerRead = checked (perReadBytes request.maxInputBatchBytes.toNat) := by
  have hheader : kNativeBatchFrameHeaderBytes.toUInt64.toNat = 24 := rfl
  have htransport : kTransportOverhead.toNat = 65536 := rfl
  have hexpanded : kExpandedInputBytes.toNat = 64 * 1024 * 1024 := rfl
  have htwo : (2 : UInt64).toNat = 2 := rfl
  have hle := le_alignUp (request.maxInputBatchBytes.toNat + 24 + 65536)
  rw [chargePerRead, perReadBytes, checkedAdd_eq, hheader]
  refine checked_bind (by omega) fun header hheader ↦ ?_
  rw [checkedAdd_eq, hheader, htransport]
  refine checked_bind (by omega) fun frame hframe ↦ ?_
  rw [alignCharge_eq, hframe]
  refine checked_bind (by omega) fun inputFrame hinput ↦ ?_
  rw [checkedMultiply_eq, hinput, htwo]
  refine checked_bind (by omega) fun twice htwice ↦ ?_
  rw [checkedAdd_eq, htwice, hexpanded]

theorem chargeTotal_eq (h : request.Sized) (hn : n ≤ kMaxStreamInputs) {perRead : UInt64}
    (hread : perRead.toNat = perReadBytes request.maxInputBatchBytes.toNat) :
    request.chargeTotal n perRead = checked (request.chargeBytes n) := by
  have htransport : kTransportOverhead.toNat = 65536 := rfl
  have htwo : (2 : UInt64).toNat = 2 := rfl
  have hplan : request.plan.length.toUInt64.toNat = request.plan.length := by
    rw [UInt64.toNat_ofNat', Nat.mod_eq_of_lt h.plan_lt]
  have hschema : request.resultSchema.length.toUInt64.toNat = request.resultSchema.length := by
    rw [UInt64.toNat_ofNat', Nat.mod_eq_of_lt h.resultSchema_lt]
  have hinputs : n.toUInt64.toNat = n := by
    have hmax : n ≤ 16 := hn
    rw [UInt64.toNat_ofNat', Nat.mod_eq_of_lt (by omega)]
  have hresult := le_alignUp (request.maxBatchBytes.toNat + 65536)
  have hrequest := le_alignUp (request.plan.length + request.resultSchema.length + 65536)
  rw [chargeTotal, chargeBytes, fixedBytes, checkedAdd_eq, htransport]
  refine checked_bind (by omega) fun batch hbatch ↦ ?_
  rw [alignCharge_eq, hbatch]
  refine checked_bind (by omega) fun aligned haligned ↦ ?_
  rw [checkedMultiply_eq, haligned, htwo]
  refine checked_bind (by omega) fun result hresult ↦ ?_
  rw [checkedAdd_eq, hplan, hschema]
  refine checked_bind (by omega) fun requestBytes hbytes ↦ ?_
  rw [checkedAdd_eq, hbytes, htransport]
  refine checked_bind (by omega) fun transport htransport ↦ ?_
  rw [alignCharge_eq, htransport]
  refine checked_bind (by omega) fun aligned' haligned' ↦ ?_
  rw [checkedMultiply_eq, haligned', htwo]
  refine checked_bind (by omega) fun overlap hoverlap ↦ ?_
  rw [checkedMultiply_eq, hinputs, hread]
  refine checked_bind (by omega) fun reads hreads ↦ ?_
  rw [checkedAdd_eq, hreads, hresult]
  refine checked_bind (by omega) fun both hboth ↦ ?_
  rw [checkedAdd_eq, hboth, hoverlap, Nat.add_assoc]

/-- The charge is the number, unless it or what one input is charged has no room. -/
theorem streamExecutionCharge_eq (h : request.Sized) (hn : n ≤ kMaxStreamInputs) :
    streamExecutionCharge request n =
      if perReadBytes request.maxInputBatchBytes.toNat < 2 ^ 64 then checked (request.chargeBytes n)
      else .error (.exception "stream admission charge overflow") := by
  rw [streamExecutionCharge_eq_bind hn, chargePerRead_eq]
  split_ifs with hroom
  · obtain ⟨perRead, hok, hread⟩ := exists_checked hroom
    rw [hok, ok_bind_eq, chargeTotal_eq h hn hread]
  · rw [checked_of_not_lt hroom]
    rfl

/-- It is the number, or the exception. -/
theorem streamExecutionCharge_cases (h : request.Sized) (hn : n ≤ kMaxStreamInputs) :
    streamExecutionCharge request n = .error (.exception "stream admission charge overflow") ∨
      ∃ x, streamExecutionCharge request n = .ok x ∧ x.toNat = request.chargeBytes n := by
  rw [streamExecutionCharge_eq h hn]
  split_ifs
  · exact checked_cases _
  · exact .inl rfl

/-! ## Requests that are let through -/


/-- The limits of the parser and of `GetFlightInfo` on the sizes of a request. -/
structure Admissible (request : ExecuteRequest) : Prop where
  maxBatchBytes_pos : 0 < request.maxBatchBytes
  maxBatchBytes_le : request.maxBatchBytes ≤ kMaxConfiguredBatchBytes
  maxInputBatchBytes_pos : 0 < request.maxInputBatchBytes
  maxInputBatchBytes_le : request.maxInputBatchBytes ≤ kMaxStreamInputBatchBytes
  plan_le : request.plan.length ≤ kMaxPlanBytes
  resultSchema_le : request.resultSchema.length ≤ kMaxNativeResultSchemaBytes

/-- One request asks for no more than another in any of its sizes. -/
structure SizesLe (smaller request : ExecuteRequest) : Prop where
  maxBatchBytes_le : smaller.maxBatchBytes ≤ request.maxBatchBytes
  maxInputBatchBytes_le : smaller.maxInputBatchBytes ≤ request.maxInputBatchBytes
  plan_le : smaller.plan.length ≤ request.plan.length
  resultSchema_le : smaller.resultSchema.length ≤ request.resultSchema.length

theorem SizesLe.refl (request : ExecuteRequest) : request.SizesLe request :=
  ⟨UInt64.le_refl _, UInt64.le_refl _, Nat.le_refl _, Nat.le_refl _⟩

theorem SizesLe.chargeBytes_le (h : smaller.SizesLe request) (n : ℕ) :
    smaller.chargeBytes n ≤ request.chargeBytes n := by
  have hread := perReadBytes_mono (UInt64.le_iff_toNat_le.mp h.maxInputBatchBytes_le)
  have hbatch := alignUp_mono (Nat.add_le_add_right
    (UInt64.le_iff_toNat_le.mp h.maxBatchBytes_le) 65536)
  have hbytes := alignUp_mono (Nat.add_le_add_right
    (Nat.add_le_add h.plan_le h.resultSchema_le) 65536)
  have hreads := Nat.mul_le_mul_left n hread
  rw [chargeBytes, chargeBytes, fixedBytes, fixedBytes]
  omega

theorem dvd_chargeBytes (request : ExecuteRequest) (n : ℕ) : 65536 ∣ request.chargeBytes n := by
  have hread : 65536 ∣ perReadBytes request.maxInputBatchBytes.toNat :=
    Nat.dvd_add ((dvd_alignUp _).mul_left 2) (by decide)
  have hfixed : 65536 ∣ fixedBytes request.maxBatchBytes.toNat
      (request.plan.length + request.resultSchema.length) :=
    Nat.dvd_add ((dvd_alignUp _).mul_left 2) ((dvd_alignUp _).mul_left 2)
  exact Nat.dvd_add (hread.mul_left n) hfixed

theorem chargeBytes_lt (h : m < n) : request.chargeBytes m < request.chargeBytes n := by
  have hpos : 0 < perReadBytes request.maxInputBatchBytes.toNat := by
    rw [perReadBytes]
    omega
  have hreads := Nat.mul_lt_mul_of_pos_right h hpos
  rw [chargeBytes, chargeBytes]
  omega

/-- At least two frames of each kind are charged, and what an input expands to. -/
theorem le_chargeBytes (request : ExecuteRequest) (n : ℕ) :
    n * (2 * (request.maxInputBatchBytes.toNat + 24 + 65536) + 64 * 1024 * 1024)
        + 2 * (request.maxBatchBytes.toNat + 65536)
        + 2 * (request.plan.length + request.resultSchema.length + 65536)
      ≤ request.chargeBytes n := by
  have hinput := le_alignUp (request.maxInputBatchBytes.toNat + 24 + 65536)
  have hread : 2 * (request.maxInputBatchBytes.toNat + 24 + 65536) + 64 * 1024 * 1024
      ≤ perReadBytes request.maxInputBatchBytes.toNat := by
    rw [perReadBytes]
    omega
  have hreads := Nat.mul_le_mul_left n hread
  have hbatch := le_alignUp (request.maxBatchBytes.toNat + 65536)
  have hbytes := le_alignUp (request.plan.length + request.resultSchema.length + 65536)
  rw [chargeBytes, fixedBytes, ← Nat.add_assoc]
  exact Nat.add_le_add (Nat.add_le_add hreads (Nat.mul_le_mul_left 2 hbatch))
    (Nat.mul_le_mul_left 2 hbytes)

/-- Nothing overflows within the limits, or below them. -/
theorem Admissible.exists_charge (h : request.Admissible) (hle : smaller.SizesLe request)
    (hn : n ≤ kMaxStreamInputs) :
    ∃ x, streamExecutionCharge smaller n = .ok x ∧ x.toNat = smaller.chargeBytes n := by
  have hbatch : request.maxBatchBytes.toNat ≤ 1024 * 1024 * 1024 :=
    UInt64.le_iff_toNat_le.mp h.maxBatchBytes_le
  have hinput : request.maxInputBatchBytes.toNat ≤ 4 * 1024 * 1024 :=
    UInt64.le_iff_toNat_le.mp h.maxInputBatchBytes_le
  have hplan : request.plan.length ≤ 16 * 1024 * 1024 := h.plan_le
  have hschema : request.resultSchema.length ≤ 1024 * 1024 := h.resultSchema_le
  have hmax : n ≤ 16 := hn
  have hframe := alignUp_le (request.maxInputBatchBytes.toNat + 24 + 65536)
  have hresult := alignUp_le (request.maxBatchBytes.toNat + 65536)
  have hrequest := alignUp_le (request.plan.length + request.resultSchema.length + 65536)
  have hread : perReadBytes request.maxInputBatchBytes.toNat < 2 ^ 40 := by
    rw [perReadBytes]
    omega
  have hreads := Nat.mul_le_mul hmax (Nat.le_of_lt hread)
  have htotal : request.chargeBytes n < 2 ^ 64 := by
    rw [chargeBytes, fixedBytes]
    omega
  have hsized : smaller.Sized := by
    have hplan' := hle.plan_le
    have hschema' := hle.resultSchema_le
    exact ⟨by omega, by omega⟩
  have hsmaller := hle.chargeBytes_le n
  have hsmaller' := perReadBytes_mono (UInt64.le_iff_toNat_le.mp hle.maxInputBatchBytes_le)
  rw [streamExecutionCharge_eq hsized hn, if_pos (by omega)]
  exact exists_checked (by omega)

/-- The byte fields of a parsed request are within their bounds. -/
theorem length_le_limit_of_parse {bytes : Bytes} (h : parseExecuteRequest bytes = .ok request)
    {k : ℕ} (hk : 1 ≤ k) (hle : k ≤ 11) : (field k request).size ≤ limit k := by
  obtain ⟨-, rs, -, htakes, hperm, rfl, -, -⟩ := parseExecuteRequest_eq_ok.mp h
  have hmem : k ∈ rs.map fieldKey :=
    hperm.mem_iff.mpr (List.mem_range'_1.mpr ⟨hk, Nat.lt_succ_of_le hle⟩)
  obtain ⟨r, hr, rfl⟩ := List.mem_map.mp hmem
  have hnodup : (rs.map message.key).Nodup := hperm.nodup_iff.mpr List.nodup_range'
  have hfield : field (fieldKey r) (message.fill rs {}) = r.payload :=
    lawful.field_fill htakes hnodup hr
  rw [hfield]
  exact (htakes r hr).fits.2

/-- What `GetFlightInfo` lets through is within the limits. -/
theorem admissible_of_validateRequest {cfg : RegistryConfig} {now : UInt64} {command : Bytes}
    (hcfg : cfg.maxBatchBytes ≤ kMaxConfiguredBatchBytes)
    (h : validateRequest cfg now command = .ok request) : request.Admissible := by
  rw [validateRequest] at h
  cases hparse : parseExecuteRequest command with
  | error what =>
    rw [hparse] at h
    cases h
  | ok parsed =>
    rw [hparse] at h
    simp only at h
    have hplan := length_le_limit_of_parse hparse (k := 6) (by decide) (by decide)
    have hschema := length_le_limit_of_parse hparse (k := 11) (by decide) (by decide)
    split_ifs at h with hkey hversion hhash hbatch hinput hdeadline
    -- The deadline may be cut; the sizes are the parsed ones either way.
    all_goals
      obtain rfl := Except.ok.inj h
      rw [not_or, gt_iff_lt, UInt64.not_lt] at hbatch
      rw [not_or, not_or, gt_iff_lt, UInt64.not_lt] at hinput
      exact ⟨UInt64.pos_iff_ne_zero.mpr hbatch.1, UInt64.le_trans hbatch.2 hcfg,
        UInt64.pos_iff_ne_zero.mpr hinput.1, hinput.2.1, hplan, hschema⟩

end ExecuteRequest

/-! ## The inputs there are -/

/-- `stream_input_registry`, of inputs of type `ι` by their `stream_ref`. -/
structure StreamInputRegistry (ι : Type) where
  inputs : List (Bytes × ι) := []

namespace StreamInputRegistry

variable {ι : Type} {r r' : StreamInputRegistry ι}

/-- `create`, with what the constructor of the input answers. -/
def create (r : StreamInputRegistry ι) (streamRef : Bytes) (constructed : Except Thrown ι) :
    Except Thrown (StreamInputRegistry ι × ι) := do
  let input ← constructed
  if r.inputs.length ≥ kMaxStreamInputs then
    .error (.invalidArgument "StreamRead input count exceeds the supported bound")
  else if r.inputs.any (·.1 = streamRef) then
    .error (.invalidArgument "duplicate StreamRead input identity")
  else .ok ({ inputs := (streamRef, input) :: r.inputs }, input)

/-- What a call of `create` leaves, whether or not it throws. -/
def afterCreate (r : StreamInputRegistry ι) (call : Bytes × Except Thrown ι) :
    StreamInputRegistry ι :=
  match r.create call.1 call.2 with
  | .ok (r', _) => r'
  | .error _ => r

/-- What any calls of `create` leave. -/
def after (calls : List (Bytes × Except Thrown ι)) : StreamInputRegistry ι :=
  calls.foldl afterCreate {}

/-- No more inputs than there may be, each under its own identity. -/
structure Bounded (r : StreamInputRegistry ι) : Prop where
  length_le : r.inputs.length ≤ kMaxStreamInputs
  nodup : (r.inputs.map (·.1)).Nodup

theorem Bounded.create (h : r.Bounded) {streamRef : Bytes} {constructed : Except Thrown ι}
    {input : ι} (hcreate : r.create streamRef constructed = .ok (r', input)) : r'.Bounded := by
  obtain ⟨made, -, hcreate⟩ := bind_eq_ok.mp hcreate
  split_ifs at hcreate with hfull hknown
  obtain ⟨rfl, rfl⟩ := Prod.mk.inj (Except.ok.inj hcreate)
  refine ⟨Nat.lt_of_not_le hfull, List.nodup_cons.mpr ⟨fun hmem ↦ hknown ?_, h.nodup⟩⟩
  obtain ⟨known, hknown', heq⟩ := List.mem_map.mp hmem
  exact List.any_eq_true.mpr ⟨known, hknown', decide_eq_true heq⟩

theorem Bounded.afterCreate (h : r.Bounded) (call : Bytes × Except Thrown ι) :
    (r.afterCreate call).Bounded := by
  rw [StreamInputRegistry.afterCreate]
  split
  · rename_i hcreate
    exact h.create hcreate
  · exact h

theorem bounded_after (calls : List (Bytes × Except Thrown ι)) : (after calls).Bounded := by
  have hfold : ∀ r : StreamInputRegistry ι, r.Bounded → (calls.foldl .afterCreate r).Bounded := by
    induction calls with
    | nil => exact fun r h ↦ h
    | cons call calls ih => exact fun r h ↦ ih _ (h.afterCreate call)
  exact hfold {} ⟨Nat.zero_le _, List.nodup_nil⟩

end StreamInputRegistry

/-! ## Shrinking to them -/

namespace Admission

/-- A lease shrinks to whatever is not more than it owns. -/
theorem Sound.shrink_done {s : Admission} (h : s.Sound) {i : ℕ} {l : Lease}
    (hl : s.lease i = some l) (howner : l.owner = true) {bytes : UInt64}
    (hle : bytes.toNat ≤ l.bytes.toNat) :
    ∃ outcome, s.call (.shrink i bytes) = some outcome ∧ outcome.answer = .done := by
  obtain ⟨a, ha, -⟩ := h.resize hl howner hle
  have hnot : ¬(!l.owner ∨ bytes > l.bytes) := by
    rw [not_or, Bool.not_eq_true', howner, gt_iff_lt, UInt64.lt_iff_toNat_lt, Nat.not_lt]
    exact ⟨nofun, hle⟩
  refine ⟨{ state := ⟨a, s.leases.set i (some { l with bytes := bytes })⟩ }, ?_, rfl⟩
  simp only [call, hl, Option.bind_eq_bind, Option.bind_some, Lease.shrink, if_neg hnot, ha]
  rfl

/-- **The charge is exact**, up to overflow; within the limits of a request it never overflows, is
a multiple of the alignment, and grows with the inputs and with every size; and a lease for as many
inputs as there may be shrinks to the charge for those there are. -/
theorem charge_exact :
    (∀ (cfg : RegistryConfig) (now : UInt64) (command : Bytes) (request : ExecuteRequest),
      cfg.maxBatchBytes ≤ kMaxConfiguredBatchBytes →
      validateRequest cfg now command = .ok request → request.Admissible) ∧
    (∀ (request : ExecuteRequest) (n : ℕ), request.Sized → n ≤ kMaxStreamInputs →
      streamExecutionCharge request n = .error (.exception "stream admission charge overflow") ∨
        ∃ x, streamExecutionCharge request n = .ok x ∧ x.toNat = request.chargeBytes n) ∧
    (∀ (request : ExecuteRequest) (n : ℕ), request.Admissible → n ≤ kMaxStreamInputs →
      ∃ x, streamExecutionCharge request n = .ok x ∧ 65536 ∣ x.toNat ∧
        n * (2 * (request.maxInputBatchBytes.toNat + 24 + 65536) + 64 * 1024 * 1024)
            + 2 * (request.maxBatchBytes.toNat + 65536)
            + 2 * (request.plan.length + request.resultSchema.length + 65536) ≤ x.toNat ∧
        (∀ m < n, ∃ y, streamExecutionCharge request m = .ok y ∧ y < x) ∧
        (∀ smaller : ExecuteRequest, smaller.SizesLe request →
          ∃ y, streamExecutionCharge smaller n = .ok y ∧ y ≤ x)) ∧
    (∀ (capacity : UInt64) (calls : List LeaseCall) (s : Admission) (i : ℕ) (l : Lease)
      (request : ExecuteRequest) (ι : Type) (creates : List (Bytes × Except Thrown ι)),
      run (init capacity) calls = some s → s.lease i = some l → l.owner = true →
      request.Admissible → streamExecutionCharge request kMaxStreamInputs = .ok l.bytes →
      ∃ x outcome,
        streamExecutionCharge request (StreamInputRegistry.after creates).inputs.length = .ok x ∧
          s.call (.shrink i x) = some outcome ∧ outcome.answer = .done) := by
  refine ⟨fun cfg now command request hcfg h ↦ ExecuteRequest.admissible_of_validateRequest hcfg h,
    fun request n hsized hn ↦ ExecuteRequest.streamExecutionCharge_cases hsized hn,
    fun request n h hn ↦ ?_, ?_⟩
  · obtain ⟨x, hcharge, hx⟩ := h.exists_charge (.refl request) hn
    refine ⟨x, hcharge, ?_, ?_, fun m hm ↦ ?_, fun smaller hsmaller ↦ ?_⟩
    · rw [hx]
      exact request.dvd_chargeBytes n
    · rw [hx]
      exact request.le_chargeBytes n
    · obtain ⟨y, hy, hyn⟩ := h.exists_charge (.refl request) (Nat.le_trans (Nat.le_of_lt hm) hn)
      refine ⟨y, hy, ?_⟩
      rw [UInt64.lt_iff_toNat_lt, hx, hyn]
      exact ExecuteRequest.chargeBytes_lt hm
    · obtain ⟨y, hy, hyn⟩ := h.exists_charge hsmaller hn
      refine ⟨y, hy, ?_⟩
      rw [UInt64.le_iff_toNat_le, hx, hyn]
      exact hsmaller.chargeBytes_le n
  · intro capacity calls s i l request ι creates hrun hl howner h hlease
    obtain ⟨hsound, -⟩ := sound_of_run (sound_init capacity) hrun
    have hle := (StreamInputRegistry.bounded_after creates).length_le
    obtain ⟨x, hcharge, hx⟩ := streamExecutionCharge_le hle hlease
    obtain ⟨outcome, hcall, hdone⟩ := hsound.shrink_done hl howner hx
    exact ⟨x, outcome, hcharge, hcall, hdone⟩

/-- A request of one byte for each batch, and the lease for all the inputs it may have. -/
theorem charge_exact_small :
    ∃ x s outcome, run (init 2000000000) [.tryAcquire 1078329344] = some s ∧
      s.call (.shrink 0 x) = some outcome ∧ outcome.answer = .done ∧
      streamExecutionCharge { maxBatchBytes := 1, maxInputBatchBytes := 1 } 1 = .ok x := by
  have hlease : (run (init 2000000000) [.tryAcquire 1078329344]).map (fun s ↦ s.lease 0)
      = some (some ⟨true, 1078329344⟩) := by
    decide
  obtain ⟨s, hrun, hl⟩ := Option.map_eq_some_iff.mp hlease
  obtain ⟨x, outcome, hcharge, hcall, hdone⟩ := charge_exact.2.2.2 2000000000 _ s 0 _
    { maxBatchBytes := 1, maxInputBatchBytes := 1 } Unit [([], .ok ()), ([], .ok ())] hrun hl rfl
    ⟨by decide, by decide, by decide, by decide, by decide, by decide⟩ (by decide)
  exact ⟨x, s, outcome, hrun, hcall, hdone, hcharge⟩

end Admission

end MoSidecar
