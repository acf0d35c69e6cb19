import MoSidecar.Config.Runtime
import MoSidecar.Protocol.RoundTrip
import MoSidecar.Registry.Charge
import MoSidecar.Server.Accounting

/-!
# How much capacity a server needs

Whatever inputs a request has, its preparation starts with a lease for as many as there may be. So
there is a number of bytes below which nothing is ever prepared, and
`MO_SIDECAR_STREAM_INPUT_CAPACITY_BYTES` may be set to less: the loader accepts 64 MiB, and the
smallest request asks for more than a GiB. Of the capacity that a server is started with as a
default, one preparation at a time has room.
-/

open Function (update)

namespace MoSidecar

/-- What a server registers executions with, once it is started. -/
def RuntimeConfig.registry (config : RuntimeConfig) (sha256 : Bytes → Bytes)
    (capabilityDocument : Bytes) : RegistryConfig where
  maxActiveTickets := config.maxActiveTickets.toNat
  maxBatchBytes := config.maxBatchBytes
  ticketTtlMs := config.ticketTtlMs
  streamInputCapacityBytes := config.streamInputCapacityBytes
  sha256 := sha256
  capabilityHash := sha256 capabilityDocument

/-- The bytes that the preparation of any request asks for. -/
def leastReservation : ℕ := kMaxStreamInputs * perReadBytes 1 + fixedBytes 1 0

example : leastReservation = 1078329344 := rfl

namespace ExecuteRequest

variable {request : ExecuteRequest} {cfg : RegistryConfig} {command : Bytes} {lease : UInt64}

theorem Admissible.leastReservation_le (h : request.Admissible) :
    leastReservation ≤ request.chargeBytes kMaxStreamInputs := by
  have hbatch : 0 < request.maxBatchBytes.toNat := UInt64.lt_iff_toNat_lt.mp h.maxBatchBytes_pos
  have hinput : 0 < request.maxInputBatchBytes.toNat :=
    UInt64.lt_iff_toNat_lt.mp h.maxInputBatchBytes_pos
  have hread : perReadBytes 1 ≤ perReadBytes request.maxInputBatchBytes.toNat :=
    perReadBytes_mono hinput
  have hresult : alignUp (1 + 65536) ≤ alignUp (request.maxBatchBytes.toNat + 65536) :=
    alignUp_mono (by omega)
  have hoverlap : alignUp (0 + 65536)
      ≤ alignUp (request.plan.length + request.resultSchema.length + 65536) :=
    alignUp_mono (by omega)
  rw [leastReservation, chargeBytes, fixedBytes, fixedBytes]
  exact Nat.add_le_add (Nat.mul_le_mul_left _ hread)
    (Nat.add_le_add (Nat.mul_le_mul_left 2 hresult) (Nat.mul_le_mul_left 2 hoverlap))

/-- A lease for as many inputs as there may be is not smaller. -/
theorem leastReservation_le_lease (hcfg : cfg.maxBatchBytes ≤ kMaxConfiguredBatchBytes)
    (hrequested : Requested cfg command request)
    (hcharge : streamExecutionCharge request kMaxStreamInputs = .ok lease) :
    leastReservation ≤ lease.toNat := by
  obtain ⟨now, hvalid⟩ := hrequested
  have hadmissible := admissible_of_validateRequest hcfg hvalid
  obtain ⟨x, hx, hsize⟩ := hadmissible.exists_charge (.refl request) (Nat.le_refl _)
  obtain rfl := Except.ok.inj (hcharge.symm.trans hx)
  rw [hsize]
  exact hadmissible.leastReservation_le

end ExecuteRequest

/-! ## The smallest request -/

section Smallest

variable {cfg : RegistryConfig}

/-- A request that asks for as little as any. -/
def smallestRequest (cfg : RegistryConfig) : ExecuteRequest where
  protocolVersion := kProtocolVersion
  substraitVersion := kSubstraitVersion
  capabilityHash := cfg.capabilityHash
  maxBatchBytes := 1
  deadlineUnixMs := 1
  plan := []
  queryId := List.replicate 16 0
  idempotencyKey := executionIdempotencyKey cfg 0 (List.replicate 16 0)
  accountId := 0
  maxInputBatchBytes := 1
  resultSchema := []

/-- Its command. -/
def smallestCommand (cfg : RegistryConfig) : Bytes :=
  Protobuf.encodeAll (smallestRequest cfg).records

/-- What `GetFlightInfo` makes of it, at the beginning of time. -/
def smallestPrepared (cfg : RegistryConfig) : ExecuteRequest :=
  { smallestRequest cfg with
    fingerprint := cfg.sha256 (smallestCommand cfg)
    deadlineUnixMs := if 1 > cfg.ticketTtlMs then cfg.ticketTtlMs else 1 }

theorem validate_smallestCommand (hsha : ∀ bytes, (cfg.sha256 bytes).length = kSha256Bytes)
    (hhash : cfg.capabilityHash.length = kSha256Bytes) (hbatch : 1 ≤ cfg.maxBatchBytes) :
    validateRequest cfg 0 (smallestCommand cfg) = .ok (smallestPrepared cfg) := by
  have hversionSize : kSubstraitVersion.length ≤ 64 := by decide
  have hlimits : (smallestRequest cfg).WithinLimits :=
    ⟨hversionSize, hhash.le, Nat.zero_le _, rfl, hsha _, Nat.zero_le _⟩
  have hone : (1 : UInt64) ≠ 0 := by decide
  have hinput : ¬(1 : UInt64) > kMaxStreamInputBatchBytes := by decide
  have hroom : ¬(1 : UInt64) > cfg.maxBatchBytes := UInt64.not_lt.mpr hbatch
  have hdeadline : ¬(1 : UInt64) ≤ 0 := by decide
  have hversion : ¬((smallestRequest cfg).protocolVersion ≠ kProtocolVersion ∨
      (smallestRequest cfg).substraitVersion ≠ kSubstraitVersion) :=
    not_or.mpr ⟨not_not_intro rfl, not_not_intro rfl⟩
  rw [validateRequest, smallestCommand, ExecuteRequest.parse_encodeAll hlimits (.refl _)]
  refine (if_neg (not_not_intro rfl)).trans ((if_neg hversion).trans
    ((if_neg (not_not_intro rfl)).trans ((if_neg (not_or.mpr ⟨hone, hroom⟩)).trans
      ((if_neg (not_or.mpr ⟨hone, not_or.mpr ⟨hinput, hroom⟩⟩)).trans
        ((if_neg hdeadline).trans ?_)))))
  rw [UInt64.zero_add]
  rfl

theorem charge_smallestPrepared : ∃ lease,
    streamExecutionCharge (smallestPrepared cfg) kMaxStreamInputs = .ok lease ∧
      lease.toNat = leastReservation := by
  have hpos : (0 : UInt64) < 1 := by decide
  have hbatch : (1 : UInt64) ≤ kMaxConfiguredBatchBytes := by decide
  have hinput : (1 : UInt64) ≤ kMaxStreamInputBatchBytes := by decide
  have hadmissible : (smallestPrepared cfg).Admissible :=
    ⟨hpos, hbatch, hpos, hinput, Nat.zero_le _, Nat.zero_le _⟩
  exact hadmissible.exists_charge (.refl _) (Nat.le_refl _)

end Smallest

/-! ## Capacity that is too small -/

namespace StreamAdmissionController

variable (a : StreamAdmissionController) {a' : StreamAdmissionController} {held bytes : UInt64}

theorem capacityBytes_of_shrink (h : a.shrink held bytes = .ok a') :
    a'.capacityBytes = a.capacityBytes := by
  rw [shrink] at h
  split_ifs at h
  obtain rfl := Except.ok.inj h
  rfl

theorem capacityBytes_tryAcquire : (a.tryAcquire bytes).1.capacityBytes = a.capacityBytes := by
  rw [tryAcquire]
  split_ifs <;> rfl

/-- What is granted is not more than the capacity. -/
theorem le_capacity_of_granted (h : (a.tryAcquire bytes).2 = true) :
    bytes.toNat ≤ a.capacityBytes.toNat := by
  have hmin : min a.capacityBytes a.currentBytes ≤ a.capacityBytes := by
    show (if a.capacityBytes ≤ a.currentBytes then a.capacityBytes else a.currentBytes) ≤ _
    split_ifs with hle
    · exact UInt64.le_refl _
    · exact UInt64.le_of_lt (UInt64.not_le.mp hle)
  rw [tryAcquire] at h
  split_ifs at h with hfull
  rw [gt_iff_lt, UInt64.not_lt, UInt64.le_iff_toNat_le, UInt64.toNat_sub_of_le _ _ hmin] at hfull
  omega

end StreamAdmissionController

namespace TicketRegistry

variable {cfg : RegistryConfig} {s r : TicketRegistry} {g : RegistryCall} {a : RegistryAnswer}
  {calls : List RegistryCall} {b : Building}

theorem capacityBytes_of_construct {T : Bytes} {built : Except Thrown ℕ} :
    (s.construct b T built).1.admission.capacityBytes = s.admission.capacityBytes := by
  cases built with
  | error what => rfl
  | ok streamInputs =>
    simp only [construct]
    split
    · rfl
    · next bytes admission hshrunk =>
      obtain ⟨bytes', -, hshrunk⟩ := bind_eq_ok.mp hshrunk
      obtain ⟨admission', hshrink, hpair⟩ := bind_eq_ok.mp hshrunk
      obtain ⟨rfl, rfl⟩ := Prod.mk.inj (Except.ok.inj hpair)
      exact s.admission.capacityBytes_of_shrink hshrink

/-- No section of the registry changes the capacity. -/
theorem capacityBytes_of_exec (h : s.exec cfg g a = some (r, calls)) :
    r.admission.capacityBytes = s.admission.capacityBytes := by
  cases effect_of_exec h with
  | refused hfails hcapacity hcurrent => exact hcapacity
  | reserved hadmitted => exact s.admission.capacityBytes_tryAcquire
  | built =>
    exact (congrArg (·.1.admission.capacityBytes) (Option.some.inj h)).symm.trans
      capacityBytes_of_construct
  | _ => rfl

/-- A preparation that is reserved is that of the call. -/
theorem building_of_prepare {command : Bytes} {request : ExecuteRequest}
    (h : (s.prepare cfg command request).2 = [.drawTicket b]) :
    b.command = command ∧ b.request = request := by
  rw [prepare] at h
  split_ifs at h
  cases hrecord : s.idempotency.lookup request.idempotencyKey with
  | none =>
    rw [hrecord] at h
    rcases prepareFresh_cases s cfg command request with
      ⟨b', hcommand, hrequest, -, -, heq⟩ | ⟨outcome, admission, -, -, heq⟩
    · have hcalls := h.symm.trans (congrArg Prod.snd heq)
      obtain rfl := RegistryCall.drawTicket.inj (List.head_eq_of_cons_eq hcalls)
      exact ⟨hcommand, hrequest⟩
    · cases h.symm.trans (congrArg Prod.snd heq)
  | some record =>
    simp only [hrecord, prepareReplay] at h
    split_ifs at h
    · cases List.head_eq_of_cons_eq h
    · split at h
      · cases h
      · cases List.head_eq_of_cons_eq h

/-- Only a preparation that is admitted reserves anything. -/
theorem reservations_of_exec (h : s.exec cfg g a = some (r, calls)) :
    r.reservations = s.reservations ∨
      ∃ b, g = .prepare b.command b.request ∧ Admitted cfg s b := by
  cases effect_of_exec h with
  | @reserved command request b hadmitted =>
    obtain ⟨hcommand, hrequest⟩ := building_of_prepare (congrArg Prod.snd (Option.some.inj h))
    exact .inr ⟨b, by rw [hcommand, hrequest], hadmitted⟩
  | _ => exact .inl rfl

/-- Nothing is ever reserved, if the capacity is too small for it. -/
theorem unreserved_rests (cfg : RegistryConfig) (ι : Type*)
    (hcfg : cfg.maxBatchBytes ≤ kMaxConfiguredBatchBytes)
    (hsmall : cfg.streamInputCapacityBytes.toNat < leastReservation) :
    Program.Rests (program cfg ι) holding (fun s n ↦ s.Invariant cfg n)
      (fun _ f s ↦ s.Knows cfg f) (fun b : Empty ↦ b.elim)
      (fun s _ ↦ s.admission.capacityBytes = cfg.streamInputCapacityBytes ∧ s.reservations = 0)
      fun _ _ _ ↦ True where
  call {s t f s' n m} _ hs hcall := by
    have hsame : s'.admission = s.admission ∧ s'.reservations = s.reservations := by
      cases f with
      | doGet T =>
        obtain rfl := Option.some.inj hcall
        split_ifs <;> exact ⟨rfl, rfl⟩
      | getFlightInfo | lookup | cancelAndJoin | cancelAndJoinIdempotency | sealGpuUnavailable
      | stopAdmissionAndCancel | reap =>
        obtain rfl := Option.some.inj hcall
        exact ⟨rfl, rfl⟩
      | _ => cases hcall
    rw [hsame.1, hsame.2]
    exact ⟨hs, trivial, fun _ _ _ _ ↦ trivial⟩
  exec {s t f k s' new n m} _ hknows hs _ hexec := by
    have hcapacity := capacityBytes_of_exec hexec
    refine ⟨⟨hcapacity.trans hs.1, ?_⟩, fun _ _ ↦ trivial, fun _ _ _ _ ↦ trivial⟩
    rcases reservations_of_exec hexec with hsame | ⟨b, rfl, hadmitted⟩
    · exact hsame.trans hs.2
    · have hlease := ExecuteRequest.leastReservation_le_lease hcfg hknows hadmitted.charge
      have hle := s.admission.le_capacity_of_granted hadmitted.granted
      rw [hs.1] at hle
      omega
  ambient {s a s' n m} _ hs ha := by
    refine ⟨?_, fun _ _ _ _ ↦ trivial⟩
    cases a with
    | remove T =>
      obtain rfl := Option.some.inj ha
      obtain ⟨hadmission, hreservations⟩ : (s.remove T).admission = s.admission ∧
          (s.remove T).reservations = s.reservations := by
        rw [remove]
        split <;> exact ⟨rfl, rfl⟩
      rw [hadmission, hreservations]
      exact hs
    | releaseLease bytes =>
      obtain rfl := Option.some.inj ha
      exact hs

end TicketRegistry

namespace SidecarServer

variable {cfg : SidecarConfig} {ι : Type*} [Fintype ι] [DecidableEq ι]
  {c : Threads SidecarServer ι ServerCall}
  {ms : List (Move ι ServerCall ServerAnswer (Bytes × Bytes × InputTraffic))}

/-- The calls that have the lease of a reservation as it was granted. -/
def reserving : ServerCall → ℕ
  | .registry (.drawTicket _) | .registry (.construct _ _) => 1
  | _ => 0

/-- What there is room for. -/
structure Room (cfg : SidecarConfig) (c : Threads SidecarServer ι ServerCall) : Prop where
  /-- Every preparation that has not constructed its entry has a part of the capacity. -/
  preparations : leastReservation * Program.weight reserving c + c.shared.entryBytes
    ≤ cfg.streamInputCapacityBytes.toNat
  /-- With less than one such part nothing is prepared, and nothing delivered. -/
  small : cfg.streamInputCapacityBytes.toNat < leastReservation →
    (∀ T, c.shared.registry.entries.lookup T = none) ∧ c.shared.registry.delivered = [] ∧
      ∀ ret ∈ c.shared.registry.returns, ret.outcome.fails = true

omit [DecidableEq ι] in
/-- Two preparations at a time need more than the default of 2 GiB. -/
theorem Room.reserving_le_one (h : Room cfg c)
    (hcapacity : cfg.streamInputCapacityBytes.toNat ≤ 2 * 1024 * 1024 * 1024) :
    Program.weight reserving c ≤ 1 := by
  have hpreparations := h.preparations
  by_contra htwo
  have hle : leastReservation * 2 ≤ leastReservation * Program.weight reserving c :=
    Nat.mul_le_mul_left _ (Nat.lt_of_not_le htwo)
  have hleast : leastReservation = 1078329344 := rfl
  omega

theorem run_unreserved (hcfg : cfg.maxBatchBytes ≤ kMaxConfiguredBatchBytes)
    (hsmall : cfg.streamInputCapacityBytes.toNat < leastReservation)
    (hrun : (program cfg ι).machine.run (init cfg ι) ms = some c) :
    c.shared.registry.reservations = 0 := by
  have hledger := ((TicketRegistry.ledger cfg.toRegistryConfig Unit).assert
    (TicketRegistry.unreserved_rests cfg.toRegistryConfig Unit hcfg hsmall)).lift
      (registry_part cfg ι)
  exact (hledger.run ⟨⟨founded_init.1.registry, rfl, rfl⟩, nofun⟩ hrun).1.2.2

/-- What a call has a lease on, before it has an entry. -/
theorem mul_reserving_le_leased {f : ServerCall} {s : SidecarServer}
    (hcfg : cfg.maxBatchBytes ≤ kMaxConfiguredBatchBytes) (hinformed : Informed cfg f s)
    (hcharged : Charged f) : leastReservation * reserving f ≤ leased f := by
  have hregistry := hinformed.registry
  cases f with
  | registry g =>
    cases g with
    | drawTicket b =>
      have hrequested : Requested _ b.command b.request := hregistry (.drawTicket b) rfl
      have hle := ExecuteRequest.leastReservation_le_lease hcfg hrequested hcharged
      exact (Nat.mul_one _).le.trans hle
    | construct b T =>
      have hrequested : Requested _ b.command b.request := (hregistry (.construct b T) rfl).1
      have hle := ExecuteRequest.leastReservation_le_lease hcfg hrequested hcharged
      exact (Nat.mul_one _).le.trans hle
    | _ => exact Nat.zero_le _
  | _ => exact Nat.zero_le _

/-- **Room** in every reachable state. -/
theorem run_room (hcfg : cfg.maxBatchBytes ≤ kMaxConfiguredBatchBytes)
    (hrun : (program cfg ι).machine.run (init cfg ι) ms = some c) : Room cfg c := by
  obtain ⟨⟨hF, -⟩, hknows⟩ := run_invariant hrun
  constructor
  · obtain ⟨hs, hcharged⟩ := run_accounted hrun
    have hweight : leastReservation * Program.weight reserving c ≤ Program.weight leased c := by
      apply Program.mul_weight_le
      intro t f hf
      exact mul_reserving_le_leased hcfg (hknows t f hf).1 (hcharged t f hf)
    have hbound := UInt64.le_iff_toNat_le.mp hs.bound
    rw [hs.capacity, hs.current] at hbound
    omega
  · intro hsmall
    have hnone := run_unreserved hcfg hsmall hrun
    have hpast : ∀ i, ¬c.shared.registry.Past i := by
      intro i hi
      have hlt := hi.1
      omega
    refine ⟨fun T ↦ ?_, ?_, fun ret hret ↦ ?_⟩
    · by_contra he
      obtain ⟨e, he⟩ := Option.ne_none_iff_exists'.mp he
      have hexposed := hF.registry.serials.entry T e he
      exact hpast _ (hF.registry.serials.exposed T e.serial hexposed).2
    · refine List.eq_nil_iff_forall_not_mem.mpr fun e he ↦ ?_
      exact hpast _ (hF.registry.logged.delivered e he).1.1
    · have hok := hF.registry.logged.returns ret hret
      cases houtcome : ret.outcome with
      | entry e own =>
        simp only [TicketRegistry.ReturnOk, houtcome] at hok
        exact absurd hok.1.settled.1 (hpast _)
      | _ => rfl

/-- The smallest request is let through. -/
theorem exec_smallestCommand (hsha : ∀ bytes, (cfg.sha256 bytes).length = kSha256Bytes)
    (hhash : cfg.capabilityHash.length = kSha256Bytes) (hbatch : 1 ≤ cfg.maxBatchBytes) :
    (init cfg Unit).shared.exec cfg
        (.registry (.getFlightInfo (some (smallestCommand cfg.toRegistryConfig)))) {}
      = some ((init cfg Unit).shared, [.registry (.prepare (smallestCommand cfg.toRegistryConfig)
          (smallestPrepared cfg.toRegistryConfig))]) := by
  have hvalid := validate_smallestCommand hsha hhash hbatch
  have hexec : (init cfg Unit).shared.registry.exec cfg.toRegistryConfig
      (.getFlightInfo (some (smallestCommand cfg.toRegistryConfig))) {}
      = some ((init cfg Unit).shared.registry, [.prepare (smallestCommand cfg.toRegistryConfig)
          (smallestPrepared cfg.toRegistryConfig)]) := by
    have hsealed : (init cfg Unit).shared.registry.gpuUnavailable = false := rfl
    simp only [TicketRegistry.exec, hsealed, Bool.false_eq_true, if_false, hvalid]
  exact congrArg (Option.map (init cfg Unit).shared.registrySection) hexec

/-- There is room for it. -/
theorem exec_smallestPrepared (htickets : 0 < cfg.maxActiveTickets)
    (hroom : leastReservation ≤ cfg.streamInputCapacityBytes.toNat) : ∃ s b,
    (init cfg Unit).shared.exec cfg (.registry (.prepare (smallestCommand cfg.toRegistryConfig)
        (smallestPrepared cfg.toRegistryConfig))) {} = some (s, [.registry (.drawTicket b)]) ∧
      s.registry.reservations = 1 := by
  obtain ⟨lease, hcharge, hsize⟩ : ∃ lease, streamExecutionCharge
      (smallestPrepared cfg.toRegistryConfig) kMaxStreamInputs = .ok lease ∧
        lease.toNat = leastReservation := charge_smallestPrepared
  let r := (init cfg Unit).shared.registry
  let b : Building := ⟨smallestCommand cfg.toRegistryConfig,
    smallestPrepared cfg.toRegistryConfig, 0, lease⟩
  have hgranted : (r.admission.tryAcquire lease).2 = true := by
    refine (StreamAdmissionController.tryAcquire_granted_iff lease UInt64.zero_le).mpr ?_
    rw [hsize]
    exact hroom
  have hfull : ¬r.entries.keys.length + r.reserved ≥ cfg.maxActiveTickets := Nat.not_le.mpr htickets
  have hfresh : r.prepareFresh cfg.toRegistryConfig b.command b.request
      = ({ r.reserve b with admission := (r.admission.tryAcquire lease).1 }, [.drawTicket b]) := by
    rw [TicketRegistry.prepareFresh, if_neg hfull, hcharge]
    exact if_pos hgranted
  have hstopped : r.stopped = false := rfl
  have hnone : r.idempotency.lookup (smallestPrepared cfg.toRegistryConfig).idempotencyKey = none :=
    rfl
  have hexec : r.exec cfg.toRegistryConfig (.prepare b.command b.request) {}
      = some ({ r.reserve b with admission := (r.admission.tryAcquire lease).1 },
          [.drawTicket b]) := by
    rw [← hfresh]
    simp only [TicketRegistry.exec, TicketRegistry.prepare, hstopped, Bool.false_eq_true, if_false]
    rw [hnone]
  exact ⟨_, b, congrArg (Option.map (init cfg Unit).shared.registrySection) hexec, rfl⟩

/-- With enough capacity there is a run that reserves. -/
theorem exists_reservation (hsha : ∀ bytes, (cfg.sha256 bytes).length = kSha256Bytes)
    (hhash : cfg.capabilityHash.length = kSha256Bytes) (hbatch : 1 ≤ cfg.maxBatchBytes)
    (htickets : 0 < cfg.maxActiveTickets)
    (hroom : leastReservation ≤ cfg.streamInputCapacityBytes.toNat) :
    ∃ ms c, (program cfg Unit).machine.run (init cfg Unit) ms = some c ∧
      0 < c.shared.registry.reservations := by
  have hinfo := exec_smallestCommand hsha hhash hbatch
  obtain ⟨s, b, hprepare, hreservations⟩ := exec_smallestPrepared htickets hroom
  let start := init cfg Unit
  let info : ServerCall := .registry (.getFlightInfo (some (smallestCommand cfg.toRegistryConfig)))
  let preparing : ServerCall := .registry (.prepare (smallestCommand cfg.toRegistryConfig)
    (smallestPrepared cfg.toRegistryConfig))
  let called : Threads SidecarServer Unit ServerCall :=
    ⟨start.shared, update start.calls () [info]⟩
  let parsed : Threads SidecarServer Unit ServerCall :=
    ⟨start.shared, update called.calls () [preparing]⟩
  let reserved : Threads SidecarServer Unit ServerCall :=
    ⟨s, update parsed.calls () [.registry (.drawTicket b)]⟩
  have hcalled : (program cfg Unit).machine.step start (.call () info) = some called :=
    Program.step_call_eq_some.mpr ⟨rfl, start.shared, rfl, rfl⟩
  have hparsed : (program cfg Unit).machine.step called (.exec () {}) = some parsed :=
    Program.step_exec_eq_some.mpr ⟨info, [], _, _,
      Function.update_self () [info] start.calls, hinfo, rfl⟩
  have hreserved : (program cfg Unit).machine.step parsed (.exec () {}) = some reserved :=
    Program.step_exec_eq_some.mpr ⟨preparing, [], _, _,
      Function.update_self () [preparing] called.calls, hprepare, rfl⟩
  refine ⟨[.call () info, .exec () {}, .exec () {}], reserved, ?_, ?_⟩
  · exact Machine.run_cons_eq_some.mpr ⟨called, hcalled, Machine.run_cons_eq_some.mpr
      ⟨parsed, hparsed, Machine.run_cons_eq_some.mpr ⟨reserved, hreserved, rfl⟩⟩⟩
  · show 0 < s.registry.reservations
    rw [hreservations]
    exact Nat.one_pos

/-- **The capacity that a server needs**: however it is configured, whatever is asked of it and in
whatever order, it has room for one preparation in every `leastReservation` bytes of
`MO_SIDECAR_STREAM_INPUT_CAPACITY_BYTES`; it is able to prepare something if and only if it has
that many. -/
theorem capacity_exact (env : Environment) (files : Bytes → CredentialFile)
    (config : RuntimeConfig) (hload : loadRuntimeConfig env files = .ok (some config))
    (sha256 : Bytes → Bytes) (hsha : ∀ bytes, (sha256 bytes).length = kSha256Bytes)
    (capabilityDocument : Bytes) (cfg : SidecarConfig)
    (hcfg : cfg.toRegistryConfig = config.registry sha256 capabilityDocument) :
    ((∃ ms c, (program cfg Unit).machine.run (init cfg Unit) ms = some c ∧
        0 < c.shared.registry.reservations) ↔
      leastReservation ≤ config.streamInputCapacityBytes.toNat) ∧
    ∀ (κ : Type) [Fintype κ] [DecidableEq κ]
      (ms : List (Move κ ServerCall ServerAnswer (Bytes × Bytes × InputTraffic)))
      (c : Threads SidecarServer κ ServerCall),
      (program cfg κ).machine.run (init cfg κ) ms = some c → Room cfg c := by
  obtain ⟨⟨port, -, hset⟩, -⟩ := loadRuntimeConfig_eq_ok.mp hload
  obtain ⟨hleastBatch, hmostBatch⟩ := hset.maxBatchBytes.bounds (by decide)
  obtain ⟨hleastTickets, -⟩ := hset.maxActiveTickets.bounds (by decide)
  have hbatch : cfg.maxBatchBytes = config.maxBatchBytes :=
    congrArg RegistryConfig.maxBatchBytes hcfg
  have htickets : cfg.maxActiveTickets = config.maxActiveTickets.toNat :=
    congrArg RegistryConfig.maxActiveTickets hcfg
  have hcapacity : cfg.streamInputCapacityBytes = config.streamInputCapacityBytes :=
    congrArg RegistryConfig.streamInputCapacityBytes hcfg
  have hdigest : cfg.sha256 = sha256 := congrArg RegistryConfig.sha256 hcfg
  have hhash : cfg.capabilityHash = sha256 capabilityDocument :=
    congrArg RegistryConfig.capabilityHash hcfg
  have hmost : cfg.maxBatchBytes ≤ kMaxConfiguredBatchBytes := by
    rw [hbatch]
    exact hmostBatch
  refine ⟨⟨?_, fun hroom ↦ ?_⟩, fun κ _ _ ms c hrun ↦ run_room hmost hrun⟩
  · rintro ⟨ms, c, hrun, hreserved⟩
    by_contra hsmall
    rw [Nat.not_le, ← hcapacity] at hsmall
    rw [run_unreserved hmost hsmall hrun] at hreserved
    exact Nat.lt_irrefl 0 hreserved
  · apply exists_reservation
    · rw [hdigest]
      exact hsha
    · rw [hhash]
      exact hsha capabilityDocument
    · rw [hbatch]
      exact UInt64.le_trans (by decide) hleastBatch
    · rw [htickets]
      exact UInt64.le_iff_toNat_le.mp hleastTickets
    · rw [hcapacity]
      exact hroom

/-- An environment with a GiB of capacity. -/
def oneGiB : Environment := fun name ↦
  if name = "MO_SIDECAR_FLIGHT_PORT" then some (ascii "8815")
  else if name = "MO_SIDECAR_READ_URL" then some (ascii "https://localhost")
  else if name = "MO_SIDECAR_STREAM_INPUT_CAPACITY_BYTES" then some (ascii "1073741824")
  else if name ∈ ["MO_SIDECAR_FLIGHT_CERT", "MO_SIDECAR_FLIGHT_KEY", "MO_SIDECAR_FLIGHT_CLIENT_CA",
    "MO_SIDECAR_READ_CA", "MO_SIDECAR_READ_CLIENT_CERT", "MO_SIDECAR_READ_CLIENT_KEY"] then
    some (ascii "/tls")
  else none

/-- A file of one byte. -/
def oneByte : CredentialFile where
  opens := true
  position := 1
  read := some [1]
  length_read := by
    intro contents h
    rw [← Option.some.inj h]
    rfl

/-- What is loaded of that environment. -/
def oneGiBConfig : RuntimeConfig where
  flightHost := ascii "0.0.0.0"
  flightPort := 8815
  flightCertPath := ascii "/tls"
  flightKeyPath := ascii "/tls"
  flightClientCaPath := ascii "/tls"
  readEndpoint := { host := ascii "localhost", path := ascii "/" }
  readCaPath := ascii "/tls"
  readClientCertPath := ascii "/tls"
  readClientKeyPath := ascii "/tls"
  maxActiveTickets := 128
  maxBatchBytes := 64 * 1024 * 1024
  streamInputCapacityBytes := 1024 * 1024 * 1024
  fatalShutdownGraceMs := 5000
  ticketTtlMs := 15 * 60 * 1000

/-- The digest of no bytes. -/
def emptyDigest : Bytes :=
  [0xe3, 0xb0, 0xc4, 0x42, 0x98, 0xfc, 0x1c, 0x14, 0x9a, 0xfb, 0xf4, 0xc8, 0x99, 0x6f, 0xb9, 0x24,
    0x27, 0xae, 0x41, 0xe4, 0x64, 0x9b, 0x93, 0x4c, 0xa4, 0x95, 0x99, 0x1b, 0x78, 0x52, 0xb8, 0x55]

/-- A server that is started with it. -/
def oneGiBServer : SidecarConfig :=
  { oneGiBConfig.registry (fun _ ↦ emptyDigest) [] with
    executions := fun _ ↦ ExecutionEntry.emptyQuery }

/-- A GiB is accepted, and nothing is ever prepared. -/
theorem capacity_exact_oneGiB :
    loadRuntimeConfig oneGiB (fun _ ↦ oneByte) = .ok (some oneGiBConfig) ∧
      ¬∃ ms c, (program oneGiBServer Unit).machine.run (init oneGiBServer Unit) ms = some c ∧
        0 < c.shared.registry.reservations := by
  have hload : loadRuntimeConfig oneGiB (fun _ ↦ oneByte) = .ok (some oneGiBConfig) := by
    decide +kernel
  refine ⟨hload, fun hreserved ↦ ?_⟩
  have hroom := (capacity_exact oneGiB (fun _ ↦ oneByte) oneGiBConfig hload (fun _ ↦ emptyDigest)
    (fun _ ↦ rfl) [] oneGiBServer rfl).1.mp hreserved
  exact absurd hroom (by decide +kernel)

end SidecarServer

end MoSidecar
