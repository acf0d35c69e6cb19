import MoSidecar.Machine.Threads
import MoSidecar.Registry.Admission

/-!
# The ticket registry

The registry of prepared executions: a map from tickets to entries, a map from idempotency keys to
records, and a counter of preparations under construction. Handlers of the server call it from any
number of threads; the long work — drawing a ticket, constructing an execution, waiting for one to
quiesce — happens outside its mutex, and so between two of the sections below.

## What stands for what

* An entry is what the registry and its callers know of an `execution_entry`. How the entry behaves
  is the business of `Execution`: here `replayable`, `claim` and `cancel_and_join` of an entry
  answer as they like, and its terminal callback removes a ticket at any time.
* Ghost fields record what has become of things: the number of reservations, which every record and
  entry carries as its `serial`; the tickets that were drawn and for whom; what the calls of
  `prepare` returned, which tickets were delivered, presented, and so on.
* `RAND_bytes` does not draw a ticket twice, so a draw of an old ticket is no step.
* `shutdown` ends with both maps cleared and is modelled up to there, as
  `stop_admission_and_cancel`.
-/

namespace MoSidecar

/-- What the server is configured with. -/
structure RegistryConfig where
  maxActiveTickets : ℕ
  maxBatchBytes : UInt64
  ticketTtlMs : UInt64
  streamInputCapacityBytes : UInt64
  /-- `sha256_bytes`. -/
  sha256 : Bytes → Bytes
  /-- `capability_hash`, the digest of a constant document. -/
  capabilityHash : Bytes

/-! ## Requests -/

/-- `execution_idempotency_key`, for a query id of the size the parser requires. -/
def executionIdempotencyKey (cfg : RegistryConfig) (accountId : UInt64) (queryId : Bytes) : Bytes :=
  cfg.sha256 (u64Bytes accountId ++ queryId)

/-- `GetFlightInfo`, from the command to the call of `prepare`. -/
def validateRequest (cfg : RegistryConfig) (now : UInt64) (command : Bytes) :
    Except ArrowError ExecuteRequest :=
  match parseExecuteRequest command with
  | .error what => .error (.invalid what)
  | .ok request =>
    if request.idempotencyKey ≠ executionIdempotencyKey cfg request.accountId request.queryId then
      .error (flightError .unauthorized
        "ExecuteSubstrait idempotency key does not match its identity" "AUTHENTICATION_FAILED")
    else if request.protocolVersion ≠ kProtocolVersion ∨
        request.substraitVersion ≠ kSubstraitVersion then
      .error (flightError .failed "unsupported sidecar or Substrait protocol version"
        "UNSUPPORTED_VERSION")
    else if request.capabilityHash ≠ cfg.capabilityHash then
      .error (flightError .failed "sidecar capability hash mismatch" "CAPABILITY_MISMATCH")
    else if request.maxBatchBytes = 0 ∨ request.maxBatchBytes > cfg.maxBatchBytes then
      .error (.invalid "max_batch_bytes exceeds the sidecar limit")
    else if request.maxInputBatchBytes = 0 ∨
        request.maxInputBatchBytes > kMaxStreamInputBatchBytes ∨
        request.maxInputBatchBytes > cfg.maxBatchBytes then
      .error (.invalid "max_input_batch_bytes exceeds the sidecar limit")
    else if request.deadlineUnixMs ≤ now then
      .error (flightError .timedOut "execution deadline already expired")
    else
      .ok { request with
        fingerprint := cfg.sha256 command
        deadlineUnixMs := if request.deadlineUnixMs > now + cfg.ticketTtlMs then
          now + cfg.ticketTtlMs else request.deadlineUnixMs }

/-! ## The state -/

/-- What is known of an `execution_entry`, with the command it was built from. -/
structure PreparedEntry where
  ticket : Bytes
  request : ExecuteRequest
  command : Bytes
  lease : UInt64
  serial : ℕ

/-- `execution_entry::idempotency_key`. -/
def PreparedEntry.key (e : PreparedEntry) : Bytes := e.request.idempotencyKey

/-- `idempotency_record`. -/
structure IdempotencyRecord where
  fingerprint : Bytes
  ticket : Bytes := []
  deadlineUnixMs : UInt64 := 0
  preparing : Bool := false
  cancelRequested : Bool := false
  serial : ℕ

/-- What `prepare` returns or throws. -/
inductive PrepareOutcome where
  /-- An entry, and whether this call has built it. -/
  | entry (entry : PreparedEntry) (own : Bool)
  | failed (status : ArrowError)
  | threw (what : Thrown)
  /-- `idempotency_.at` has thrown. -/
  | outOfRange

/-- A call of `prepare` that is over. -/
structure PrepareReturn where
  command : Bytes
  outcome : PrepareOutcome

/-- What a caller of `CancelExecution` names. -/
inductive CancelIdentity where
  | ticket (ticket : Bytes)
  | idempotencyKey (key : Bytes)
  deriving DecidableEq

/-- `cancel_result`. -/
inductive CancelResult where
  | notFound | quiesced | deadlineExceeded
  deriving DecidableEq

/-- `ticket_registry`. -/
structure TicketRegistry where
  entries : AList fun _ : Bytes ↦ PreparedEntry := ∅
  idempotency : AList fun _ : Bytes ↦ IdempotencyRecord := ∅
  reserved : ℕ := 0
  stopped : Bool := false
  gpuUnavailable : Bool := false
  admission : StreamAdmissionController
  /-- How many reservations there have been. -/
  reservations : ℕ := 0
  /-- The tickets that were drawn, each with the reservation it was drawn for. -/
  drawn : List (Bytes × ℕ) := []
  /-- The tickets whose entry is past its construction, likewise. -/
  exposed : List (Bytes × ℕ) := []
  /-- The reservations whose record was marked by a cancellation while it was preparing. -/
  cancelled : List ℕ := []
  returns : List PrepareReturn := []
  /-- The entries whose ticket was delivered in a `FlightInfo`. -/
  delivered : List PreparedEntry := []
  /-- The tickets that were presented for a result without having been delivered. -/
  guessed : List Bytes := []
  /-- The entries that were claimed, and their worker started. -/
  started : List PreparedEntry := []
  replies : List (CancelIdentity × CancelResult) := []

/-! ## Calls -/

/-- A call of `prepare` that has a reservation. -/
structure Building where
  command : Bytes
  request : ExecuteRequest
  serial : ℕ
  lease : UInt64

/-- The calls of the registry and its handlers, each at the point where its thread takes it up
again. -/
inductive RegistryCall where
  /-- `GetFlightInfo`, with the command if the descriptor is one. -/
  | getFlightInfo (command : Option Bytes)
  /-- The loop of `prepare`. -/
  | prepare (command : Bytes) (request : ExecuteRequest)
  /-- The wait in the loop. -/
  | awaitPrepared (command : Bytes) (request : ExecuteRequest)
  /-- `prepare`, past the loop, with an entry that was there. -/
  | replay (command : Bytes) (entry : PreparedEntry)
  | drawTicket (b : Building)
  | construct (b : Building) (ticket : Bytes)
  | commit (b : Building) (ticket : Bytes)
  /-- `release_reservation`, with the ticket of the entry if one was constructed. -/
  | releaseReservation (b : Building) (built : Option Bytes) (what : Thrown)
  /-- `prepare`, past `release_reservation`, with the lease it may still have. -/
  | unwind (b : Building) (what : Thrown)
  /-- `prepare`, past the commit, with an entry that must not be returned. -/
  | abandon (command : Bytes) (status : ArrowError)
  /-- `GetFlightInfo`, past `prepare`. -/
  | deliver (entry : PreparedEntry)
  | doGet (ticket : Bytes)
  | claim (ticket : Bytes)
  /-- `claim`, past the section of the registry. -/
  | claimEntry (entry : PreparedEntry)
  | lookup (ticket : Bytes)
  | cancelAndJoin (ticket : Bytes)
  | cancelAndJoinIdempotency (key : Bytes)
  /-- The wait in the loop of `cancel_and_join_idempotency`. -/
  | awaitCommit (key : Bytes)
  /-- A cancellation that waits for its entry. -/
  | joinEntry (identity : CancelIdentity) (entry : PreparedEntry)
  | sealGpuUnavailable
  | stopAdmissionAndCancel
  | reap

/-- What a section learns from outside. -/
structure RegistryAnswer where
  now : UInt64 := 0
  /-- `context.is_cancelled()` or `stop_waiting()`. -/
  stopped : Bool := false
  /-- Whether a deadline has passed. -/
  expired : Bool := false
  /-- `random_ticket`, unless it throws. -/
  ticket : Option Bytes := none
  /-- The construction of an entry: the number of its inputs. -/
  built : Except Thrown ℕ := .ok 0
  /-- The answer of the entry. -/
  accepts : Bool := true

/-- What happens outside the threads of the registry. -/
inductive RegistryEvent where
  /-- The terminal callback of an entry. -/
  | remove (ticket : Bytes)
  /-- An entry is destroyed with its lease. -/
  | releaseLease (bytes : UInt64)

/-- `unordered_map::emplace`. -/
def emplace {α β : Type*} [DecidableEq α] (m : AList fun _ : α ↦ β) (k : α) (v : β) :
    AList fun _ : α ↦ β :=
  if (m.lookup k).isSome then m else m.insert k v

namespace Building

def key (b : Building) : Bytes := b.request.idempotencyKey

/-- The record a reservation starts with. -/
def record (b : Building) : IdempotencyRecord where
  fingerprint := b.request.fingerprint
  deadlineUnixMs := b.request.deadlineUnixMs
  preparing := true
  serial := b.serial

/-- The entry a reservation ends with. -/
def entry (b : Building) (ticket : Bytes) : PreparedEntry :=
  ⟨ticket, b.request, b.command, b.lease, b.serial⟩

end Building

namespace TicketRegistry

variable (cfg : RegistryConfig) (s : TicketRegistry)

/-! ## Sections -/

/-- A call of `prepare` ends. -/
def returned (command : Bytes) (outcome : PrepareOutcome) : TicketRegistry :=
  { s with returns := s.returns ++ [⟨command, outcome⟩] }

/-- A cancellation is answered. -/
def replied (identity : CancelIdentity) (result : CancelResult) : TicketRegistry :=
  { s with replies := s.replies ++ [(identity, result)] }

/-- The status of a call that meets a registry that is stopped. -/
def stoppedStatus : ArrowError :=
  if s.gpuUnavailable then
    flightError .unavailable "sidecar GPU generation is unavailable" "GPU_DEVICE_UNAVAILABLE"
  else flightError .unavailable "sidecar is stopping"

def stateInvalid : ArrowError :=
  flightError .internal "idempotent request lost its prepared ticket" "IDEMPOTENCY_STATE_INVALID"

/-- A slot and a record are taken for a preparation that has its lease. -/
def reserve (b : Building) : TicketRegistry :=
  { s with
    reserved := s.reserved + 1
    idempotency := emplace s.idempotency b.key b.record
    reservations := s.reservations + 1 }

/-- The loop of `prepare` for a key without a record: the checks of admission. -/
def prepareFresh (command : Bytes) (request : ExecuteRequest) :
    TicketRegistry × List RegistryCall :=
  if s.entries.keys.length + s.reserved ≥ cfg.maxActiveTickets then
    (s.returned command (.failed (flightError .unavailable "sidecar active ticket limit reached"
      "RESOURCE_EXHAUSTED")), [])
  else
    match streamExecutionCharge request kMaxStreamInputs with
    | .error what => (s.returned command (.threw what), [])
    | .ok bytes =>
      let (admission, granted) := s.admission.tryAcquire bytes
      if granted then
        let b : Building := ⟨command, request, s.reservations, bytes⟩
        ({ s.reserve b with admission }, [.drawTicket b])
      else
        (({ s with admission } : TicketRegistry).returned command (.failed (flightError .unavailable
          "sidecar streamed-input capacity exhausted" "RESOURCE_EXHAUSTED")), [])

/-- The loop of `prepare` for a key with a record. -/
def prepareReplay (command : Bytes) (request : ExecuteRequest) (record : IdempotencyRecord) :
    TicketRegistry × List RegistryCall :=
  if record.fingerprint ≠ request.fingerprint then
    (s.returned command (.failed (flightError .failed
      "idempotency key was reused for a different request" "IDEMPOTENCY_CONFLICT")), [])
  else if record.preparing then (s, [.awaitPrepared command request])
  else if record.cancelRequested then
    (s.returned command (.failed (flightError .failed "idempotent request is already terminal"
      "IDEMPOTENCY_TERMINAL")), [])
  else
    match s.entries.lookup record.ticket with
    | none => (s.returned command (.failed stateInvalid), [])
    | some entry => (s, [.replay command entry])

/-- The loop of `prepare`. -/
def prepare (command : Bytes) (request : ExecuteRequest) : TicketRegistry × List RegistryCall :=
  if s.stopped then (s.returned command (.failed s.stoppedStatus), [])
  else
    match s.idempotency.lookup request.idempotencyKey with
    | none => s.prepareFresh cfg command request
    | some record => s.prepareReplay command request record

/-- `random_ticket` and `contains`. -/
def drawTicket (b : Building) : Option Bytes → Option (TicketRegistry × List RegistryCall)
  | none => some (s, [.releaseReservation b none (.exception "cannot generate a Flight ticket")])
  | some ticket =>
    if ticket ∈ s.drawn.map Prod.fst then none
    else
      some ({ s with drawn := (ticket, b.serial) :: s.drawn },
        if (s.entries.lookup ticket).isSome then [.drawTicket b] else [.construct b ticket])

/-- The construction of an entry and `shrink_admission`. A constructor that throws gives the lease
back, and the one it was moved from is empty; an entry whose lease does not shrink keeps it. -/
def construct (b : Building) (ticket : Bytes) (built : Except Thrown ℕ) :
    TicketRegistry × List RegistryCall :=
  match built with
  | .error what =>
    ({ s with admission := s.admission.release b.lease },
      [.releaseReservation { b with lease := 0 } none what])
  | .ok streamInputs =>
    let shrunk := do
      let bytes ← streamExecutionCharge b.request streamInputs
      return (bytes, ← s.admission.shrink b.lease bytes)
    match shrunk with
    | .error what => (s, [.releaseReservation b (some ticket) what])
    | .ok (bytes, admission) => ({ s with admission }, [.commit { b with lease := bytes } ticket])

/-- `release_reservation`. -/
def releaseReservation (b : Building) : TicketRegistry :=
  { s with reserved := s.reserved - 1, idempotency := s.idempotency.erase b.key }

/-- The commit of an entry in a registry that is not stopped, with the record of its key. -/
def publish (b : Building) (ticket : Bytes) (record : IdempotencyRecord) : TicketRegistry :=
  { s with
    idempotency := s.idempotency.insert b.key { record with ticket, preparing := false } }

/-- The commit section of `prepare`. -/
def commit (b : Building) (ticket : Bytes) : TicketRegistry × List RegistryCall :=
  let s := { s with reserved := s.reserved - 1, exposed := (ticket, b.serial) :: s.exposed }
  if s.stopped then
    ({ s with idempotency := s.idempotency.erase b.key }, [.abandon b.command s.stoppedStatus])
  else
    let s := { s with entries := emplace s.entries ticket (b.entry ticket) }
    match s.idempotency.lookup b.key with
    | none => (s.returned b.command .outOfRange, [])
    | some record =>
      if record.cancelRequested then
        (s.publish b ticket record, [.abandon b.command (flightError .cancelled
          "idempotent request was cancelled while preparing" "CANCELLED")])
      else
        ((s.publish b ticket record).returned b.command (.entry (b.entry ticket) true),
          [.deliver (b.entry ticket)])

/-- The section of `cancel_and_join_idempotency`. -/
def cancelIdempotency (key : Bytes) : TicketRegistry × List RegistryCall :=
  if s.stopped then (s.replied (.idempotencyKey key) .notFound, [])
  else
    match s.idempotency.lookup key with
    | none => (s.replied (.idempotencyKey key) .notFound, [])
    | some record =>
      let s := { s with
        idempotency := s.idempotency.insert key { record with cancelRequested := true }
        cancelled := if record.preparing then record.serial :: s.cancelled else s.cancelled }
      if record.preparing then (s, [.awaitCommit key])
      else
        match s.entries.lookup record.ticket with
        | none => (s.replied (.idempotencyKey key) .notFound, [])
        | some entry => (s, [.joinEntry (.idempotencyKey key) entry])

/-- `remove`. -/
def remove (ticket : Bytes) : TicketRegistry :=
  match s.entries.lookup ticket with
  | none => s
  | some entry =>
    { s with idempotency := s.idempotency.erase entry.key, entries := s.entries.erase ticket }

/-- `seal_gpu_unavailable`. -/
def sealGpuUnavailable : TicketRegistry :=
  if s.gpuUnavailable then s else { s with gpuUnavailable := true, stopped := true }

/-! ## The program -/

/-- The functions a thread may enter. A ticket that was not delivered to anybody can only be
guessed. -/
def call : RegistryCall → Option TicketRegistry
  | .getFlightInfo _ | .lookup _ | .cancelAndJoin _ | .cancelAndJoinIdempotency _
  | .sealGpuUnavailable | .stopAdmissionAndCancel | .reap => some s
  | .doGet ticket =>
    some (if ticket ∈ s.delivered.map (·.ticket) then s
      else { s with guessed := ticket :: s.guessed })
  | _ => none

/-- The next section of a call. -/
def exec (f : RegistryCall) (k : RegistryAnswer) : Option (TicketRegistry × List RegistryCall) :=
  match f with
  | .getFlightInfo command =>
    match command with
    | none => some (s, [])
    | some command =>
      if s.gpuUnavailable then some (s, [])
      else
        match validateRequest cfg k.now command with
        | .error _ => some (s, [])
        | .ok request => some (s, [.prepare command request])
  | .prepare command request => some (s.prepare cfg command request)
  | .awaitPrepared command request =>
    if k.expired then
      some (s.returned command (.failed (flightError .timedOut
        "idempotent request did not finish preparing before its deadline"
        "IDEMPOTENCY_IN_PROGRESS")), [])
    else some (s, [.prepare command request])
  | .replay command entry =>
    if k.accepts then some (s.returned command (.entry entry false), [.deliver entry])
    else
      some (s.returned command (.failed (flightError .failed
        "idempotent request ticket was already claimed" "IDEMPOTENCY_ALREADY_CLAIMED")), [])
  | .drawTicket b => s.drawTicket b k.ticket
  | .construct b ticket => some (s.construct b ticket k.built)
  | .commit b ticket => some (s.commit b ticket)
  | .releaseReservation b built what =>
    match built with
    | none => some (s.releaseReservation b, [.unwind b what])
    | some ticket =>
      some ({ s.releaseReservation b with exposed := (ticket, b.serial) :: s.exposed },
        [.unwind { b with lease := 0 } what])
  | .unwind b what =>
    some (({ s with admission := s.admission.release b.lease } : TicketRegistry).returned b.command
      (.threw what), [])
  | .abandon command status => some (s.returned command (.failed status), [])
  | .deliver entry =>
    if k.stopped then some (s, [])
    else some ({ s with delivered := entry :: s.delivered }, [])
  | .doGet ticket => some (s, if s.gpuUnavailable then [] else [.claim ticket])
  | .claim ticket =>
    if s.stopped then some (s, [])
    else
      match s.entries.lookup ticket with
      | none => some (s, [])
      | some entry => some (s, [.claimEntry entry])
  | .claimEntry entry =>
    if k.accepts then some ({ s with started := entry :: s.started }, []) else some (s, [])
  | .lookup _ => some (s, [])
  | .cancelAndJoin ticket =>
    match s.entries.lookup ticket with
    | none => some (s.replied (.ticket ticket) .notFound, [])
    | some entry => some (s, [.joinEntry (.ticket ticket) entry])
  | .cancelAndJoinIdempotency key => some (s.cancelIdempotency key)
  | .awaitCommit key =>
    if k.stopped || k.expired then
      some (s.replied (.idempotencyKey key) .deadlineExceeded, [])
    else some (s, [.cancelAndJoinIdempotency key])
  | .joinEntry identity _ =>
    some (s.replied identity (if k.accepts then .quiesced else .deadlineExceeded), [])
  | .sealGpuUnavailable => some (s.sealGpuUnavailable, [])
  | .stopAdmissionAndCancel => some ({ s with stopped := true }, [])
  | .reap => some (s, [])

/-- The registry and its threads as a program. -/
def program (ι : Type*) : Program TicketRegistry ι RegistryCall RegistryAnswer RegistryEvent where
  call s _ f := s.call f
  exec s _ f k := s.exec cfg f k
  ambient s
    | .remove ticket => some (s.remove ticket)
    | .releaseLease bytes => some { s with admission := s.admission.release bytes }

/-- An empty registry, with no thread in it. -/
def init (ι : Type*) : Threads TicketRegistry ι RegistryCall where
  shared := { admission := { capacityBytes := cfg.streamInputCapacityBytes } }
  calls _ := []

end TicketRegistry

end MoSidecar
