import MoSidecar.Execution.Handlers
import MoSidecar.Machine.Parts
import MoSidecar.Registry.Ledger

/-!
# The server

`sidecar_flight_server` puts the registry and its executions together: handlers of the server call
the registry, take pointers to entries from it and call those, and entries call the registry back
through their terminal and fatal callbacks. The sections are those of the registry and of the
entries; what is modelled here is how they are joined, and who holds a pointer to an entry.

## What stands for what

* Threads are the server's threads and the workers of executions. A worker is a thread that has
  entered `run` of an execution whose worker was created.
* `uses` is the use count of the pointers to an entry. A call that owns a pointer gives it up in its
  own section `drop`; the last one destroys the entry, which cancels it and releases its lease.
* `seal_gpu_unavailable`, `stop_admission_and_cancel` and `reap` go through a map without order, so
  the answer gives the order. The first section of `cancel` for the next entry is run together with
  the step of the loop.
* `run` calls the fatal callback in the sections whose calls depend on what the callback does.
* `DoGet` owns its result stream until the client is done with it; then the stream is closed.
-/

open Function (update)

namespace MoSidecar

/-- What the server is configured with, and the executions that it is asked for, by ticket. -/
structure SidecarConfig extends RegistryConfig where
  executions : Bytes → ExecutionConfig

/-- `sidecar_flight_server`, with the entries it has made. -/
structure SidecarServer where
  registry : TicketRegistry
  entry : Bytes → ExecutionEntry := fun _ ↦ {}
  /-- The use count of the pointers to an entry. -/
  uses : Bytes → ℕ := fun _ ↦ 0
  /-- The entries that were constructed and not destroyed. -/
  alive : List PreparedEntry := []
  /-- Whether a call of `seal_gpu_unavailable` that returns true, or of
  `stop_admission_and_cancel`, has come to its end. -/
  swept : Bool := false

/-- The calls of the server, each at the point where its thread takes it up again. -/
inductive ServerCall where
  | registry (f : RegistryCall)
  /-- A call of an entry, by its worker or by another thread. -/
  | entry (ticket : Bytes) (worker : Bool) (f : EntryCall)
  /-- `cancel_and_join` of an entry, called for a client. -/
  | joining (identity : CancelIdentity) (entry : PreparedEntry) (f : EntryCall)
  /-- `CancelExecution`, past the call of the registry. -/
  | reply (identity : CancelIdentity) (entry : PreparedEntry) (quiesced : Bool)
  /-- The constructor of the result stream of `DoGet`. -/
  | opening (ticket : Bytes)
  /-- The result stream of `DoGet`. -/
  | results (ticket : Bytes)
  /-- The loop over the entries of a snapshot, with those that are left. -/
  | each (cause : Cause) (todo held : List Bytes)
  /-- A pointer goes out of scope. -/
  | drop (ticket : Bytes)
  /-- `~execution_entry`. -/
  | destroy (ticket : Bytes)
  /-- The end of `~execution_entry`. -/
  | release (ticket : Bytes)

/-- What a section learns from outside. -/
structure ServerAnswer where
  registry : RegistryAnswer := {}
  entry : EntryAnswer := {}
  /-- The order in which a map is gone through. -/
  order : List Bytes := []
  /-- The input that an upload is for. -/
  ref : Bytes := []
  /-- Whether the client reads on. -/
  more : Bool := false

/-- `replayable`. -/
def EntryControl.replayable (c : EntryControl) : Bool := !c.claimed && !c.terminal

/-- Whether a section of `run` calls the fatal callback. -/
def ExecutionEntry.callsFatal (cfg : ExecutionConfig) (s : ExecutionEntry) (k : EntryAnswer) :
    Bool :=
  (s.exec cfg (none : Option Unit) .run { k with seals := true }).map Prod.snd
    != (s.exec cfg (none : Option Unit) .run { k with seals := false }).map Prod.snd

/-- The points of `cancel_and_join` past its call of `cancel`. -/
def EntryCall.joins : EntryCall → Bool
  | .awaitQuiesced | .pollWaiting | .join true => true
  | _ => false

/-- The pointer that a call of the registry sets out with. -/
def RegistryCall.taken? : RegistryCall → Option Bytes
  | .replay _ e | .claimEntry e | .joinEntry _ e => some e.ticket
  | .commit _ ticket => some ticket
  | .releaseReservation _ built _ => built
  | _ => none

/-- The entry that a call of the registry sets out with, if it has just been constructed. -/
def RegistryCall.constructed? : RegistryCall → Option PreparedEntry
  | .commit b ticket => some (b.entry ticket)
  | .releaseReservation b built _ => built.map b.entry
  | _ => none

namespace SidecarServer

variable (cfg : SidecarConfig) (s : SidecarServer)

def setEntry (ticket : Bytes) (e : ExecutionEntry) : SidecarServer :=
  { s with entry := update s.entry ticket e }

/-- A pointer is copied. -/
def retain (ticket : Bytes) : SidecarServer :=
  { s with uses := update s.uses ticket (s.uses ticket + 1) }

/-- A pointer is given up. -/
def giveUp (ticket : Bytes) : SidecarServer :=
  { s with uses := update s.uses ticket (s.uses ticket - 1) }

/-- What the owner of a pointer that is given up has still to do. -/
def afterDrop (ticket : Bytes) : List ServerCall :=
  if s.uses ticket = 1 then [.destroy ticket] else []

/-- The lease of an entry is released. -/
def releaseLease (ticket : Bytes) : SidecarServer :=
  match s.alive.find? (·.ticket = ticket) with
  | none => s
  | some e =>
    { s with
      registry := { s.registry with admission := s.registry.admission.release e.lease }
      alive := s.alive.filter (·.ticket ≠ ticket) }

/-- The calls that a section of the registry leaves. -/
def resume : RegistryCall → List ServerCall
  | .joinEntry identity e =>
    [.entry e.ticket false (.cancel false), .joining identity e .awaitQuiesced]
  | f => [.registry f]

/-- A section of the registry, with the pointers it hands out. -/
def registrySection (r : TicketRegistry × List RegistryCall) : SidecarServer × List ServerCall :=
  ((r.2.filterMap (·.taken?)).foldl retain
    { s with registry := r.1, alive := r.2.filterMap (·.constructed?) ++ s.alive },
    r.2.flatMap resume)

/-- A loop over entries begins, in some order. -/
def sweep (cause : Cause) (r : TicketRegistry) (tickets order : List Bytes) :
    Option (SidecarServer × List ServerCall) :=
  if order.Perm tickets then
    some (order.foldl retain { s with registry := r }, [.each cause order order])
  else none

/-- The calls after the commit section of `prepare`: what must not be returned is ended first. -/
def afterCommit (ticket : Bytes) : RegistryCall → List ServerCall
  | .abandon command status =>
    [.entry ticket false
      (if s.registry.stopped then
        if s.registry.gpuUnavailable then .failGpuUnavailable else .cancel false
      else .cancelAndJoin false),
      .drop ticket, .registry (.abandon command status)]
  | f => [.registry f]

/-- The next section of a call of the registry, and of what its caller does with the entry. -/
def execRegistry (f : RegistryCall) (k : ServerAnswer) : Option (SidecarServer × List ServerCall) :=
  match f with
  | .replay _ e =>
    let accepts := (s.entry e.ticket).replayable
    (s.registry.exec cfg.toRegistryConfig f { accepts }).map fun r ↦
      ({ s with registry := r.1 }, if accepts then r.2.map .registry else [.drop e.ticket])
  | .construct _ ticket =>
    if k.registry.built = .ok (cfg.executions ticket).inputRefs.length ∨ ¬k.registry.built.isOk then
      (s.registry.exec cfg.toRegistryConfig f k.registry).map s.registrySection
    else none
  | .releaseReservation _ built _ =>
    (s.registry.exec cfg.toRegistryConfig f k.registry).map fun r ↦
      ({ s with registry := r.1 }, (built.map .drop).toList ++ r.2.map .registry)
  | .commit _ ticket =>
    (s.registry.exec cfg.toRegistryConfig f k.registry).map fun r ↦
      (let s' := { s with registry := r.1 }
        if s.registry.stopped then s' else s'.retain ticket,
        if r.2.isEmpty then [.drop ticket] else r.2.flatMap (s.afterCommit ticket))
  | .deliver e =>
    (s.registry.exec cfg.toRegistryConfig f k.registry).map fun r ↦
      ({ s with registry := r.1 },
        if k.registry.stopped then [.entry e.ticket false (.cancel false), .drop e.ticket]
        else [.drop e.ticket])
  | .claimEntry e =>
    let entry := s.entry e.ticket
    let accepts := entry.replayable
    (s.registry.exec cfg.toRegistryConfig f { accepts }).map fun r ↦
      ({ s with registry := r.1 }.setEntry e.ticket (entry.setControl entry.claim),
        if accepts then [.opening e.ticket] else [.drop e.ticket])
  | .lookup ticket =>
    if s.registry.stopped ∨ s.registry.entries.lookup ticket = none then some (s, [])
    else some (s.retain ticket, [.entry ticket false (.attachInput k.ref), .drop ticket])
  | .sealGpuUnavailable =>
    if s.registry.gpuUnavailable then some (s, [])
    else s.sweep .gpuUnavailable s.registry.sealGpuUnavailable s.registry.entries.keys k.order
  | .stopAdmissionAndCancel =>
    s.sweep .cancelled { s.registry with stopped := true } s.registry.entries.keys k.order
  | .reap =>
    if s.registry.stopped then some (s, [])
    else
      s.sweep .timedOut s.registry (s.registry.entries.keys.filter fun ticket ↦
        (s.registry.entries.lookup ticket).any (·.request.deadlineUnixMs ≤ k.registry.now)) k.order
  | .joinEntry _ _ => none
  | f => (s.registry.exec cfg.toRegistryConfig f k.registry).map s.registrySection

/-- The next section of a call of an entry, and of what its callbacks do. Only a result stream calls
`start`. -/
def execEntry (ticket : Bytes) (worker : Bool) (f : EntryCall) (k : EntryAnswer) :
    Option (SidecarServer × List ServerCall) :=
  let entry := s.entry ticket
  if f = .start then none
  else
    (entry.exec (cfg.executions ticket) (if worker then none else some ()) f
      { k with seals := false }).map fun r ↦
      let s' := s.setEntry ticket r.1
      let new := r.2.map (.entry ticket worker)
      match f with
      | .onTerminal =>
        if (s.registry.entries.lookup ticket).isSome then
          ({ s'.giveUp ticket with registry := s.registry.remove ticket }, s.afterDrop ticket)
        else (s', new)
      | .run =>
        if new.isEmpty then (s'.giveUp ticket, s.afterDrop ticket)
        else if entry.callsFatal (cfg.executions ticket) k then
          (s', .registry .sealGpuUnavailable :: new)
        else (s', new)
      | _ => (s', new)

/-- The functions a thread may enter. -/
def call : ServerCall → Option SidecarServer
  | .registry f => (s.registry.call f).map fun r ↦ { s with registry := r }
  | .entry ticket true f =>
    ((s.entry ticket).call (none : Option Unit) f).map (s.setEntry ticket)
  | _ => none

/-- The next section of a call. -/
def exec (f : ServerCall) (k : ServerAnswer) : Option (SidecarServer × List ServerCall) :=
  match f with
  | .registry f => s.execRegistry cfg f k
  | .entry ticket worker f => s.execEntry cfg ticket worker f k.entry
  | .joining identity e f =>
    if f.joins then
      ((s.entry e.ticket).exec (cfg.executions e.ticket) (some ()) f k.entry).map fun r ↦
        (s.setEntry e.ticket r.1,
          if r.2.isEmpty then [.drop e.ticket, .reply identity e (f = .join true)]
          else r.2.map (.joining identity e))
    else none
  | .reply identity e quiesced =>
    (s.registry.exec cfg.toRegistryConfig (.joinEntry identity e) { accepts := quiesced }).map
      fun r ↦ ({ s with registry := r.1 }, [])
  | .opening ticket =>
    let entry := s.entry ticket
    ((entry.exec (cfg.executions ticket) (some ()) .start {}).map fun r ↦
      let s' := s.setEntry ticket r.1
      (if entry.workers < r.1.workers then s'.retain ticket else s', [.results ticket]))
  | .results ticket =>
    some (s, if k.more then [.entry ticket false .readNext, .results ticket]
      else [.entry ticket false (.cancel false), .drop ticket])
  | .each cause todo held =>
    match todo with
    | [] => some ({ s with swept := s.swept || cause != .timedOut }, held.map .drop)
    | ticket :: todo =>
      ((s.entry ticket).exec (cfg.executions ticket) (some ()) (.terminate cause) {}).map fun r ↦
        (s.setEntry ticket r.1, r.2.map (.entry ticket false) ++ [.each cause todo held])
  | .drop ticket => some (s.giveUp ticket, s.afterDrop ticket)
  | .destroy ticket => some (s, [.entry ticket false (.cancel false), .release ticket])
  | .release ticket => some (s.releaseLease ticket, [])

/-- The server and its threads as a program. -/
def program (ι : Type*) :
    Program SidecarServer ι ServerCall ServerAnswer (Bytes × Bytes × InputTraffic) where
  call s _ f := s.call f
  exec s _ f k := s.exec cfg f k
  ambient s a :=
    if a.1 ∈ s.alive.map (·.ticket) then
      (ExecutionEntry.traffic ((s.entry a.1).input a.2.1) a.2.2).map fun i ↦
        s.setEntry a.1 ((s.entry a.1).setInput a.2.1 i)
    else none

/-- A server with an empty registry. -/
def init (ι : Type*) : Threads SidecarServer ι ServerCall where
  shared := { registry := (TicketRegistry.init cfg.toRegistryConfig Unit).shared }
  calls _ := []

end SidecarServer

end MoSidecar
