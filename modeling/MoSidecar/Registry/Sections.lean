import MoSidecar.Registry.Preparation

/-!
# The sections of the registry

What a section of the registry does, listed once (`TicketRegistry.Effect`): the state it leaves, and
the calls that its thread goes on with, as far as leases, entries and answers to cancellations are
concerned. What is shown of all sections later on is proved by cases on this list, and not by cases
on their code.
-/

namespace MoSidecar

namespace TicketRegistry

variable {cfg : RegistryConfig} {s r : TicketRegistry} {g : RegistryCall} {a : RegistryAnswer}
  {calls : List RegistryCall}

/-- What a section of the registry does. -/
inductive Effect (cfg : RegistryConfig) (s : TicketRegistry) :
    RegistryCall → TicketRegistry → List RegistryCall → Prop
  /-- A command is refused before anything is prepared. -/
  | invalid {command : Option Bytes} : Effect cfg s (.getFlightInfo command) s []
  | valid {command : Bytes} {request : ExecuteRequest} :
    Effect cfg s (.getFlightInfo (some command)) s [.prepare command request]
  /-- A preparation fails without a reservation. -/
  | refused {command : Bytes} {request : ExecuteRequest} {outcome : PrepareOutcome}
    {admission : StreamAdmissionController} (hfails : outcome.fails = true)
    (hcapacity : admission.capacityBytes = s.admission.capacityBytes)
    (hcurrent : admission.currentBytes = s.admission.currentBytes) :
    Effect cfg s (.prepare command request)
      (({ s with admission } : TicketRegistry).returned command outcome) []
  | reserved {command : Bytes} {request : ExecuteRequest} {b : Building}
    (hadmitted : Admitted cfg s b) :
    Effect cfg s (.prepare command request)
      { s.reserve b with admission := (s.admission.tryAcquire b.lease).1 } [.drawTicket b]
  | waiting {command : Bytes} {request : ExecuteRequest} :
    Effect cfg s (.prepare command request) s [.awaitPrepared command request]
  /-- A preparation finds the entry of its key. -/
  | found {command T : Bytes} {request : ExecuteRequest} {e : PreparedEntry}
    (he : s.entries.lookup T = some e) :
    Effect cfg s (.prepare command request) s [.replay command e]
  | retrying {command : Bytes} {request : ExecuteRequest} :
    Effect cfg s (.awaitPrepared command request) s [.prepare command request]
  | expired {command : Bytes} {request : ExecuteRequest} {status : ArrowError} :
    Effect cfg s (.awaitPrepared command request) (s.returned command (.failed status)) []
  | replayed {command : Bytes} {e : PreparedEntry} :
    Effect cfg s (.replay command e) (s.returned command (.entry e false)) [.deliver e]
  | alreadyClaimed {command : Bytes} {e : PreparedEntry} {status : ArrowError} :
    Effect cfg s (.replay command e) (s.returned command (.failed status)) []
  /-- `random_ticket` throws. -/
  | undrawn {b : Building} {what : Thrown} :
    Effect cfg s (.drawTicket b) s [.releaseReservation b none what]
  /-- A ticket is drawn that an entry has. -/
  | taken {b : Building} {T : Bytes} :
    Effect cfg s (.drawTicket b) { s with drawn := (T, b.serial) :: s.drawn } [.drawTicket b]
  | drew {b : Building} {T : Bytes} (hT : T ∉ s.drawn.map Prod.fst)
    (hnone : s.entries.lookup T = none) :
    Effect cfg s (.drawTicket b) { s with drawn := (T, b.serial) :: s.drawn } [.construct b T]
  /-- The constructor of an entry throws. -/
  | threw {b : Building} {T : Bytes} {what : Thrown} :
    Effect cfg s (.construct b T) { s with admission := s.admission.release b.lease }
      [.releaseReservation { b with lease := 0 } none what]
  /-- The lease of a new entry does not shrink. -/
  | unshrunk {b : Building} {T : Bytes} {what : Thrown} :
    Effect cfg s (.construct b T) s [.releaseReservation b (some T) what]
  | built {b : Building} {T : Bytes} {bytes : UInt64} {admission : StreamAdmissionController} :
    Effect cfg s (.construct b T) { s with admission } [.commit { b with lease := bytes } T]
  /-- A commit in a registry that is stopped. -/
  | retracted {b : Building} {T : Bytes} :
    Effect cfg s (.commit b T)
      { s.releaseReservation b with exposed := (T, b.serial) :: s.exposed }
      [.abandon b.command s.stoppedStatus]
  /-- A commit without a record. -/
  | outOfRange {b : Building} {T : Bytes} :
    Effect cfg s (.commit b T)
      (({ s with
        reserved := s.reserved - 1
        exposed := (T, b.serial) :: s.exposed
        entries := emplace s.entries T (b.entry T) } : TicketRegistry).returned b.command
          .outOfRange) []
  /-- A commit after a cancellation of the key. -/
  | withdrawn {b : Building} {T : Bytes} {record : IdempotencyRecord} {status : ArrowError} :
    Effect cfg s (.commit b T) (s.committed b T record) [.abandon b.command status]
  | committed {b : Building} {T : Bytes} {record : IdempotencyRecord} :
    Effect cfg s (.commit b T)
      ((s.committed b T record).returned b.command (.entry (b.entry T) true))
      [.deliver (b.entry T)]
  | released {b : Building} {what : Thrown} :
    Effect cfg s (.releaseReservation b none what) (s.releaseReservation b) [.unwind b what]
  /-- The entry of a preparation that fails is destroyed with its lease. -/
  | dropped {b : Building} {T : Bytes} {what : Thrown} :
    Effect cfg s (.releaseReservation b (some T) what)
      { s.releaseReservation b with exposed := (T, b.serial) :: s.exposed }
      [.unwind { b with lease := 0 } what]
  | unwound {b : Building} {what : Thrown} :
    Effect cfg s (.unwind b what)
      (({ s with admission := s.admission.release b.lease } : TicketRegistry).returned b.command
        (.threw what)) []
  | abandoned {command : Bytes} {status : ArrowError} :
    Effect cfg s (.abandon command status) (s.returned command (.failed status)) []
  | undelivered {e : PreparedEntry} : Effect cfg s (.deliver e) s []
  | delivered {e : PreparedEntry} :
    Effect cfg s (.deliver e) { s with delivered := e :: s.delivered } []
  | unavailable {T : Bytes} : Effect cfg s (.doGet T) s []
  | available {T : Bytes} : Effect cfg s (.doGet T) s [.claim T]
  | unclaimed {T : Bytes} : Effect cfg s (.claim T) s []
  | claimed {T : Bytes} {e : PreparedEntry} (he : s.entries.lookup T = some e) :
    Effect cfg s (.claim T) s [.claimEntry e]
  | unstarted {e : PreparedEntry} : Effect cfg s (.claimEntry e) s []
  | started {e : PreparedEntry} :
    Effect cfg s (.claimEntry e) { s with started := e :: s.started } []
  | looked {T : Bytes} : Effect cfg s (.lookup T) s []
  /-- A cancellation finds no entry. -/
  | missed {T : Bytes} (hnone : s.entries.lookup T = none) :
    Effect cfg s (.cancelAndJoin T) (s.replied (.ticket T) .notFound) []
  | cancelling {T : Bytes} {e : PreparedEntry} (he : s.entries.lookup T = some e) :
    Effect cfg s (.cancelAndJoin T) s [.joinEntry (.ticket T) e]
  /-- A cancellation by key finds the registry stopped. -/
  | missedStopped {key : Bytes} (hstopped : s.stopped = true) :
    Effect cfg s (.cancelAndJoinIdempotency key) (s.replied (.idempotencyKey key) .notFound) []
  | missedKey {key : Bytes} (hkey : s.idempotency.lookup key = none) :
    Effect cfg s (.cancelAndJoinIdempotency key) (s.replied (.idempotencyKey key) .notFound) []
  /-- A record is marked while its entry is prepared. -/
  | marked {key : Bytes} {record : IdempotencyRecord} :
    Effect cfg s (.cancelAndJoinIdempotency key) (s.marked key record) [.awaitCommit key]
  | missedEntry {key : Bytes} {record : IdempotencyRecord}
    (hkey : s.idempotency.lookup key = some record) (hcommitted : record.preparing = false)
    (hnone : s.entries.lookup record.ticket = none) :
    Effect cfg s (.cancelAndJoinIdempotency key)
      ((s.marked key record).replied (.idempotencyKey key) .notFound) []
  | cancellingKey {key : Bytes} {record : IdempotencyRecord} {e : PreparedEntry}
    (hkey : s.idempotency.lookup key = some record) (hcommitted : record.preparing = false)
    (he : s.entries.lookup record.ticket = some e) :
    Effect cfg s (.cancelAndJoinIdempotency key) (s.marked key record)
      [.joinEntry (.idempotencyKey key) e]
  | retryingKey {key : Bytes} :
    Effect cfg s (.awaitCommit key) s [.cancelAndJoinIdempotency key]
  | expiredKey {key : Bytes} :
    Effect cfg s (.awaitCommit key) (s.replied (.idempotencyKey key) .deadlineExceeded) []
  | joined {identity : CancelIdentity} {e : PreparedEntry} :
    Effect cfg s (.joinEntry identity e) (s.replied identity .quiesced) []
  | unjoined {identity : CancelIdentity} {e : PreparedEntry} :
    Effect cfg s (.joinEntry identity e) (s.replied identity .deadlineExceeded) []
  | alreadySealed : Effect cfg s .sealGpuUnavailable s []
  | gpuSealed :
    Effect cfg s .sealGpuUnavailable { s with gpuUnavailable := true, stopped := true } []
  | stopped : Effect cfg s .stopAdmissionAndCancel { s with stopped := true } []
  | reaped : Effect cfg s .reap s []

theorem effect_of_prepare (s : TicketRegistry) (command : Bytes) (request : ExecuteRequest) :
    Effect cfg s (.prepare command request) (s.prepare cfg command request).1
      (s.prepare cfg command request).2 := by
  rw [prepare]
  split_ifs
  · exact .refused rfl rfl rfl
  · cases s.idempotency.lookup request.idempotencyKey with
    | none =>
      show Effect cfg s _ (s.prepareFresh cfg command request).1
        (s.prepareFresh cfg command request).2
      rcases prepareFresh_cases s cfg command request with
        ⟨b, -, -, -, hadmitted, heq⟩ | ⟨outcome, admission, hfails, ⟨hcapacity, hbytes⟩, heq⟩
      · rw [heq]
        exact .reserved hadmitted
      · rw [heq]
        exact .refused hfails hcapacity hbytes
    | some record =>
      simp only [prepareReplay]
      split_ifs
      · exact .refused rfl rfl rfl
      · exact .waiting
      · exact .refused rfl rfl rfl
      · cases he : s.entries.lookup record.ticket with
        | none => exact .refused rfl rfl rfl
        | some e => exact .found he

theorem effect_of_commit {b : Building} {T : Bytes} (h : s.commit b T = (r, calls)) :
    Effect cfg s (.commit b T) r calls := by
  simp only [commit] at h
  split_ifs at h
  · obtain ⟨rfl, rfl⟩ := Prod.mk.inj h
    exact .retracted
  · split at h
    · obtain ⟨rfl, rfl⟩ := Prod.mk.inj h
      exact .outOfRange
    · split_ifs at h <;> obtain ⟨rfl, rfl⟩ := Prod.mk.inj h
      · exact .withdrawn
      · exact .committed

theorem effect_of_cancelIdempotency {key : Bytes} (h : s.cancelIdempotency key = (r, calls)) :
    Effect cfg s (.cancelAndJoinIdempotency key) r calls := by
  rw [cancelIdempotency] at h
  split_ifs at h with hstopped
  · obtain ⟨rfl, rfl⟩ := Prod.mk.inj h
    exact .missedStopped hstopped
  · cases hkey : s.idempotency.lookup key with
    | none =>
      rw [hkey] at h
      obtain ⟨rfl, rfl⟩ := Prod.mk.inj h
      exact .missedKey hkey
    | some record =>
      simp only [hkey] at h
      by_cases hpreparing : record.preparing = true
      · rw [if_pos hpreparing] at h
        obtain ⟨rfl, rfl⟩ := Prod.mk.inj h
        exact .marked
      · rw [if_neg hpreparing] at h
        rw [Bool.not_eq_true] at hpreparing
        split at h <;> obtain ⟨rfl, rfl⟩ := Prod.mk.inj h
        · next hnone => exact .missedEntry hkey hpreparing hnone
        · next e he => exact .cancellingKey hkey hpreparing he

/-- **Every section** is one of these. -/
theorem effect_of_exec (h : s.exec cfg g a = some (r, calls)) : Effect cfg s g r calls := by
  cases g with
  | getFlightInfo command =>
    cases command with
    | none =>
      obtain ⟨rfl, rfl⟩ := Prod.mk.inj (Option.some.inj h)
      exact .invalid
    | some command =>
      simp only [exec] at h
      split_ifs at h
      · obtain ⟨rfl, rfl⟩ := Prod.mk.inj (Option.some.inj h)
        exact .invalid
      · split at h <;> obtain ⟨rfl, rfl⟩ := Prod.mk.inj (Option.some.inj h)
        · exact .invalid
        · exact .valid
  | prepare command request =>
    obtain ⟨rfl, rfl⟩ := Prod.mk.inj (Option.some.inj h)
    exact effect_of_prepare s command request
  | awaitPrepared command request =>
    simp only [exec] at h
    split_ifs at h <;> obtain ⟨rfl, rfl⟩ := Prod.mk.inj (Option.some.inj h)
    · exact .expired
    · exact .retrying
  | replay command e =>
    simp only [exec] at h
    split_ifs at h <;> obtain ⟨rfl, rfl⟩ := Prod.mk.inj (Option.some.inj h)
    · exact .replayed
    · exact .alreadyClaimed
  | drawTicket b =>
    cases hticket : a.ticket with
    | none =>
      simp only [exec, drawTicket, hticket] at h
      obtain ⟨rfl, rfl⟩ := Prod.mk.inj (Option.some.inj h)
      exact .undrawn
    | some T =>
      simp only [exec, drawTicket, hticket] at h
      split_ifs at h with hT htaken <;> obtain ⟨rfl, rfl⟩ := Prod.mk.inj (Option.some.inj h)
      · exact .taken
      · exact .drew hT (by simpa using htaken)
  | construct b T =>
    have hconstruct : s.construct b T a.built = (r, calls) := Option.some.inj h
    cases hbuilt : a.built with
    | error what =>
      rw [hbuilt] at hconstruct
      obtain ⟨rfl, rfl⟩ := Prod.mk.inj hconstruct
      exact .threw
    | ok streamInputs =>
      simp only [hbuilt, construct] at hconstruct
      split at hconstruct <;> obtain ⟨rfl, rfl⟩ := Prod.mk.inj hconstruct
      · exact .unshrunk
      · exact .built
  | commit b T => exact effect_of_commit (Option.some.inj h)
  | releaseReservation b built what =>
    cases built <;> obtain ⟨rfl, rfl⟩ := Prod.mk.inj (Option.some.inj h)
    · exact .released
    · exact .dropped
  | unwind b what =>
    obtain ⟨rfl, rfl⟩ := Prod.mk.inj (Option.some.inj h)
    exact .unwound
  | abandon command status =>
    obtain ⟨rfl, rfl⟩ := Prod.mk.inj (Option.some.inj h)
    exact .abandoned
  | deliver e =>
    simp only [exec] at h
    split_ifs at h <;> obtain ⟨rfl, rfl⟩ := Prod.mk.inj (Option.some.inj h)
    · exact .undelivered
    · exact .delivered
  | doGet T =>
    obtain ⟨rfl, rfl⟩ := Prod.mk.inj (Option.some.inj h)
    split_ifs
    · exact .unavailable
    · exact .available
  | claim T =>
    simp only [exec] at h
    split_ifs at h
    · obtain ⟨rfl, rfl⟩ := Prod.mk.inj (Option.some.inj h)
      exact .unclaimed
    · split at h <;> obtain ⟨rfl, rfl⟩ := Prod.mk.inj (Option.some.inj h)
      · exact .unclaimed
      · next e he => exact .claimed he
  | claimEntry e =>
    simp only [exec] at h
    split_ifs at h <;> obtain ⟨rfl, rfl⟩ := Prod.mk.inj (Option.some.inj h)
    · exact .started
    · exact .unstarted
  | lookup T =>
    obtain ⟨rfl, rfl⟩ := Prod.mk.inj (Option.some.inj h)
    exact .looked
  | cancelAndJoin T =>
    simp only [exec] at h
    split at h <;> obtain ⟨rfl, rfl⟩ := Prod.mk.inj (Option.some.inj h)
    · next hnone => exact .missed hnone
    · next e he => exact .cancelling he
  | cancelAndJoinIdempotency key => exact effect_of_cancelIdempotency (Option.some.inj h)
  | awaitCommit key =>
    simp only [exec] at h
    split_ifs at h <;> obtain ⟨rfl, rfl⟩ := Prod.mk.inj (Option.some.inj h)
    · exact .expiredKey
    · exact .retryingKey
  | joinEntry identity e =>
    obtain ⟨rfl, rfl⟩ := Prod.mk.inj (Option.some.inj h)
    split_ifs
    · exact .joined
    · exact .unjoined
  | sealGpuUnavailable =>
    obtain ⟨rfl, rfl⟩ := Prod.mk.inj (Option.some.inj h)
    rw [TicketRegistry.sealGpuUnavailable]
    split_ifs
    · exact .alreadySealed
    · exact .gpuSealed
  | stopAdmissionAndCancel =>
    obtain ⟨rfl, rfl⟩ := Prod.mk.inj (Option.some.inj h)
    exact .stopped
  | reap =>
    obtain ⟨rfl, rfl⟩ := Prod.mk.inj (Option.some.inj h)
    exact .reaped

end TicketRegistry

end MoSidecar
