import MoSidecar.Registry.Ledger

/-!
# Preparation

What callers of `prepare` may rely on: a key is prepared once at a time, a retry shares only what
was built from the very same command, and an execution that was cancelled while it was prepared is
handed to nobody.

## What is assumed

Commands are told apart by their digest, so the first of these is for an injective digest. That a
ticket drawn at random is not guessed is not assumed: tickets that were presented without having
been delivered are recorded, and the worker of a cancelled execution starts for such a ticket only.
-/

open Function (update)

namespace MoSidecar

/-- `prepare` returns no entry. -/
def PrepareOutcome.fails : PrepareOutcome → Bool
  | .entry _ _ => false
  | _ => true

namespace TicketRegistry

variable {cfg : RegistryConfig} {ι : Type*} [Fintype ι] [DecidableEq ι]
  {c c' : Threads TicketRegistry ι RegistryCall} {t : ι} {k : RegistryAnswer}
  {rest : List RegistryCall} {command : Bytes} {request : ExecuteRequest}
  {ms : List (Move ι RegistryCall RegistryAnswer RegistryEvent)}

/-! ## Identical retries -/

/-- A preparation that passes the checks of admission. -/
structure Admitted (cfg : RegistryConfig) (s : TicketRegistry) (b : Building) : Prop where
  room : s.entries.keys.length + s.reserved < cfg.maxActiveTickets
  charge : streamExecutionCharge b.request kMaxStreamInputs = .ok b.lease
  granted : (s.admission.tryAcquire b.lease).2 = true

/-- What callers of `prepare` may rely on in a state. -/
structure Idempotent (cfg : RegistryConfig) (c : Threads TicketRegistry ι RegistryCall) : Prop where
  /-- A key has at most one entry under construction. -/
  oneBuilding : ∀ key, Program.weight (preparingKey key) c ≤ 1
  /-- It has at most one entry that is registered. -/
  oneEntry : ∀ T T' e e', c.shared.entries.lookup T = some e →
    c.shared.entries.lookup T' = some e' → e.key = e'.key → T = T'
  /-- It has not both. -/
  notBoth : ∀ T e, c.shared.entries.lookup T = some e → Program.weight (preparingKey e.key) c = 0
  /-- An entry is returned to senders of the command it was built from. -/
  shared : ∀ ret ∈ c.shared.returns, ∀ e own, ret.outcome = .entry e own →
    e.command = ret.command ∧ e.request.fingerprint = cfg.sha256 ret.command ∧
      ∀ request, Requested cfg ret.command request → e.request.accountId = request.accountId ∧
        e.request.queryId = request.queryId ∧ e.request.plan = request.plan
  /-- Another command for a key with a record gets an error, and changes nothing. -/
  conflict : ∀ t command request rest record k c', c.calls t = .prepare command request :: rest →
    c.shared.idempotency.lookup request.idempotencyKey = some record →
    record.fingerprint ≠ request.fingerprint →
    (program cfg ι).machine.step c (.exec t k) = some c' →
    ∃ status, c' = ⟨c.shared.returned command (.failed status), update c.calls t rest⟩
  /-- Who waits looks again, or gets an error. -/
  waits : ∀ t command request rest k c', c.calls t = .awaitPrepared command request :: rest →
    (program cfg ι).machine.step c (.exec t k) = some c' →
    c' = ⟨c.shared, update c.calls t (.prepare command request :: rest)⟩ ∨
      ∃ status, c' = ⟨c.shared.returned command (.failed status), update c.calls t rest⟩
  /-- Who then finds no record prepares afresh under the checks of admission, or gets an error. -/
  fresh : ∀ t command request rest k c', c.calls t = .prepare command request :: rest →
    c.shared.idempotency.lookup request.idempotencyKey = none →
    (program cfg ι).machine.step c (.exec t k) = some c' →
    (∃ b admission, b.command = command ∧ b.request = request ∧ Admitted cfg c.shared b ∧
      c' = ⟨{ c.shared.reserve b with admission }, update c.calls t (.drawTicket b :: rest)⟩) ∨
    ∃ outcome admission, outcome.fails = true ∧
      admission.currentBytes = c.shared.admission.currentBytes ∧
      c' = ⟨({ c.shared with admission } : TicketRegistry).returned command outcome,
        update c.calls t rest⟩

omit [Fintype ι] in
/-- The step of a call, read off its next section. -/
theorem eq_of_step {f : RegistryCall} {r : TicketRegistry × List RegistryCall}
    (hstack : c.calls t = f :: rest) (hexec : c.shared.exec cfg f k = some r)
    (hstep : (program cfg ι).machine.step c (.exec t k) = some c') :
    c' = ⟨r.1, update c.calls t (r.2 ++ rest)⟩ := by
  obtain ⟨f', rest', s, new, hstack', hs, rfl⟩ := Program.step_exec_eq_some.mp hstep
  obtain ⟨rfl, rfl⟩ := List.cons.inj (hstack'.symm.trans hstack)
  obtain rfl : (s, new) = r := Option.some.inj (hs.symm.trans hexec)
  rfl

/-- The checks of admission of a key without a record. -/
theorem prepareFresh_cases (s : TicketRegistry) (cfg : RegistryConfig) (command : Bytes)
    (request : ExecuteRequest) :
    (∃ b, b.command = command ∧ b.request = request ∧ b.serial = s.reservations ∧
      Admitted cfg s b ∧ s.prepareFresh cfg command request
        = ({ s.reserve b with admission := (s.admission.tryAcquire b.lease).1 }, [.drawTicket b])) ∨
    ∃ outcome admission, outcome.fails = true ∧
      (admission.capacityBytes = s.admission.capacityBytes ∧
        admission.currentBytes = s.admission.currentBytes) ∧
      s.prepareFresh cfg command request
        = (({ s with admission } : TicketRegistry).returned command outcome, []) := by
  rw [prepareFresh]
  split_ifs with hfull
  · exact .inr ⟨_, s.admission, rfl, ⟨rfl, rfl⟩, rfl⟩
  · cases hcharge : streamExecutionCharge request kMaxStreamInputs with
    | error what => exact .inr ⟨.threw what, s.admission, rfl, ⟨rfl, rfl⟩, rfl⟩
    | ok bytes =>
      by_cases hgranted : (s.admission.tryAcquire bytes).2 = true
      · refine .inl ⟨⟨command, request, s.reservations, bytes⟩, rfl, rfl, rfl, ?_, if_pos hgranted⟩
        exact ⟨Nat.not_le.mp hfull, hcharge, hgranted⟩
      · refine .inr ⟨_, _, rfl, ?_, if_neg hgranted⟩
        exact StreamAdmissionController.tryAcquire_refused (by simpa using hgranted)

/-- A request is determined by the command, but for its deadline. -/
theorem same_query {request' : ExecuteRequest} (h : Requested cfg command request)
    (h' : Requested cfg command request') : request.accountId = request'.accountId ∧
      request.queryId = request'.queryId ∧ request.plan = request'.plan := by
  obtain ⟨parsed, deadline, hparsed, -, rfl⟩ := h.exists_parsed
  obtain ⟨parsed', deadline', hparsed', -, rfl⟩ := h'.exists_parsed
  obtain rfl : parsed = parsed' := Except.ok.inj (hparsed.symm.trans hparsed')
  exact ⟨rfl, rfl, rfl⟩

/-- **Preparation is idempotent**: in every reachable state, for every number of calls. -/
theorem idempotent (cfg : RegistryConfig) (hsha : Function.Injective cfg.sha256)
    (ms : List (Move ι RegistryCall RegistryAnswer RegistryEvent))
    (c : Threads TicketRegistry ι RegistryCall)
    (hrun : (program cfg ι).machine.run (init cfg ι) ms = some c) : Idempotent cfg c := by
  obtain ⟨h, -⟩ := run_invariant hrun
  have hweight := weight_preparingKey h
  constructor
  · intro key
    rw [hweight]
    exact Bool.toNat_le _
  · intro T T' e e' he he' hkey
    exact h.recorded.matched.eq_of_key he he' hkey
  · intro T e he
    obtain ⟨-, r, hr, hcommitted, -⟩ := h.recorded.matched.recordOf he
    rw [hweight, hr, Option.any_some, hcommitted]
    rfl
  · intro ret hret e own houtcome
    have hok := h.logged.returns ret hret
    simp only [ReturnOk, houtcome] at hok
    have hcommand : e.command = ret.command := hsha hok.1.digest
    have hrequested : Requested cfg ret.command e.request := hcommand ▸ hok.1.requested
    exact ⟨hcommand, hrequested.fingerprint_eq, fun request ↦ same_query hrequested⟩
  · intro t command request rest record k c' hstack hrecord hconflict hstep
    rw [eq_of_step hstack rfl hstep, prepare]
    split_ifs
    · exact ⟨_, rfl⟩
    · rw [hrecord]
      simp only [prepareReplay, if_pos hconflict]
      exact ⟨_, rfl⟩
  · intro t command request rest k c' hstack hstep
    by_cases hexpired : k.expired = true
    · rw [eq_of_step hstack (if_pos hexpired) hstep]
      exact .inr ⟨_, rfl⟩
    · rw [eq_of_step hstack (if_neg hexpired) hstep]
      exact .inl rfl
  · intro t command request rest k c' hstack hnone hstep
    rw [eq_of_step hstack rfl hstep, prepare]
    split_ifs
    · exact .inr ⟨_, c.shared.admission, rfl, rfl, rfl⟩
    · rw [hnone]
      rcases prepareFresh_cases c.shared cfg command request with
        ⟨b, hcommand, hrequest, -, hadmitted, heq⟩ | ⟨outcome, admission, hfails, hbytes, heq⟩
      · refine .inl ⟨b, (c.shared.admission.tryAcquire b.lease).1, hcommand, hrequest,
          hadmitted, ?_⟩
        rw [heq]
        rfl
      · refine .inr ⟨outcome, admission, hfails, hbytes.2, ?_⟩
        rw [heq]
        rfl

/-- A second thread sends the same command, and is given the entry of the first. -/
def retryOnce : List (Move Bool RegistryCall RegistryAnswer RegistryEvent) :=
  prepareOnce ++ [.call true (.getFlightInfo (some oneCommand)), .exec true {}, .exec true {},
    .exec true {}, .exec true {}]

theorem idempotent_retryOnce :
    ∃ c, (program oneTicket Bool).machine.run (init oneTicket Bool) retryOnce = some c ∧
      c.shared.delivered.map (·.ticket) = [[7], [7]] ∧ Idempotent oneTicket c := by
  have hdelivered : ((program oneTicket Bool).machine.run (init oneTicket Bool) retryOnce).map
      (fun c ↦ c.shared.delivered.map (·.ticket)) = some [[7], [7]] := by
    decide +kernel
  have hsha : Function.Injective oneTicket.sha256 :=
    (Equiv.injective _).comp (Equiv.injective _)
  obtain ⟨c, hrun, hc⟩ := Option.map_eq_some_iff.mp hdelivered
  exact ⟨c, hrun, hc, idempotent oneTicket hsha retryOnce c hrun⟩

/-! ## Cancellation by key -/

/-- **A cancellation by key is not lost**: what was cancelled while it was being prepared is
returned by no call of `prepare`, its ticket is not delivered, and its worker starts only for
somebody who presents the ticket all the same. -/
theorem cancel_not_lost (cfg : RegistryConfig)
    (ms : List (Move ι RegistryCall RegistryAnswer RegistryEvent))
    (c : Threads TicketRegistry ι RegistryCall)
    (hrun : (program cfg ι).machine.run (init cfg ι) ms = some c) :
    ∀ i ∈ c.shared.cancelled,
      (∀ ret ∈ c.shared.returns, ∀ e own, ret.outcome = .entry e own → e.serial ≠ i) ∧
      (∀ e ∈ c.shared.delivered, e.serial ≠ i) ∧
      ∀ e ∈ c.shared.started, e.serial = i → e.ticket ∈ c.shared.guessed := by
  obtain ⟨h, -⟩ := run_invariant hrun
  intro i hi
  refine ⟨?_, ?_, ?_⟩
  · rintro ret hret e own houtcome rfl
    have hok := h.logged.returns ret hret
    simp only [ReturnOk, houtcome] at hok
    exact hok.1.settled.2 hi
  · rintro e he rfl
    exact (h.logged.delivered e he).1.2 hi
  · rintro e he rfl
    obtain ⟨hguessed | hdelivered, hdrawn⟩ := h.logged.started e he
    · exact hguessed
    · -- a delivered ticket was drawn for one reservation, and that was not cancelled
      obtain ⟨e', he', hticket⟩ := List.mem_map.mp hdelivered
      obtain ⟨hsettled, hdrawn'⟩ := h.logged.delivered e' he'
      rw [Drawn, hticket] at hdrawn'
      rw [h.serials.drawn _ _ _ hdrawn hdrawn'] at hi
      exact absurd hi hsettled.2

/-- The second thread cancels while the first draws a ticket. -/
def cancelPreparing : List (Move Bool RegistryCall RegistryAnswer RegistryEvent) :=
  [.call false (.getFlightInfo (some oneCommand)), .exec false {}, .exec false {},
    .call true (.cancelAndJoinIdempotency oneKey), .exec true {}, .exec true { stopped := true },
    .exec false { ticket := some [7] }, .exec false {}, .exec false {}, .exec false {}]

theorem cancel_not_lost_cancelPreparing :
    ∃ c, (program oneTicket Bool).machine.run (init oneTicket Bool) cancelPreparing = some c ∧
      c.shared.cancelled = [0] ∧ (∀ ret ∈ c.shared.returns, ∀ e own,
        ret.outcome = .entry e own → e.serial ≠ 0) := by
  have hcancelled : ((program oneTicket Bool).machine.run (init oneTicket Bool)
      cancelPreparing).map (·.shared.cancelled) = some [0] := by
    decide +kernel
  obtain ⟨c, hrun, hc⟩ := Option.map_eq_some_iff.mp hcancelled
  exact ⟨c, hrun, hc, (cancel_not_lost oneTicket cancelPreparing c hrun 0 (by simp [hc])).1⟩

end TicketRegistry

end MoSidecar
