import MoSidecar.Registry.Records

/-!
# What holds of the registry at all times

The two maps match, every reservation is held by one call, serials and tickets are not used twice,
and what was logged is as it should be. The invariant is about the registry and the number of calls
that hold each reservation, so it can be a ledger of the registry's program (see `Ledger`). Here it
is shown to survive each of the ways in which the registry changes.

## What callers know

A caller goes on with what it has read after it has left the mutex. `Knows` says what that is, and
`Evolves` what stays true of the registry whatever others do; every change is also an evolution, so
no section takes away what a caller knows.
-/

open Function (update)

namespace MoSidecar

/-- The reservation a call holds. -/
def RegistryCall.building? : RegistryCall → Option Building
  | .drawTicket b | .construct b _ | .commit b _ | .releaseReservation b _ _ => some b
  | _ => none

/-- The request that `GetFlightInfo` makes of a command. -/
def Requested (cfg : RegistryConfig) (command : Bytes) (request : ExecuteRequest) : Prop :=
  ∃ now, validateRequest cfg now command = .ok request

/-- A request is what the command says, but for the fingerprint and the deadline. -/
theorem Requested.exists_parsed {cfg : RegistryConfig} {command : Bytes} {request : ExecuteRequest}
    (h : Requested cfg command request) : ∃ parsed deadline,
      parseExecuteRequest command = .ok parsed ∧
        request.idempotencyKey = executionIdempotencyKey cfg request.accountId request.queryId ∧
          request =
            { parsed with fingerprint := cfg.sha256 command, deadlineUnixMs := deadline } := by
  obtain ⟨now, h⟩ := h
  rw [validateRequest] at h
  cases hparsed : parseExecuteRequest command with
  | error what =>
    rw [hparsed] at h
    cases h
  | ok parsed =>
    simp only [hparsed] at h
    split_ifs at h with hkey
    all_goals
      obtain rfl := Except.ok.inj h
      exact ⟨parsed, _, rfl, not_not.mp hkey, rfl⟩

theorem Requested.fingerprint_eq {cfg : RegistryConfig} {command : Bytes} {request : ExecuteRequest}
    (h : Requested cfg command request) : request.fingerprint = cfg.sha256 command := by
  obtain ⟨parsed, deadline, -, -, rfl⟩ := h.exists_parsed
  rfl

namespace TicketRegistry

variable (cfg : RegistryConfig) (s : TicketRegistry)

/-- The calls that hold a reservation, and those that hold any. -/
def holding (o : Option Reservation) (f : RegistryCall) : ℕ :=
  match f.building? with
  | none => 0
  | some b =>
    match o with
    | none => 1
    | some ρ => if ρ = b.reservation then 1 else 0

/-- The maps and the counter, and the calls that hold reservations. -/
structure Recorded (n : Option Reservation → ℕ) : Prop where
  reserved : s.reserved = n none
  bound : s.entries.keys.length + s.reserved ≤ cfg.maxActiveTickets
  matched : Matched s.idempotency.lookup s.entries.lookup
  owned : Owned s.idempotency.lookup fun ρ ↦ n (some ρ)

/-- A reservation whose preparation is over. -/
def Past (i : ℕ) : Prop :=
  i < s.reservations ∧
    ∀ k r, s.idempotency.lookup k = some r → r.preparing = true → r.serial ≠ i

/-- Serials and tickets are not used twice, and a mark on a record that is preparing stays. -/
structure Serials : Prop where
  lt : ∀ k r, s.idempotency.lookup k = some r → r.serial < s.reservations
  distinct : ∀ k k' r r', s.idempotency.lookup k = some r → s.idempotency.lookup k' = some r' →
    r.serial = r'.serial → k = k'
  drawn : ∀ T i j, (T, i) ∈ s.drawn → (T, j) ∈ s.drawn → i = j
  entry : ∀ T e, s.entries.lookup T = some e → (T, e.serial) ∈ s.exposed
  exposed : ∀ T i, (T, i) ∈ s.exposed → (T, i) ∈ s.drawn ∧ s.Past i
  flagged : ∀ k r, s.idempotency.lookup k = some r → r.serial ∈ s.cancelled →
    r.cancelRequested = true
  cancelled : ∀ i ∈ s.cancelled, i < s.reservations

/-- An entry that no cancellation has caught while it was preparing. -/
def Settled (e : PreparedEntry) : Prop := s.Past e.serial ∧ e.serial ∉ s.cancelled

def Drawn (e : PreparedEntry) : Prop := (e.ticket, e.serial) ∈ s.drawn

/-- A ticket that somebody has presented: it had been delivered, or was guessed. -/
def Presented (T : Bytes) : Prop := T ∈ s.guessed ∨ T ∈ s.delivered.map (·.ticket)

/-- An entry that a call of `prepare` may return to the sender of a command. -/
structure Serves (command : Bytes) (e : PreparedEntry) : Prop where
  settled : s.Settled e
  drawn : s.Drawn e
  requested : Requested cfg e.command e.request
  digest : cfg.sha256 e.command = cfg.sha256 command

/-- What may be said of a call of `prepare` that is over. -/
def ReturnOk (ret : PrepareReturn) : Prop :=
  match ret.outcome with
  | .entry e own => s.Serves cfg ret.command e ∧ (own = true → e.command = ret.command)
  | .failed status => status ≠ stateInvalid
  | .threw _ => True
  | .outOfRange => False

/-- What was logged. -/
structure Logged : Prop where
  entries : ∀ T e, s.entries.lookup T = some e → Requested cfg e.command e.request
  returns : ∀ ret ∈ s.returns, s.ReturnOk cfg ret
  delivered : ∀ e ∈ s.delivered, s.Settled e ∧ s.Drawn e
  started : ∀ e ∈ s.started, s.Presented e.ticket ∧ s.Drawn e

/-- The state of the registry, with the calls that hold reservations. -/
structure Invariant (n : Option Reservation → ℕ) : Prop where
  recorded : s.Recorded cfg n
  serials : s.Serials
  logged : s.Logged cfg

/-- What a call knows. -/
def Knows (f : RegistryCall) : Prop :=
  match f with
  | .prepare command request | .awaitPrepared command request => Requested cfg command request
  | .drawTicket b => Requested cfg b.command b.request
  | .releaseReservation b built _ =>
    Requested cfg b.command b.request ∧ ∀ T ∈ built, (T, b.serial) ∈ s.drawn
  | .construct b T | .commit b T =>
    Requested cfg b.command b.request ∧ (T, b.serial) ∈ s.drawn
  | .replay command e => s.Serves cfg command e
  | .deliver e => s.Settled e ∧ s.Drawn e
  | .doGet T | .claim T => s.Presented T
  | .claimEntry e => s.Presented e.ticket ∧ s.Drawn e
  | .abandon _ status => status ≠ stateInvalid
  | _ => True

/-- What stays true of what callers have read. -/
structure Evolves (s s' : TicketRegistry) : Prop where
  past : ∀ i, s.Past i → s'.Past i
  cancelled : ∀ i, s.Past i → i ∉ s.cancelled → i ∉ s'.cancelled
  drawn : s.drawn ⊆ s'.drawn
  presented : ∀ T, s.Presented T → s'.Presented T

variable {cfg s} {s' : TicketRegistry} {n : Option Reservation → ℕ} {f : RegistryCall}

namespace Evolves

theorem refl (s : TicketRegistry) : Evolves s s :=
  ⟨fun _ ↦ id, fun _ _ ↦ id, List.Subset.refl _, fun _ ↦ id⟩

theorem trans {s'' : TicketRegistry} (h : Evolves s s') (h' : Evolves s' s'') : Evolves s s'' where
  past i hi := h'.past i (h.past i hi)
  cancelled i hi hno := h'.cancelled i (h.past i hi) (h.cancelled i hi hno)
  drawn := List.Subset.trans h.drawn h'.drawn
  presented T hT := h'.presented T (h.presented T hT)

theorem settled (h : Evolves s s') {e : PreparedEntry} (he : s.Settled e) : s'.Settled e :=
  ⟨h.past _ he.1, h.cancelled _ he.1 he.2⟩

theorem serves (h : Evolves s s') {command : Bytes} {e : PreparedEntry}
    (he : s.Serves cfg command e) : s'.Serves cfg command e where
  settled := h.settled he.settled
  drawn := h.drawn he.drawn
  requested := he.requested
  digest := he.digest

theorem returnOk (h : Evolves s s') {ret : PrepareReturn} (hret : s.ReturnOk cfg ret) :
    s'.ReturnOk cfg ret := by
  obtain ⟨command, outcome⟩ := ret
  cases outcome with
  | entry e own => exact ⟨h.serves hret.1, hret.2⟩
  | _ => exact hret

theorem knows (h : Evolves s s') {f : RegistryCall} (hf : s.Knows cfg f) : s'.Knows cfg f := by
  cases f with
  | construct b T | commit b T => exact ⟨hf.1, h.drawn hf.2⟩
  | releaseReservation b built what => exact ⟨hf.1, fun T hT ↦ h.drawn (hf.2 T hT)⟩
  | replay command e => exact h.serves hf
  | deliver e => exact ⟨h.settled hf.1, h.drawn hf.2⟩
  | doGet T | claim T => exact h.presented T hf
  | claimEntry e => exact ⟨h.presented _ hf.1, h.drawn hf.2⟩
  | _ => exact hf

/-- The log stays in order when it is not added to. -/
theorem logged (h : Evolves s s') (hlogged : s.Logged cfg)
    (hentries : ∀ T e, s'.entries.lookup T = some e → Requested cfg e.command e.request)
    (hreturns : s'.returns = s.returns) (hdelivered : s'.delivered = s.delivered)
    (hstarted : s'.started = s.started) : s'.Logged cfg where
  entries := hentries
  returns ret hret := by
    rw [hreturns] at hret
    exact h.returnOk (hlogged.returns ret hret)
  delivered e he := by
    rw [hdelivered] at he
    exact ⟨h.settled (hlogged.delivered e he).1, h.drawn (hlogged.delivered e he).2⟩
  started e he := by
    rw [hstarted] at he
    exact ⟨h.presented _ (hlogged.started e he).1, h.drawn (hlogged.started e he).2⟩

end Evolves

/-! ## One change at a time -/

/-- A change after which every record is one that was there under its key, perhaps in a later form.
A reservation that is marked as cancelled belongs to a record that was preparing. -/
structure Inherits (s s' : TicketRegistry) : Prop where
  reservations : s'.reservations = s.reservations
  drawn : s'.drawn = s.drawn
  returns : s'.returns = s.returns
  delivered : s'.delivered = s.delivered
  started : s'.started = s.started
  guessed : s.guessed ⊆ s'.guessed
  record : ∀ {k r'}, s'.idempotency.lookup k = some r' → ∃ r, s.idempotency.lookup k = some r ∧
    r.serial = r'.serial ∧ (r'.preparing = true → r.preparing = true) ∧
      (r.cancelRequested = true → r'.cancelRequested = true)
  cancelled : ∀ i ∈ s'.cancelled, i ∈ s.cancelled ∨ ∃ k r, s.idempotency.lookup k = some r ∧
    r.preparing = true ∧ r.serial = i ∧
      ∀ r', s'.idempotency.lookup k = some r' → r'.cancelRequested = true

namespace Inherits

theorem past (h : Inherits s s') {i : ℕ} (hi : s.Past i) : s'.Past i := by
  constructor
  · rw [h.reservations]
    exact hi.1
  · intro k r' hr' hpreparing
    obtain ⟨r, hr, hserial, hearlier, -⟩ := h.record hr'
    rw [← hserial]
    exact hi.2 k r hr (hearlier hpreparing)

theorem evolves (h : Inherits s s') : Evolves s s' where
  past _ := h.past
  cancelled i hi hno hcancelled := by
    rcases h.cancelled i hcancelled with hold | ⟨k, r, hr, hpreparing, hserial, -⟩
    · exact hno hold
    · exact hi.2 k r hr hpreparing hserial
  drawn := by
    rw [h.drawn]
    exact List.Subset.refl _
  presented T hT := by
    rw [Presented, h.delivered]
    exact hT.imp_left fun hg ↦ h.guessed hg

theorem serials (h : Inherits s s') (hs : s.Serials)
    (hentry : ∀ T e, s'.entries.lookup T = some e → (T, e.serial) ∈ s'.exposed)
    (hexposed : ∀ T i, (T, i) ∈ s'.exposed → (T, i) ∈ s.exposed ∨ (T, i) ∈ s.drawn ∧ s'.Past i) :
    s'.Serials where
  lt k r' hr' := by
    obtain ⟨r, hr, hserial, -⟩ := h.record hr'
    rw [h.reservations, ← hserial]
    exact hs.lt k r hr
  distinct k k' r r' hr hr' heq := by
    obtain ⟨q, hq, hserial, -⟩ := h.record hr
    obtain ⟨q', hq', hserial', -⟩ := h.record hr'
    exact hs.distinct k k' q q' hq hq' (by rw [hserial, hserial', heq])
  drawn := by
    rw [h.drawn]
    exact hs.drawn
  entry := hentry
  exposed T i hT := by
    rw [h.drawn]
    rcases hexposed T i hT with hold | hnew
    · exact (hs.exposed T i hold).imp_right h.past
    · exact hnew
  flagged k r' hr' hmem := by
    obtain ⟨r, hr, hserial, -, hflag⟩ := h.record hr'
    rcases h.cancelled _ hmem with hold | ⟨k', q, hq, -, hserial', hmark⟩
    · exact hflag (hs.flagged k r hr (hserial ▸ hold))
    · obtain rfl := hs.distinct k k' r q hr hq (by rw [hserial, hserial'])
      exact hmark r' hr'
  cancelled i hi := by
    rw [h.reservations]
    rcases h.cancelled i hi with hold | ⟨k, r, hr, -, rfl, -⟩
    · exact hs.cancelled i hold
    · exact hs.lt k r hr

/-- The three parts together. -/
theorem invariant {n' : Option Reservation → ℕ} (h : Inherits s s') (hs : s.Invariant cfg n)
    (hrecorded : s'.Recorded cfg n')
    (hentry : ∀ T e, s'.entries.lookup T = some e →
      (T, e.serial) ∈ s'.exposed ∧ Requested cfg e.command e.request)
    (hexposed : ∀ T i, (T, i) ∈ s'.exposed → (T, i) ∈ s.exposed ∨ (T, i) ∈ s.drawn ∧ s'.Past i) :
    Evolves s s' ∧ s'.Invariant cfg n' :=
  ⟨h.evolves, hrecorded, h.serials hs.serials (fun T e he ↦ (hentry T e he).1) hexposed,
    h.evolves.logged hs.logged (fun T e he ↦ (hentry T e he).2) h.returns h.delivered h.started⟩

end Inherits

/-- A change that touches neither the maps nor the log. -/
structure Aside (s s' : TicketRegistry) : Prop where
  entries : s'.entries = s.entries
  idempotency : s'.idempotency = s.idempotency
  reserved : s'.reserved = s.reserved
  reservations : s'.reservations = s.reservations
  drawn : s'.drawn = s.drawn
  exposed : s'.exposed = s.exposed
  cancelled : s'.cancelled = s.cancelled
  returns : s'.returns = s.returns
  delivered : s'.delivered = s.delivered
  started : s'.started = s.started
  guessed : s.guessed ⊆ s'.guessed

theorem Aside.refl (s : TicketRegistry) : Aside s s :=
  ⟨rfl, rfl, rfl, rfl, rfl, rfl, rfl, rfl, rfl, rfl, List.Subset.refl _⟩

theorem Aside.inherits (h : Aside s s') : Inherits s s' where
  reservations := h.reservations
  drawn := h.drawn
  returns := h.returns
  delivered := h.delivered
  started := h.started
  guessed := h.guessed
  record {k r'} hr' := by
    rw [h.idempotency] at hr'
    exact ⟨r', hr', rfl, id, id⟩
  cancelled i hi := by
    rw [h.cancelled] at hi
    exact .inl hi

namespace Invariant

/-- The entries are those of tickets that are exposed, and were requested. -/
theorem entry (h : s.Invariant cfg n) {T : Bytes} {e : PreparedEntry}
    (he : s.entries.lookup T = some e) :
    (T, e.serial) ∈ s.exposed ∧ Requested cfg e.command e.request :=
  ⟨h.serials.entry T e he, h.logged.entries T e he⟩

theorem aside (h : s.Invariant cfg n) (hs : Aside s s') :
    Evolves s s' ∧ s'.Invariant cfg n := by
  refine hs.inherits.invariant h ?_ ?_ ?_
  · obtain ⟨hreserved, hbound, hmatched, howned⟩ := h.recorded
    constructor
    · rw [hs.reserved, hreserved]
    · rw [hs.entries, hs.reserved]
      exact hbound
    · rw [hs.entries, hs.idempotency]
      exact hmatched
    · rw [hs.idempotency]
      exact howned
  · intro T e he
    rw [hs.entries] at he
    rw [hs.exposed]
    exact h.entry he
  · intro T i hT
    rw [hs.exposed] at hT
    exact .inl hT

/-- A call of `prepare` ends. -/
theorem returned (h : s.Invariant cfg n) {command : Bytes} {outcome : PrepareOutcome}
    (hret : s.ReturnOk cfg ⟨command, outcome⟩) :
    Evolves s (s.returned command outcome) ∧ (s.returned command outcome).Invariant cfg n := by
  have hevolves : Evolves s (s.returned command outcome) :=
    ⟨fun _ ↦ id, fun _ _ ↦ id, List.Subset.refl _, fun _ ↦ id⟩
  refine ⟨hevolves, { h.recorded with }, { h.serials with }, ?_⟩
  constructor
  · exact h.logged.entries
  · intro ret hmem
    rcases List.mem_append.mp hmem with hmem | hmem
    · exact hevolves.returnOk (h.logged.returns ret hmem)
    · obtain rfl := List.mem_singleton.mp hmem
      exact hevolves.returnOk hret
  · exact h.logged.delivered
  · exact h.logged.started

/-- A ticket is delivered. -/
theorem deliver (h : s.Invariant cfg n) {e : PreparedEntry} (he : s.Settled e ∧ s.Drawn e) :
    Evolves s { s with delivered := e :: s.delivered } ∧
      ({ s with delivered := e :: s.delivered } : TicketRegistry).Invariant cfg n := by
  have hevolves : Evolves s { s with delivered := e :: s.delivered } :=
    ⟨fun _ ↦ id, fun _ _ ↦ id, List.Subset.refl _,
      fun T hT ↦ hT.imp_right fun hmem ↦ List.mem_cons_of_mem _ hmem⟩
  refine ⟨hevolves, { h.recorded with }, { h.serials with }, ?_⟩
  constructor
  · exact h.logged.entries
  · exact fun ret hret ↦ hevolves.returnOk (h.logged.returns ret hret)
  · intro e' hmem
    rcases List.mem_cons.mp hmem with rfl | hmem
    · exact he
    · exact h.logged.delivered e' hmem
  · exact fun e' hmem ↦ (h.logged.started e' hmem).imp_left (hevolves.presented _)

/-- A worker is started. -/
theorem start (h : s.Invariant cfg n) {e : PreparedEntry}
    (he : s.Presented e.ticket ∧ s.Drawn e) :
    Evolves s { s with started := e :: s.started } ∧
      ({ s with started := e :: s.started } : TicketRegistry).Invariant cfg n := by
  have hevolves : Evolves s { s with started := e :: s.started } :=
    ⟨fun _ ↦ id, fun _ _ ↦ id, List.Subset.refl _, fun _ ↦ id⟩
  refine ⟨hevolves, { h.recorded with }, { h.serials with }, ?_⟩
  constructor
  · exact h.logged.entries
  · exact fun ret hret ↦ hevolves.returnOk (h.logged.returns ret hret)
  · exact h.logged.delivered
  · intro e' hmem
    rcases List.mem_cons.mp hmem with rfl | hmem
    · exact he
    · exact h.logged.started e' hmem

theorem reserve (h : s.Invariant cfg n) {b : Building}
    (hnone : s.idempotency.lookup b.key = none)
    (hroom : s.entries.keys.length + s.reserved < cfg.maxActiveTickets)
    (hserial : b.serial = s.reservations) :
    Evolves s (s.reserve b) ∧
      (s.reserve b).Invariant cfg fun o ↦ n o + holding o (.drawTicket b) := by
  have hmap : (s.reserve b).idempotency.lookup
      = update s.idempotency.lookup b.key (some b.record) := by
    show (emplace s.idempotency b.key b.record).lookup = _
    rw [emplace_of_lookup_none hnone, lookup_insert_eq_update]
  -- a record is the new one, with the next serial, or an old one, with an earlier serial
  have hcases : ∀ {k r}, (s.reserve b).idempotency.lookup k = some r →
      (k = b.key ∧ r = b.record) ∨ s.idempotency.lookup k = some r ∧ r.serial < b.serial :=
    fun {k r} hr ↦ by
      rcases eq_some_of_eq_update hmap hr with ⟨hk, ho⟩ | ⟨-, hold⟩
      · exact .inl ⟨hk, (Option.some.inj ho).symm⟩
      · exact .inr ⟨hold, hserial ▸ h.serials.lt k r hold⟩
  have hpast : ∀ i, s.Past i → (s.reserve b).Past i := fun i hi ↦ by
    refine ⟨Nat.lt_succ_of_lt hi.1, fun k r hr hpreparing ↦ ?_⟩
    rcases hcases hr with ⟨-, rfl⟩ | ⟨hold, -⟩
    · show b.serial ≠ i
      rw [hserial]
      exact Nat.ne_of_gt hi.1
    · exact hi.2 k r hold hpreparing
  have hevolves : Evolves s (s.reserve b) :=
    ⟨hpast, fun _ _ ↦ id, List.Subset.refl _, fun _ ↦ id⟩
  refine ⟨hevolves, ?_, ?_, hevolves.logged h.logged h.logged.entries rfl rfl rfl⟩
  · constructor
    · exact congrArg (· + 1) h.recorded.reserved
    · exact hroom
    · rw [hmap]
      exact h.recorded.matched.update_uncommitted (by simp [hnone]) (by rintro r ⟨⟩; rfl)
    · rw [hmap]
      exact h.recorded.owned.update_start (ρ := b.reservation) hnone
        (by simp [Reservation.holds, Building.record, Building.reservation])
  · constructor
    · intro k r hr
      show r.serial < s.reservations + 1
      rw [← hserial]
      rcases hcases hr with ⟨-, rfl⟩ | ⟨-, hlt⟩
      · exact Nat.lt_succ_self _
      · exact Nat.lt_succ_of_lt hlt
    · intro k k' r r' hr hr' heq
      rcases hcases hr with ⟨hk, rfl⟩ | ⟨hold, hlt⟩ <;>
        rcases hcases hr' with ⟨hk', rfl⟩ | ⟨hold', hlt'⟩
      · rw [hk, hk']
      · exact absurd heq (Nat.ne_of_gt hlt')
      · exact absurd heq (Nat.ne_of_lt hlt)
      · exact h.serials.distinct k k' r r' hold hold' heq
    · exact h.serials.drawn
    · exact h.serials.entry
    · exact fun T i hT ↦ (h.serials.exposed T i hT).imp_right (hpast i)
    · intro k r hr hmem
      rcases hcases hr with ⟨-, rfl⟩ | ⟨hold, -⟩
      · have hlt : b.serial < s.reservations := h.serials.cancelled _ hmem
        exact absurd hserial (Nat.ne_of_lt hlt)
      · exact h.serials.flagged k r hold hmem
    · exact fun i hi ↦ Nat.lt_succ_of_lt (h.serials.cancelled i hi)

/-- A ticket is drawn that was not drawn before. -/
theorem draw (h : s.Invariant cfg n) {T : Bytes} (hT : T ∉ s.drawn.map Prod.fst) (i : ℕ) :
    Evolves s { s with drawn := (T, i) :: s.drawn } ∧
      ({ s with drawn := (T, i) :: s.drawn } : TicketRegistry).Invariant cfg n := by
  have hevolves : Evolves s { s with drawn := (T, i) :: s.drawn } :=
    ⟨fun _ ↦ id, fun _ _ ↦ id, List.subset_cons_self _ _, fun _ ↦ id⟩
  have hfresh : ∀ j, (T, j) ∉ s.drawn := fun j hj ↦ hT (List.mem_map_of_mem (f := Prod.fst) hj)
  refine ⟨hevolves, { h.recorded with }, ?_,
    hevolves.logged h.logged h.logged.entries rfl rfl rfl⟩
  constructor
  · exact h.serials.lt
  · exact h.serials.distinct
  · intro T' j j' hj hj'
    rcases List.mem_cons.mp hj with heq | hj <;> rcases List.mem_cons.mp hj' with heq' | hj'
    · rw [(Prod.mk.inj heq).2, (Prod.mk.inj heq').2]
    · rw [(Prod.mk.inj heq).1] at hj'
      exact absurd hj' (hfresh _)
    · rw [(Prod.mk.inj heq').1] at hj
      exact absurd hj (hfresh _)
    · exact h.serials.drawn T' j j' hj hj'
  · exact h.serials.entry
  · exact fun T' j hj ↦ (h.serials.exposed T' j hj).imp_left (List.mem_cons_of_mem _)
  · exact h.serials.flagged
  · exact h.serials.cancelled

/-- The record of a call that has a reservation. -/
theorem reservation (h : s.Invariant cfg fun o ↦ n o + holding o f) {b : Building}
    (hf : f.building? = some b) :
    ∃ r, s.idempotency.lookup b.key = some r ∧ r.preparing = true ∧ r.serial = b.serial ∧
      r.fingerprint = b.request.fingerprint := by
  have howned := h.recorded.owned
  simp only [holding, hf] at howned
  obtain ⟨-, r, hr, hholds⟩ := howned.record
  simp only [Reservation.holds, Bool.and_eq_true, beq_iff_eq, and_assoc] at hholds
  exact ⟨r, hr, hholds⟩

end Invariant

/-! ## The maps change -/

namespace Inherits

/-- The record of a key is replaced by a later form of it, or goes away. -/
theorem record_update {k : Bytes} {o : Option IdempotencyRecord}
    (hmap : s'.idempotency.lookup = update s.idempotency.lookup k o)
    (ho : ∀ r', o = some r' → ∃ r, s.idempotency.lookup k = some r ∧ r.serial = r'.serial ∧
      (r'.preparing = true → r.preparing = true) ∧
        (r.cancelRequested = true → r'.cancelRequested = true)) {k' : Bytes}
    {r' : IdempotencyRecord} (hr' : s'.idempotency.lookup k' = some r') :
    ∃ r, s.idempotency.lookup k' = some r ∧ r.serial = r'.serial ∧
      (r'.preparing = true → r.preparing = true) ∧
        (r.cancelRequested = true → r'.cancelRequested = true) := by
  rcases eq_some_of_eq_update hmap hr' with ⟨rfl, hnew⟩ | ⟨-, hold⟩
  · exact ho r' hnew
  · exact ⟨r', hold, rfl, id, id⟩

end Inherits

namespace Invariant

/-- A reservation ends without an entry. -/
theorem release (h : s.Invariant cfg fun o ↦ n o + holding o f) {b : Building}
    (hf : f.building? = some b) :
    Evolves s (s.releaseReservation b) ∧ (s.releaseReservation b).Invariant cfg n := by
  obtain ⟨r, hr, hpreparing, -⟩ := h.reservation hf
  obtain ⟨hreserved, hbound, hmatched, howned⟩ := h.recorded
  simp only [holding, hf] at hreserved howned
  have hmap : (s.releaseReservation b).idempotency.lookup
      = update s.idempotency.lookup b.key none := lookup_erase_eq_update
  have hinherits : Inherits s (s.releaseReservation b) :=
    ⟨rfl, rfl, rfl, rfl, rfl, List.Subset.refl _,
      fun hr' ↦ Inherits.record_update hmap nofun hr', fun _ ↦ .inl⟩
  refine hinherits.invariant h ?_ (fun T e ↦ h.entry) fun T i ↦ .inl
  constructor
  · show s.reserved - 1 = n none
    rw [hreserved, Nat.add_sub_cancel]
  · show s.entries.keys.length + (s.reserved - 1) ≤ cfg.maxActiveTickets
    exact (Nat.add_le_add_left (Nat.sub_le _ 1) _).trans hbound
  · rw [hmap]
    refine hmatched.update_uncommitted (fun r' hr' ↦ ?_) nofun
    rw [hr] at hr'
    rwa [← Option.some.inj hr']
  · rw [hmap]
    exact howned.update_stop (ρ := b.reservation) nofun

/-- The ticket of a reservation names no entry yet. -/
theorem lookup_eq_none (h : s.Invariant cfg fun o ↦ n o + holding o f) {b : Building}
    (hf : f.building? = some b) {T : Bytes} (hT : (T, b.serial) ∈ s.drawn) :
    s.entries.lookup T = none := by
  obtain ⟨r, hr, hpreparing, hserial, -⟩ := h.reservation hf
  by_contra hsome
  obtain ⟨e, he⟩ := Option.ne_none_iff_exists'.mp hsome
  -- the entry of a drawn ticket has the serial it was drawn for, and that is past
  obtain ⟨hdrawn, -, hpast⟩ := h.serials.exposed T _ (h.serials.entry T e he)
  exact hpast b.key r hr hpreparing (hserial.trans (h.serials.drawn T _ _ hT hdrawn))

/-- Nor is its preparation over. -/
theorem not_exposed (h : s.Invariant cfg fun o ↦ n o + holding o f) {b : Building}
    (hf : f.building? = some b) {T : Bytes} (hT : (T, b.serial) ∈ s.drawn) :
    T ∉ s.exposed.map Prod.fst := by
  obtain ⟨r, hr, hpreparing, hserial, -⟩ := h.reservation hf
  intro hmem
  obtain ⟨⟨T', i⟩, hexposed, rfl⟩ := List.mem_map.mp hmem
  obtain ⟨hdrawn, -, hpast⟩ := h.serials.exposed T' i hexposed
  exact hpast b.key r hr hpreparing (hserial.trans (h.serials.drawn T' _ _ hT hdrawn))

/-- No other record has the serial of a call that has a reservation. -/
theorem past_of_ended (h : s.Invariant cfg fun o ↦ n o + holding o f) {b : Building}
    (hf : f.building? = some b) {o : Option IdempotencyRecord}
    (hmap : s'.idempotency.lookup = update s.idempotency.lookup b.key o)
    (hreservations : s'.reservations = s.reservations)
    (ho : ∀ r', o = some r' → r'.preparing = false) : s'.Past b.serial := by
  obtain ⟨r, hr, -, hserial, -⟩ := h.reservation hf
  constructor
  · rw [hreservations, ← hserial]
    exact h.serials.lt b.key r hr
  · intro k r' hr' hpreparing heq
    rcases eq_some_of_eq_update hmap hr' with ⟨-, hnew⟩ | ⟨hk, hold⟩
    · rw [ho r' hnew] at hpreparing
      cases hpreparing
    · exact hk (h.serials.distinct k b.key r' r hold hr (heq.trans hserial.symm))

/-- A reservation ends at a commit that finds the registry stopped. -/
theorem retract (h : s.Invariant cfg fun o ↦ n o + holding o f) {b : Building}
    (hf : f.building? = some b) {T : Bytes} (hT : (T, b.serial) ∈ s.drawn) :
    Evolves s { s.releaseReservation b with exposed := (T, b.serial) :: s.exposed } ∧
      ({ s.releaseReservation b with
        exposed := (T, b.serial) :: s.exposed } : TicketRegistry).Invariant cfg n := by
  have hmap : (s.releaseReservation b).idempotency.lookup
      = update s.idempotency.lookup b.key none := lookup_erase_eq_update
  obtain ⟨-, hreleased⟩ := h.release hf
  have hinherits : Inherits s { s.releaseReservation b with
      exposed := (T, b.serial) :: s.exposed } :=
    ⟨rfl, rfl, rfl, rfl, rfl, List.Subset.refl _,
      fun hr' ↦ Inherits.record_update hmap nofun hr', fun _ ↦ .inl⟩
  refine hinherits.invariant h { hreleased.recorded with }
    (fun T' e he ↦ (h.entry he).imp_left (List.mem_cons_of_mem _)) fun T' i hT' ↦ ?_
  rcases List.mem_cons.mp hT' with heq | hold
  · cases heq
    exact .inr ⟨hT, h.past_of_ended (o := none) hf hmap rfl nofun⟩
  · exact .inl hold

end Invariant

/-- What the commit of an entry makes of the registry, the end of its call aside. -/
def committed (s : TicketRegistry) (b : Building) (T : Bytes) (r : IdempotencyRecord) :
    TicketRegistry :=
  ({ s with
    reserved := s.reserved - 1
    exposed := (T, b.serial) :: s.exposed
    entries := emplace s.entries T (b.entry T) } : TicketRegistry).publish b T r

theorem lookup_committed {b : Building} {T : Bytes} {r : IdempotencyRecord}
    (hfresh : s.entries.lookup T = none) : (s.committed b T r).entries.lookup
      = update s.entries.lookup T (some (b.entry T)) := by
  show (emplace s.entries T (b.entry T)).lookup = _
  rw [emplace_of_lookup_none hfresh, lookup_insert_eq_update]

/-- What a cancellation makes of the registry. -/
def marked (s : TicketRegistry) (key : Bytes) (r : IdempotencyRecord) : TicketRegistry :=
  { s with
    idempotency := s.idempotency.insert key { r with cancelRequested := true }
    cancelled := if r.preparing then r.serial :: s.cancelled else s.cancelled }

namespace Invariant

/-- A reservation ends with an entry. -/
theorem commit (h : s.Invariant cfg fun o ↦ n o + holding o f) {b : Building}
    (hf : f.building? = some b) {T : Bytes} (hT : (T, b.serial) ∈ s.drawn)
    (hrequested : Requested cfg b.command b.request) {r : IdempotencyRecord}
    (hr : s.idempotency.lookup b.key = some r) :
    Evolves s (s.committed b T r) ∧ (s.committed b T r).Invariant cfg n := by
  have hfresh : s.entries.lookup T = none := h.lookup_eq_none hf hT
  obtain ⟨r', hr', hpreparing, hserial, hfingerprint⟩ := h.reservation hf
  obtain rfl : r' = r := Option.some.inj (hr'.symm.trans hr)
  obtain ⟨hreserved, hbound, hmatched, howned⟩ := h.recorded
  simp only [holding, hf] at hreserved howned
  have hentries : (s.committed b T r').entries.lookup
      = update s.entries.lookup T (some (b.entry T)) := lookup_committed hfresh
  have hmap : (s.committed b T r').idempotency.lookup
      = update s.idempotency.lookup b.key (some { r' with ticket := T, preparing := false }) :=
    lookup_insert_eq_update
  have hinherits : Inherits s (s.committed b T r') := by
    refine ⟨rfl, rfl, rfl, rfl, rfl, List.Subset.refl _, fun hr'' ↦ ?_, fun _ ↦ .inl⟩
    refine Inherits.record_update hmap (fun r'' hnew ↦ ?_) hr''
    obtain rfl := Option.some.inj hnew
    exact ⟨r', hr, rfl, nofun, id⟩
  refine hinherits.invariant h ?_ (fun T' e he ↦ ?_) fun T' i hT' ↦ ?_
  · constructor
    · show s.reserved - 1 = n none
      rw [hreserved, Nat.add_sub_cancel]
    · show (emplace s.entries T (b.entry T)).keys.length + (s.reserved - 1) ≤ cfg.maxActiveTickets
      rw [emplace_of_lookup_none hfresh, length_keys_insert hfresh]
      omega
    · rw [hmap, hentries]
      exact hmatched.update_commit (e := b.entry T) hr hpreparing hfresh hserial hfingerprint
    · rw [hmap]
      refine howned.update_stop (ρ := b.reservation) fun r'' hnew ↦ ?_
      rw [← Option.some.inj hnew]
  · rcases eq_some_of_eq_update hentries he with ⟨rfl, hnew⟩ | ⟨-, hold⟩
    · obtain rfl := Option.some.inj hnew
      exact ⟨List.mem_cons_self, hrequested⟩
    · exact (h.entry hold).imp_left (List.mem_cons_of_mem _)
  · rcases List.mem_cons.mp hT' with heq | hold
    · cases heq
      refine .inr ⟨hT, h.past_of_ended hf hmap rfl fun r'' hnew ↦ ?_⟩
      rw [← Option.some.inj hnew]
    · exact .inl hold

/-- An entry that was committed without a mark is settled. -/
theorem settled_of_commit (h : s.Invariant cfg fun o ↦ n o + holding o f) {b : Building}
    (hf : f.building? = some b) {T : Bytes} {r : IdempotencyRecord}
    (hr : s.idempotency.lookup b.key = some r) (hno : r.cancelRequested = false) :
    (s.committed b T r).Settled (b.entry T) := by
  constructor
  · refine h.past_of_ended hf (lookup_insert_eq_update (m := s.idempotency)) rfl fun r' hnew ↦ ?_
    rw [← Option.some.inj hnew]
  · intro hmem
    obtain ⟨r', hr', -, hserial, -⟩ := h.reservation hf
    obtain rfl : r' = r := Option.some.inj (hr'.symm.trans hr)
    rw [h.serials.flagged b.key r' hr (hserial ▸ hmem)] at hno
    cases hno

/-- A record is marked. -/
theorem mark (h : s.Invariant cfg n) {key : Bytes} {r : IdempotencyRecord}
    (hr : s.idempotency.lookup key = some r) :
    Evolves s (s.marked key r) ∧ (s.marked key r).Invariant cfg n := by
  have hmap : (s.marked key r).idempotency.lookup
      = update s.idempotency.lookup key (some { r with cancelRequested := true }) :=
    lookup_insert_eq_update
  have hinherits : Inherits s (s.marked key r) := by
    refine ⟨rfl, rfl, rfl, rfl, rfl, List.Subset.refl _, fun hr' ↦ ?_, fun i hi ↦ ?_⟩
    · refine Inherits.record_update hmap (fun r' hnew ↦ ?_) hr'
      obtain rfl := Option.some.inj hnew
      exact ⟨r, hr, rfl, id, fun _ ↦ rfl⟩
    · by_cases hpreparing : r.preparing = true
      · rw [marked, if_pos hpreparing] at hi
        rcases List.mem_cons.mp hi with rfl | hold
        · refine .inr ⟨key, r, hr, hpreparing, rfl, fun r' hr' ↦ ?_⟩
          rcases eq_some_of_eq_update hmap hr' with ⟨-, hnew⟩ | ⟨hk, -⟩
          · rw [← Option.some.inj hnew]
          · exact absurd rfl hk
        · exact .inl hold
      · rw [marked, if_neg hpreparing] at hi
        exact .inl hi
  obtain ⟨hreserved, hbound, hmatched, howned⟩ := h.recorded
  refine hinherits.invariant h ⟨hreserved, hbound, ?_, ?_⟩ (fun T e ↦ h.entry) fun T i ↦ .inl
  · rw [hmap]
    exact hmatched.update_mark hr
  · rw [hmap]
    refine howned.update_unnoticed fun ρ ↦ ?_
    rw [hr]
    rfl

/-- An entry is removed with its record. -/
theorem remove (h : s.Invariant cfg n) (T : Bytes) :
    Evolves s (s.remove T) ∧ (s.remove T).Invariant cfg n := by
  rw [TicketRegistry.remove]
  cases he : s.entries.lookup T with
  | none => exact h.aside (.refl s)
  | some e =>
    obtain ⟨hreserved, hbound, hmatched, howned⟩ := h.recorded
    obtain ⟨-, r, hr, hcommitted, -⟩ := hmatched.recordOf he
    have hinherits : Inherits s { s with
        idempotency := s.idempotency.erase e.key, entries := s.entries.erase T } :=
      ⟨rfl, rfl, rfl, rfl, rfl, List.Subset.refl _,
        fun hr' ↦ Inherits.record_update (o := none) (lookup_erase_eq_update (m := s.idempotency))
          nofun hr', fun _ ↦ .inl⟩
    refine hinherits.invariant h ⟨hreserved, ?_, ?_, ?_⟩ (fun T' e' he' ↦ ?_) fun T' i ↦ .inl
    · exact (Nat.add_le_add_right length_keys_erase_le _).trans hbound
    · show Matched (s.idempotency.erase e.key).lookup (s.entries.erase T).lookup
      rw [lookup_erase_eq_update, lookup_erase_eq_update]
      exact hmatched.update_remove he
    · show Owned (s.idempotency.erase e.key).lookup _
      rw [lookup_erase_eq_update]
      refine howned.update_unnoticed fun ρ ↦ ?_
      -- the record is not preparing, so it belongs to no reservation
      simp [hr, Reservation.holds, hcommitted]
    · rcases eq_some_of_eq_update (lookup_erase_eq_update (m := s.entries)) he' with
        ⟨-, hnew⟩ | ⟨-, hold⟩
      · cases hnew
      · exact h.entry hold

end Invariant

/-- The entries after a removal, and what it leaves alone. -/
theorem lookup_remove (s : TicketRegistry) (T : Bytes) :
    (s.remove T).entries.lookup = update s.entries.lookup T none := by
  rw [remove]
  cases he : s.entries.lookup T with
  | none =>
    show s.entries.lookup = _
    rw [← he, Function.update_eq_self]
  | some e => exact lookup_erase_eq_update

theorem remove_frame (s : TicketRegistry) (T : Bytes) :
    (s.remove T).exposed = s.exposed ∧ (s.remove T).delivered = s.delivered ∧
      (s.remove T).returns = s.returns ∧ (s.remove T).drawn = s.drawn ∧
      (s.remove T).admission = s.admission ∧ (s.remove T).stopped = s.stopped ∧
      (s.remove T).gpuUnavailable = s.gpuUnavailable ∧ (s.remove T).replies = s.replies := by
  rw [remove]
  cases s.entries.lookup T with
  | none => exact ⟨rfl, rfl, rfl, rfl, rfl, rfl, rfl, rfl⟩
  | some e => exact ⟨rfl, rfl, rfl, rfl, rfl, rfl, rfl, rfl⟩

end TicketRegistry

end MoSidecar
