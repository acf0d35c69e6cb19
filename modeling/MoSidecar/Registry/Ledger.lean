import MoSidecar.Registry.Invariant

/-!
# The ledger of the registry

Every section of the registry's program keeps the invariant, with the calls that hold reservations
counted on the stacks of all threads.

## The shape of the argument

Each function of the registry has a lemma that says that it `Keeps` the invariant: which change it
makes, and what the calls it leaves know. The case analysis over the sections is made once, in
`ledger`, from these.
-/

namespace MoSidecar

namespace TicketRegistry

variable {cfg : RegistryConfig} {s s' : TicketRegistry} {n n' : Option Reservation → ℕ}
  {f : RegistryCall} {new : List RegistryCall} {command key : Bytes} {request : ExecuteRequest}

theorem stoppedStatus_ne (s : TicketRegistry) : s.stoppedStatus ≠ stateInvalid := by
  rw [stoppedStatus]
  split_ifs <;> decide

/-! ## One function at a time -/

/-- What a section has to do: with the calls it leaves the invariant holds, they know what they
must, and nobody else has lost anything. -/
structure Keeps (cfg : RegistryConfig) (n : Option Reservation → ℕ) (s : TicketRegistry)
    (r : TicketRegistry × List RegistryCall) : Prop where
  invariant : r.1.Invariant cfg fun o ↦ n o + (r.2.map (holding o)).sum
  knows : ∀ g ∈ r.2, r.1.Knows cfg g
  evolves : Evolves s r.1

namespace Keeps

/-- A section whose calls hold no reservation. -/
theorem of_free (h : Evolves s s' ∧ s'.Invariant cfg n) (hnew : ∀ g ∈ new, g.building? = none)
    (hknows : ∀ g ∈ new, s'.Knows cfg g) : Keeps cfg n s (s', new) where
  invariant := by
    have hsum : ∀ o, (new.map (holding o)).sum = 0 := fun o ↦
      List.sum_eq_zero fun m hm ↦ by
        obtain ⟨g, hg, rfl⟩ := List.mem_map.mp hm
        rw [holding, hnew g hg]
    simpa only [hsum, Nat.add_zero] using h.2
  knows := hknows
  evolves := h.1

/-- A section that ends its call. -/
theorem of_done (h : Evolves s s' ∧ s'.Invariant cfg n) : Keeps cfg n s (s', []) :=
  of_free h nofun nofun

/-- A section that goes on with one call, which holds no reservation. -/
theorem of_one {g : RegistryCall} (h : Evolves s s' ∧ s'.Invariant cfg n)
    (hg : g.building? = none) (hknows : s'.Knows cfg g) : Keeps cfg n s (s', [g]) := by
  refine of_free h ?_ ?_
  · rintro g' hg'
    rwa [List.mem_singleton.mp hg']
  · rintro g' hg'
    rwa [List.mem_singleton.mp hg']

/-- A section that goes on with a call that holds the same reservation. -/
theorem of_holding {g : RegistryCall}
    (h : Evolves s s' ∧ s'.Invariant cfg fun o ↦ n o + holding o f)
    (hg : ∀ o, holding o g = holding o f) (hknows : s'.Knows cfg g) : Keeps cfg n s (s', [g]) where
  invariant := by
    simpa only [List.map_cons, List.map_nil, List.sum_singleton, hg] using h.2
  knows g' hg' := by rwa [List.mem_singleton.mp hg']
  evolves := h.1

/-- A section in two steps. -/
theorem after (hs : Evolves s s') {r : TicketRegistry × List RegistryCall}
    (h : Keeps cfg n s' r) : Keeps cfg n s r :=
  { h with evolves := hs.trans h.evolves }

end Keeps

namespace Invariant

/-- A call of `prepare` fails. -/
theorem fails (h : s.Invariant cfg n) {outcome : PrepareOutcome}
    (hret : s.ReturnOk cfg ⟨command, outcome⟩) :
    Keeps cfg n s (s.returned command outcome, []) :=
  .of_done (h.returned hret)

theorem prepareFresh (h : s.Invariant cfg n) (hrequested : Requested cfg command request)
    (hnone : s.idempotency.lookup request.idempotencyKey = none) :
    Keeps cfg n s (s.prepareFresh cfg command request) := by
  rw [TicketRegistry.prepareFresh]
  split_ifs with hfull
  · exact h.fails nofun
  · cases hcharge : streamExecutionCharge request kMaxStreamInputs with
    | error what => exact h.fails trivial
    | ok bytes =>
      have hadmission : Evolves s { s with admission := (s.admission.tryAcquire bytes).1 } ∧
          ({ s with admission := (s.admission.tryAcquire bytes).1 } : TicketRegistry).Invariant
            cfg n :=
        h.aside ⟨rfl, rfl, rfl, rfl, rfl, rfl, rfl, rfl, rfl, rfl, List.Subset.refl _⟩
      show Keeps cfg n s (if (s.admission.tryAcquire bytes).2 then _ else _)
      split_ifs with hgranted
      · let b : Building := ⟨command, request, s.reservations, bytes⟩
        obtain ⟨hevolves, hinv⟩ := hadmission.2.reserve (b := b) hnone (Nat.not_le.mp hfull) rfl
        exact ⟨hinv, fun g hg ↦ by rwa [List.mem_singleton.mp hg], hadmission.1.trans hevolves⟩
      · refine .after hadmission.1 (hadmission.2.fails ?_)
        exact nofun

/-- The entry of a record that is neither preparing nor marked may be returned to whoever sends the
same command. -/
theorem serves (h : s.Invariant cfg n) (hrequested : Requested cfg command request)
    {record : IdempotencyRecord}
    (hrecord : s.idempotency.lookup request.idempotencyKey = some record)
    (hfingerprint : record.fingerprint = request.fingerprint)
    (hcommitted : record.preparing = false) (hunmarked : record.cancelRequested = false)
    {e : PreparedEntry} (he : s.entries.lookup record.ticket = some e) :
      s.Serves cfg command e := by
  obtain ⟨hexposed, hentry⟩ := h.entry he
  obtain ⟨hdrawn, hpast⟩ := h.serials.exposed _ _ hexposed
  obtain ⟨e', he', hkey⟩ := h.recorded.matched.entryOf hrecord hcommitted
  obtain rfl : e' = e := Option.some.inj (he'.symm.trans he)
  obtain ⟨hticket, r, hr, -, -, hserial, hfingerprint'⟩ := h.recorded.matched.recordOf he
  rw [hkey] at hr
  obtain rfl : r = record := Option.some.inj (hr.symm.trans hrecord)
  constructor
  · refine ⟨hpast, fun hmem ↦ ?_⟩
    rw [h.serials.flagged _ r hrecord (hserial ▸ hmem)] at hunmarked
    cases hunmarked
  · rw [Drawn, hticket]
    exact hdrawn
  · exact hentry
  · rw [← hentry.fingerprint_eq, ← hrequested.fingerprint_eq, ← hfingerprint', hfingerprint]

theorem prepareReplay (h : s.Invariant cfg n) (hrequested : Requested cfg command request)
    {record : IdempotencyRecord}
    (hrecord : s.idempotency.lookup request.idempotencyKey = some record) :
    Keeps cfg n s (s.prepareReplay command request record) := by
  rw [TicketRegistry.prepareReplay]
  split_ifs with hconflict hpreparing hmarked
  · exact h.fails nofun
  · exact .of_one ⟨.refl s, h⟩ rfl hrequested
  · exact h.fails nofun
  · rw [Bool.not_eq_true] at hpreparing hmarked
    obtain ⟨e, he, -⟩ := h.recorded.matched.entryOf hrecord hpreparing
    rw [he]
    refine .of_one ⟨.refl s, h⟩ rfl ?_
    exact h.serves hrequested hrecord (not_not.mp hconflict) hpreparing hmarked he

theorem prepare (h : s.Invariant cfg n) (hrequested : Requested cfg command request) :
    Keeps cfg n s (s.prepare cfg command request) := by
  rw [TicketRegistry.prepare]
  split_ifs
  · exact h.fails (stoppedStatus_ne s)
  · cases hrecord : s.idempotency.lookup request.idempotencyKey with
    | none => exact h.prepareFresh hrequested hrecord
    | some record => exact h.prepareReplay hrequested hrecord

theorem drawTicket {b : Building} {ticket : Option Bytes} {r : TicketRegistry × List RegistryCall}
    (h : s.Invariant cfg fun o ↦ n o + holding o (.drawTicket b))
    (hrequested : Requested cfg b.command b.request) (hr : s.drawTicket b ticket = some r) :
    Keeps cfg n s r := by
  cases ticket with
  | none =>
    obtain rfl := Option.some.inj hr
    exact .of_holding ⟨.refl s, h⟩ (fun _ ↦ rfl) ⟨hrequested, nofun⟩
  | some T =>
    simp only [TicketRegistry.drawTicket] at hr
    split_ifs at hr with hold htaken
    · obtain rfl := Option.some.inj hr
      exact .of_holding (h.draw hold b.serial) (fun _ ↦ rfl) hrequested
    · obtain rfl := Option.some.inj hr
      exact .of_holding (h.draw hold b.serial) (fun _ ↦ rfl) ⟨hrequested, List.mem_cons_self⟩

theorem construct {b : Building} {T : Bytes}
    (h : s.Invariant cfg fun o ↦ n o + holding o (.construct b T))
    (hrequested : Requested cfg b.command b.request) (hT : (T, b.serial) ∈ s.drawn)
    (built : Except Thrown ℕ) : Keeps cfg n s (s.construct b T built) := by
  have haside : ∀ admission, Evolves s { s with admission } ∧
      ({ s with admission } : TicketRegistry).Invariant cfg
        fun o ↦ n o + holding o (.construct b T) := fun admission ↦
    h.aside ⟨rfl, rfl, rfl, rfl, rfl, rfl, rfl, rfl, rfl, rfl, List.Subset.refl _⟩
  cases built with
  | error what => exact .of_holding (haside _) (fun _ ↦ rfl) ⟨hrequested, nofun⟩
  | ok streamInputs =>
    simp only [TicketRegistry.construct]
    split
    · refine .of_holding ⟨.refl s, h⟩ (fun _ ↦ rfl) ⟨hrequested, fun T' hT' ↦ ?_⟩
      rwa [← Option.some.inj hT']
    · exact .of_holding (haside _) (fun _ ↦ rfl) ⟨hrequested, hT⟩

theorem commitSection {b : Building} {T : Bytes}
    (h : s.Invariant cfg fun o ↦ n o + holding o (.commit b T))
    (hrequested : Requested cfg b.command b.request) (hT : (T, b.serial) ∈ s.drawn) :
    Keeps cfg n s (s.commit b T) := by
  obtain ⟨r, hr, -⟩ := h.reservation (b := b) rfl
  simp only [TicketRegistry.commit]
  split_ifs with hstopped
  · exact .of_one (h.retract rfl hT) rfl (stoppedStatus_ne _)
  · rw [hr]
    obtain ⟨hevolves, hinv⟩ := h.commit rfl hT hrequested hr
    show Keeps cfg n s (if r.cancelRequested then (s.committed b T r, _)
      else ((s.committed b T r).returned _ _, _))
    split_ifs with hmarked
    · exact .of_one ⟨hevolves, hinv⟩ rfl nofun
    · rw [Bool.not_eq_true] at hmarked
      have hsettled : (s.committed b T r).Settled (b.entry T) :=
        h.settled_of_commit rfl hr hmarked
      have hdrawn : (s.committed b T r).Drawn (b.entry T) := hT
      have hserves : (s.committed b T r).Serves cfg b.command (b.entry T) :=
        ⟨hsettled, hdrawn, hrequested, rfl⟩
      refine .after hevolves (.of_one (hinv.returned ⟨hserves, fun _ ↦ rfl⟩) rfl ?_)
      exact ⟨hsettled, hdrawn⟩

theorem replied (h : s.Invariant cfg n) (identity : CancelIdentity) (result : CancelResult) :
    Evolves s (s.replied identity result) ∧ (s.replied identity result).Invariant cfg n :=
  h.aside ⟨rfl, rfl, rfl, rfl, rfl, rfl, rfl, rfl, rfl, rfl, List.Subset.refl _⟩

theorem cancelIdempotency (h : s.Invariant cfg n) (key : Bytes) :
    Keeps cfg n s (s.cancelIdempotency key) := by
  rw [TicketRegistry.cancelIdempotency]
  split_ifs
  · exact .of_done (h.replied _ _)
  · cases hr : s.idempotency.lookup key with
    | none => exact .of_done (h.replied _ _)
    | some r =>
      obtain ⟨hevolves, hinv⟩ := h.mark hr
      show Keeps cfg n s (if r.preparing then (s.marked key r, _) else _)
      by_cases hpreparing : r.preparing = true
      · rw [if_pos hpreparing]
        exact .of_one ⟨hevolves, hinv⟩ rfl trivial
      · rw [if_neg hpreparing]
        split
        · exact .after hevolves (.of_done (hinv.replied _ _))
        · exact .of_one ⟨hevolves, hinv⟩ rfl trivial

theorem noted (h : s.Invariant cfg n) (T : Bytes) :
    Evolves s { s with guessed := T :: s.guessed } ∧
      ({ s with guessed := T :: s.guessed } : TicketRegistry).Invariant cfg n :=
  h.aside ⟨rfl, rfl, rfl, rfl, rfl, rfl, rfl, rfl, rfl, rfl, List.subset_cons_self _ _⟩

/-- **Every section** keeps the invariant. -/
theorem exec {k : RegistryAnswer} {r : TicketRegistry × List RegistryCall}
    (h : s.Invariant cfg fun o ↦ n o + holding o f) (hknows : s.Knows cfg f)
    (hexec : s.exec cfg f k = some r) : Keeps cfg n s r := by
  cases f with
  | getFlightInfo command =>
    cases command with
    | none =>
      obtain rfl := Option.some.inj hexec
      exact .of_done ⟨.refl s, h⟩
    | some command =>
      simp only [TicketRegistry.exec] at hexec
      split_ifs at hexec
      · obtain rfl := Option.some.inj hexec
        exact .of_done ⟨.refl s, h⟩
      · cases hrequest : validateRequest cfg k.now command with
        | error what =>
          rw [hrequest] at hexec
          obtain rfl := Option.some.inj hexec
          exact .of_done ⟨.refl s, h⟩
        | ok request =>
          rw [hrequest] at hexec
          obtain rfl := Option.some.inj hexec
          exact .of_one ⟨.refl s, h⟩ rfl ⟨k.now, hrequest⟩
  | prepare command request =>
    obtain rfl := Option.some.inj hexec
    exact h.prepare hknows
  | awaitPrepared command request =>
    simp only [TicketRegistry.exec] at hexec
    split_ifs at hexec <;> obtain rfl := Option.some.inj hexec
    · exact h.fails nofun
    · exact .of_one ⟨.refl s, h⟩ rfl hknows
  | replay command entry =>
    simp only [TicketRegistry.exec] at hexec
    split_ifs at hexec <;> obtain rfl := Option.some.inj hexec
    · exact .of_one (h.returned ⟨hknows, nofun⟩) rfl ⟨hknows.settled, hknows.drawn⟩
    · exact h.fails nofun
  | drawTicket b => exact h.drawTicket hknows hexec
  | construct b T =>
    obtain rfl := Option.some.inj hexec
    exact h.construct hknows.1 hknows.2 k.built
  | commit b T =>
    obtain rfl := Option.some.inj hexec
    exact h.commitSection hknows.1 hknows.2
  | releaseReservation b built what =>
    cases built with
    | none =>
      obtain rfl := Option.some.inj hexec
      exact .of_one (h.release rfl) rfl trivial
    | some T =>
      obtain rfl := Option.some.inj hexec
      exact .of_one (h.retract rfl (hknows.2 T rfl)) rfl trivial
  | unwind b what =>
    obtain rfl := Option.some.inj hexec
    have haside : Aside s { s with admission := s.admission.release b.lease } :=
      ⟨rfl, rfl, rfl, rfl, rfl, rfl, rfl, rfl, rfl, rfl, List.Subset.refl _⟩
    obtain ⟨hevolves, hinv⟩ := h.aside haside
    exact .after hevolves (hinv.fails trivial)
  | abandon command status =>
    obtain rfl := Option.some.inj hexec
    exact h.fails hknows
  | deliver entry =>
    simp only [TicketRegistry.exec] at hexec
    split_ifs at hexec <;> obtain rfl := Option.some.inj hexec
    · exact .of_done ⟨.refl s, h⟩
    · exact .of_done (h.deliver hknows)
  | doGet T =>
    obtain rfl := Option.some.inj hexec
    refine .of_free ⟨.refl s, h⟩ ?_ ?_ <;> intro g hg <;> split_ifs at hg
    · cases hg
    · rw [List.mem_singleton.mp hg]
      rfl
    · cases hg
    · rw [List.mem_singleton.mp hg]
      exact hknows
  | claim T =>
    simp only [TicketRegistry.exec] at hexec
    split_ifs at hexec
    · obtain rfl := Option.some.inj hexec
      exact .of_done ⟨.refl s, h⟩
    · cases he : s.entries.lookup T with
      | none =>
        rw [he] at hexec
        obtain rfl := Option.some.inj hexec
        exact .of_done ⟨.refl s, h⟩
      | some e =>
        rw [he] at hexec
        obtain rfl := Option.some.inj hexec
        obtain ⟨rfl, -⟩ := h.recorded.matched.recordOf he
        exact .of_one ⟨.refl s, h⟩ rfl ⟨hknows, (h.serials.exposed _ _ (h.entry he).1).1⟩
  | claimEntry entry =>
    simp only [TicketRegistry.exec] at hexec
    split_ifs at hexec <;> obtain rfl := Option.some.inj hexec
    · exact .of_done (h.start hknows)
    · exact .of_done ⟨.refl s, h⟩
  | cancelAndJoin T =>
    simp only [TicketRegistry.exec] at hexec
    split at hexec <;> obtain rfl := Option.some.inj hexec
    · exact .of_done (h.replied _ _)
    · exact .of_one ⟨.refl s, h⟩ rfl trivial
  | cancelAndJoinIdempotency key =>
    obtain rfl := Option.some.inj hexec
    exact h.cancelIdempotency key
  | awaitCommit key =>
    simp only [TicketRegistry.exec] at hexec
    split_ifs at hexec <;> obtain rfl := Option.some.inj hexec
    · exact .of_done (h.replied _ _)
    · exact .of_one ⟨.refl s, h⟩ rfl trivial
  | joinEntry identity entry =>
    obtain rfl := Option.some.inj hexec
    exact .of_done (h.replied _ _)
  | sealGpuUnavailable =>
    obtain rfl := Option.some.inj hexec
    refine .of_done (h.aside ?_)
    rw [TicketRegistry.sealGpuUnavailable]
    split_ifs
    · exact .refl s
    · exact ⟨rfl, rfl, rfl, rfl, rfl, rfl, rfl, rfl, rfl, rfl, List.Subset.refl _⟩
  | stopAdmissionAndCancel =>
    obtain rfl := Option.some.inj hexec
    exact .of_done
      (h.aside ⟨rfl, rfl, rfl, rfl, rfl, rfl, rfl, rfl, rfl, rfl, List.Subset.refl _⟩)
  | lookup | reap =>
    obtain rfl := Option.some.inj hexec
    exact .of_done ⟨.refl s, h⟩

/-- A function may be entered with nothing known but that a ticket is presented. -/
theorem enter (h : s.Invariant cfg n) (hcall : s.call f = some s') :
    (Evolves s s' ∧ s'.Invariant cfg n) ∧ f.building? = none ∧ s'.Knows cfg f := by
  cases f with
  | doGet T =>
    obtain rfl := Option.some.inj hcall
    show (Evolves s (ite _ _ _) ∧ (ite _ _ _ : TicketRegistry).Invariant cfg n) ∧ _ ∧
      (ite _ _ _ : TicketRegistry).Presented T
    split_ifs with hT
    · exact ⟨⟨.refl s, h⟩, rfl, .inr hT⟩
    · exact ⟨h.noted T, rfl, .inl List.mem_cons_self⟩
  | getFlightInfo | lookup | cancelAndJoin | cancelAndJoinIdempotency | sealGpuUnavailable
  | stopAdmissionAndCancel | reap =>
    obtain rfl := Option.some.inj hcall
    exact ⟨⟨.refl s, h⟩, rfl, trivial⟩
  | _ => cases hcall

theorem event (h : s.Invariant cfg n) {a : RegistryEvent} {ι : Type*}
    (ha : (program cfg ι).ambient s a = some s') : Evolves s s' ∧ s'.Invariant cfg n := by
  cases a with
  | remove T =>
    obtain rfl := Option.some.inj ha
    exact h.remove T
  | releaseLease bytes =>
    obtain rfl := Option.some.inj ha
    exact h.aside ⟨rfl, rfl, rfl, rfl, rfl, rfl, rfl, rfl, rfl, rfl, List.Subset.refl _⟩

end Invariant

/-! ## All sections -/

/-- The invariant is a ledger of the calls that hold reservations. -/
theorem ledger (cfg : RegistryConfig) (ι : Type*) :
    Program.Ledger (program cfg ι) holding (fun s n ↦ s.Invariant cfg n)
      fun _ f s ↦ s.Knows cfg f where
  call {s t f s' n} h hcall := by
    obtain ⟨⟨hevolves, hinv⟩, hfree, hknows⟩ := h.enter hcall
    have hzero : ∀ o, holding o f = 0 := fun o ↦ by rw [holding, hfree]
    refine ⟨?_, hknows, fun _ g ↦ hevolves.knows⟩
    simpa only [hzero, Nat.add_zero] using hinv
  exec {s t f k s' new n} h hknows hexec := by
    obtain ⟨hinv, hnew, hevolves⟩ := h.exec hknows hexec
    exact ⟨hinv, hnew, fun _ g ↦ hevolves.knows⟩
  ambient {s a s' n} h ha := by
    obtain ⟨hevolves, hinv⟩ := h.event ha
    exact ⟨hinv, fun _ g ↦ hevolves.knows⟩

theorem balanced_init (cfg : RegistryConfig) (ι : Type*) [Fintype ι] :
    Program.Balanced holding (fun s n ↦ s.Invariant cfg n) (fun _ f s ↦ s.Knows cfg f)
      (init cfg ι) := by
  have hzero : ∀ o, Program.weight (holding o) (init cfg ι) = 0 := fun o ↦
    Program.weight_eq_zero nofun
  refine ⟨?_, nofun⟩
  simp only [hzero]
  refine ⟨⟨rfl, Nat.zero_le _, ⟨nofun, nofun⟩, fun ρ ↦ rfl⟩, ?_, ?_⟩
  · exact ⟨nofun, nofun, nofun, nofun, nofun, nofun, nofun⟩
  · exact ⟨nofun, nofun, nofun, nofun⟩

variable {ι : Type*} [Fintype ι] {c : Threads TicketRegistry ι RegistryCall}
  {ms : List (Move ι RegistryCall RegistryAnswer RegistryEvent)}

/-- **The invariant holds of every reachable state**, and every call knows what it must. -/
theorem run_invariant [DecidableEq ι]
    (hrun : (program cfg ι).machine.run (init cfg ι) ms = some c) :
    c.shared.Invariant cfg (fun o ↦ Program.weight (holding o) c) ∧
      ∀ t, ∀ f ∈ c.calls t, c.shared.Knows cfg f :=
  (ledger cfg ι).run (balanced_init cfg ι) hrun

/-! ## What the maps and the counter say -/

/-- The calls between their reservation and its end. -/
def preparing (f : RegistryCall) : ℕ := if f.building?.isSome then 1 else 0

/-- Those for a given key. -/
def preparingKey (k : Bytes) (f : RegistryCall) : ℕ :=
  if f.building?.map Building.key = some k then 1 else 0

/-- The two maps, the counter and the calls under construction fit together. -/
structure Consistent (cfg : RegistryConfig) (c : Threads TicketRegistry ι RegistryCall) : Prop where
  bound : c.shared.entries.keys.length + c.shared.reserved ≤ cfg.maxActiveTickets
  /-- The counter is the number of calls between their reservation and its end. -/
  reserved : c.shared.reserved = Program.weight preparing c
  /-- A section that takes one from the counter finds it positive. -/
  positive : ∀ t, ∀ f ∈ c.calls t, f.building?.isSome → 0 < c.shared.reserved
  /-- A key has a call under construction, and then one only, if and only if its record says so. -/
  sole : ∀ k, Program.weight (preparingKey k) c
    = ((c.shared.idempotency.lookup k).any (·.preparing)).toNat
  /-- That record is the call's own. -/
  own : ∀ t, ∀ f ∈ c.calls t, ∀ b, f.building? = some b →
    ∃ r, c.shared.idempotency.lookup b.key = some r ∧ r.preparing = true ∧
      r.serial = b.serial ∧ r.fingerprint = b.request.fingerprint
  /-- A record that is not preparing and an entry name each other. -/
  named : ∀ k T,
    (∃ r, c.shared.idempotency.lookup k = some r ∧ r.preparing = false ∧ r.ticket = T) ↔
      ∃ e, c.shared.entries.lookup T = some e ∧ e.key = k
  ticket : ∀ T e, c.shared.entries.lookup T = some e → e.ticket = T
  /-- No call has lost its ticket or its record. -/
  returns : ∀ ret ∈ c.shared.returns,
    ret.outcome ≠ .failed stateInvalid ∧ ret.outcome ≠ .outOfRange

/-- The record of a call that is under construction, on any stack. -/
theorem reservation_of_mem {t : ι} {b : Building}
    (h : c.shared.Invariant cfg fun o ↦ Program.weight (holding o) c) (hf : f ∈ c.calls t)
    (hb : f.building? = some b) :
    ∃ r, c.shared.idempotency.lookup b.key = some r ∧ r.preparing = true ∧
      r.serial = b.serial ∧ r.fingerprint = b.request.fingerprint := by
  have hle : ∀ o, holding o f ≤ Program.weight (holding o) c := fun o ↦ Program.le_weight hf
  have hsplit : c.shared.Invariant cfg
      fun o ↦ (Program.weight (holding o) c - holding o f) + holding o f := by
    simpa only [Nat.sub_add_cancel (hle _)] using h
  exact hsplit.reservation hb

/-- The calls under construction for a key are those that hold the reservation its record is of. -/
theorem weight_preparingKey (h : c.shared.Invariant cfg fun o ↦ Program.weight (holding o) c)
    (k : Bytes) : Program.weight (preparingKey k) c
      = ((c.shared.idempotency.lookup k).any (·.preparing)).toNat := by
  cases hk : (c.shared.idempotency.lookup k).any (·.preparing) with
  | false =>
    refine Program.weight_eq_zero fun t f hf ↦ ?_
    rw [preparingKey, if_neg]
    intro hkey
    obtain ⟨b, hb, rfl⟩ := Option.map_eq_some_iff.mp hkey
    obtain ⟨r, hr, hpreparing, -⟩ := reservation_of_mem h hf hb
    simp [hr, hpreparing] at hk
  | true =>
    obtain ⟨r, hr, hpreparing⟩ := (Option.any_eq_true _ _).mp hk
    let ρ : Reservation := ⟨k, r.serial, r.fingerprint⟩
    have hweight : Program.weight (preparingKey k) c = Program.weight (holding (some ρ)) c := by
      refine Program.weight_congr fun t f hf ↦ ?_
      cases hb : f.building? with
      | none => simp [preparingKey, holding, hb]
      | some b =>
        simp only [preparingKey, holding, hb, Option.map_some, Option.some.injEq]
        refine if_congr ⟨fun hkey ↦ ?_, fun hρ ↦ ?_⟩ rfl rfl
        · obtain ⟨r', hr', -, hserial, hfingerprint⟩ := reservation_of_mem h hf hb
          rw [hkey] at hr'
          obtain rfl : r' = r := Option.some.inj (hr'.symm.trans hr)
          rw [Building.reservation, hkey, ← hserial, ← hfingerprint]
        · exact congrArg Reservation.key hρ.symm
    have hreserves : Reserves c.shared.idempotency.lookup ρ = true :=
      (Option.any_eq_true _ _).mpr ⟨r, hr, by simp [Reservation.holds, hpreparing, ρ]⟩
    have howned : Program.weight (holding (some ρ)) c
        = (Reserves c.shared.idempotency.lookup ρ).toNat := h.recorded.owned ρ
    rw [hweight, howned, hreserves]

/-- **The registry is consistent in every reachable state.** -/
theorem consistent [DecidableEq ι] (cfg : RegistryConfig)
    (ms : List (Move ι RegistryCall RegistryAnswer RegistryEvent))
    (c : Threads TicketRegistry ι RegistryCall)
    (hrun : (program cfg ι).machine.run (init cfg ι) ms = some c) : Consistent cfg c := by
  obtain ⟨h, -⟩ := run_invariant hrun
  have hreserved : c.shared.reserved = Program.weight preparing c := by
    rw [h.recorded.reserved]
    refine Program.weight_congr fun t f _ ↦ ?_
    rw [holding, preparing]
    cases f.building? <;> rfl
  exact {
    bound := h.recorded.bound
    reserved := hreserved
    positive := fun t f hf hb ↦ by
      have hle : preparing f ≤ Program.weight preparing c := Program.le_weight hf
      rwa [← hreserved, preparing, if_pos hb] at hle
    sole := weight_preparingKey h
    own := fun t f hf b hb ↦ reservation_of_mem h hf hb
    named := fun k T ↦ by
      constructor
      · rintro ⟨r, hr, hcommitted, rfl⟩
        exact h.recorded.matched.entryOf hr hcommitted
      · rintro ⟨e, he, rfl⟩
        obtain ⟨-, r, hr, hcommitted, hticket, -⟩ := h.recorded.matched.recordOf he
        exact ⟨r, hr, hcommitted, hticket⟩
    ticket := fun T e he ↦ (h.recorded.matched.recordOf he).1
    returns := fun ret hret ↦ by
      have hok := h.logged.returns ret hret
      constructor <;> intro heq <;> simp [ReturnOk, heq] at hok }

/-! ## An example -/

/-- The digest of the capability document. -/
def capabilityDigest : Bytes :=
  [0x32, 0xf1, 0x43, 0x80, 0x77, 0x0b, 0xf4, 0x01, 0x6c, 0xbf, 0x1b, 0x0f, 0x56, 0x4e, 0x44,
    0x23, 0x42, 0x1f, 0x6b, 0x86, 0x77, 0x90, 0x18, 0xe9, 0xdf, 0xcb, 0x7a, 0xba, 0x94, 0xf6,
    0x7e, 0xa7]

/-- The identity of a query of account 7. -/
def oneIdentity : Bytes := u64Bytes 7 ++ List.replicate 16 1

/-- Its digest. -/
def oneKey : Bytes :=
  [0x23, 0xd0, 0xaf, 0xbd, 0x41, 0xc0, 0xed, 0x65, 0x1f, 0xcf, 0x48, 0x57, 0x6b, 0xf5, 0x84,
    0xe6, 0xc4, 0x26, 0x47, 0xdc, 0x92, 0x00, 0x91, 0xf5, 0x12, 0xda, 0xdd, 0xb0, 0xce, 0x0a,
    0xb3, 0x1d]

/-- A command for the query, with a plan of one byte. -/
def oneCommand : Bytes :=
  [0x08, 0x04, 0x12, 0x06] ++ kSubstraitVersion ++ [0x1a, 0x20] ++ capabilityDigest
    ++ [0x20, 0x01, 0x28, 0x64, 0x32, 0x01, 0x0a, 0x3a, 0x10] ++ List.replicate 16 1
    ++ [0x42, 0x20] ++ oneKey ++ [0x48, 0x07, 0x50, 0x01, 0x5a, 0x01, 0x01]

/-- The digest of the command. -/
def oneFingerprint : Bytes :=
  [0xdf, 0x18, 0x1b, 0x4a, 0x79, 0xe6, 0x1b, 0x85, 0xb0, 0x34, 0x22, 0x82, 0x5b, 0x59, 0x9c,
    0xdb, 0x74, 0x1d, 0x87, 0xbd, 0x82, 0x69, 0x58, 0x88, 0xad, 0x70, 0xee, 0x49, 0x89, 0xe8,
    0x4f, 0x14]

/-- Room for one ticket. The digests are right for the identity and the command above. -/
def oneTicket : RegistryConfig where
  maxActiveTickets := 1
  maxBatchBytes := 1
  ticketTtlMs := 1000
  streamInputCapacityBytes := 0x100000000
  sha256 := Equiv.swap oneIdentity oneKey ∘ Equiv.swap oneCommand oneFingerprint
  capabilityHash := capabilityDigest

/-- The one thread prepares the command, and the ticket it draws is delivered. -/
def prepareOnce : List (Move Bool RegistryCall RegistryAnswer RegistryEvent) :=
  [.call false (.getFlightInfo (some oneCommand)), .exec false {}, .exec false {},
    .exec false { ticket := some [7] }, .exec false {}, .exec false {}, .exec false {}]

theorem consistent_prepareOnce :
    ∃ c, (program oneTicket Bool).machine.run (init oneTicket Bool) prepareOnce = some c ∧
      c.shared.delivered.map (·.ticket) = [[7]] ∧ Consistent oneTicket c := by
  have hdelivered : ((program oneTicket Bool).machine.run (init oneTicket Bool) prepareOnce).map
      (fun c ↦ c.shared.delivered.map (·.ticket)) = some [[7]] := by
    decide +kernel
  obtain ⟨c, hrun, hc⟩ := Option.map_eq_some_iff.mp hdelivered
  exact ⟨c, hrun, hc, consistent oneTicket prepareOnce c hrun⟩

end TicketRegistry

end MoSidecar
