import MoSidecar.Machine.Slots
import MoSidecar.Server.Sealing

/-!
# The registry as a table

The registry has two maps and a counter: entries by ticket, records by idempotency key, and how many
entries are under preparation. What they are for is a table with a slot for every key, with room for
as many as there may be tickets. The records say what the slots are; that the entries and the
counter agree with them is what the sections of the registry see to.

Every section of the server leaves the table as it is, or makes one of the changes that a table
knows. And what `prepare`, `claim` and a cancellation by key find is what the table says.
-/

open Function (update)

namespace MoSidecar

/-- The slot of a record. -/
def IdempotencyRecord.slot (r : IdempotencyRecord) : Slot Bytes Bytes where
  serial := r.serial
  fingerprint := r.fingerprint
  ticket := if r.preparing then none else some r.ticket
  cancelled := r.cancelRequested

/-- The table of a registry. -/
abbrev TicketTable (cfg : RegistryConfig) : Type := SlotTable Bytes Bytes Bytes cfg.maxActiveTickets

section Lengths

variable {α β : Type*} [DecidableEq α] {m : AList fun _ : α ↦ β} {k : α} {v v' : β}

theorem length_keys_erase (h : m.lookup k = some v) :
    (m.erase k).keys.length + 1 = m.keys.length := by
  have hmem : k ∈ m.keys := AList.mem_keys.mp (AList.lookup_isSome.mp (by rw [h]; rfl))
  rw [AList.keys_erase, List.length_erase_of_mem hmem,
    Nat.sub_add_cancel (List.length_pos_of_mem hmem)]

theorem length_keys_overwrite (h : m.lookup k = some v) :
    (m.insert k v').keys.length = m.keys.length := by
  rw [AList.keys_insert, List.length_cons, ← AList.keys_erase, length_keys_erase h]

end Lengths

namespace TicketRegistry

variable {cfg : RegistryConfig} {s s' r : TicketRegistry} {g : RegistryCall} {a : RegistryAnswer}
  {calls : List RegistryCall} {k : Bytes} {x : IdempotencyRecord}

/-- The registry has what the table says. -/
structure Represents (cfg : RegistryConfig) (s : TicketRegistry) (table : TicketTable cfg) :
    Prop where
  slot : ∀ k, table.slot k = (s.idempotency.lookup k).map (·.slot)
  next : table.next = s.reservations
  closed : table.closed = s.stopped
  /-- The entries and the counter make up the slots. -/
  size : table.keys.card = s.entries.keys.length + s.reserved
  /-- A key whose slot has a ticket has the entry of that ticket. -/
  entry : ∀ k T, (∃ y, table.slot k = some y ∧ y.ticket = some T) ↔
    ∃ e, s.entries.lookup T = some e ∧ e.key = k

/-! ## What a section makes of the records -/

/-- The counter makes up for the entries that the records do not have yet. -/
def Counted (s : TicketRegistry) : Prop :=
  s.idempotency.keys.length = s.entries.keys.length + s.reserved

/-- What a section makes of the records, the flag and the counters. -/
inductive Recording (s s' : TicketRegistry) : Prop
  | kept (hrecords : s'.idempotency = s.idempotency) (hstopped : s'.stopped = s.stopped)
    (hserials : s'.reservations = s.reservations)
    (hsize : s'.entries.keys.length + s'.reserved = s.entries.keys.length + s.reserved)
  | reserved {k p : Bytes} (hrunning : s.stopped = false) (hfree : s.idempotency.lookup k = none)
    {x : IdempotencyRecord} (hx : x.slot = { serial := s.reservations, fingerprint := p })
    (hrecords : s'.idempotency = s.idempotency.insert k x) (hstopped : s'.stopped = s.stopped)
    (hserials : s'.reservations = s.reservations + 1)
    (hsize : s'.entries.keys.length + s'.reserved = s.entries.keys.length + s.reserved + 1)
  | marked {k : Bytes} {x : IdempotencyRecord} (hx : s.idempotency.lookup k = some x)
    (hrecords : s'.idempotency = s.idempotency.insert k { x with cancelRequested := true })
    (hstopped : s'.stopped = s.stopped) (hserials : s'.reservations = s.reservations)
    (hsize : s'.entries.keys.length + s'.reserved = s.entries.keys.length + s.reserved)
  | published {k T : Bytes} {x : IdempotencyRecord} (hrunning : s.stopped = false)
    (hx : s.idempotency.lookup k = some x) (hpreparing : x.preparing = true)
    (hrecords : s'.idempotency =
      s.idempotency.insert k { x with ticket := T, preparing := false })
    (hstopped : s'.stopped = s.stopped) (hserials : s'.reservations = s.reservations)
    (hsize : s'.entries.keys.length + s'.reserved = s.entries.keys.length + s.reserved)
  | vacated {k : Bytes} {x : IdempotencyRecord} (hx : s.idempotency.lookup k = some x)
    (hrecords : s'.idempotency = s.idempotency.erase k) (hstopped : s'.stopped = s.stopped)
    (hserials : s'.reservations = s.reservations)
    (hsize : s'.entries.keys.length + s'.reserved + 1 = s.entries.keys.length + s.reserved)
  | closed (hrecords : s'.idempotency = s.idempotency) (hstopped : s'.stopped = true)
    (hserials : s'.reservations = s.reservations)
    (hsize : s'.entries.keys.length + s'.reserved = s.entries.keys.length + s.reserved)

theorem Recording.counted (h : Recording s s') (hs : s.Counted) : s'.Counted := by
  rw [Counted] at hs ⊢
  cases h with
  | kept hrecords _ _ hsize | closed hrecords _ _ hsize => rw [hrecords, hs, hsize]
  | reserved _ hfree _ hrecords _ _ hsize => rw [hrecords, length_keys_insert hfree, hs, hsize]
  | marked hx hrecords _ _ hsize | published _ hx _ hrecords _ _ hsize =>
    rw [hrecords, length_keys_overwrite hx, hs, hsize]
  | vacated hx hrecords _ _ hsize =>
    have hlength := length_keys_erase hx
    rw [hrecords]
    omega

/-- A change of the records is one of the table. -/
theorem Recording.next {table table' : TicketTable cfg} (h : Recording s s')
    (hs : Represents cfg s table) (hs' : Represents cfg s' table') :
    table' = table ∨ table.Next table' := by
  have hslots : ∀ {k o}, s'.idempotency.lookup = update s.idempotency.lookup k o →
      table'.slot = update table.slot k (o.map (·.slot)) := by
    intro k o hrecords
    funext k'
    rw [hs'.slot, congrFun hrecords k']
    by_cases hk : k' = k
    · rw [hk, Function.update_self, Function.update_self]
    · rw [Function.update_of_ne hk, Function.update_of_ne hk, hs.slot]
  have hfound : ∀ {k x}, s.idempotency.lookup k = some x → table.slot k = some x.slot := by
    intro k x hx
    rw [hs.slot, hx]
    rfl
  have hsame : s'.idempotency = s.idempotency → table'.slot = table.slot := fun hrecords ↦ by
    funext k
    rw [hs'.slot, hrecords, hs.slot]
  have hclosed : s'.stopped = s.stopped → table'.closed = table.closed := fun hstopped ↦ by
    rw [hs'.closed, hstopped, hs.closed]
  have hnext : s'.reservations = s.reservations → table'.next = table.next := fun hserials ↦ by
    rw [hs'.next, hserials, hs.next]
  cases h with
  | kept hrecords hstopped hserials =>
    refine .inl (SlotTable.ext (hsame hrecords) ?_ (hnext hserials) (hclosed hstopped))
    ext k
    rw [table'.mem_keys, table.mem_keys, hsame hrecords]
  | @reserved k p hrunning hfree _ hx hrecords hstopped hserials =>
    refine .inr (.reserve (k := k) (p := p) (hs.closed.trans hrunning) ?_ ?_ ?_ (hclosed hstopped))
    · rw [hs.slot, hfree]
      rfl
    · rw [hslots (by rw [hrecords, lookup_insert_eq_update]), Option.map_some, hx, hs.next]
    · rw [hs'.next, hserials, hs.next]
  | marked hx hrecords hstopped hserials =>
    refine .inr (.cancel (hfound hx) ?_ (hnext hserials) (hclosed hstopped))
    rw [hslots (by rw [hrecords, lookup_insert_eq_update])]
    rfl
  | @published k T x hrunning hx hpreparing hrecords hstopped hserials =>
    refine .inr (.publish (t := T) (hs.closed.trans hrunning) (hfound hx) (if_pos hpreparing) ?_
      (hnext hserials) (hclosed hstopped))
    rw [hslots (by rw [hrecords, lookup_insert_eq_update])]
    rfl
  | vacated hx hrecords hstopped hserials =>
    refine .inr (.vacate (hfound hx) ?_ (hnext hserials) (hclosed hstopped))
    rw [hslots (by rw [hrecords, lookup_erase_eq_update])]
    rfl
  | closed hrecords hstopped hserials =>
    exact .inr (.close (hsame hrecords) (hnext hserials) (hs'.closed.trans hstopped))

/-- What changes neither records nor entries. -/
theorem Recording.of_apart (happart : s.Apart s') (hrecords : s'.idempotency = s.idempotency)
    (hreserved : s'.reserved = s.reserved) (hserials : s'.reservations = s.reservations) :
    Recording s s' :=
  .kept hrecords happart.stopped hserials (by rw [happart.entries, hreserved])

theorem Recording.refl (s : TicketRegistry) : Recording s s := .kept rfl rfl rfl rfl

theorem recording_prepare (s : TicketRegistry) (command : Bytes) (request : ExecuteRequest) :
    Recording s (s.prepare cfg command request).1 := by
  rw [prepare]
  split_ifs with hstopped
  · exact .kept rfl rfl rfl rfl
  · cases hlookup : s.idempotency.lookup request.idempotencyKey with
    | none =>
      show Recording s (s.prepareFresh cfg command request).1
      rcases prepareFresh_cases s cfg command request with
        ⟨b, -, hb, hserial, -, heq⟩ | ⟨outcome, admission, -, -, heq⟩
      · have hfree : s.idempotency.lookup b.key = none := by rw [Building.key, hb, hlookup]
        rw [heq]
        refine .reserved (p := b.request.fingerprint) (Bool.eq_false_iff.mpr hstopped) hfree ?_
          (emplace_of_lookup_none (v := b.record) hfree) rfl rfl rfl
        rw [← hserial]
        rfl
      · rw [heq]
        exact .kept rfl rfl rfl rfl
    | some record =>
      show Recording s (s.prepareReplay command request record).1
      rw [prepareReplay]
      split_ifs
      · exact .kept rfl rfl rfl rfl
      · exact .refl s
      · exact .kept rfl rfl rfl rfl
      · cases s.entries.lookup record.ticket with
        | none => exact .kept rfl rfl rfl rfl
        | some e => exact .refl s

theorem recording_cancelIdempotency (s : TicketRegistry) (key : Bytes) :
    Recording s (s.cancelIdempotency key).1 := by
  rw [cancelIdempotency]
  split_ifs with hstopped
  · exact .kept rfl rfl rfl rfl
  · cases hlookup : s.idempotency.lookup key with
    | none => exact .kept rfl rfl rfl rfl
    | some record =>
      simp only
      split_ifs
      · exact .marked hlookup rfl rfl rfl rfl
      · cases s.entries.lookup record.ticket with
        | none => exact .marked hlookup rfl rfl rfl rfl
        | some e => exact .marked hlookup rfl rfl rfl rfl

section Invariants

variable {n : Option Reservation → ℕ} {f : RegistryCall} {b : Building}

/-- Whoever holds a reservation is counted. -/
theorem Invariant.reserved_pos (h : s.Invariant cfg fun o ↦ n o + holding o f)
    (hb : f.building? = some b) : 0 < s.reserved := by
  rw [h.recorded.reserved, holding, hb]
  exact Nat.succ_pos _

theorem recording_releaseReservation (h : s.Invariant cfg fun o ↦ n o + holding o f)
    (hb : f.building? = some b) (hs' : s'.idempotency = s.idempotency.erase b.key)
    (hstopped : s'.stopped = s.stopped) (hserials : s'.reservations = s.reservations)
    (hentries : s'.entries = s.entries) (hreserved : s'.reserved = s.reserved - 1) :
    Recording s s' := by
  obtain ⟨x, hx, -⟩ := h.reservation hb
  have hpos := h.reserved_pos hb
  refine .vacated hx hs' hstopped hserials ?_
  rw [hentries, hreserved]
  omega

/-- The commit of an entry, in a registry that is not stopped. -/
theorem recording_committed (h : s.Invariant cfg fun o ↦ n o + holding o f)
    (hb : f.building? = some b) {T : Bytes} (hT : (T, b.serial) ∈ s.drawn)
    (hrunning : s.stopped = false) (hx : s.idempotency.lookup b.key = some x)
    (hs' : s'.idempotency = s.idempotency.insert b.key { x with ticket := T, preparing := false })
    (hstopped : s'.stopped = s.stopped) (hserials : s'.reservations = s.reservations)
    (hentries : s'.entries = emplace s.entries T (b.entry T))
    (hreserved : s'.reserved = s.reserved - 1) : Recording s s' := by
  obtain ⟨x', hx', hpreparing, -⟩ := h.reservation hb
  obtain rfl : x' = x := Option.some.inj (hx'.symm.trans hx)
  have hpos := h.reserved_pos hb
  refine .published hrunning hx hpreparing hs' hstopped hserials ?_
  rw [hentries, emplace_of_lookup_none (h.lookup_eq_none hb hT),
    length_keys_insert (h.lookup_eq_none hb hT), hreserved]
  omega

theorem recording_remove (h : Matched s.idempotency.lookup s.entries.lookup) {T : Bytes}
    {e : PreparedEntry} (he : s.entries.lookup T = some e) : Recording s (s.remove T) := by
  obtain ⟨-, x, hx, -⟩ := h.recordOf he
  have hlength := length_keys_erase he
  have hremove : s.remove T = { s with
      idempotency := s.idempotency.erase e.key, entries := s.entries.erase T } := by
    rw [remove, he]
  rw [hremove]
  refine .vacated hx rfl rfl rfl ?_
  show (s.entries.erase T).keys.length + s.reserved + 1 = _
  omega

/-- A section of the registry without entries. -/
theorem recording_of_aside (hg : g.aside = true) (h : s.Invariant cfg fun o ↦ n o + holding o g)
    (hexec : s.exec cfg g a = some (r, calls)) : Recording s r := by
  have hprepare : ∀ command request, g = .prepare command request → Recording s r := by
    rintro command request rfl
    have heq : (s.prepare cfg command request).1 = r := congrArg Prod.fst (Option.some.inj hexec)
    exact heq ▸ recording_prepare s command request
  have hcancel : ∀ key, g = .cancelAndJoinIdempotency key → Recording s r := by
    rintro key rfl
    have heq : (s.cancelIdempotency key).1 = r := congrArg Prod.fst (Option.some.inj hexec)
    exact heq ▸ recording_cancelIdempotency s key
  cases effect_of_exec hexec with
  | refused | reserved | waiting | found => exact hprepare _ _ rfl
  | missedStopped | missedKey | marked | missedEntry | cancellingKey => exact hcancel _ rfl
  | released => exact recording_releaseReservation h rfl rfl rfl rfl rfl rfl
  | invalid | valid | retrying | undrawn | unavailable | available | unclaimed | claimed | looked
  | cancelling | retryingKey | reaped => exact .refl s
  | expired | taken | drew | unwound | abandoned | missed | expiredKey =>
    exact .kept rfl rfl rfl rfl
  | _ => cases hg

end Invariants

/-! ## What a table answers -/

theorem ticket_slot {T : Bytes} :
    x.slot.ticket = some T ↔ x.preparing = false ∧ x.ticket = T := by
  rw [IdempotencyRecord.slot]
  cases x.preparing <;> simp

/-- The registry has a table. -/
theorem exists_table {n : Option Reservation → ℕ} (h : s.Invariant cfg n) (hs : s.Counted) :
    ∃ table, Represents cfg s table := by
  have hslot : ∀ {k y}, (s.idempotency.lookup k).map (·.slot) = some y →
      ∃ x, s.idempotency.lookup k = some x ∧ x.slot = y := Option.map_eq_some_iff.mp
  have hentry : ∀ {k x T}, s.idempotency.lookup k = some x → x.slot.ticket = some T →
      ∃ e, s.entries.lookup T = some e ∧ e.key = k := by
    intro k x T hx hT
    obtain ⟨hcommitted, rfl⟩ := ticket_slot.mp hT
    exact h.recorded.matched.entryOf hx hcommitted
  have hcard : s.idempotency.keys.toFinset.card = s.entries.keys.length + s.reserved :=
    (List.toFinset_card_of_nodup s.idempotency.keys_nodup).trans hs
  refine ⟨{
    slot := fun k ↦ (s.idempotency.lookup k).map (·.slot)
    keys := s.idempotency.keys.toFinset
    next := s.reservations
    closed := s.stopped
    mem_keys := fun k ↦ ?_
    bound := hcard ▸ h.recorded.bound
    older := fun k y hy ↦ ?_
    distinct := fun k k' y y' T hy hy' hT hT' ↦ ?_ }, fun _ ↦ rfl, rfl, rfl, hcard, fun k T ↦ ?_⟩
  · rw [List.mem_toFinset, Option.isSome_map, AList.lookup_isSome]
    exact AList.mem_keys.symm
  · obtain ⟨x, hx, rfl⟩ := hslot hy
    exact h.serials.lt k x hx
  · obtain ⟨x, hx, rfl⟩ := hslot hy
    obtain ⟨x', hx', rfl⟩ := hslot hy'
    obtain ⟨e, he, rfl⟩ := hentry hx hT
    obtain ⟨e', he', rfl⟩ := hentry hx' hT'
    rw [he] at he'
    rw [Option.some.inj he']
  · constructor
    · rintro ⟨y, hy, hT⟩
      obtain ⟨x, hx, rfl⟩ := hslot hy
      exact hentry hx hT
    · rintro ⟨e, he, rfl⟩
      obtain ⟨-, x, hx, hcommitted, hT, -⟩ := h.recorded.matched.recordOf he
      exact ⟨x.slot, Option.map_eq_some_iff.mpr ⟨x, hx, rfl⟩, ticket_slot.mpr ⟨hcommitted, hT⟩⟩

/-- What `prepare` does when the table has an answer. -/
inductive Answered (s : TicketRegistry) (command : Bytes) (request : ExecuteRequest) :
    SlotAnswer Bytes → TicketRegistry → List RegistryCall → Prop
  | closed : Answered s command request .closed (s.returned command (.failed s.stoppedStatus)) []
  /-- There is no room for a new slot. -/
  | refused {outcome : PrepareOutcome} {admission : StreamAdmissionController}
    (hfails : outcome.fails = true) :
    Answered s command request .fresh (({ s with admission } : TicketRegistry).returned command
      outcome) []
  | reserved {b : Building} {admission : StreamAdmissionController} (hrequest : b.request = request)
    (hserial : b.serial = s.reservations) :
    Answered s command request .fresh { s.reserve b with admission } [.drawTicket b]
  | conflict : Answered s command request .conflict (s.returned command (.failed (flightError
      .failed "idempotency key was reused for a different request" "IDEMPOTENCY_CONFLICT"))) []
  | pending : Answered s command request .pending s [.awaitPrepared command request]
  | over : Answered s command request .over (s.returned command (.failed (flightError .failed
      "idempotent request is already terminal" "IDEMPOTENCY_TERMINAL"))) []
  | found {T : Bytes} {e : PreparedEntry} (he : s.entries.lookup T = some e) :
    Answered s command request (.found T) s [.replay command e]

/-- `prepare` does what the table says. -/
theorem answered_prepare {table : TicketTable cfg} (h : Represents cfg s table) (command : Bytes)
    (request : ExecuteRequest) : Answered s command request
      (table.answer request.idempotencyKey request.fingerprint)
      (s.prepare cfg command request).1 (s.prepare cfg command request).2 := by
  rw [SlotTable.answer, h.closed, h.slot, prepare]
  split_ifs with hstopped
  · exact .closed
  · cases hx : s.idempotency.lookup request.idempotencyKey with
    | none =>
      show Answered s command request .fresh (s.prepareFresh cfg command request).1
        (s.prepareFresh cfg command request).2
      rcases prepareFresh_cases s cfg command request with
        ⟨b, -, hrequest, hserial, -, heq⟩ | ⟨outcome, admission, hfails, -, heq⟩
      · rw [heq]
        exact .reserved hrequest hserial
      · rw [heq]
        exact .refused hfails
    | some x =>
      show Answered s command request _ (s.prepareReplay command request x).1
        (s.prepareReplay command request x).2
      rw [prepareReplay]
      simp only [Option.map_some]
      by_cases hfingerprint : x.fingerprint ≠ request.fingerprint
      · rw [if_pos hfingerprint, if_pos (show x.slot.fingerprint ≠ _ from hfingerprint)]
        exact .conflict
      · rw [if_neg hfingerprint, if_neg (show ¬x.slot.fingerprint ≠ _ from hfingerprint)]
        cases hpreparing : x.preparing with
        | true =>
          simp only [IdempotencyRecord.slot, hpreparing, if_true]
          exact .pending
        | false =>
          have hticket : x.slot.ticket = some x.ticket := ticket_slot.mpr ⟨hpreparing, rfl⟩
          simp only [IdempotencyRecord.slot, hpreparing, Bool.false_eq_true, if_false]
          split_ifs
          · exact .over
          · have hslot : table.slot request.idempotencyKey = some x.slot := by
              rw [h.slot, hx]
              rfl
            obtain ⟨e, he, -⟩ := (h.entry _ _).mp ⟨x.slot, hslot, hticket⟩
            rw [he]
            exact .found he

end TicketRegistry

namespace SidecarServer

open TicketRegistry (Recording Represents)

variable {cfg : SidecarConfig} {ι : Type*} {s s' : SidecarServer} {f : ServerCall}
  {k : ServerAnswer} {new : List ServerCall} {T : Bytes}

/-! ## Sections of the server -/

/-- Every section of the server makes one change of the records, or none. -/
theorem recording_of_effect {n : Option Reservation → ℕ}
    (hF : Founded cfg s fun o ↦ n o + holding o f) (hA : Informed cfg f s)
    (h : Effect cfg s f s' new) : Recording s.registry s'.registry := by
  cases h with
  | aside hg hexec => exact TicketRegistry.recording_of_aside hg hF.registry hexec
  | @found g h a r e T hg hexec => exact TicketRegistry.recording_of_aside hg hF.registry hexec
  | @sweep g cause r order _ _ _ _ hr hstopped =>
    rw [registry_foldl_retain]
    show Recording s.registry r
    cases hbefore : s.registry.stopped with
    | true => exact .kept (by rw [hr]) (hbefore ▸ hstopped hbefore) (by rw [hr]) (by rw [hr])
    | false =>
      cases hafter : r.stopped with
      | true => exact .closed (by rw [hr]) hafter (by rw [hr]) (by rw [hr])
      | false => exact .kept (by rw [hr]) (hafter.trans hbefore.symm) (by rw [hr]) (by rw [hr])
  | @unwound b T what =>
    exact TicketRegistry.recording_releaseReservation
      (f := .releaseReservation b (some T) what) hF.registry rfl rfl rfl rfl rfl rfl
  | @retracted b T =>
    exact TicketRegistry.recording_releaseReservation
      (f := .commit b T) hF.registry rfl rfl rfl rfl rfl rfl
  | @withdrawn b T x _ hrunning hx | @committed b T x hrunning hx =>
    have hdrawn : (T, b.serial) ∈ s.registry.drawn := (hA.registry (.commit b T) rfl).2
    exact TicketRegistry.recording_committed
      (f := .commit b T) hF.registry rfl hdrawn hrunning hx rfl rfl rfl rfl rfl
  | removed he => exact TicketRegistry.recording_remove hF.registry.recorded.matched he
  | release =>
    obtain ⟨-, -, admission, hr⟩ := registry_releaseLease s _
    rw [hr]
    exact .kept rfl rfl rfl rfl
  | draw | threw | built | replayed | refused | delivered | claimed | replied =>
    exact .kept rfl rfl rfl rfl
  | _ => exact .refl s.registry

/-- A thread that enters a function changes no record. -/
theorem recording_of_call {t : ι} (hcall : (program cfg ι).call s t f = some s') :
    Recording s.registry s'.registry := by
  cases f with
  | registry g =>
    obtain ⟨r, hr, rfl⟩ := Option.map_eq_some_iff.mp hcall
    cases g with
    | doGet T =>
      obtain rfl := Option.some.inj hr
      split_ifs
      · exact .refl s.registry
      · exact .kept rfl rfl rfl rfl
    | getFlightInfo | lookup | cancelAndJoin | cancelAndJoinIdempotency | sealGpuUnavailable
    | stopAdmissionAndCancel | reap =>
      obtain rfl := Option.some.inj hr
      exact .refl s.registry
    | _ => cases hr
  | entry T worker g =>
    cases worker with
    | true =>
      obtain ⟨e, -, rfl⟩ := Option.map_eq_some_iff.mp hcall
      exact .refl s.registry
    | false => cases hcall
  | _ => cases hcall

theorem recording_of_ambient {a : Bytes × Bytes × InputTraffic}
    (ha : (program cfg ι).ambient s a = some s') : Recording s.registry s'.registry := by
  simp only [program] at ha
  split_ifs at ha
  obtain ⟨i, -, rfl⟩ := Option.map_eq_some_iff.mp ha
  exact .refl s.registry

/-- **The counts** rest on the invariants of the parts. -/
theorem counted_rests (cfg : SidecarConfig) (ι : Type*) :
    Program.Rests (program cfg ι) holding (fun s n ↦ Founded cfg s n ∧ Coherent s)
      (fun _ f s ↦ Informed cfg f s ∧ Refers f s) (fun b : Empty ↦ b.elim)
      (fun s _ ↦ s.registry.Counted) fun _ _ _ ↦ True where
  call _ hs hcall := ⟨(recording_of_call hcall).counted hs, trivial, fun _ _ _ ↦ id⟩
  exec {s t f k s' new n m} hF hA hs _ hexec := by
    have heffect := effect_of_exec (fun b T heq ↦ hF.1.record heq) hexec
    exact ⟨(recording_of_effect hF.1 hA.1 heffect).counted hs, fun _ _ ↦ trivial, fun _ _ _ ↦ id⟩
  ambient _ hs ha := ⟨(recording_of_ambient ha).counted hs, fun _ _ _ ↦ id⟩

/-! ## One table -/

variable [Fintype ι] [DecidableEq ι] {c c' : Threads SidecarServer ι ServerCall}
  {m : Move ι ServerCall ServerAnswer (Bytes × Bytes × InputTraffic)}
  {ms ms' : List (Move ι ServerCall ServerAnswer (Bytes × Bytes × InputTraffic))}

theorem run_counted (hrun : (program cfg ι).machine.run (init cfg ι) ms = some c) :
    c.shared.registry.Counted :=
  (((ledger cfg ι).assert (counted_rests cfg ι)).run ⟨⟨founded_init, rfl⟩, nofun⟩ hrun).1.2

theorem run_table (hrun : (program cfg ι).machine.run (init cfg ι) ms = some c) :
    ∃ table, Represents cfg.toRegistryConfig c.shared.registry table :=
  TicketRegistry.exists_table (run_invariant hrun).1.1.registry (run_counted hrun)

theorem recording_of_step (hrun : (program cfg ι).machine.run (init cfg ι) ms = some c)
    (hstep : (program cfg ι).machine.step c m = some c') :
    Recording c.shared.registry c'.shared.registry := by
  cases m with
  | call t f =>
    obtain ⟨-, s, hs, rfl⟩ := Program.step_call_eq_some.mp hstep
    exact recording_of_call hs
  | exec t k =>
    obtain ⟨f, rest, s, new, hstack, hexec, rfl⟩ := Program.step_exec_eq_some.mp hstep
    have hmem : f ∈ c.calls t := by
      rw [hstack]
      exact List.mem_cons_self
    exact recording_of_effect (founded_apart hrun hmem) ((run_invariant hrun).2 t f hmem).1
      (effect_of_step hrun hstack hexec)
  | ambient a =>
    obtain ⟨s, ha, rfl⟩ := Program.step_ambient_eq_some.mp hstep
    exact recording_of_ambient ha

/-- A step of the server makes a change of the table, or none. -/
theorem next_of_step {table : TicketTable cfg.toRegistryConfig}
    (hrun : (program cfg ι).machine.run (init cfg ι) ms = some c)
    (htable : Represents cfg.toRegistryConfig c.shared.registry table)
    (hstep : (program cfg ι).machine.step c m = some c') :
    ∃ table', Represents cfg.toRegistryConfig c'.shared.registry table' ∧
      (table' = table ∨ table.Next table') := by
  obtain ⟨table', htable'⟩ := run_table (Machine.run_concat_eq_some.mpr ⟨c, hrun, hstep⟩)
  exact ⟨table', htable', (recording_of_step hrun hstep).next htable htable'⟩

/-- A run of the server is a run of the table. -/
theorem steps_of_run {table : TicketTable cfg.toRegistryConfig}
    (hrun : (program cfg ι).machine.run (init cfg ι) ms = some c)
    (htable : Represents cfg.toRegistryConfig c.shared.registry table)
    (hrun' : (program cfg ι).machine.run c ms' = some c') :
    ∃ table', Represents cfg.toRegistryConfig c'.shared.registry table' ∧
      SlotTable.Steps table table' := by
  refine Machine.run_induction (P := fun _ c' ↦
    ∃ table', Represents cfg.toRegistryConfig c'.shared.registry table' ∧
      SlotTable.Steps table table') ⟨table, htable, .refl⟩ ?_ hrun'
  rintro ms' c₁ m c₂ hrun₁ ⟨table₁, htable₁, hsteps⟩ hstep
  obtain ⟨table₂, htable₂, hnext⟩ :=
    next_of_step (Machine.run_append_eq_some.mpr ⟨c, hrun, hrun₁⟩) htable₁ hstep
  refine ⟨table₂, htable₂, ?_⟩
  rcases hnext with rfl | hnext
  · exact hsteps
  · exact hsteps.tail hnext

omit [Fintype ι] [DecidableEq ι] in
theorem represents_init : Represents cfg.toRegistryConfig (init cfg ι).shared.registry
    (.empty Bytes Bytes Bytes cfg.maxActiveTickets) := by
  refine ⟨fun _ ↦ rfl, rfl, rfl, rfl, fun k T ↦ ?_⟩
  constructor
  · rintro ⟨y, hy, -⟩
    cases hy
  · rintro ⟨e, he, -⟩
    cases he

/-- What `prepare` leaves has nothing to do with a cancellation. -/
theorem resume_answered {q r : TicketRegistry} {command : Bytes} {request : ExecuteRequest}
    {answer : SlotAnswer Bytes} {calls : List RegistryCall}
    (h : q.Answered command request answer r calls) :
    calls.flatMap resume = calls.map .registry := by
  cases h <;> rfl

omit [Fintype ι] [DecidableEq ι] in
/-- A section of `prepare` does what the table says. -/
theorem answered_of_exec {table : TicketTable cfg.toRegistryConfig}
    (htable : Represents cfg.toRegistryConfig s.registry table) {command : Bytes}
    {request : ExecuteRequest}
    (hexec : s.exec cfg (.registry (.prepare command request)) k = some (s', new)) :
    ∃ calls, new = calls.map .registry ∧ s.registry.Answered command request
      (table.answer request.idempotencyKey request.fingerprint) s'.registry calls := by
  have hsection : s.registrySection (s.registry.prepare cfg.toRegistryConfig command request)
      = (s', new) := Option.some.inj hexec
  have hanswered := TicketRegistry.answered_prepare htable command request
  refine ⟨(s.registry.prepare cfg.toRegistryConfig command request).2, ?_, ?_⟩
  · have hnew : (s.registry.prepare cfg.toRegistryConfig command request).2.flatMap resume = new :=
      congrArg Prod.snd hsection
    rw [← hnew, resume_answered hanswered]
  · have hregistry := registry_registrySection (s := s)
      (s.registry.prepare cfg.toRegistryConfig command request)
    rw [hsection] at hregistry
    have heq : s'.registry = (s.registry.prepare cfg.toRegistryConfig command request).1 :=
      hregistry
    rw [heq]
    exact hanswered

/-- The server keeps a table. -/
structure Tabled (cfg : SidecarConfig) (c : Threads SidecarServer ι ServerCall)
    (table : TicketTable cfg.toRegistryConfig) : Prop where
  represents : Represents cfg.toRegistryConfig c.shared.registry table
  reached : SlotTable.Steps (.empty Bytes Bytes Bytes cfg.maxActiveTickets) table
  /-- A step of any thread changes it in one of the ways in which a table changes, or not at all. -/
  step : ∀ m c', (program cfg ι).machine.step c m = some c' →
    ∃ table', Represents cfg.toRegistryConfig c'.shared.registry table' ∧
      (table' = table ∨ table.Next table')
  /-- `prepare` does what the table says. -/
  prepares : ∀ t command request rest k c',
    c.calls t = .registry (.prepare command request) :: rest →
      (program cfg ι).machine.step c (.exec t k) = some c' →
        ∃ calls, c'.calls t = calls.map .registry ++ rest ∧
          c.shared.registry.Answered command request
            (table.answer request.idempotencyKey request.fingerprint) c'.shared.registry calls
  /-- What is found later under a reservation of now was there all the time, with the same request,
  ticket and mark; and once the registry is stopped, nothing else is found. -/
  lasting : ∀ ms' c', (program cfg ι).machine.run c ms' = some c' →
    ∀ key x', c'.shared.registry.idempotency.lookup key = some x' →
      x'.serial < c.shared.registry.reservations ∨ c.shared.registry.stopped = true →
        ∃ x, c.shared.registry.idempotency.lookup key = some x ∧ x.slot.Onward x'.slot

/-- **The registry is one table.** However the calls of the server interleave, its two maps and its
counter are a table of slots by key, with room for as many as there may be tickets. Every step is a
change that such a table knows, or none; `prepare` answers from the table; a slot keeps its request,
its ticket and its mark until it is given up, and is not resurrected. -/
theorem one_table (cfg : SidecarConfig)
    (ms : List (Move ι ServerCall ServerAnswer (Bytes × Bytes × InputTraffic)))
    (c : Threads SidecarServer ι ServerCall)
    (hrun : (program cfg ι).machine.run (init cfg ι) ms = some c) :
    ∃ table, Tabled cfg c table := by
  have hstart : (program cfg ι).machine.run (init cfg ι) [] = some (init cfg ι) := rfl
  obtain ⟨table, htable, hreached⟩ := steps_of_run hstart represents_init hrun
  refine ⟨table, htable, hreached, fun m c' hstep ↦ next_of_step hrun htable hstep, ?_, ?_⟩
  · intro t command request rest k c' hstack hstep
    obtain ⟨s', new, hexec, hshared, hcalls⟩ := step_exec_cons hstack hstep
    obtain ⟨calls, rfl, hanswered⟩ := answered_of_exec htable hexec
    rw [hshared]
    exact ⟨calls, hcalls, hanswered⟩
  · intro ms' c' hrun' key x' hx' hold
    obtain ⟨table', htable', hsteps⟩ := steps_of_run hrun htable hrun'
    have hslot' : table'.slot key = some x'.slot := by
      rw [htable'.slot, hx']
      rfl
    obtain ⟨y, hy, honward⟩ : ∃ y, table.slot key = some y ∧ y.Onward x'.slot := by
      rcases hold with hserial | hstopped
      · exact hsteps.onward hslot' (htable.next ▸ hserial)
      · exact (hsteps.closed (htable.closed.trans hstopped)).2 key x'.slot hslot'
    rw [htable.slot] at hy
    obtain ⟨x, hx, rfl⟩ := Option.map_eq_some_iff.mp hy
    exact ⟨x, hx, honward⟩

theorem one_table_deliverOnce :
    ∃ c table, (program oneExecution Bool).machine.run (init oneExecution Bool) deliverOnce
      = some c ∧ table.keys.card = 1 ∧ Tabled oneExecution c table := by
  have hsize : ((program oneExecution Bool).machine.run (init oneExecution Bool) deliverOnce).map
      (fun c ↦ c.shared.registry.entries.keys.length + c.shared.registry.reserved) = some 1 := by
    decide +kernel
  obtain ⟨c, hrun, hc⟩ := Option.map_eq_some_iff.mp hsize
  obtain ⟨table, htable⟩ := one_table oneExecution deliverOnce c hrun
  exact ⟨c, table, hrun, htable.represents.size.trans hc, htable⟩

end SidecarServer

end MoSidecar
