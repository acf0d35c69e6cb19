import MoSidecar.Machine.Waiting
import MoSidecar.Registry.Sections

/-!
# A retry's sleep

A call of `prepare` that finds its key under preparation sleeps until the deadline of that
preparation, and reports a timeout when it gets there. So a wake-up that came too late would be an
error for a request that has long been prepared. The other waits of the registry end after 100 ms,
and only these calls sleep here.

The sections that end a preparation notify, some of them after they have left the mutex. Nothing
else can make a retry's sleep pointless: a cancellation marks a record that stays under preparation.
So whoever sleeps either has somebody at work on its key, or somebody is about to notify it.
-/

namespace MoSidecar

namespace TicketRegistry

variable {cfg : RegistryConfig} {ι : Type*} {s s' : TicketRegistry} {t : ι} {f : RegistryCall}
  {k : RegistryAnswer} {new : List RegistryCall} {request : ExecuteRequest}

/-- Whether the loop of `prepare` waits. -/
def mustWait (s : TicketRegistry) (request : ExecuteRequest) : Bool :=
  !s.stopped && (s.idempotency.lookup request.idempotencyKey).any fun record ↦
    record.fingerprint == request.fingerprint && record.preparing

/-- Whether a section calls `notify_all` on `state_changed_`. The commit throws before it does
where a record is missing. -/
def notifiesChange (s : TicketRegistry) : RegistryCall → Bool
  | .releaseReservation .. | .stopAdmissionAndCancel => true
  | .commit b _ => s.stopped || (s.idempotency.lookup b.key).isSome
  | .sealGpuUnavailable => !s.gpuUnavailable
  | _ => false

theorem prepare_of_mustWait (h : s.mustWait request = true) (command : Bytes) :
    s.prepare cfg command request = (s, [.awaitPrepared command request]) := by
  obtain ⟨hrunning, hrecord⟩ := Bool.and_eq_true_iff.mp h
  obtain ⟨record, hlookup, hmatch⟩ := (Option.any_eq_true _ _).mp hrecord
  obtain ⟨hfingerprint, hpreparing⟩ := Bool.and_eq_true_iff.mp hmatch
  rw [prepare, if_neg (by simpa using hrunning), hlookup]
  simp only [prepareReplay]
  rw [if_neg (by simpa using hfingerprint), if_pos hpreparing]

/-- The waits of `prepare`. -/
def waits (cfg : RegistryConfig) (ι : Type*) : (program cfg ι).Waits where
  sleeps s _
    | .prepare command request =>
      if s.mustWait request then some (.awaitPrepared command request) else none
    | _ => none
  ready s _
    | .awaitPrepared _ request => !s.mustWait request
    | _ => true
  notifies s _ f _ := s.notifiesChange f
  announces _ := false
  rouses _
    | .remove _ => true
    | .releaseLease _ => false
  not_ready {s t f g} h := by
    split at h
    · split_ifs at h with hwait
      obtain rfl := Option.some.inj h
      simp [hwait]
    · cases h
  stays {s t f g} h := by
    split at h
    · split_ifs at h with hwait
      obtain rfl := Option.some.inj h
      exact .inr ⟨{}, congrArg some (prepare_of_mustWait hwait _)⟩
    · cases h

/-- A registry and its threads, nobody asleep. -/
def rested (cfg : RegistryConfig) (ι : Type*) :
    Threads (Program.Waits.State TicketRegistry ι RegistryCall) ι
      (Program.Notifying RegistryCall) where
  shared := { shared := (init cfg ι).shared }
  calls _ := []

/-! ## Who wakes a retry -/

/-- What a record says to those who wait is kept. -/
theorem mustWait_of_records (h : s.mustWait request = true) (hstopped : s'.stopped = s.stopped)
    (hrecords : ∀ record, s.idempotency.lookup request.idempotencyKey = some record →
      ∃ record', s'.idempotency.lookup request.idempotencyKey = some record' ∧
        record'.fingerprint = record.fingerprint ∧ record'.preparing = record.preparing) :
    s'.mustWait request = true := by
  obtain ⟨hrunning, hrecord⟩ := Bool.and_eq_true_iff.mp h
  obtain ⟨record, hlookup, hmatch⟩ := (Option.any_eq_true _ _).mp hrecord
  obtain ⟨record', hlookup', hfingerprint, hpreparing⟩ := hrecords record hlookup
  rw [mustWait, hstopped, hrunning, hlookup', Option.any_some, hfingerprint, hpreparing]
  exact hmatch

/-- A mark leaves a record as it is to those who wait. -/
theorem mustWait_marked {key : Bytes} {record : IdempotencyRecord}
    (hlookup : s.idempotency.lookup key = some record) (h : s.mustWait request = true) :
    (s.marked key record).mustWait request = true := by
  refine mustWait_of_records h rfl fun record' hrecord' ↦ ?_
  simp only [marked]
  by_cases hkey : request.idempotencyKey = key
  · rw [hkey] at hrecord' ⊢
    obtain rfl := Option.some.inj (hrecord'.symm.trans hlookup)
    exact ⟨_, AList.lookup_insert _, rfl, rfl⟩
  · exact ⟨record', by rwa [AList.lookup_insert_ne hkey], rfl, rfl⟩

/-- A record that is made does not replace one. -/
theorem mustWait_reserve (b : Building) (h : s.mustWait request = true) :
    (s.reserve b).mustWait request = true := by
  refine mustWait_of_records h rfl fun record hrecord ↦ ?_
  refine ⟨record, ?_, rfl, rfl⟩
  simp only [reserve, emplace]
  split_ifs with hsome
  · exact hrecord
  · have hkey : request.idempotencyKey ≠ b.key := by
      rintro hkey
      rw [← hkey, hrecord] at hsome
      exact hsome rfl
    rwa [AList.lookup_insert_ne hkey]

/-- **What may wake a retry.** A section that does not notify leaves everybody who waits waiting. -/
theorem mustWait_of_exec (hexec : s.exec cfg f k = some (s', new))
    (hquiet : s.notifiesChange f = false) (h : s.mustWait request = true) :
    s'.mustWait request = true := by
  cases f with
  | releaseReservation => cases hquiet
  | stopAdmissionAndCancel => cases hquiet
  | sealGpuUnavailable =>
    obtain ⟨rfl, -⟩ := Prod.mk.inj (Option.some.inj hexec)
    rwa [sealGpuUnavailable, if_pos (by simpa [notifiesChange] using hquiet)]
  | commit b ticket =>
    simp only [notifiesChange, Bool.or_eq_false_iff, Option.isSome_eq_false_iff,
      Option.isNone_iff_eq_none] at hquiet
    have hcommit : s.commit b ticket = (s', new) := Option.some.inj hexec
    simp only [commit, hquiet.1, hquiet.2] at hcommit
    obtain ⟨rfl, -⟩ := Prod.mk.inj hcommit
    exact mustWait_of_records h hquiet.1.symm fun record hrecord ↦ ⟨record, hrecord, rfl, rfl⟩
  | cancelAndJoinIdempotency key =>
    have hcancel : s.cancelIdempotency key = (s', new) := Option.some.inj hexec
    cases hlookup : s.idempotency.lookup key with
    | none =>
      rw [cancelIdempotency, hlookup] at hcancel
      split_ifs at hcancel <;> obtain ⟨rfl, -⟩ := Prod.mk.inj hcancel <;> exact h
    | some record =>
      have hmarked := mustWait_marked hlookup h
      rw [cancelIdempotency, hlookup] at hcancel
      simp only at hcancel
      split_ifs at hcancel
      · obtain ⟨rfl, -⟩ := Prod.mk.inj hcancel
        exact h
      · obtain ⟨rfl, -⟩ := Prod.mk.inj hcancel
        exact hmarked
      · split at hcancel <;> obtain ⟨rfl, -⟩ := Prod.mk.inj hcancel
        · exact hmarked
        · exact hmarked
  | prepare command request =>
    cases effect_of_exec hexec with
    | reserved hadmitted => exact mustWait_reserve _ h
    | _ => exact h
  | _ =>
    cases effect_of_exec hexec with
    | _ => exact h

theorem covers (cfg : RegistryConfig) (ι : Type*) :
    (waits cfg ι).Covers (fun _ ↦ True) (fun _ _ ↦ True) fun _ ↦ False where
  call {s t f s'} _ hcall u g hready := by
    have hsame : ∀ request, s'.mustWait request = s.mustWait request := fun request ↦ by
      cases f with
      | doGet ticket =>
        obtain rfl := Option.some.inj hcall
        split_ifs <;> rfl
      | _ => cases hcall <;> rfl
    cases g <;> first | rfl | simpa only [waits, hsame] using hready
  sleep _ := id
  exec {s t f k s' new} _ _ hexec hquiet := by
    refine .inl ⟨fun u _ g hready ↦ ?_, id⟩
    cases g with
    | awaitPrepared command request =>
      simp only [waits, Bool.not_eq_true', ← Bool.not_eq_true] at hready ⊢
      exact fun hwait ↦ hready (mustWait_of_exec hexec hquiet hwait)
    | _ => rfl
  ambient {s a s'} _ hambient hquiet u g hready := by
    cases a with
    | remove ticket => cases hquiet
    | releaseLease bytes =>
      obtain rfl := Option.some.inj hambient
      exact hready

theorem asserts_nothing (cfg : RegistryConfig) (ι : Type*) :
    Program.Assertional (program cfg ι) (fun _ ↦ True) fun _ _ _ ↦ True where
  call _ _ := ⟨trivial, trivial, fun _ _ ↦ id⟩
  exec _ _ _ := ⟨trivial, fun _ _ ↦ trivial, fun _ _ ↦ id⟩
  ambient _ _ := ⟨trivial, fun _ _ ↦ id⟩

variable [Fintype ι] [DecidableEq ι]

/-- **A retry does not sleep in vain.** In every state of every run, for any number of threads and
whatever wakes them besides: who sleeps in the registry is a call of `prepare` whose key is under
preparation, and exactly one call is at work on it; or some thread is about to call `notify_all`. -/
theorem retry_woken (cfg : RegistryConfig)
    (ms : List (Move ι (Program.Notifying RegistryCall) RegistryAnswer (RegistryEvent ⊕ ι)))
    (c : Threads (Program.Waits.State TicketRegistry ι RegistryCall) ι
      (Program.Notifying RegistryCall)) (t : ι) (f : RegistryCall)
    (hrun : (waits cfg ι).program.machine.run (rested cfg ι) ms = some c)
    (hasleep : c.shared.asleep t = some f) :
    ∃ command request, f = .awaitPrepared command request ∧ (∃ rest, c.calls t = .frame f :: rest) ∧
      ((c.shared.shared.mustWait request = true ∧
          Program.weight (preparingKey request.idempotencyKey) (Program.Waits.plain c) = 1) ∨
        ∃ u, .notify ∈ c.calls u) := by
  have : Nonempty ι := ⟨t⟩
  have hrested : ∀ t, (rested cfg ι).shared.asleep t = none := fun _ ↦ rfl
  obtain ⟨⟨s, g, hfell⟩, hstack⟩ := Program.Waits.placed_run hrested hrun t f hasleep
  obtain ⟨command, request, rfl⟩ : ∃ command request, f = .awaitPrepared command request := by
    simp only [waits] at hfell
    split at hfell
    · split_ifs at hfell
      exact ⟨_, _, (Option.some.inj hfell).symm⟩
    · cases hfell
  refine ⟨command, request, rfl, hstack, ?_⟩
  rcases Program.Waits.no_lost_wakeup (covers cfg ι) (asserts_nothing cfg ι) trivial (fun _ ↦ rfl)
    hrested hrun hasleep with hready | ⟨u, n, hn, hdue⟩
  · have hwait : c.shared.shared.mustWait request = true := by simpa [waits] using hready
    obtain ⟨ls, hls⟩ := Program.Waits.reaches_plain hrun
    have hweight := weight_preparingKey (run_invariant hls).1 request.idempotencyKey
    obtain ⟨record, hrecord, hmatch⟩ :=
      (Option.any_eq_true _ _).mp (Bool.and_eq_true_iff.mp hwait).2
    have hpreparing : (c.shared.shared.idempotency.lookup request.idempotencyKey).any
        (·.preparing) = true :=
      (Option.any_eq_true _ _).mpr ⟨record, hrecord, (Bool.and_eq_true_iff.mp hmatch).2⟩
    refine .inl ⟨hwait, hweight.trans ?_⟩
    show ((c.shared.shared.idempotency.lookup request.idempotencyKey).any _).toNat = 1
    rw [hpreparing]
    rfl
  · cases n with
    | notify => exact .inr ⟨u, hn⟩
    | frame f => exact hdue.elim

/-- The second thread sends the command while the first prepares it, and falls asleep. -/
def sleepWhilePreparing : List (Move Bool (Program.Notifying RegistryCall) RegistryAnswer
    (RegistryEvent ⊕ Bool)) :=
  [.call false (.frame (.getFlightInfo (some oneCommand))), .exec false {}, .exec false {},
    .call true (.frame (.getFlightInfo (some oneCommand))), .exec true {}, .exec true {}]

theorem retry_woken_sleepWhilePreparing :
    ∃ c command request, (waits oneTicket Bool).program.machine.run (rested oneTicket Bool)
        sleepWhilePreparing = some c ∧
      c.shared.asleep true = some (.awaitPrepared command request) ∧
        Program.weight (preparingKey request.idempotencyKey) (Program.Waits.plain c) = 1 := by
  have hend : ((waits oneTicket Bool).program.machine.run (rested oneTicket Bool)
      sleepWhilePreparing).map (fun c ↦ ((c.shared.asleep true).isSome,
        [false, true].map fun u ↦ (c.calls u).all (·.frame?.isSome)))
      = some (true, [true, true]) := by
    decide +kernel
  obtain ⟨c, hrun, hfields⟩ := Option.map_eq_some_iff.mp hend
  obtain ⟨hasleep, hframes⟩ := Prod.mk.inj hfields
  obtain ⟨f, hf⟩ := Option.isSome_iff_exists.mp hasleep
  obtain ⟨command, request, rfl, -, ⟨-, hweight⟩ | ⟨u, hu⟩⟩ :=
    retry_woken oneTicket sleepWhilePreparing c true f hrun hf
  · exact ⟨c, command, request, hrun, hf, hweight⟩
  · have hall : (c.calls u).all (·.frame?.isSome) = true := by
      cases u <;> simp_all
    cases List.all_eq_true.mp hall _ hu

end TicketRegistry

end MoSidecar
