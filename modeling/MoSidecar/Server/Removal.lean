import MoSidecar.Server.Invariant

/-!
# Removal

The terminal callback of an execution removes its entry and its record from the registry, once. So a
cancellation that finds no entry finds no execution at work, if it has looked.
-/

open Function (update)

namespace MoSidecar

namespace TicketRegistry

variable {cfg : RegistryConfig} {s r : TicketRegistry} {g : RegistryCall} {a : RegistryAnswer}
  {calls : List RegistryCall}

/-- A cancellation that answers that nothing was found has looked, or has found the registry
stopped. -/
inductive Missed (s : TicketRegistry) : RegistryCall → CancelIdentity → Prop
  | ticket {T : Bytes} (hT : s.entries.lookup T = none) :
    Missed s (.cancelAndJoin T) (.ticket T)
  | stopped {key : Bytes} (hstopped : s.stopped = true) :
    Missed s (.cancelAndJoinIdempotency key) (.idempotencyKey key)
  | record {key : Bytes} (hkey : s.idempotency.lookup key = none) :
    Missed s (.cancelAndJoinIdempotency key) (.idempotencyKey key)
  | entry {key : Bytes} {record : IdempotencyRecord} (hkey : s.idempotency.lookup key = some record)
    (hcommitted : record.preparing = false) (hT : s.entries.lookup record.ticket = none) :
    Missed s (.cancelAndJoinIdempotency key) (.idempotencyKey key)

/-- The answers that a section gives to cancellations. -/
inductive Answers (s : TicketRegistry) (g : RegistryCall) :
    List (CancelIdentity × CancelResult) → Prop
  | none : Answers s g []
  | missed {identity : CancelIdentity} (h : Missed s g identity) :
    Answers s g [(identity, .notFound)]
  | expired {identity : CancelIdentity} : Answers s g [(identity, .deadlineExceeded)]
  | joined {identity : CancelIdentity} {e : PreparedEntry} (hg : g = .joinEntry identity e) :
    Answers s g [(identity, .quiesced)]

/-- A section answers at most one cancellation. -/
theorem answers_of_exec (h : s.exec cfg g a = some (r, calls)) :
    ∃ answers, r.replies = s.replies ++ answers ∧ Answers s g answers := by
  cases effect_of_exec h with
  | missed hnone => exact ⟨_, rfl, .missed (.ticket hnone)⟩
  | missedStopped hstopped => exact ⟨_, rfl, .missed (.stopped hstopped)⟩
  | missedKey hkey => exact ⟨_, rfl, .missed (.record hkey)⟩
  | missedEntry hkey hcommitted hnone => exact ⟨_, rfl, .missed (.entry hkey hcommitted hnone)⟩
  | expiredKey | unjoined => exact ⟨_, rfl, .expired⟩
  | joined => exact ⟨_, rfl, .joined rfl⟩
  | _ => exact ⟨[], (List.append_nil _).symm, .none⟩

end TicketRegistry

/-- The entries that an identity stands for. -/
def CancelIdentity.Names : CancelIdentity → PreparedEntry → Prop
  | .ticket T, e => e.ticket = T
  | .idempotencyKey key, e => e.key = key

namespace SidecarServer

variable {cfg : SidecarConfig} {ι : Type*} [Fintype ι] [DecidableEq ι] {s s' : SidecarServer}
  {c c' : Threads SidecarServer ι ServerCall} {t : ι} {f : ServerCall} {k : ServerAnswer}
  {new : List ServerCall} {T : Bytes}
  {m : Move ι ServerCall ServerAnswer (Bytes × Bytes × InputTraffic)}
  {ms : List (Move ι ServerCall ServerAnswer (Bytes × Bytes × InputTraffic))}

/-! ## The terminal callback -/

/-- The callback has run or is about to run as often as the flag says. -/
theorem notifications_eq (hrun : (program cfg ι).machine.run (init cfg ι) ms = some c) (T : Bytes) :
    (c.shared.entry T).notifications
        + Program.weight (Program.liftWeight (toEntry T) ExecutionEntry.notifying) c
      = (c.shared.entry T).terminalNotified.toNat := by
  have hledger := ((ExecutionEntry.tally_notifying (cfg.executions T) Unit).ledger
    (ExecutionEntry.assertional (cfg.executions T) Unit)).lift (entry_part cfg ι T)
  have hinit := ExecutionEntry.holds_init (ι := Unit)
  refine (hledger.run (c := init cfg ι) ⟨⟨hinit.1, ?_⟩, nofun⟩ hrun).1.2
  exact congrArg (0 + ·) (weight_init _)

/-- An execution whose callback has run is quiesced. -/
theorem quiesced_of_notified (hrun : (program cfg ι).machine.run (init cfg ι) ms = some c)
    (h : 0 < (c.shared.entry T).notifications) :
    (c.shared.entry T).quiesced = true ∧ (c.shared.entry T).worker.Settled := by
  have hordered := (run_invariant hrun).1.1.entries T
  have hnotified : (c.shared.entry T).terminalNotified = true := by
    have hcount := notifications_eq hrun T
    by_contra hno
    rw [Bool.not_eq_true] at hno
    rw [hno, Bool.toNat_false] at hcount
    omega
  have hquiesced := hordered.notified hnotified
  exact ⟨hquiesced, (hordered.sound.quiesced hquiesced).2⟩

omit [Fintype ι] in
/-- An execution that is quiet and was not notified is about to be looked at. -/
theorem testing_of_quiet (hrun : (program cfg ι).machine.run (init cfg ι) ms = some c)
    (hquiet : (c.shared.entry T).isQuiet = true)
    (hno : (c.shared.entry T).terminalNotified = false) :
    ∃ t, ∃ f ∈ c.calls t, toEntry T f = some .maybeNotifyTerminal := by
  have hassertional := ExecutionEntry.assertional (cfg.executions T) Unit
  have hdebt := (ExecutionEntry.debt_notification (cfg.executions T) Unit).lift
    (entry_part cfg ι T) hassertional
  have hinit := ExecutionEntry.holds_init (ι := Unit)
  obtain ⟨t, f, hf, g, hg, rfl⟩ := hdebt.run (c := init cfg ι)
    (hassertional.lift (entry_part cfg ι T)) ⟨hinit.1, fun t f hf ↦ absurd hf List.not_mem_nil⟩
    (fun h ↦ nomatch h.1) hrun ⟨hquiet, hno⟩
  exact ⟨t, f, hf, hg⟩

/-- A call that is about to look whether an execution is quiet, or to run its callback. -/
def Notifies (T : Bytes) (f : ServerCall) : Prop :=
  toEntry T f = some .maybeNotifyTerminal ∨ toEntry T f = some .onTerminal

/-- The callback of an execution that is quiet has run, if nobody is on the way to it. -/
theorem notified_of_quiet (hrun : (program cfg ι).machine.run (init cfg ι) ms = some c)
    (hnone : ∀ t, ∀ f ∈ c.calls t, ¬Notifies T f) (hquiet : (c.shared.entry T).isQuiet = true) :
    (c.shared.entry T).notifications = 1 ∧ c.shared.registry.entries.lookup T = none := by
  have hcount := notifications_eq hrun T
  obtain ⟨⟨-, hs⟩, -⟩ := run_invariant hrun
  have hnotified : (c.shared.entry T).terminalNotified = true := by
    by_contra hno
    rw [Bool.not_eq_true] at hno
    obtain ⟨t, f, hf, hg⟩ := testing_of_quiet hrun hquiet hno
    exact hnone t f hf (.inl hg)
  have hweight :
      Program.weight (Program.liftWeight (toEntry T) ExecutionEntry.notifying) c = 0 := by
    refine Program.weight_eq_zero fun t f hf ↦ ?_
    rw [Program.liftWeight]
    cases hg : toEntry T f with
    | none => rfl
    | some g =>
      refine if_neg ?_
      rintro rfl
      exact hnone t f hf (.inr hg)
  rw [hnotified, hweight, Nat.add_zero, Bool.toNat_true] at hcount
  exact ⟨hcount, hs.unlisted T (by rw [hcount]; exact Nat.one_pos)⟩

/-- **Terminal notification is neither lost nor duplicated.** In every reachable state the callback
of an execution was invoked at most once; and once it is quiet and no call is on its way to the test
or to the callback, the callback was invoked, and the registry has neither the entry nor a record of
it. -/
theorem terminal_notification (cfg : SidecarConfig)
    (ms : List (Move ι ServerCall ServerAnswer (Bytes × Bytes × InputTraffic)))
    (c : Threads SidecarServer ι ServerCall)
    (hrun : (program cfg ι).machine.run (init cfg ι) ms = some c) (T : Bytes) :
    (c.shared.entry T).notifications ≤ 1 ∧
      ((∀ t, ∀ f ∈ c.calls t, ¬Notifies T f) → (c.shared.entry T).isQuiet = true →
        (c.shared.entry T).notifications = 1 ∧ c.shared.registry.entries.lookup T = none ∧
          ∀ key r, c.shared.registry.idempotency.lookup key = some r → r.preparing = false →
            r.ticket ≠ T) := by
  constructor
  · have hcount := notifications_eq hrun T
    have hle := Bool.toNat_le (c.shared.entry T).terminalNotified
    omega
  · intro hnone hquiet
    obtain ⟨hcount, hunlisted⟩ := notified_of_quiet hrun hnone hquiet
    refine ⟨hcount, hunlisted, ?_⟩
    rintro key r hr hcommitted rfl
    obtain ⟨⟨hF, -⟩, -⟩ := run_invariant hrun
    obtain ⟨e, he, -⟩ := hF.registry.recorded.matched.entryOf hr hcommitted
    rw [hunlisted] at he
    cases he

/-- Room for one ticket, and queries without input and result. -/
def oneExecution : SidecarConfig :=
  { TicketRegistry.oneTicket with executions := fun _ ↦ ExecutionEntry.emptyQuery }

/-- A ticket is prepared and delivered. -/
def deliverOnce : List (Move Bool ServerCall ServerAnswer (Bytes × Bytes × InputTraffic)) :=
  [.call false (.registry (.getFlightInfo (some TicketRegistry.oneCommand))), .exec false {},
    .exec false {}, .exec false { registry := { ticket := some [7] } }, .exec false {},
    .exec false {}, .exec false {}, .exec false {}]

/-- Then it is cancelled. -/
def cancelDelivered : List (Move Bool ServerCall ServerAnswer (Bytes × Bytes × InputTraffic)) :=
  deliverOnce ++ .call true (.registry (.cancelAndJoin [7])) :: List.replicate 13 (.exec true {})

theorem terminal_notification_cancelDelivered :
    ∃ c, (program oneExecution Bool).machine.run (init oneExecution Bool) cancelDelivered = some c ∧
      (c.shared.entry [7]).notifications = 1 ∧ c.shared.registry.entries.lookup [7] = none := by
  have hidle : ((program oneExecution Bool).machine.run (init oneExecution Bool)
      cancelDelivered).map (fun c ↦ ((c.calls false).isEmpty, (c.calls true).isEmpty,
        (c.shared.entry [7]).isQuiet)) = some (true, true, true) := by
    decide +kernel
  obtain ⟨c, hrun, hc⟩ := Option.map_eq_some_iff.mp hidle
  simp only [Prod.mk.injEq] at hc
  obtain ⟨hfalse, htrue, hquiet⟩ := hc
  have hnone : ∀ t, ∀ f ∈ c.calls t, ¬Notifies [7] f := by
    intro t f hf
    cases t with
    | false =>
      rw [List.isEmpty_iff.mp hfalse] at hf
      cases hf
    | true =>
      rw [List.isEmpty_iff.mp htrue] at hf
      cases hf
  obtain ⟨hcount, hunlisted, -⟩ :=
    (terminal_notification oneExecution cancelDelivered c hrun [7]).2 hnone hquiet
  exact ⟨c, hrun, hcount, hunlisted⟩

/-! ## Cancellations that find nothing -/

/-- What answers a cancellation: the registry, if it finds no entry or does not get to one in time,
and the handler, with what it waited for. -/
inductive Replies (s : SidecarServer) : ServerCall → CancelIdentity → CancelResult → Prop
  | missed {g : RegistryCall} {identity : CancelIdentity} (h : s.registry.Missed g identity) :
    Replies s (.registry g) identity .notFound
  | expired {f : ServerCall} {identity : CancelIdentity} : Replies s f identity .deadlineExceeded
  | waited {identity : CancelIdentity} {e : PreparedEntry} :
    Replies s (.reply identity e true) identity .quiesced

theorem replies_of_aside {r : TicketRegistry} {g : RegistryCall} {a : RegistryAnswer}
    {calls : List RegistryCall} (hg : g.aside = true)
    (hexec : s.registry.exec cfg.toRegistryConfig g a = some (r, calls)) {identity : CancelIdentity}
    {result : CancelResult} (hr : r.replies = s.registry.replies ++ [(identity, result)]) :
    Replies s (.registry g) identity result := by
  obtain ⟨answers, heq, hanswers⟩ := TicketRegistry.answers_of_exec hexec
  obtain rfl : answers = [(identity, result)] := List.append_cancel_left (heq.symm.trans hr)
  cases hanswers with
  | missed hmissed => exact .missed hmissed
  | expired => exact .expired
  | joined hjoin =>
    subst hjoin
    cases hg

/-- A section that answers a cancellation leaves the rest as it is. -/
theorem replies_of_effect (h : Effect cfg s f s' new) {identity : CancelIdentity}
    {result : CancelResult}
    (hr : s'.registry.replies = s.registry.replies ++ [(identity, result)]) :
    s.registry.Apart s'.registry ∧ s'.entry = s.entry ∧ Replies s f identity result := by
  have hsame : s'.registry.replies = s.registry.replies → False := fun heq ↦ by
    rw [heq] at hr
    exact List.cons_ne_nil _ _ (List.self_eq_append_right.mp hr)
  cases h with
  | aside hg hexec hapart => exact ⟨hapart, rfl, replies_of_aside hg hexec hr⟩
  | found hg hexec hapart => exact ⟨hapart, rfl, replies_of_aside hg hexec hr⟩
  | sweep hg hnodup horder hall hsweep =>
    rw [registry_foldl_retain, hsweep] at hsame
    exact (hsame rfl).elim
  | removed he =>
    obtain ⟨-, -, -, -, -, -, -, hreplies⟩ := s.registry.remove_frame _
    exact (hsame hreplies).elim
  | @replied identity' e quiesced =>
    refine ⟨⟨rfl, rfl, List.Subset.refl _, rfl, rfl, rfl, List.Subset.refl _, fun _ ↦ .inl⟩,
      rfl, ?_⟩
    obtain ⟨rfl, rfl⟩ := Prod.mk.inj (List.singleton_inj.mp (List.append_cancel_left hr))
    cases quiesced with
    | true => exact .waited
    | false => exact .expired
  | release =>
    obtain ⟨-, -, admission, heq⟩ := registry_releaseLease s _
    rw [heq] at hsame
    exact (hsame rfl).elim
  | _ => exact (hsame rfl).elim

/-- An entry that a cancellation has missed is not registered, if the cancellation has looked. -/
theorem unlisted_of_missed (hF : Founded cfg s n) {g : RegistryCall} {identity : CancelIdentity}
    (hmissed : s.registry.Missed g identity)
    (hcareful : ∀ key, g = .cancelAndJoinIdempotency key → s.registry.stopped = true →
      ∀ T e, s.registry.entries.lookup T = some e → e.key ≠ key) {e : PreparedEntry}
    (he : s.registry.entries.lookup T = some e) : ¬identity.Names e := by
  obtain ⟨hticket, r, hr, -, hrT, -⟩ := hF.registry.recorded.matched.recordOf he
  intro hnames
  cases hmissed with
  | ticket hnone =>
    obtain rfl : e.ticket = _ := hnames
    rw [← hticket, hnone] at he
    cases he
  | stopped hstopped => exact hcareful _ rfl hstopped T e he hnames
  | record hkey =>
    obtain rfl : e.key = _ := hnames
    rw [hkey] at hr
    cases hr
  | entry hkey _ hnone =>
    obtain rfl : e.key = _ := hnames
    rw [hkey] at hr
    obtain rfl := Option.some.inj hr
    rw [hrT, he] at hnone
    cases hnone

theorem replies_of_call {q r : TicketRegistry} {g : RegistryCall} (h : q.call g = some r) :
    r.replies = q.replies := by
  cases g with
  | doGet T =>
    obtain rfl := Option.some.inj h
    split_ifs <;> rfl
  | getFlightInfo | lookup | cancelAndJoin | cancelAndJoinIdempotency | sealGpuUnavailable
  | stopAdmissionAndCancel | reap =>
    obtain rfl := Option.some.inj h
    rfl
  | _ => cases h

/-- The key that the next section of a call looks up for a cancellation. -/
def cancelledKey? : ServerCall → Option Bytes
  | .registry (.cancelAndJoinIdempotency key) => some key
  | _ => none

/-- A cancellation by key that meets a registry that is stopped passes over no entry. -/
def Careful (c : Threads SidecarServer ι ServerCall) :
    Move ι ServerCall ServerAnswer (Bytes × Bytes × InputTraffic) → Prop
  | .exec t _ => ∀ key ∈ (c.calls t).head?.bind cancelledKey?, c.shared.registry.stopped = true →
      ∀ T ∈ c.shared.registry.entries.keys, ∀ e ∈ c.shared.registry.entries.lookup T, e.key ≠ key
  | _ => True

instance (c : Threads SidecarServer ι ServerCall) :
    ∀ m : Move ι ServerCall ServerAnswer (Bytes × Bytes × InputTraffic), Decidable (Careful c m)
  | .exec t _ => inferInstanceAs (Decidable (∀ key ∈ (c.calls t).head?.bind cancelledKey?,
      c.shared.registry.stopped = true → ∀ T ∈ c.shared.registry.entries.keys,
        ∀ e ∈ c.shared.registry.entries.lookup T, e.key ≠ key))
  | .call .. | .ambient _ => .isTrue trivial

/-- Only sections answer cancellations. -/
theorem replies_of_step (hrun : (program cfg ι).machine.run (init cfg ι) ms = some c)
    (hstep : (program cfg ι).machine.step c m = some c') {identity : CancelIdentity}
    {result : CancelResult}
    (hr : c'.shared.registry.replies = c.shared.registry.replies ++ [(identity, result)]) :
    ∃ t k f, m = .exec t k ∧ (c.calls t).head? = some f ∧
      c.shared.registry.Apart c'.shared.registry ∧ c'.shared.entry = c.shared.entry ∧
      Replies c.shared f identity result := by
  have hsame : c'.shared.registry.replies = c.shared.registry.replies → False := fun heq ↦ by
    rw [heq] at hr
    exact List.cons_ne_nil _ _ (List.self_eq_append_right.mp hr)
  cases m with
  | call t f =>
    obtain ⟨-, s, hcall, rfl⟩ := Program.step_call_eq_some.mp hstep
    refine (hsame ?_).elim
    cases f with
    | registry g =>
      obtain ⟨r, hr', rfl⟩ := Option.map_eq_some_iff.mp hcall
      exact replies_of_call hr'
    | entry T worker f =>
      cases worker with
      | true =>
        obtain ⟨e, -, rfl⟩ := Option.map_eq_some_iff.mp hcall
        rfl
      | false => cases hcall
    | _ => cases hcall
  | exec t k =>
    obtain ⟨f, rest, s, new, hstack, hexec, rfl⟩ := Program.step_exec_eq_some.mp hstep
    exact ⟨t, k, f, rfl, by rw [hstack]; rfl,
      replies_of_effect (effect_of_step hrun hstack hexec) hr⟩
  | ambient a =>
    obtain ⟨s, ha, rfl⟩ := Program.step_ambient_eq_some.mp hstep
    refine (hsame ?_).elim
    simp only [program] at ha
    split_ifs at ha
    obtain ⟨i, -, rfl⟩ := Option.map_eq_some_iff.mp ha
    rfl

/-- What it says that nothing was found, if a section answers so: every execution that was delivered
under the identity is quiesced, with its worker past its work, and no entry is registered under the
identity, so that a cancellation by the other one does not find it either. -/
def Truthful (s s' : SidecarServer) : Prop :=
  ∀ identity : CancelIdentity,
    s'.registry.replies = s.registry.replies ++ [(identity, .notFound)] →
      (∀ e ∈ s'.registry.delivered, identity.Names e →
        (s'.entry e.ticket).quiesced = true ∧ (s'.entry e.ticket).worker.Settled) ∧
      ∀ T e, s'.registry.entries.lookup T = some e → ¬identity.Names e

/-- **A cancellation that finds nothing is truthful**, in every run in which no cancellation by key
meets a stopped registry that has an entry for the key. -/
theorem not_found_truthful (cfg : SidecarConfig)
    (ms : List (Move ι ServerCall ServerAnswer (Bytes × Bytes × InputTraffic)))
    (hcareful : (program cfg ι).machine.Meets Careful (init cfg ι) ms) :
    ∀ before m after (c c' : Threads SidecarServer ι ServerCall), ms = before ++ m :: after →
      (program cfg ι).machine.run (init cfg ι) before = some c →
      (program cfg ι).machine.step c m = some c' → Truthful c.shared c'.shared := by
  intro before m after c c' hms hrun hstep identity hr
  have hC : Careful c m := Machine.meets_iff.mp hcareful before m after c hms hrun
  obtain ⟨t, k, f, rfl, hhead, hapart, hentry, hreplies⟩ := replies_of_step hrun hstep hr
  obtain ⟨hmissed⟩ := hreplies
  obtain ⟨⟨hF, hs⟩, -⟩ := run_invariant hrun
  have hunlisted : ∀ T e, c.shared.registry.entries.lookup T = some e → ¬identity.Names e := by
    intro T e he
    refine unlisted_of_missed hF hmissed ?_ he
    rintro key rfl hstopped T' e' he'
    refine hC key (by rw [hhead]; rfl) hstopped T' ?_ e' he'
    rw [← AList.mem_keys, ← AList.lookup_isSome, he']
    rfl
  rw [hapart.entries, hapart.delivered, hentry]
  refine ⟨fun e he hnames ↦ ?_, hunlisted⟩
  rcases hs.delivered e he with hlookup | hnotified
  · exact absurd hnames (hunlisted _ e hlookup)
  · exact quiesced_of_notified hrun hnotified

theorem not_found_truthful_cancelDelivered :
    ∃ c c', (program oneExecution Bool).machine.run (init oneExecution Bool)
        (cancelDelivered ++ [.call false (.registry (.cancelAndJoinIdempotency
          TicketRegistry.oneKey))]) = some c ∧
      (program oneExecution Bool).machine.step c (.exec false {}) = some c' ∧
      c'.shared.registry.replies =
        c.shared.registry.replies ++ [(.idempotencyKey TicketRegistry.oneKey, .notFound)] ∧
      Truthful c.shared c'.shared := by
  have hreplies : (((program oneExecution Bool).machine.run (init oneExecution Bool)
      (cancelDelivered ++ [.call false (.registry (.cancelAndJoinIdempotency
        TicketRegistry.oneKey))])).bind fun c ↦
          ((program oneExecution Bool).machine.step c (.exec false {})).map fun c' ↦
            decide (c'.shared.registry.replies = c.shared.registry.replies ++
              [(.idempotencyKey TicketRegistry.oneKey, .notFound)])) = some true := by
    decide +kernel
  have hcareful : (program oneExecution Bool).machine.Meets Careful (init oneExecution Bool)
      (cancelDelivered ++ [.call false (.registry (.cancelAndJoinIdempotency
        TicketRegistry.oneKey)), .exec false {}]) := by
    decide +kernel
  obtain ⟨c, hrun, hc⟩ := Option.bind_eq_some_iff.mp hreplies
  obtain ⟨c', hstep, hc'⟩ := Option.map_eq_some_iff.mp hc
  refine ⟨c, c', hrun, hstep, of_decide_eq_true hc', ?_⟩
  exact not_found_truthful oneExecution _ hcareful _ _ [] c c' (List.append_cons _ _ _) hrun hstep

/-- A ticket is prepared and delivered, and the server begins to stop. -/
def stopDelivered : List (Move Bool ServerCall ServerAnswer (Bytes × Bytes × InputTraffic)) :=
  deliverOnce ++ [.call true (.registry .stopAdmissionAndCancel), .exec true { order := [[7]] },
    .call false (.registry (.cancelAndJoinIdempotency TicketRegistry.oneKey))]

/-- A cancellation by key finds nothing while the execution is not even cancelled yet, and one by
ticket would find it. -/
theorem not_found_while_running :
    ∃ c c', (program oneExecution Bool).machine.run (init oneExecution Bool)
      stopDelivered = some c ∧
      (program oneExecution Bool).machine.step c (.exec false {}) = some c' ∧
      c'.shared.registry.replies =
        c.shared.registry.replies ++ [(.idempotencyKey TicketRegistry.oneKey, .notFound)] ∧
      (∃ e ∈ c'.shared.registry.delivered, e.key = TicketRegistry.oneKey ∧
        (c'.shared.entry e.ticket).quiesced = false) ∧ ¬Truthful c.shared c'.shared := by
  have hreplies : (((program oneExecution Bool).machine.run (init oneExecution Bool)
      stopDelivered).bind fun c ↦
        ((program oneExecution Bool).machine.step c (.exec false {})).map fun c' ↦
          decide (c'.shared.registry.replies = c.shared.registry.replies ++
              [(.idempotencyKey TicketRegistry.oneKey, .notFound)] ∧
            ∃ e ∈ c'.shared.registry.delivered, e.key = TicketRegistry.oneKey ∧
              (c'.shared.entry e.ticket).quiesced = false)) = some true := by
    decide +kernel
  obtain ⟨c, hrun, hc⟩ := Option.bind_eq_some_iff.mp hreplies
  obtain ⟨c', hstep, hc'⟩ := Option.map_eq_some_iff.mp hc
  obtain ⟨hr, e, he, hkey, hquiesced⟩ := of_decide_eq_true hc'
  refine ⟨c, c', hrun, hstep, hr, ⟨e, he, hkey, hquiesced⟩, fun htruthful ↦ ?_⟩
  rw [((htruthful _ hr).1 e he hkey).1] at hquiesced
  cases hquiesced

end SidecarServer

end MoSidecar
