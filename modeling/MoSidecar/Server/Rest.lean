import MoSidecar.Server.Failure
import MoSidecar.Server.Sealing
import MoSidecar.Server.Streams

/-!
# The server at rest

Nothing in the server waits for somebody who is not there. An execution that is registered either
waits for its client, and then an identical request is given its ticket again, or somebody attends
to it: its worker, the owner of its result stream, or a call that is about to end it or has just
ended it.

So when all calls have come to their end, what the server keeps is what its clients may still ask
for, and nothing else: no reservation, no record without an entry, no pointer and no byte. After a
stop there is nothing left at all, and the maps that `shutdown` clears at its end are empty.
-/

namespace MoSidecar

namespace ExecutionEntry

variable {ι : Type*} {cfg : ExecutionConfig} {s s' : ExecutionEntry} {t : Option ι} {f : EntryCall}
  {k : EntryAnswer} {new : List EntryCall}

/-! ## What claims an execution -/

theorem claimed_of_runStep {c c' : EntryControl} {point : RunPoint} {calls : List EntryCall}
    (hrun : c.runStep cfg k point = some (c', calls)) :
    c'.claimed = c.claimed ∧ .claim ∉ calls := by
  cases EntryControl.section_of_runStep hrun with
  | threw hpoint hbefore =>
    refine ⟨rfl, ?_⟩
    rcases hbefore with rfl | rfl <;> simp [EntryCall.failGpuUnavailable]
  | finished =>
    refine ⟨?_, ?_⟩
    · rw [EntryControl.finish]
      split_ifs <;> rfl
    · simp only [EntryControl.releaseInputs]
      split <;> simp
  | _ => exact ⟨rfl, by simp [EntryCall.cancel]⟩

/-- Only `claim` claims. -/
theorem claimed_of_exec (hf : f ≠ .claim) (h : s.exec cfg t f k = some (s', new)) :
    s'.claimed = s.claimed ∧ .claim ∉ new := by
  have hpassive : f.passive = true → s'.claimed = s.claimed ∧ .claim ∉ new := fun hpassive ↦ by
    have hkept := passive_of_exec hpassive h
    exact ⟨hkept.claimed, fun hclaim ↦ Bool.false_ne_true (hkept.calls _ hclaim)⟩
  cases f with
  | claim => exact absurd rfl hf
  | start =>
    cases section_of_exec h with
    | start =>
      refine ⟨?_, List.not_mem_nil⟩
      simp only [setControl, EntryControl.start]
      split_ifs <;> rfl
  | run =>
    cases section_of_exec h with
    | run hw hrun => exact claimed_of_runStep hrun
  | _ => exact hpassive rfl

end ExecutionEntry

/-- An execution that has not ended had not before. -/
theorem EntryControl.Steps.live {cfg : ExecutionConfig} {c c' : EntryControl}
    (hsteps : Steps cfg c c') (h : Sound c) (hlive : c'.terminal = false) : c.terminal = false := by
  by_contra hterminal
  rw [(hsteps.spec h).2.terminal (by simpa using hterminal)] at hlive
  cases hlive

/-- The end of `shutdown`. -/
def TicketRegistry.clear (s : TicketRegistry) : TicketRegistry :=
  { s with entries := ∅, idempotency := ∅ }

namespace SidecarServer

variable {cfg : SidecarConfig} {ι : Type*} {s s' : SidecarServer} {f : ServerCall}
  {new : List ServerCall} {T : Bytes}

/-! ## Executions that are claimed -/

/-- The calls that an execution which is claimed will be ended by: those that have its result
stream, and those that are about to end it. -/
def ending (T : Bytes) : ServerCall → ℕ
  | .opening T' | .results T' | .entry T' _ (.terminate _) => if T' = T then 1 else 0
  | _ => 0

/-- Calls of an entry do not claim it. -/
def Unclaiming : ServerCall → Prop
  | .entry _ _ g => g ≠ .claim
  | _ => True

theorem unclaiming_map_entry {worker : Bool} {calls : List EntryCall} (h : .claim ∉ calls) :
    ∀ g ∈ calls.map (.entry T worker), Unclaiming g := by
  rw [List.forall_mem_map]
  rintro g hg rfl
  exact h hg

theorem unclaiming_of_effect (hf : Unclaiming f) (h : Effect cfg s f s' new) :
    ∀ g ∈ new, Unclaiming g := by
  have hdrop : ∀ T, ∀ g ∈ s.afterDrop T, Unclaiming g := fun T ↦ by
    rw [afterDrop]
    split_ifs
    · exact List.forall_mem_singleton.mpr trivial
    · exact List.forall_mem_nil _
  cases h with
  | aside | eachEnd => exact List.forall_mem_map.mpr fun _ _ ↦ trivial
  | @found g h => cases h <;> simp [resume, Unclaiming, EntryCall.cancel]
  | entry _ hexec => exact unclaiming_map_entry (ExecutionEntry.claimed_of_exec hf hexec).2
  | removed | exited | drop => exact hdrop _
  | ran hw hexec hpoint hfatal =>
    have hclaims := (ExecutionEntry.claimed_of_exec hf hexec).2
    refine List.forall_mem_append.mpr ⟨?_, unclaiming_map_entry hclaims⟩
    rcases hfatal with rfl | rfl
    · exact List.forall_mem_nil _
    · exact List.forall_mem_singleton.mpr trivial
  | each hexec =>
    have hclaims := (ExecutionEntry.claimed_of_exec (by simp) hexec).2
    exact List.forall_mem_append.mpr
      ⟨unclaiming_map_entry hclaims, List.forall_mem_singleton.mpr trivial⟩
  | retracted =>
    split_ifs <;> simp [Unclaiming, EntryCall.cancel, EntryCall.failGpuUnavailable]
  | _ => simp [Unclaiming, EntryCall.cancel]

/-- A section of an entry leaves it claimed or not, as it was. -/
theorem claimed_setEntry {T' : Bytes} {e : ExecutionEntry}
    (he : e.claimed = (s.entry T').claimed) :
    ((s.setEntry T' e).entry T).claimed = (s.entry T).claimed := by
  by_cases hT : T = T'
  · rw [hT, entry_setEntry_self, he]
  · rw [entry_setEntry_of_ne hT]

/-- The end of an execution ends it. -/
theorem terminal_setEntry {T' : Bytes} {e : ExecutionEntry} (he : e.terminal = true)
    (hlive : ((s.setEntry T' e).entry T).terminal = false) : T' ≠ T := by
  rintro rfl
  rw [entry_setEntry_self, he] at hlive
  cases hlive

/-- An execution that is claimed and not ended was claimed before, by somebody who is still there,
or is left to somebody. -/
theorem ending_of_effect (hsound : ∀ T, (s.entry T).toEntryControl.Sound) (hf : Unclaiming f)
    (h : Effect cfg s f s' new) (hclaimed : (s'.entry T).claimed = true)
    (hlive : (s'.entry T).terminal = false) :
    0 < (new.map (ending T)).sum ∨ (s.entry T).claimed = true ∧ ending T f = 0 := by
  have hsame : (s'.entry T).claimed = (s.entry T).claimed → ending T f = 0 →
      0 < (new.map (ending T)).sum ∨ (s.entry T).claimed = true ∧ ending T f = 0 :=
    fun hkept hnone ↦ .inr ⟨hkept ▸ hclaimed, hnone⟩
  have hhanded : ∀ T', (T' = T → 0 < (new.map (ending T)).sum) →
      ((s'.entry T).claimed = (s.entry T).claimed) → ending T f = (if T' = T then 1 else 0) →
      0 < (new.map (ending T)).sum ∨ (s.entry T).claimed = true ∧ ending T f = 0 := by
    intro T' hnew hkept hf
    by_cases hT : T' = T
    · exact .inl (hnew hT)
    · exact hsame hkept (hf.trans (if_neg hT))
  cases h with
  | sweep => exact hsame (by rw [entry_foldl_retain]) rfl
  | @claimed e =>
    by_cases hT : e.ticket = T
    · exact .inl (by simp [ending, hT])
    · refine hsame ?_ rfl
      rw [entry_setEntry_of_ne (Ne.symm hT)]
  | @entry T' worker g _ e _ _ hexec =>
    have hkept := claimed_setEntry (T := T) (ExecutionEntry.claimed_of_exec hf hexec).1
    cases g with
    | terminate cause =>
      have hT := terminal_setEntry (ExecutionEntry.terminal_of_terminate (hsound T') hexec) hlive
      exact hsame hkept (if_neg hT)
    | _ => exact hsame hkept rfl
  | @started T' =>
    refine hhanded T' (fun hT ↦ by simp [ending, hT]) ?_ rfl
    refine claimed_setEntry (T := T) ?_
    simp only [ExecutionEntry.setControl, EntryControl.start]
    split_ifs <;> rfl
  | @unstarted T' => exact hhanded T' (fun hT ↦ by simp [ending, hT]) rfl rfl
  | removed | unlisted => exact hsame (claimed_setEntry (T := T) rfl) rfl
  | ran hw hexec =>
    exact hsame (claimed_setEntry (T := T) (ExecutionEntry.claimed_of_exec hf hexec).1) rfl
  | exited => exact hsame (claimed_setEntry (T := T) rfl) rfl
  | joining hjoins hexec | joined hjoins hexec =>
    have hclaim : ∀ g : EntryCall, g.joins = true → g ≠ .claim := by
      rintro g hg rfl
      cases hg
    exact hsame (claimed_setEntry (T := T)
      (ExecutionEntry.claimed_of_exec (hclaim _ hjoins) hexec).1) rfl
  | @readOn T' => exact hhanded T' (fun hT ↦ by simp [ending, hT]) rfl rfl
  | @closed T' => exact hhanded T' (fun hT ↦ by simp [ending, hT, EntryCall.cancel]) rfl rfl
  | each hexec =>
    exact hsame (claimed_setEntry (T := T)
      (ExecutionEntry.claimed_of_exec (by simp) hexec).1) rfl
  | release => exact hsame (by rw [(registry_releaseLease s _).1]) rfl
  | _ => exact hsame rfl rfl

/-- A thread that enters a function claims nothing. -/
theorem claimed_of_call {t : ι} (hcall : (program cfg ι).call s t f = some s') :
    ((s'.entry T).claimed = (s.entry T).claimed) ∧ Unclaiming f := by
  cases f with
  | registry g =>
    obtain ⟨r, -, rfl⟩ := Option.map_eq_some_iff.mp hcall
    exact ⟨rfl, trivial⟩
  | entry T' worker g =>
    cases worker with
    | true =>
      obtain ⟨e, he, rfl⟩ := Option.map_eq_some_iff.mp hcall
      simp only [ExecutionEntry.call] at he
      split at he <;> cases he
      exact ⟨claimed_setEntry (T := T) rfl, by simp [Unclaiming]⟩
    | false => cases hcall
  | _ => cases hcall

/-- Whoever claims an execution, or has its result stream, sees to its end. -/
def Ending (s : SidecarServer) (m : Bytes → ℕ) : Prop :=
  ∀ T, (s.entry T).claimed = true → (s.entry T).terminal = false → 0 < m T

/-- **Claimed executions** are a ledger that rests on the invariants of the parts. -/
theorem ending_rests (cfg : SidecarConfig) (ι : Type*) :
    Program.Rests (program cfg ι) holding (fun s n ↦ Founded cfg s n ∧ Coherent s)
      (fun _ f s ↦ Informed cfg f s ∧ Refers f s) ending Ending fun _ f _ ↦ Unclaiming f where
  call {s t f s' n m} hF hs hcall := by
    refine ⟨fun T hclaimed hlive ↦ ?_, (claimed_of_call (T := []) hcall).2, fun _ _ _ ↦ id⟩
    rw [(claimed_of_call hcall).1] at hclaimed
    have hsteps := steps_of_call hF.1 hcall T
    have hbefore := EntryControl.Steps.live hsteps (hF.1.entries T).sound hlive
    exact Nat.add_pos_left (hs T hclaimed hbefore) _
  exec {s t f k s' new n m} hF hA hs hf hexec := by
    have hsound : ∀ T, (s.entry T).toEntryControl.Sound := fun T ↦ (hF.1.entries T).sound
    have heffect := effect_of_exec (fun b T heq ↦ hF.1.record heq) hexec
    refine ⟨fun T hclaimed hlive ↦ ?_, unclaiming_of_effect hf heffect, fun _ _ _ ↦ id⟩
    rcases ending_of_effect hsound hf heffect hclaimed hlive with hnew | ⟨hbefore, hnone⟩
    · exact Nat.add_pos_right _ hnew
    · have hopen := EntryControl.Steps.live (steps_of_exec hF.1 hA.1 hexec T) (hsound T) hlive
      have hpos : 0 < m T + ending T f := hs T hbefore hopen
      rw [hnone] at hpos
      exact Nat.add_pos_left hpos _
  ambient {s a s' n m} hF hs ha := by
    have hsteps := steps_of_ambient hF.1 ha
    simp only [program] at ha
    split_ifs at ha
    obtain ⟨i, -, rfl⟩ := Option.map_eq_some_iff.mp ha
    refine ⟨fun T hclaimed hlive ↦ hs T ?_ ?_, fun _ _ _ ↦ id⟩
    · have hkept : ((s.setEntry a.1 ((s.entry a.1).setInput a.2.1 i)).entry T).claimed
          = (s.entry T).claimed := claimed_setEntry rfl
      rwa [hkept] at hclaimed
    · exact EntryControl.Steps.live (hsteps T) (hF.1.entries T).sound hlive

variable [Fintype ι] [DecidableEq ι] {c : Threads SidecarServer ι ServerCall}
  {ms : List (Move ι ServerCall ServerAnswer (Bytes × Bytes × InputTraffic))}

/-- An execution that is claimed and not ended is with somebody who will end it. -/
theorem ending_of_claimed (hrun : (program cfg ι).machine.run (init cfg ι) ms = some c)
    (hclaimed : (c.shared.entry T).claimed = true) (hlive : (c.shared.entry T).terminal = false) :
    ∃ t, ∃ f ∈ c.calls t, 0 < ending T f := by
  have hinit : Ending (init cfg ι).shared fun T ↦ Program.weight (ending T) (init cfg ι) :=
    fun _ h ↦ absurd h Bool.false_ne_true
  obtain ⟨⟨-, hs⟩, -⟩ :=
    ((ledger cfg ι).extend (ending_rests cfg ι)).run ⟨⟨founded_init, hinit⟩, nofun⟩ hrun
  have hpos : 0 < Program.weight (ending T) c := hs T hclaimed hlive
  by_contra hno
  rw [Program.weight_eq_zero fun t f hf ↦ Nat.eq_zero_of_not_pos fun h ↦ hno ⟨t, f, hf, h⟩] at hpos
  exact Nat.lt_irrefl 0 hpos

/-! ## Executions that somebody attends to -/

/-- Somebody attends to an execution: its worker, who has its result stream, or a call of it. -/
def Attended (c : Threads SidecarServer ι ServerCall) (T : Bytes) : Prop :=
  (c.shared.entry T).worker.working = true ∨
    ∃ t, ∃ f ∈ c.calls t, 0 < client T f ∨ (toEntry T f).isSome

/-- An execution that has ended is removed, or somebody attends to it. -/
theorem attended_of_terminal (hrun : (program cfg ι).machine.run (init cfg ι) ms = some c)
    {e : PreparedEntry} (he : c.shared.registry.entries.lookup T = some e)
    (hterminal : (c.shared.entry T).terminal = true) : Attended c T := by
  by_contra hno
  obtain ⟨hidle, hnobody⟩ := not_or.mp hno
  have hnone : ∀ t, ∀ f ∈ c.calls t, toEntry T f = none := fun t f hf ↦ by
    by_contra hsome
    exact hnobody ⟨t, f, hf, .inr (Option.isSome_iff_ne_none.mpr hsome)⟩
  have hsettled : ¬(c.shared.entry T).Unsettled := fun h ↦ by
    obtain ⟨t, f, hf, hquiesces⟩ := quiescing_of_unsettled hrun h
    rw [hnone t f hf] at hquiesces
    cases hquiesces
  have hquiesced : (c.shared.entry T).quiesced = true :=
    ((run_invariant hrun).1.1.entries T).quiesced_of_terminal hterminal
      (Bool.eq_false_iff.mpr hidle) hsettled
  have hhandlers : (c.shared.entry T).activeHandlers = 0 := by
    rw [handlers_eq hrun]
    refine Program.weight_eq_zero fun t f hf ↦ ?_
    rw [Program.liftWeight, hnone t f hf]
    rfl
  have hquiet : (c.shared.entry T).isQuiet = true := by
    rw [ExecutionEntry.isQuiet, hquiesced, hhandlers]
    rfl
  have hunlisted := (notified_of_quiet hrun (fun t f hf ↦ ?_) hquiet).2
  · rw [he] at hunlisted
    cases hunlisted
  · rintro (hcall | hcall) <;> rw [hnone t f hf] at hcall <;> cases hcall

/-- **No execution is forgotten**: a registered one waits for its client, or somebody attends to
it. -/
theorem attended_of_registered (hrun : (program cfg ι).machine.run (init cfg ι) ms = some c)
    {e : PreparedEntry} (he : c.shared.registry.entries.lookup T = some e)
    (hwaits : (c.shared.entry T).replayable = false) : Attended c T := by
  by_cases hterminal : (c.shared.entry T).terminal = true
  · exact attended_of_terminal hrun he hterminal
  · rw [Bool.not_eq_true] at hterminal
    have hclaimed : (c.shared.entry T).claimed = true := by
      simpa [EntryControl.replayable, hterminal] using hwaits
    obtain ⟨t, f, hf, hends⟩ := ending_of_claimed hrun hclaimed hterminal
    refine .inr ⟨t, f, hf, ?_⟩
    cases f with
    | opening | results => exact .inl hends
    | entry T' worker g =>
      refine .inr ?_
      cases g with
      | terminate =>
        simp only [ending] at hends
        split_ifs at hends with hT
        · simp [toEntry, hT]
        · exact absurd hends (Nat.lt_irrefl 0)
      | _ => exact absurd hends (Nat.lt_irrefl 0)
    | _ => exact absurd hends (Nat.lt_irrefl 0)

/-! ## What is left at rest -/

omit [DecidableEq ι] in
/-- Without a reservation no record is being prepared. -/
theorem committed_of_unreserved (hF : Founded cfg c.shared fun o ↦ Program.weight (holding o) c)
    (hnone : c.shared.registry.reserved = 0) {key : Bytes} {r : IdempotencyRecord}
    (hr : c.shared.registry.idempotency.lookup key = some r) : r.preparing = false := by
  by_contra hpreparing
  rw [Bool.not_eq_false] at hpreparing
  have hreserves : Reserves c.shared.registry.idempotency.lookup ⟨key, r.serial, r.fingerprint⟩
      = true :=
    (Option.any_eq_true _ _).mpr ⟨r, hr, by simp [Reservation.holds, hpreparing]⟩
  have hheld : Program.weight (holding (some ⟨key, r.serial, r.fingerprint⟩)) c = 1 := by
    refine (hF.registry.recorded.owned ⟨key, r.serial, r.fingerprint⟩).trans ?_
    rw [hreserves]
    rfl
  -- but nobody holds any reservation
  have hunheld : Program.weight (holding none) c = 0 :=
    hF.registry.recorded.reserved.symm.trans hnone
  rw [Program.weight_eq_zero fun t f hf ↦ ?_] at hheld
  · cases hheld
  · have hzero := Program.weight_eq_zero_iff.mp hunheld t f hf
    cases f with
    | registry g =>
      change TicketRegistry.holding none g = 0 at hzero
      change TicketRegistry.holding (some _) g = 0
      cases hg : g.building? with
      | none => simp only [TicketRegistry.holding, hg]
      | some b => simp [TicketRegistry.holding, hg] at hzero
    | _ => rfl

/-- What is left when all calls have come to their end. -/
structure Rested (cfg : SidecarConfig) (s : SidecarServer) : Prop where
  reserved : s.registry.reserved = 0
  /-- Every record is that of a registered entry. -/
  recorded : ∀ key r, s.registry.idempotency.lookup key = some r → r.preparing = false ∧
    ∃ e, s.registry.entries.lookup r.ticket = some e ∧ e.key = key
  /-- Every registered entry waits for its client. -/
  waiting : ∀ T e, s.registry.entries.lookup T = some e → (s.entry T).replayable = true
  /-- The map has the only pointer to an entry. -/
  uses : ∀ T, s.uses T = (s.registry.entries.lookup T).isSome.toNat
  alive : ∀ T, s.Alive T ↔ (s.registry.entries.lookup T).isSome
  /-- All admitted bytes are those of registered entries. -/
  bytes : s.registry.admission.currentBytes.toNat =
    (s.alive.map fun e ↦ charge e.request (cfg.inputsCharged e.ticket)).sum
  /-- After a stop nothing is left. -/
  stopped : s.swept = true →
    s.alive = [] ∧ s.registry.admission.currentBytes = 0 ∧ s.registry.clear = s.registry

/-- A map without a key is empty. -/
theorem alist_eq_empty {α : Type*} [DecidableEq α] {β : α → Type*} {m : AList β}
    (h : ∀ a, m.lookup a = none) : m = ∅ := by
  refine AList.ext ?_
  cases hm : m.entries with
  | nil => rfl
  | cons x xs =>
    have hkey : x.1 ∈ m.keys := by
      rw [AList.keys, List.keys, hm]
      exact List.mem_cons_self
    have hmem : x.1 ∈ m := AList.mem_keys.mpr hkey
    rw [← AList.lookup_isSome, h] at hmem
    cases hmem

/-- `shutdown` clears nothing, once nobody attends to what is registered. -/
theorem clear_eq (hrun : (program cfg ι).machine.run (init cfg ι) ms = some c)
    (hswept : c.shared.swept = true) (hnone : c.shared.registry.reserved = 0)
    (hidle : ∀ T e, c.shared.registry.entries.lookup T = some e → ¬Attended c T) :
    c.shared.registry.clear = c.shared.registry := by
  obtain ⟨⟨hF, -⟩, -⟩ := run_invariant hrun
  have hentries : ∀ T, c.shared.registry.entries.lookup T = none := fun T ↦ by
    cases he : c.shared.registry.entries.lookup T with
    | none => rfl
    | some e =>
      have hterminal := (run_swept hrun).1.terminal hswept T e he
      exact absurd (attended_of_terminal hrun he hterminal) (hidle T e he)
  have hrecords : ∀ key, c.shared.registry.idempotency.lookup key = none := fun key ↦ by
    cases hr : c.shared.registry.idempotency.lookup key with
    | none => rfl
    | some r =>
      obtain ⟨e, he, -⟩ :=
        hF.registry.recorded.matched.entryOf hr (committed_of_unreserved hF hnone hr)
      rw [hentries] at he
      cases he
  rw [TicketRegistry.clear, ← alist_eq_empty hentries, ← alist_eq_empty hrecords]

/-- How executions are looked after. -/
structure Tended (cfg : SidecarConfig) (c : Threads SidecarServer ι ServerCall) : Prop where
  /-- A registered execution waits for its client, or somebody attends to it. -/
  attended : ∀ T e, c.shared.registry.entries.lookup T = some e →
    (c.shared.entry T).replayable = true ∨ Attended c T
  /-- `shutdown` has nothing to clear when the workers of all registered executions are joined and
  no handler is left. -/
  cleared : c.shared.swept = true → c.shared.registry.reserved = 0 →
    (∀ T e, c.shared.registry.entries.lookup T = some e → ¬Attended c T) →
      c.shared.registry.clear = c.shared.registry
  /-- At rest, when no worker is still to begin, there is only what clients may still ask for. -/
  rested : (∀ t, c.calls t = []) → (∀ e ∈ c.shared.alive, c.shared.created e.ticket = 0) →
    Rested cfg c.shared

/-- **No execution is forgotten, and nothing of an execution is left over.** However the calls of
the server interleave: a registered execution can be had again by an identical request, or its
worker, the owner of its result stream or a call of it attends to it. When all calls are over, there
are no reservation, no record without an entry, no pointer but the map's, and no byte but those of
the registered executions; and after a stop there is nothing, so that `shutdown` clears empty
maps. -/
theorem no_orphans (cfg : SidecarConfig)
    (ms : List (Move ι ServerCall ServerAnswer (Bytes × Bytes × InputTraffic)))
    (c : Threads SidecarServer ι ServerCall)
    (hrun : (program cfg ι).machine.run (init cfg ι) ms = some c) : Tended cfg c := by
  obtain ⟨⟨hF, -⟩, -⟩ := run_invariant hrun
  have hattended : ∀ T e, c.shared.registry.entries.lookup T = some e →
      (c.shared.entry T).replayable = true ∨ Attended c T := fun T e he ↦ by
    cases hwaits : (c.shared.entry T).replayable with
    | true => exact .inl rfl
    | false => exact .inr (attended_of_registered hrun he hwaits)
  refine ⟨hattended, clear_eq hrun, fun hover hbegun ↦ ?_⟩
  have hweight : ∀ w : ServerCall → ℕ, Program.weight w c = 0 := fun w ↦
    Program.weight_eq_zero fun t f hf ↦ by
      rw [hover] at hf
      cases hf
  have hcreated : ∀ T, c.shared.created T = 0 := fun T ↦ by
    by_contra hpos
    obtain ⟨e, he, rfl⟩ := List.mem_map.mp
      (alive_of_pointer (T := T) hrun (Nat.add_pos_right _ (Nat.pos_of_ne_zero hpos)))
    exact hpos (hbegun e he)
  obtain ⟨howned, -⟩ := run_owned hrun
  have hreserved : c.shared.registry.reserved = 0 :=
    hF.registry.recorded.reserved.trans (hweight _)
  have hidle : ∀ T, ¬Attended c T := by
    rintro T (hworking | ⟨t, f, hf, -⟩)
    · rw [WorkerThread.working_eq, Bool.or_eq_true] at hworking
      rcases hworking with hwaits | hruns
      · have hzero := hcreated T
        rw [created, hwaits] at hzero
        cases hzero
      · have hworker := howned.worker T
        rw [hweight, hruns] at hworker
        cases hworker
    · rw [hover] at hf
      cases hf
  have huses : ∀ T, c.shared.uses T = (c.shared.registry.entries.lookup T).isSome.toNat := by
    intro T
    rw [(howned.shared T).counted, hweight, hcreated, Nat.zero_add, Nat.add_zero, mapped]
  have halive : ∀ T, c.shared.Alive T ↔ (c.shared.registry.entries.lookup T).isSome := by
    intro T
    rw [(howned.shared T).alive_iff, hweight, huses]
    cases (c.shared.registry.entries.lookup T).isSome <;> simp
  have hbytes : c.shared.registry.admission.currentBytes.toNat =
      (c.shared.alive.map fun e ↦ charge e.request (cfg.inputsCharged e.ticket)).sum := by
    obtain ⟨haccounted, -⟩ := run_accounted hrun
    rw [haccounted.current, hweight, Nat.zero_add, entryBytes]
    refine congrArg List.sum (List.map_congr_left fun e he ↦ ?_)
    exact (charge_of_ok (haccounted.charged e he)).symm
  have hclear : c.shared.swept = true → c.shared.registry.clear = c.shared.registry :=
    fun hswept ↦ clear_eq hrun hswept hreserved fun T _ _ ↦ hidle T
  exact {
    reserved := hreserved
    recorded := fun key r hr ↦ by
      have hcommitted := committed_of_unreserved hF hreserved hr
      exact ⟨hcommitted, hF.registry.recorded.matched.entryOf hr hcommitted⟩
    waiting := fun T e he ↦ (hattended T e he).resolve_right (hidle T)
    uses := huses
    alive := halive
    bytes := hbytes
    stopped := fun hswept ↦ by
      have hnone : c.shared.alive = [] := by
        refine List.eq_nil_iff_forall_not_mem.mpr fun e he ↦ ?_
        have hlisted := (halive e.ticket).mp (List.mem_map_of_mem he)
        rw [← hclear hswept] at hlisted
        cases hlisted
      refine ⟨hnone, ?_, hclear hswept⟩
      rw [hnone] at hbytes
      exact UInt64.toNat_inj.mp hbytes }

/-- A ticket is prepared and delivered, and the server is stopped. -/
def stopAtRest : List (Move Bool ServerCall ServerAnswer (Bytes × Bytes × InputTraffic)) :=
  deliverOnce ++ .call true (.registry .stopAdmissionAndCancel) ::
    .exec true { order := [[7]] } :: List.replicate 10 (.exec true {})

theorem no_orphans_stopAtRest :
    ∃ c, (program oneExecution Bool).machine.run (init oneExecution Bool) stopAtRest = some c ∧
      c.shared.registry.delivered.map (·.ticket) = [[7]] ∧ c.shared.swept = true ∧
        Rested oneExecution c.shared := by
  have hend : ((program oneExecution Bool).machine.run (init oneExecution Bool) stopAtRest).map
      (fun c ↦ (c.shared.registry.delivered.map (·.ticket), c.shared.swept,
        decide (∀ t, c.calls t = []),
        decide (∀ e ∈ c.shared.alive, c.shared.created e.ticket = 0)))
      = some ([[7]], true, true, true) := by
    decide +kernel
  obtain ⟨c, hrun, hc⟩ := Option.map_eq_some_iff.mp hend
  simp only [Prod.mk.injEq, decide_eq_true_eq] at hc
  obtain ⟨hdelivered, hswept, hover, hbegun⟩ := hc
  refine ⟨c, hrun, hdelivered, hswept, ?_⟩
  exact (no_orphans oneExecution stopAtRest c hrun).rested hover hbegun

end SidecarServer

end MoSidecar
