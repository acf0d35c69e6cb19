import MoSidecar.Execution.Endings
import MoSidecar.Execution.ResultStream
import MoSidecar.Machine.Waiting
import MoSidecar.Server.Invariant

/-!
# What clients get from the server

An execution alone hands its result to whoever calls `read_next`, and ends its inputs whatever else
happens. Within the server there are more threads and more ways to an entry — retries of the same
command, tickets presented twice, sweeps over all entries, destructors — and the two hold all the
same, for every ticket at once: a result goes to one client, exactly once and in order, and the
inputs of an execution that has ended are ended too.
-/

namespace MoSidecar

namespace EntryControl

/-- An execution is not claimed less often than it was. -/
theorem Step.claims_le {cfg : ExecutionConfig} {c c' : EntryControl} (h : Step cfg c c') :
    c.claims ≤ c'.claims := by
  cases h with
  | claim =>
    rw [EntryControl.claim]
    split_ifs
    · exact Nat.le_refl _
    · exact Nat.le_succ _
  | start =>
    rw [EntryControl.start]
    split_ifs <;> exact Nat.le_refl _
  | readSlot expired =>
    rw [EntryControl.readSlot]
    split
    · exact Nat.le_refl _
    · split_ifs <;> exact Nat.le_refl _
  | terminate cause =>
    rw [EntryControl.terminate]
    split_ifs <;> exact Nat.le_refl _
  | run hw hrun =>
    cases section_of_runStep hrun with
    | finished =>
      rw [EntryControl.finish]
      split_ifs <;> exact Nat.le_refl _
    | _ => exact Nat.le_refl _
  | _ => exact Nat.le_refl _

theorem Steps.claims_le {cfg : ExecutionConfig} {c c' : EntryControl} (h : Steps cfg c c') :
    c.claims ≤ c'.claims := by
  induction h with
  | refl => exact Nat.le_refl _
  | tail _ hstep ih => exact Nat.le_trans ih hstep.claims_le

end EntryControl

namespace SidecarServer

variable {cfg : SidecarConfig} {ι : Type*} {s s' : SidecarServer} {f : ServerCall}
  {new : List ServerCall} {T : Bytes}

/-! ## One client -/

/-- The calls that have, or are about to have, the result stream of a ticket. -/
def client (T : Bytes) : ServerCall → ℕ
  | .opening T' | .results T' => if T' = T then 1 else 0
  | _ => 0

theorem sum_client_map {α : Type*} {g : α → ServerCall} (hg : ∀ a, client T (g a) = 0)
    (l : List α) : ((l.map g).map (client T)).sum = 0 := by
  rw [List.map_map]
  refine List.sum_eq_zero fun n hn ↦ ?_
  obtain ⟨a, -, rfl⟩ := List.mem_map.mp hn
  exact hg a

theorem sum_client_afterDrop (s : SidecarServer) (T' : Bytes) :
    ((s.afterDrop T').map (client T)).sum = 0 := by
  rw [afterDrop]
  split_ifs <;> rfl

theorem sum_client_resume (h : RegistryCall) : ((resume h).map (client T)).sum = 0 := by
  cases h <;> rfl

/-- A section leaves more clients only where a ticket is claimed. -/
theorem client_of_effect (h : Effect cfg s f s' new)
    (hclaims : (s.entry T).claims ≤ (s'.entry T).claims) :
    (s.entry T).claims + (new.map (client T)).sum ≤ (s'.entry T).claims + client T f := by
  have hsum : (new.map (client T)).sum ≤ client T f →
      (s.entry T).claims + (new.map (client T)).sum ≤ (s'.entry T).claims + client T f :=
    fun hle ↦ Nat.add_le_add hclaims hle
  have hzero : (new.map (client T)).sum = 0 →
      (s.entry T).claims + (new.map (client T)).sum ≤ (s'.entry T).claims + client T f :=
    fun hsum0 ↦ hsum (hsum0 ▸ Nat.zero_le _)
  cases h with
  | aside => exact hzero (sum_client_map (fun _ ↦ rfl) _)
  | found => exact hzero (sum_client_resume _)
  | @claimed e hreplayable =>
    -- the claim that lets one more client in is counted
    by_cases hT : e.ticket = T
    · subst hT
      have hopen : ((s.entry e.ticket).claimed || (s.entry e.ticket).terminal) = false := by
        simpa [EntryControl.replayable] using hreplayable
      simp [client, ExecutionEntry.setControl, EntryControl.claim, hopen]
    · exact hzero (by simp [client, hT])
  | entry => exact hzero (sum_client_map (fun _ ↦ rfl) _)
  | started | unstarted => exact hsum (Nat.le_of_eq (Nat.add_zero _))
  | removed | exited | drop => exact hzero (sum_client_afterDrop _ _)
  | ran hw hexec hpoint hfatal =>
    refine hzero ?_
    rw [List.map_append, List.sum_append, sum_client_map fun _ ↦ rfl]
    rcases hfatal with rfl | rfl <;> rfl
  | readOn => exact hsum (Nat.le_of_eq (by simp [client]))
  | each =>
    refine hzero ?_
    rw [List.map_append, List.sum_append, sum_client_map fun _ ↦ rfl]
    rfl
  | eachEnd => exact hzero (sum_client_map (fun _ ↦ rfl) _)
  | _ => exact hzero rfl

/-- What clients have of the executions. -/
structure Served (cfg : SidecarConfig) (s : SidecarServer) (m : Bytes → ℕ) : Prop where
  clients : ∀ T, m T ≤ (s.entry T).claims
  delivered : ∀ T, (s.entry T).toEntryControl.Delivered (cfg.executions T)

theorem Served.steps {m : Bytes → ℕ} {n : Option Reservation → ℕ} (h : Served cfg s m)
    (hF : Founded cfg s n) (hsteps : ∀ T, EntryControl.Steps (cfg.executions T)
      (s.entry T).toEntryControl (s'.entry T).toEntryControl) : Served cfg s' m where
  clients T := Nat.le_trans (h.clients T) (hsteps T).claims_le
  delivered T := EntryControl.Steps.delivered (hF.entries T).sound (h.delivered T) (hsteps T)

/-- **Clients** are a ledger that rests on the invariants of the parts. -/
theorem served_rests (cfg : SidecarConfig) (ι : Type*) :
    Program.Rests (program cfg ι) holding (fun s n ↦ Founded cfg s n ∧ Coherent s)
      (fun _ f s ↦ Informed cfg f s ∧ Refers f s) client (Served cfg) fun _ _ _ ↦ True where
  call {s t f s' n m} hF hs hcall := by
    have hf : ∀ T, client T f = 0 := by
      intro T
      cases f with
      | opening | results => cases hcall
      | _ => rfl
    refine ⟨?_, trivial, fun _ _ _ ↦ id⟩
    simp only [hf]
    exact hs.steps hF.1 fun T ↦ steps_of_call hF.1 hcall T
  exec {s t f k s' new n m} hF hA hs _ hexec := by
    have hsteps := fun T ↦ steps_of_exec hF.1 hA.1 hexec T
    have heffect := effect_of_exec (fun b T heq ↦ hF.1.record heq) hexec
    refine ⟨⟨fun T ↦ ?_, (hs.steps hF.1 hsteps).delivered⟩, fun _ _ ↦ trivial, fun _ _ _ ↦ id⟩
    have hcount := client_of_effect (T := T) heffect (hsteps T).claims_le
    have hbefore := hs.clients T
    omega
  ambient {s a s' n m} hF hs ha :=
    ⟨hs.steps hF.1 fun T ↦ steps_of_ambient hF.1 ha T, fun _ _ _ ↦ id⟩

variable [Fintype ι] [DecidableEq ι] {c : Threads SidecarServer ι ServerCall}
  {ms : List (Move ι ServerCall ServerAnswer (Bytes × Bytes × InputTraffic))}

omit [DecidableEq ι] in
theorem served_init : Served cfg (init cfg ι).shared fun T ↦ Program.weight (client T) (init cfg ι)
    where
  clients T := by
    rw [weight_init]
    exact Nat.zero_le _
  delivered T := ExecutionEntry.delivered_init (cfg.executions T)

theorem run_served (hrun : (program cfg ι).machine.run (init cfg ι) ms = some c) :
    (∀ T, (c.shared.entry T).toEntryControl.Sound) ∧
      Served cfg c.shared fun T ↦ Program.weight (client T) c := by
  obtain ⟨⟨⟨hF, -⟩, hs⟩, -⟩ :=
    ((ledger cfg ι).extend (served_rests cfg ι)).run ⟨⟨founded_init, served_init⟩, nofun⟩ hrun
  exact ⟨fun T ↦ (hF.entries T).sound, hs⟩

/-- What the clients of a server get. -/
structure Serves (cfg : SidecarConfig) (c : Threads SidecarServer ι ServerCall) (T : Bytes) :
    Prop where
  /-- One call at most has the result stream, or is about to open it. -/
  one : Program.weight (client T) c ≤ 1
  /-- Without a claim there is none. -/
  claimed : (c.shared.entry T).claimed = false → ∀ t, ∀ f ∈ c.calls t, client T f = 0
  result : EntryControl.ResultOnce (cfg.executions T) (c.shared.entry T).toEntryControl

/-- A query with an input and a result of two rows. -/
def oneStream : SidecarConfig :=
  { TicketRegistry.oneTicket with
    executions := fun _ ↦ { ExecutionEntry.twoRows with inputRefs := [[1]] } }

/-- A ticket is prepared and delivered. -/
def deliverOneStream :
    List (Move (Option Bool) ServerCall ServerAnswer (Bytes × Bytes × InputTraffic)) :=
  [.call (some false) (.registry (.getFlightInfo (some TicketRegistry.oneCommand))),
    .exec (some false) {}, .exec (some false) {},
    .exec (some false) { registry := { ticket := some [7] } },
    .exec (some false) { registry := { built := .ok 1 } }, .exec (some false) {},
    .exec (some false) {}, .exec (some false) {}]

/-- Two clients present it, and one of them reads a frame. -/
def presentTwice :
    List (Move (Option Bool) ServerCall ServerAnswer (Bytes × Bytes × InputTraffic)) :=
  List.append deliverOneStream [.call (some true) (.registry (.doGet [7])), .exec (some true) {},
    .exec (some true) {}, .exec (some true) {}, .exec (some true) {},
    .call (some false) (.registry (.doGet [7])), .exec (some false) {}, .exec (some false) {},
    .exec (some false) {}, .call none (.entry [7] true .run), .exec none {}, .exec none {},
    .exec none {}, .exec none {}, .exec (some true) { more := true }, .exec (some true) {}]

variable {ref : Bytes}

/-- A loop over the inputs of an entry that will come to this one. -/
def Ender (T ref : Bytes) : ServerCall → Prop
  | .entry T' _ g => T' = T ∧ ExecutionEntry.Ends ref g
  | _ => False

/-- The calls that a cancellation makes of its entry while it waits. -/
def Lingers : ServerCall → Prop
  | .joining _ _ g => g.joins = true
  | _ => True

/-- The calls that a section leaves. -/
structure Orderly (T ref : Bytes) (new : List ServerCall) : Prop where
  first : new.Pairwise fun _ g ↦ ¬Ender T ref g
  lingers : ∀ g ∈ new, Lingers g

theorem Orderly.of_none {T ref : Bytes} {new : List ServerCall}
    (h : ∀ g ∈ new, ¬Ender T ref g ∧ Lingers g) : Orderly T ref new :=
  ⟨List.Pairwise.imp_of_mem (fun _ hg _ ↦ (h _ hg).1) (List.pairwise_of_forall fun _ _ ↦ trivial),
    fun g hg ↦ (h g hg).2⟩

theorem orderly_map {α : Type*} {g : α → ServerCall} (hg : ∀ a, ¬Ender T ref (g a) ∧ Lingers (g a))
    (l : List α) : Orderly T ref (l.map g) :=
  .of_none (List.forall_mem_map.mpr fun a _ ↦ hg a)

theorem orderly_afterDrop (s : SidecarServer) (T' : Bytes) : Orderly T ref (s.afterDrop T') := by
  rw [afterDrop]
  split_ifs
  · exact .of_none (List.forall_mem_singleton.mpr ⟨id, trivial⟩)
  · exact .of_none (List.forall_mem_nil _)

/-- The sections of an entry, as sections of the server. -/
theorem orderly_map_entry {cfg : ExecutionConfig} {e e' : ExecutionEntry} {t : Option Unit}
    {g : EntryCall} {a : EntryAnswer} {calls : List EntryCall} (T' : Bytes) (worker : Bool)
    (hexec : e.exec cfg t g a = some (e', calls)) :
    Orderly T ref (calls.map (.entry T' worker)) := by
  have hends : calls.Pairwise fun _ g ↦ ¬ExecutionEntry.Ends ref g :=
    ExecutionEntry.ends_first hexec
  refine ⟨List.pairwise_map.mpr (hends.imp ?_), List.forall_mem_map.mpr fun _ _ ↦ trivial⟩
  exact fun hno h ↦ hno h.2

theorem orderly_of_run {T' : Bytes} {worker : Bool} {a : EntryAnswer}
    (h : s.execEntry cfg T' worker .run a = some (s', new)) : Orderly T ref new := by
  rw [execEntry, if_neg (by decide)] at h
  obtain ⟨⟨e, calls⟩, hexec, heq⟩ := Option.map_eq_some_iff.mp h
  have hcalls : Orderly T ref (calls.map (.entry T' worker)) := orderly_map_entry T' worker hexec
  simp only at heq
  split_ifs at heq with hempty hfatal <;> obtain ⟨rfl, rfl⟩ := Prod.mk.inj heq
  · exact orderly_afterDrop s T'
  · -- what `run` does with its inputs does not depend on the fatal callback
    refine .of_none (List.forall_mem_cons.mpr ⟨⟨id, trivial⟩, List.forall_mem_map.mpr ?_⟩)
    intro g hg
    refine ⟨fun hends ↦ ?_, trivial⟩
    obtain ⟨status, outcome, hw⟩ := ExecutionEntry.finishing_of_ends hexec hg hends.2
    simp [ExecutionEntry.callsFatal, ExecutionEntry.exec, hw, EntryControl.runStep] at hfatal
  · exact hcalls

/-- A cancellation that waits goes on waiting. -/
theorem joins_of_joins {cfg : ExecutionConfig} {e e' : ExecutionEntry} {t : Option Unit}
    {g g' : EntryCall} {a : EntryAnswer} (hg : g.joins = true)
    (hexec : e.exec cfg t g a = some (e', [g'])) : g'.joins = true := by
  generalize hcalls : [g'] = calls at hexec
  cases ExecutionEntry.section_of_exec hexec with
  | awaited | unquiet | pollWaiting =>
    obtain rfl := List.singleton_inj.mp hcalls
    rfl
  | gaveUp | joinNobody | join => cases hcalls
  | _ => cases hg

theorem orderly_of_effect (h : Effect cfg s f s' new)
    (hrun : ∀ T' worker, f ≠ .entry T' worker .run) : Orderly T ref new := by
  cases h with
  | aside hg hexec hr hcalls =>
    exact orderly_map (g := .registry) (fun _ ↦ ⟨id, trivial⟩) _
  | @found _ called _ _ _ _ hg hexec hr hh =>
    cases called with
    | replay | claimEntry => exact .of_none (List.forall_mem_singleton.mpr ⟨id, trivial⟩)
    | joinEntry =>
      exact .of_none (List.forall_mem_cons.mpr
        ⟨⟨And.right, trivial⟩, List.forall_mem_singleton.mpr ⟨id, rfl⟩⟩)
    | _ => cases hh
  | entry hf hexec => exact orderly_map_entry _ _ hexec
  | removed | drop => exact orderly_afterDrop s _
  | ran => exact absurd rfl (hrun _ _)
  | exited => exact absurd rfl (hrun _ _)
  | joining hf hexec =>
    refine .of_none (List.forall_mem_singleton.mpr ⟨id, ?_⟩)
    exact joins_of_joins hf hexec
  | @each _ T' _ _ _ _ hexec =>
    have hcalls : Orderly T ref _ := orderly_map_entry T' false hexec
    refine ⟨List.pairwise_append.mpr ⟨hcalls.first, List.pairwise_singleton _ _, ?_⟩, ?_⟩
    · rintro a - b hb
      obtain rfl := List.mem_singleton.mp hb
      exact id
    · exact List.forall_mem_append.mpr ⟨hcalls.lingers, List.forall_mem_singleton.mpr trivial⟩
  | eachEnd => exact orderly_map (g := .drop) (fun _ ↦ ⟨id, trivial⟩) _
  | retracted =>
    refine .of_none (List.forall_mem_cons.mpr ⟨⟨?_, trivial⟩, by simp [Ender, Lingers]⟩)
    split_ifs <;> exact And.right
  | _ => exact .of_none (by simp [Ender, ExecutionEntry.Ends, EntryCall.cancel, Lingers])

/-- **Nothing stands in the way** of a loop over the inputs. -/
theorem orderly_of_exec (h : s.exec cfg f k = some (s', new)) : Orderly T ref new := by
  by_cases hcommit : ∃ b T', f = .registry (.commit b T')
  · obtain ⟨b, T', rfl⟩ := hcommit
    simp only [exec, execRegistry] at h
    obtain ⟨⟨r, calls⟩, -, heq⟩ := Option.map_eq_some_iff.mp h
    obtain ⟨-, rfl⟩ := Prod.mk.inj heq
    refine .of_none fun g hg ↦ ?_
    split_ifs at hg
    · obtain rfl := List.mem_singleton.mp hg
      exact ⟨id, trivial⟩
    · obtain ⟨h, -, hg⟩ := List.mem_flatMap.mp hg
      cases h with
      | abandon command status =>
        simp only [afterCommit] at hg
        rcases List.mem_cons.mp hg with rfl | hg
        · refine ⟨?_, trivial⟩
          split_ifs <;> exact And.right
        · rcases List.mem_cons.mp hg with rfl | hg
          · exact ⟨id, trivial⟩
          · obtain rfl := List.mem_singleton.mp hg
            exact ⟨id, trivial⟩
      | _ =>
        obtain rfl := List.mem_singleton.mp hg
        exact ⟨id, trivial⟩
  · by_cases hrun : ∃ T' worker, f = .entry T' worker .run
    · obtain ⟨T', worker, rfl⟩ := hrun
      exact orderly_of_run h
    · refine orderly_of_effect (effect_of_exec (fun b T' heq ↦ ?_) h) fun T' worker heq ↦ ?_
      · exact absurd ⟨b, T', heq⟩ hcommit
      · exact hrun ⟨T', worker, heq⟩

theorem stacked (cfg : SidecarConfig) (ι : Type*) (T ref : Bytes) :
    Program.Stacked (program cfg ι) fun _ g ↦ ¬Ender T ref g where
  among hexec := (orderly_of_exec hexec).first
  above _ _ := id

theorem lingering (cfg : SidecarConfig) (ι : Type*) :
    Program.Assertional (program cfg ι) (fun _ ↦ True) fun _ f _ ↦ Lingers f where
  call {s t f s'} _ hcall := by
    refine ⟨trivial, ?_, fun _ _ ↦ id⟩
    cases f with
    | joining => cases hcall
    | _ => trivial
  exec _ _ hexec := ⟨trivial, (orderly_of_exec hexec : Orderly [] [] _).lingers, fun _ _ ↦ id⟩
  ambient _ _ := ⟨trivial, fun _ _ ↦ id⟩

/-- A loop over the inputs of an entry is free to go on. -/
theorem exec_of_ender (hf : Ender T ref f) : (s.exec cfg f {}).isSome := by
  cases f with
  | entry T' worker g =>
    obtain ⟨rfl, hends⟩ := hf
    have hexec : ∀ t : Option Unit,
        ((s.entry T').exec (cfg.executions T') t g {}).isSome :=
      fun _ ↦ ExecutionEntry.exec_of_ends hends
    have hstart : g ≠ .start := fun h ↦ by
      rw [h] at hends
      exact hends
    rw [exec, execEntry, if_neg hstart, Option.isSome_map]
    exact hexec _
  | _ => exact hf.elim

omit [Fintype ι] in
/-- **Inputs are not forgotten.** Whenever an execution is terminal, whatever made it so and however
the sections of all threads interleave: each of its inputs has come to an end, and lets its handler
and its scan go, or a call that will end it is the innermost one of some thread and may go on. -/
theorem inputs_ended (cfg : SidecarConfig)
    (ms : List (Move ι ServerCall ServerAnswer (Bytes × Bytes × InputTraffic)))
    (c : Threads SidecarServer ι ServerCall)
    (hrun : (program cfg ι).machine.run (init cfg ι) ms = some c) (T ref : Bytes)
    (href : ref ∈ (cfg.executions T).inputRefs) (hterminal : (c.shared.entry T).terminal = true) :
    (((c.shared.entry T).input ref).Over ∧ ((c.shared.entry T).input ref).finishWait.isSome ∧
        ((c.shared.entry T).input ref).nextBatch.isSome) ∨
      ∃ t f rest, c.calls t = f :: rest ∧ Ender T ref f ∧
        ((program cfg ι).machine.step c (.exec t {})).isSome := by
  have hwritten := ExecutionEntry.assertional_written (cfg.executions T) Unit
  have hlift := hwritten.lift (entry_part cfg ι T)
  have hinit : Program.Holds (fun s : SidecarServer ↦ ExecutionEntry.Written (s.entry T))
      (fun _ ↦ Program.liftClaim (·.entry T) (toEntry T) fun _ _ ↦ True) (init cfg ι) :=
    ⟨fun _ h ↦ absurd h Bool.false_ne_true, fun _ _ hf ↦ absurd hf List.not_mem_nil⟩
  obtain ⟨hread, -⟩ := hlift.run hinit hrun
  by_cases hover : ((c.shared.entry T).input ref).Over
  · exact .inl ⟨hover, hover.finishWait, hover.nextBatch (hread ref)⟩
  · obtain ⟨t, f, hf, g, hg, hends⟩ :=
      ((ExecutionEntry.debt_open Unit href).lift (entry_part cfg ι T) hwritten).run hlift hinit
        (fun h ↦ absurd h.1 Bool.false_ne_true) hrun ⟨hterminal, hover⟩
    have hender : Ender T ref f := by
      have hlingers := ((lingering cfg ι).run
        ⟨trivial, fun _ _ hf ↦ absurd hf List.not_mem_nil⟩ hrun).2 t f hf
      cases f with
      | entry T' worker g' =>
        simp only [toEntry] at hg
        split_ifs at hg with hT
        · obtain rfl := Option.some.inj hg
          exact ⟨hT, hends⟩
        · cases hg
      | joining identity e g' =>
        simp only [toEntry] at hg
        split_ifs at hg with hT
        · obtain rfl := Option.some.inj hg
          cases g' with
          | cancelAll | markAllNotNeeded => cases hlingers
          | _ => exact hends.elim
        · cases hg
      | _ => cases hg
    have horder := (stacked cfg ι T ref).run (c := init cfg ι) (fun _ ↦ rfl) hrun t
    cases hstack : c.calls t with
    | nil =>
      rw [hstack] at hf
      cases hf
    | cons top rest =>
      rw [hstack] at hf horder
      rcases List.mem_cons.mp hf with rfl | hrest
      · refine .inr ⟨t, f, rest, hstack, hender, ?_⟩
        simp only [Program.machine, hstack, Option.isSome_map]
        exact exec_of_ender hender
      · exact absurd hender (List.rel_of_pairwise_cons horder hrest)

/-- The client closes its result stream, with the input still open. -/
def closeEarly : List (Move (Option Bool) ServerCall ServerAnswer (Bytes × Bytes × InputTraffic)) :=
  List.append presentTwice [.exec (some true) {}, .exec (some true) {}]

theorem inputs_ended_closeEarly :
    ∃ c, (program oneStream (Option Bool)).machine.run (init oneStream (Option Bool)) closeEarly
        = some c ∧ ((c.shared.entry [7]).input [1]).finishWait = none ∧
      ∃ t f rest, c.calls t = f :: rest ∧ Ender [7] [1] f ∧
        ((program oneStream (Option Bool)).machine.step c (.exec t {})).isSome := by
  have hend : ((program oneStream (Option Bool)).machine.run (init oneStream (Option Bool))
      closeEarly).map (fun c ↦ ((c.shared.entry [7]).terminal,
        ((c.shared.entry [7]).input [1]).finishWait.isSome)) = some (true, false) := by
    decide +kernel
  obtain ⟨c, hrun, hc⟩ := Option.map_eq_some_iff.mp hend
  obtain ⟨hterminal, hwaits⟩ := Prod.mk.inj hc
  refine ⟨c, hrun, by simpa using hwaits, ?_⟩
  rcases inputs_ended oneStream closeEarly c hrun [7] [1] List.mem_cons_self hterminal with
    ⟨-, hends, -⟩ | hender
  · rw [hends] at hwaits
    cases hwaits
  · exact hender

end SidecarServer

end MoSidecar
