import MoSidecar.Server.Ownership

/-!
# Sealing and stopping

`seal_gpu_unavailable` and `stop_admission_and_cancel` set a flag and take a snapshot of the entries
in one section, and end the entries of the snapshot one after the other. What they miss is caught
elsewhere: an entry that is committed after the flag was set is ended by its own preparation, and
one that was found or claimed before is in the snapshot, or was removed and had ended before.
-/

open Function (update)

namespace MoSidecar

namespace SidecarServer

variable {cfg : SidecarConfig} {ι : Type*} {s s' : SidecarServer} {k : ServerAnswer}
  {f : ServerCall} {new : List ServerCall} {T : Bytes} {e : PreparedEntry}
  {n : Option Reservation → ℕ}

/-! ## What a section makes of the registered entries -/

/-- In a registry that is stopped entries are not registered any more. -/
structure Closes (s s' : SidecarServer) : Prop where
  stopped : s.registry.stopped = true → s'.registry.stopped = true
  entries : s.registry.stopped = true →
    ∀ T e, s'.registry.entries.lookup T = some e → s.registry.entries.lookup T = some e

theorem Closes.of_eq (hentries : s'.registry.entries = s.registry.entries)
    (hstopped : s'.registry.stopped = s.registry.stopped) : Closes s s' where
  stopped h := hstopped.trans h
  entries _ T e he := by rwa [← hentries]

/-- A call whose section ends a loop over entries that is not the reaper's. -/
def endsSweep : ServerCall → Bool
  | .each cause [] _ => cause != .timedOut
  | _ => false

theorem swept_foldl_retain (order : List Bytes) : (order.foldl retain s).swept = s.swept := by
  induction order generalizing s with
  | nil => rfl
  | cons T order ih =>
    rw [List.foldl_cons, ih]
    rfl

theorem swept_releaseLease (s : SidecarServer) (T : Bytes) :
    (s.releaseLease T).swept = s.swept := by
  rw [releaseLease]
  split <;> rfl

theorem closes_of_effect (h : Effect cfg s f s' new) :
    Closes s s' ∧ (s'.swept = true → s.swept = true ∨ endsSweep f = true) := by
  cases h with
  | aside hg hexec hapart => exact ⟨.of_eq hapart.entries hapart.stopped, .inl⟩
  | found hg hexec hapart => exact ⟨.of_eq hapart.entries hapart.stopped, .inl⟩
  | @sweep g cause r order hg hnodup horder hall hr hstopped =>
    rw [swept_foldl_retain]
    refine ⟨⟨?_, fun _ T e he ↦ ?_⟩, .inl⟩
    · rw [registry_foldl_retain]
      exact hstopped
    · rw [registry_foldl_retain, hr] at he
      exact he
  | withdrawn hrunning | committed hrunning =>
    refine ⟨⟨fun hstopped ↦ ?_, fun hstopped ↦ ?_⟩, .inl⟩
    all_goals
      rw [hrunning] at hstopped
      cases hstopped
  | @removed T worker e he =>
    obtain ⟨-, -, -, -, -, hstopped, -⟩ := s.registry.remove_frame T
    refine ⟨⟨hstopped.trans, fun _ T' e' he' ↦ ?_⟩, .inl⟩
    rcases eq_some_of_eq_update (s.registry.lookup_remove T) he' with ⟨-, hnone⟩ | ⟨-, hold⟩
    · cases hnone
    · exact hold
  | eachEnd => exact ⟨.of_eq rfl rfl, (Bool.or_eq_true_iff.mp ·)⟩
  | @release T =>
    obtain ⟨-, -, admission, hr⟩ := registry_releaseLease s T
    rw [swept_releaseLease]
    exact ⟨.of_eq (by rw [hr]) (by rw [hr]), .inl⟩
  | _ => exact ⟨.of_eq rfl rfl, .inl⟩

/-! ## Loops over entries -/

/-- After a loop over entries that is not the reaper's, the registry is stopped and what is
registered is terminal. -/
structure Swept (s : SidecarServer) : Prop where
  stopped : s.swept = true → s.registry.stopped = true
  terminal : s.swept = true →
    ∀ T e, s.registry.entries.lookup T = some e → (s.entry T).terminal = true

/-- What a loop over entries has not ended yet is still to come, and who opens a result stream has
claimed an entry that was handed out. -/
def Covers (f : ServerCall) (s : SidecarServer) : Prop :=
  match f with
  | .each cause todo _ => cause ≠ .timedOut → s.registry.stopped = true ∧
      ∀ T e, s.registry.entries.lookup T = some e → T ∈ todo ∨ (s.entry T).terminal = true
  | .opening T => ∃ e, e.ticket = T ∧ s.Known e
  | _ => True

theorem Covers.later (h : Covers f s) (hcloses : Closes s s') (honward : Onward s s')
    (hterminal : ∀ T, (s.entry T).terminal = true → (s'.entry T).terminal = true) :
    Covers f s' := by
  cases f with
  | each cause todo held =>
    intro hcause
    obtain ⟨hstopped, hcovers⟩ := h hcause
    refine ⟨hcloses.stopped hstopped, fun T e he ↦ ?_⟩
    exact (hcovers T e (hcloses.entries hstopped T e he)).imp_right (hterminal T)
  | opening T =>
    obtain ⟨e, heT, he⟩ := h
    exact ⟨e, heT, honward.known e he⟩
  | _ => trivial

theorem Idle.closes (h : Idle s s') : Closes s s' :=
  .of_eq h.registry.entries h.registry.stopped

theorem Swept.of_closes
    (h : s'.swept = true → s.registry.stopped = true ∧
      ∀ T e, s.registry.entries.lookup T = some e → (s.entry T).terminal = true)
    (hcloses : Closes s s')
    (hterminal : ∀ T, (s.entry T).terminal = true → (s'.entry T).terminal = true) : Swept s' where
  stopped hswept := hcloses.stopped (h hswept).1
  terminal hswept T e he :=
    hterminal T ((h hswept).2 T e (hcloses.entries (h hswept).1 T e he))

theorem Swept.of_idle (h : Swept s) (hidle : Idle s s')
    (hterminal : ∀ T, (s.entry T).terminal = true → (s'.entry T).terminal = true) : Swept s' := by
  refine .of_closes (fun hswept ↦ ?_) hidle.closes hterminal
  rw [hidle.swept] at hswept
  exact ⟨h.stopped hswept, h.terminal hswept⟩

/-- At the end of a loop nothing is still to come. -/
theorem Covers.swept (h : Covers f s) (hf : endsSweep f = true) : s.registry.stopped = true ∧
    ∀ T e, s.registry.entries.lookup T = some e → (s.entry T).terminal = true := by
  cases f with
  | each cause todo held =>
    cases todo with
    | nil =>
      obtain ⟨hstopped, hcovers⟩ := h (bne_iff_ne.mp hf)
      exact ⟨hstopped, fun T e he ↦ (hcovers T e he).resolve_left List.not_mem_nil⟩
    | cons T todo => cases hf
  | _ => cases hf

theorem covers_map_entry {worker : Bool} (calls : List EntryCall) :
    ∀ g ∈ calls.map (ServerCall.entry T worker), Covers g s := by
  intro g hg
  obtain ⟨h, -, rfl⟩ := List.mem_map.mp hg
  trivial

/-- A loop begins with what is registered, and leaves each entry terminal that it has gone past. -/
theorem covers_of_effect (hF : Founded cfg s n) (hrefers : Refers f s) (hf : Covers f s)
    (honward : Onward s s')
    (hterminal : ∀ T, (s.entry T).terminal = true → (s'.entry T).terminal = true)
    (h : Effect cfg s f s' new) : ∀ g ∈ new, Covers g s' := by
  cases h with
  | @sweep g cause r order hg hnodup horder hall hr hstopped =>
    intro g hg'
    rw [List.mem_singleton.mp hg']
    intro hcause
    obtain ⟨hstops, hcovers⟩ := hall hcause
    rw [registry_foldl_retain]
    refine ⟨hstops, fun T e he ↦ .inl ?_⟩
    rw [hr] at he
    exact hcovers T e he
  | @claimed e hreplayable =>
    intro g hg
    rw [List.mem_singleton.mp hg]
    exact ⟨e, rfl, honward.known e (hrefers.known e List.mem_cons_self)⟩
  | @each cause T todo held e' calls hexec =>
    intro g hg
    rcases List.mem_append.mp hg with hg | hg
    · exact covers_map_entry calls g hg
    · rw [List.mem_singleton.mp hg]
      intro hcause
      obtain ⟨hstopped, hcovers⟩ := hf hcause
      refine ⟨hstopped, fun T' e he ↦ ?_⟩
      rcases hcovers T' e he with htodo | hended
      · rcases List.mem_cons.mp htodo with rfl | htodo
        · refine .inr ?_
          rw [entry_setEntry_self]
          exact ExecutionEntry.terminal_of_terminate (hF.entries T').sound hexec
        · exact .inl htodo
      · exact .inr (hterminal T' hended)
  | aside hg hexec hapart hcalls =>
    intro g hg'
    obtain ⟨h, -, rfl⟩ := List.mem_map.mp hg'
    trivial
  | @found g h a r e T hg hexec hapart hh =>
    cases h with
    | replay | claimEntry | joinEntry => simp [resume, Covers]
    | _ => cases hh
  | eachEnd =>
    intro g hg
    obtain ⟨T, -, rfl⟩ := List.mem_map.mp hg
    trivial
  | entry hf' hexec => exact covers_map_entry _
  | ran hw hexec hpoint hfatal =>
    intro g hg
    rcases List.mem_append.mp hg with hg | hg
    · rcases hfatal with rfl | rfl
      · cases hg
      · rw [List.mem_singleton.mp hg]
        trivial
    · exact covers_map_entry _ g hg
  | exited | removed | drop =>
    rw [afterDrop]
    split_ifs <;> simp [Covers]
  | _ => simp [Covers]

/-- **What loops over entries reach** is an invariant that rests on the others. -/
theorem swept_rests (cfg : SidecarConfig) (ι : Type*) :
    Program.Rests (program cfg ι) holding (fun s n ↦ Founded cfg s n ∧ Coherent s)
      (fun _ f s ↦ Informed cfg f s ∧ Refers f s) (fun b : Empty ↦ b.elim) (fun s _ ↦ Swept s)
      fun _ f s ↦ Covers f s where
  call {s t f s' n m} hF hs hcall := by
    obtain ⟨hidle, -⟩ := idle_of_call hF.2 hcall
    have hterminal : ∀ T, (s.entry T).terminal = true → (s'.entry T).terminal = true := fun T ↦
      ((steps_of_call hF.1 hcall T).spec (hF.1.entries T).sound).2.terminal
    refine ⟨hs.of_idle hidle hterminal, ?_, fun _ g _ hg ↦
      hg.later hidle.closes hidle.steady.onward hterminal⟩
    cases f with
    | registry | entry => trivial
    | _ => cases hcall
  exec {s t f k s' new n m} hF hA hs hf hexec := by
    have heffect := effect_of_exec (fun b T heq ↦ hF.1.record heq) hexec
    have hterminal : ∀ T, (s.entry T).terminal = true → (s'.entry T).terminal = true := fun T ↦
      ((steps_of_exec hF.1 hA.1 hexec T).spec (hF.1.entries T).sound).2.terminal
    obtain ⟨-, honward, -⟩ := fits_of_effect hF.1 hA.1 hF.2 hA.2 heffect
    obtain ⟨hcloses, hswept⟩ := closes_of_effect heffect
    refine ⟨.of_closes ?_ hcloses hterminal,
      covers_of_effect hF.1 hA.2 hf honward hterminal heffect,
      fun _ g _ hg ↦ hg.later hcloses honward hterminal⟩
    intro hs'
    rcases hswept hs' with hbefore | hends
    · exact ⟨hs.stopped hbefore, hs.terminal hbefore⟩
    · exact hf.swept hends
  ambient {s a s' n m} hF hs ha := by
    have hidle := idle_of_ambient ha
    have hterminal : ∀ T, (s.entry T).terminal = true → (s'.entry T).terminal = true := fun T ↦
      ((steps_of_ambient hF.1 ha T).spec (hF.1.entries T).sound).2.terminal
    exact ⟨hs.of_idle hidle hterminal, fun _ g _ hg ↦
      hg.later hidle.closes hidle.steady.onward hterminal⟩

/-! ## After a loop -/

/-- What is kept once a loop has come to its end: nothing is registered or returned, and no worker
is started. -/
structure Keeps (s s' : SidecarServer) : Prop where
  swept : s.swept = true → s'.swept = true
  entries : ∀ T e, s'.registry.entries.lookup T = some e → s.registry.entries.lookup T = some e
  returned : ∀ ret ∈ s'.registry.returns, ∀ e own, ret.outcome = .entry e own →
    ret ∈ s.registry.returns
  workers : ∀ T, (s'.entry T).workers = (s.entry T).workers

namespace Keeps

theorem refl (s : SidecarServer) : Keeps s s :=
  ⟨id, fun _ _ ↦ id, fun _ hret _ _ _ ↦ hret, fun _ ↦ rfl⟩

theorem trans {s'' : SidecarServer} (h : Keeps s s') (h' : Keeps s' s'') : Keeps s s'' where
  swept hs := h'.swept (h.swept hs)
  entries T e he := h.entries T e (h'.entries T e he)
  returned ret hret e own ho := h.returned ret (h'.returned ret hret e own ho) e own ho
  workers T := (h'.workers T).trans (h.workers T)

/-- A change of the registry that returns no entry. -/
theorem of_apart (hapart : s.registry.Apart s'.registry) (hswept : s'.swept = s.swept)
    (hworkers : ∀ T, (s'.entry T).workers = (s.entry T).workers) : Keeps s s' where
  swept hs := hswept.trans hs
  entries T e he := by rwa [hapart.entries] at he
  returned ret hret e own ho := by
    refine (hapart.failed ret hret).resolve_right fun hfails ↦ ?_
    rw [ho] at hfails
    cases hfails
  workers := hworkers

theorem of_idle (h : Idle s s') : Keeps s s' := .of_apart h.registry h.swept h.workers

/-- A change of one execution. -/
theorem of_entry {a : ExecutionEntry} (hr : s'.registry = s.registry) (hswept : s'.swept = s.swept)
    (hentry : s'.entry = update s.entry T a) (ha : a.workers = (s.entry T).workers) :
    Keeps s s' where
  swept hs := hswept.trans hs
  entries T e he := by rwa [hr] at he
  returned ret hret e own ho := by rwa [hr] at hret
  workers T' := by
    rw [hentry]
    by_cases hT : T' = T
    · rw [hT, Function.update_self, ha]
    · rw [Function.update_of_ne hT]

end Keeps

theorem keeps_of_effect (hstopped : s.registry.stopped = true)
    (hended : ∀ e, s.Known e → (s.entry e.ticket).terminal = true) (hrefers : Refers f s)
    (hf : Covers f s) (h : Effect cfg s f s' new) : Keeps s s' := by
  have hrunning : s.registry.stopped = false → Keeps s s' := fun hno ↦ by
    rw [hstopped] at hno
    cases hno
  -- what was handed out cannot be claimed or returned any more
  have hreplayable : ∀ e, s.Known e → (s.entry e.ticket).replayable = false := fun e he ↦ by
    rw [EntryControl.replayable, hended e he, Bool.not_true, Bool.and_false]
  cases h with
  | aside hg hexec hapart => exact .of_apart hapart rfl fun _ ↦ rfl
  | found hg hexec hapart => exact .of_apart hapart rfl fun _ ↦ rfl
  | lookup he hno => exact hrunning hno
  | withdrawn hno => exact hrunning hno
  | committed hno => exact hrunning hno
  | replayed hyes =>
    rw [hreplayable _ (hrefers.known _ List.mem_cons_self)] at hyes
    cases hyes
  | claimed hyes =>
    rw [hreplayable _ (hrefers.known _ List.mem_cons_self)] at hyes
    cases hyes
  | started hclaimed hterminal =>
    obtain ⟨e, rfl, he⟩ := hf
    rw [hended e he] at hterminal
    cases hterminal
  | @sweep g cause r order hg hnodup horder hall hr hstops =>
    refine ⟨fun hs ↦ (swept_foldl_retain order).trans hs, fun T e he ↦ ?_,
      fun ret hret e own ho ↦ ?_,
      fun T ↦ ?_⟩
    · rwa [registry_foldl_retain, hr] at he
    · rwa [registry_foldl_retain, hr] at hret
    · rw [entry_foldl_retain]
  | entry hf' hexec =>
    exact .of_entry rfl rfl rfl (ExecutionEntry.workers_of_exec hf'.1 hexec)
  | ran hw hexec =>
    exact .of_entry rfl rfl rfl (ExecutionEntry.workers_of_exec (f := .run) (by simp) hexec)
  | joining hf' hexec | joined hf' hexec =>
    exact .of_entry rfl rfl rfl (ExecutionEntry.workers_of_exec (ne_of_joins hf').1 hexec)
  | each hexec =>
    exact .of_entry rfl rfl rfl (ExecutionEntry.workers_of_exec (f := .terminate _) (by simp) hexec)
  | unlisted | exited => exact .of_entry rfl rfl rfl rfl
  | @removed T worker e he =>
    obtain ⟨-, -, hreturns, -⟩ := s.registry.remove_frame T
    have hcontrol := control_setEntry (s := s) (T := T) (e := { s.entry T with
      notifications := (s.entry T).notifications + 1, reported := true }) rfl
    refine ⟨id, fun T' e' he' ↦ ?_, fun ret hret e own ho ↦ ?_, fun T' ↦ ?_⟩
    · rcases eq_some_of_eq_update (s.registry.lookup_remove T) he' with ⟨-, hnone⟩ | ⟨-, hold⟩
      · cases hnone
      · exact hold
    · rwa [← hreturns]
    · exact congrArg EntryControl.workers (hcontrol T')
  | eachEnd =>
    exact ⟨fun hs ↦ by simp [hs], fun _ _ ↦ id, fun _ hret _ _ _ ↦ hret, fun _ ↦ rfl⟩
  | @release T =>
    obtain ⟨hentry, -, admission, hr⟩ := registry_releaseLease s T
    refine .of_apart ?_ (swept_releaseLease s T) fun _ ↦ by rw [hentry]
    rw [hr]
    exact ⟨rfl, rfl, List.Subset.refl _, rfl, rfl, rfl, List.Subset.refl _, fun _ ↦ .inl⟩
  | refused => exact .of_apart ((TicketRegistry.Apart.refl _).returned rfl) rfl fun _ ↦ rfl
  | _ => exact ⟨id, fun _ _ ↦ id, fun _ hret _ _ _ ↦ hret, fun _ ↦ rfl⟩

/-! ## Runs -/

variable [Fintype ι] [DecidableEq ι] {c c' : Threads SidecarServer ι ServerCall}
  {m : Move ι ServerCall ServerAnswer (Bytes × Bytes × InputTraffic)}
  {ms : List (Move ι ServerCall ServerAnswer (Bytes × Bytes × InputTraffic))}

theorem run_swept (hrun : (program cfg ι).machine.run (init cfg ι) ms = some c) :
    Swept c.shared ∧ ∀ t, ∀ f ∈ c.calls t, Covers f c.shared := by
  obtain ⟨⟨-, hs⟩, hA⟩ := ((ledger cfg ι).assert (swept_rests cfg ι)).run
    ⟨⟨founded_init, nofun, nofun⟩, nofun⟩ hrun
  exact ⟨hs, fun t f hf ↦ (hA t f hf).2⟩

/-- After a loop, every entry that was handed out is terminal. -/
theorem terminal_of_known (hrun : (program cfg ι).machine.run (init cfg ι) ms = some c)
    (hswept : c.shared.swept = true) (he : c.shared.Known e) :
    (c.shared.entry e.ticket).terminal = true := by
  rcases he with hlookup | hnotified
  · exact (run_swept hrun).1.terminal hswept e.ticket e hlookup
  · obtain ⟨hquiesced, -⟩ := quiesced_of_notified hrun hnotified
    obtain ⟨⟨hF, -⟩, -⟩ := run_invariant hrun
    exact ((hF.entries e.ticket).sound.quiesced hquiesced).1

theorem keeps_of_step (hrun : (program cfg ι).machine.run (init cfg ι) ms = some c)
    (hswept : c.shared.swept = true) (hstep : (program cfg ι).machine.step c m = some c') :
    Keeps c.shared c'.shared := by
  obtain ⟨⟨hF, hs⟩, hknows⟩ := run_invariant hrun
  cases m with
  | call t f =>
    obtain ⟨-, s, hcall, rfl⟩ := Program.step_call_eq_some.mp hstep
    exact .of_idle (idle_of_call hs hcall).1
  | exec t k =>
    obtain ⟨f, rest, s, new, hstack, hexec, rfl⟩ := Program.step_exec_eq_some.mp hstep
    have hmem : f ∈ c.calls t := by
      rw [hstack]
      exact List.mem_cons_self
    have hstopped := (run_swept hrun).1.stopped hswept
    exact keeps_of_effect hstopped (fun e he ↦ terminal_of_known hrun hswept he)
      (hknows t f hmem).2 ((run_swept hrun).2 t f hmem) (effect_of_step hrun hstack hexec)
  | ambient a =>
    obtain ⟨s, ha, rfl⟩ := Program.step_ambient_eq_some.mp hstep
    exact .of_idle (idle_of_ambient ha)

theorem keeps_of_run {ms' : List (Move ι ServerCall ServerAnswer (Bytes × Bytes × InputTraffic))}
    (hrun : (program cfg ι).machine.run (init cfg ι) ms = some c) (hswept : c.shared.swept = true)
    (hrun' : (program cfg ι).machine.run c ms' = some c') : Keeps c.shared c'.shared := by
  refine Machine.run_induction (P := fun _ c' ↦ Keeps c.shared c'.shared) (.refl _) ?_ hrun'
  intro ms' c₁ m c₂ hrun₁ hkeeps hstep
  have hreach : (program cfg ι).machine.run (init cfg ι) (ms ++ ms') = some c₁ :=
    Machine.run_append_eq_some.mpr ⟨c, hrun, hrun₁⟩
  exact hkeeps.trans (keeps_of_step hreach (hkeeps.swept hswept) hstep)

/-- In a registry that is stopped entries are not registered any more, whatever happens. -/
theorem closes_of_step (hrun : (program cfg ι).machine.run (init cfg ι) ms = some c)
    (hstep : (program cfg ι).machine.step c m = some c') : Closes c.shared c'.shared := by
  obtain ⟨⟨-, hs⟩, -⟩ := run_invariant hrun
  cases m with
  | call t f =>
    obtain ⟨-, s, hcall, rfl⟩ := Program.step_call_eq_some.mp hstep
    exact (idle_of_call hs hcall).1.closes
  | exec t k =>
    obtain ⟨f, rest, s, new, hstack, hexec, rfl⟩ := Program.step_exec_eq_some.mp hstep
    exact (closes_of_effect (effect_of_step hrun hstack hexec)).1
  | ambient a =>
    obtain ⟨s, ha, rfl⟩ := Program.step_ambient_eq_some.mp hstep
    exact (idle_of_ambient ha).closes

theorem closes_of_run {ms' : List (Move ι ServerCall ServerAnswer (Bytes × Bytes × InputTraffic))}
    (hrun : (program cfg ι).machine.run (init cfg ι) ms = some c)
    (hrun' : (program cfg ι).machine.run c ms' = some c') : Closes c.shared c'.shared := by
  refine Machine.run_induction (P := fun _ c' ↦ Closes c.shared c'.shared) (.of_eq rfl rfl) ?_ hrun'
  intro ms' c₁ m c₂ hrun₁ hcloses hstep
  have hnext := closes_of_step (Machine.run_append_eq_some.mpr ⟨c, hrun, hrun₁⟩) hstep
  exact ⟨fun hs ↦ hnext.stopped (hcloses.stopped hs),
    fun hs T e he ↦ hcloses.entries hs T e (hnext.entries (hcloses.stopped hs) T e he)⟩

/-- What is terminal stays so. -/
theorem terminal_of_step (hrun : (program cfg ι).machine.run (init cfg ι) ms = some c)
    (hstep : (program cfg ι).machine.step c m = some c')
    (hT : (c.shared.entry T).terminal = true) : (c'.shared.entry T).terminal = true := by
  obtain ⟨⟨hF, -⟩, hknows⟩ := run_invariant hrun
  have hsteps : EntryControl.Steps (cfg.executions T) (c.shared.entry T).toEntryControl
      (c'.shared.entry T).toEntryControl := by
    cases m with
    | call t f =>
      obtain ⟨-, s, hcall, rfl⟩ := Program.step_call_eq_some.mp hstep
      exact steps_of_call hF hcall T
    | exec t k =>
      obtain ⟨f, rest, s, new, hstack, hexec, rfl⟩ := Program.step_exec_eq_some.mp hstep
      have hmem : f ∈ c.calls t := by
        rw [hstack]
        exact List.mem_cons_self
      exact steps_of_exec hF (hknows t f hmem).1 hexec T
    | ambient a =>
      obtain ⟨s, ha, rfl⟩ := Program.step_ambient_eq_some.mp hstep
      exact steps_of_ambient hF ha T
  exact (hsteps.spec (hF.entries T).sound).2.terminal hT

/-! ## Calls that find the server sealed -/

/-- The next section of a call of `claim` or `lookup` returns null. -/
structure Declines (cfg : SidecarConfig) (c : Threads SidecarServer ι ServerCall) : Prop where
  lookup : ∀ t T rest k c', c.calls t = .registry (.lookup T) :: rest →
    (program cfg ι).machine.step c (.exec t k) = some c' →
      c'.shared = c.shared ∧ c'.calls t = rest
  claim : ∀ t T rest k c', c.calls t = .registry (.claim T) :: rest →
    (program cfg ι).machine.step c (.exec t k) = some c' →
      c'.shared = c.shared ∧ c'.calls t = rest
  claimEntry : ∀ t e rest k c', c.calls t = .registry (.claimEntry e) :: rest →
    (program cfg ι).machine.step c (.exec t k) = some c' →
      c'.shared = c.shared ∧ c'.calls t = .drop e.ticket :: rest

/-- What holds from the end of a loop on: in the first state the loop has just come to its end, the
second is any later one. -/
structure Sealed (cfg : SidecarConfig) (c c' : Threads SidecarServer ι ServerCall) : Prop where
  returned : ∀ ret ∈ c'.shared.registry.returns, ∀ e own, ret.outcome = .entry e own →
    (c.shared.entry e.ticket).terminal = true
  registered : ∀ T e, c'.shared.registry.entries.lookup T = some e →
    c.shared.registry.entries.lookup T = some e ∧ (c.shared.entry T).terminal = true
  workers : ∀ T, (c'.shared.entry T).workers = (c.shared.entry T).workers
  declines : Declines cfg c'

omit [Fintype ι] in
/-- A step of a thread, section by section. -/
theorem step_exec_cons {t : ι} {rest : List ServerCall} (hstack : c.calls t = f :: rest)
    (hstep : (program cfg ι).machine.step c (.exec t k) = some c') :
    ∃ s' new, c.shared.exec cfg f k = some (s', new) ∧ c'.shared = s' ∧
      c'.calls t = new ++ rest := by
  obtain ⟨f', rest', s', new, hstack', hexec, rfl⟩ := Program.step_exec_eq_some.mp hstep
  obtain ⟨rfl, rfl⟩ := List.cons.inj (hstack.symm.trans hstack')
  exact ⟨s', new, hexec, rfl, Function.update_self ..⟩

theorem declines_of_swept (hrun : (program cfg ι).machine.run (init cfg ι) ms = some c)
    (hswept : c.shared.swept = true) : Declines cfg c := by
  have hstopped := (run_swept hrun).1.stopped hswept
  refine ⟨?_, ?_, ?_⟩
  · intro t T rest k c' hstack hstep
    obtain ⟨s', new, hexec, hshared, hcalls⟩ := step_exec_cons hstack hstep
    simp only [exec, execRegistry, hstopped, true_or, if_true] at hexec
    obtain ⟨rfl, rfl⟩ := Prod.mk.inj (Option.some.inj hexec)
    exact ⟨hshared, hcalls⟩
  · intro t T rest k c' hstack hstep
    obtain ⟨s', new, hexec, hshared, hcalls⟩ := step_exec_cons hstack hstep
    simp only [exec, execRegistry, TicketRegistry.exec, hstopped, if_true, Option.map_some] at hexec
    obtain ⟨rfl, rfl⟩ := Prod.mk.inj (Option.some.inj hexec)
    exact ⟨hshared, hcalls⟩
  · intro t e rest k c' hstack hstep
    obtain ⟨s', new, hexec, hshared, hcalls⟩ := step_exec_cons hstack hstep
    have hmem : .registry (.claimEntry e) ∈ c.calls t := by
      rw [hstack]
      exact List.mem_cons_self
    have hknown := ((run_invariant hrun).2 t _ hmem).2.known e List.mem_cons_self
    have heffect : Effect cfg c.shared (.registry (.claimEntry e)) s' new :=
      effect_of_step (k := k) hrun hstack hexec
    cases heffect with
    | aside hg => cases hg
    | found hg => cases hg
    | sweep hg => rcases hg with hg | hg | hg <;> cases hg
    | claimed hyes =>
      rw [EntryControl.replayable, terminal_of_known hrun hswept hknown] at hyes
      simp at hyes
    | unclaimed => exact ⟨hshared, hcalls⟩

/-- An entry that was built for nothing: it is not registered, and its own preparation ends it. -/
structure Retracted (cfg : SidecarConfig) (c c' : Threads SidecarServer ι ServerCall) (t : ι)
    (T : Bytes) : Prop where
  ends : (c'.calls t).head? = some (.entry T false
    (if c.shared.registry.gpuUnavailable then .failGpuUnavailable else .cancel false))
  terminal : ∀ ms c'', (program cfg ι).machine.run c' ms = some c'' → c''.calls t ≠ c'.calls t →
    (c''.shared.entry T).terminal = true
  unlisted : ∀ ms c'', (program cfg ι).machine.run c' ms = some c'' →
    c''.shared.registry.entries.lookup T = none

/-- As soon as a thread has gone on that was about to end an execution, the execution is
terminal. -/
theorem terminal_of_ends {t : ι} {rest : List ServerCall} {cause : Cause}
    {ms' : List (Move ι ServerCall ServerAnswer (Bytes × Bytes × InputTraffic))}
    (hrun : (program cfg ι).machine.run (init cfg ι) ms = some c)
    (hstack : c.calls t = .entry T false (.terminate cause) :: rest)
    (hrun' : (program cfg ι).machine.run c ms' = some c') (hgone : c'.calls t ≠ c.calls t) :
    (c'.shared.entry T).terminal = true := by
  have hkept : c'.calls t = c.calls t ∨ (c'.shared.entry T).terminal = true := by
    refine Machine.run_induction (P := fun _ c' ↦ c'.calls t = c.calls t ∨
      (c'.shared.entry T).terminal = true) (.inl rfl) ?_ hrun'
    intro ms' c₁ m c₂ hrun₁ hkept hstep
    have hreach := Machine.run_append_eq_some.mpr ⟨c, hrun, hrun₁⟩
    -- until the frame goes, other threads leave it alone; its own section ends the execution
    rcases hkept with hsame | hended
    · rw [hstack] at hsame ⊢
      cases m with
      | call u f =>
        obtain ⟨hidle, s, -, rfl⟩ := Program.step_call_eq_some.mp hstep
        have hne : t ≠ u := by
          rintro rfl
          rw [hsame] at hidle
          cases hidle
        exact .inl ((Function.update_of_ne hne ..).trans hsame)
      | exec u k =>
        by_cases hu : t = u
        · subst hu
          obtain ⟨s', new, hexec, hshared, -⟩ := step_exec_cons hsame hstep
          have heffect : Effect cfg c₁.shared (.entry T false (.terminate cause)) s' new :=
            effect_of_step (k := k) hreach hsame hexec
          obtain ⟨⟨hF, -⟩, -⟩ := run_invariant hreach
          cases heffect with
          | entry hf hexec' =>
            rw [hshared, entry_setEntry_self]
            exact .inr (ExecutionEntry.terminal_of_terminate (hF.entries T).sound hexec')
        · obtain ⟨f, rest', s, new, -, -, rfl⟩ := Program.step_exec_eq_some.mp hstep
          exact .inl ((Function.update_of_ne hu ..).trans hsame)
      | ambient a =>
        obtain ⟨s, -, rfl⟩ := Program.step_ambient_eq_some.mp hstep
        exact .inl hsame
    · exact .inr (terminal_of_step hreach hstep hended)
  exact hkept.resolve_left hgone

theorem retracted_of_stopped (hrun : (program cfg ι).machine.run (init cfg ι) ms = some c)
    (hstopped : c.shared.registry.stopped = true) {t : ι} {b : Building} {rest : List ServerCall}
    (hstack : c.calls t = .registry (.commit b T) :: rest)
    (hstep : (program cfg ι).machine.step c (.exec t k) = some c') : Retracted cfg c c' t T := by
  have hreach := Machine.run_concat_eq_some.mpr ⟨c, hrun, hstep⟩
  obtain ⟨s', new, hexec, hshared, hcalls⟩ := step_exec_cons hstack hstep
  have heffect : Effect cfg c.shared (.registry (.commit b T)) s' new :=
    effect_of_step (k := k) hrun hstack hexec
  have hmem : .registry (.commit b T) ∈ c.calls t := by
    rw [hstack]
    exact List.mem_cons_self
  have hdrawn : (T, b.serial) ∈ c.shared.registry.drawn :=
    (((run_invariant hrun).2 t _ hmem).1.registry (.commit b T) rfl).2
  have hnone := (founded_apart hrun hmem).registry.lookup_eq_none (f := .commit b T) rfl hdrawn
  cases heffect with
  | aside hg => cases hg
  | found hg => cases hg
  | sweep hg => rcases hg with hg | hg | hg <;> cases hg
  | withdrawn hrunning | committed hrunning =>
    rw [hrunning] at hstopped
    cases hstopped
  | retracted =>
    refine ⟨?_, ?_, ?_⟩
    · rw [hcalls]
      rfl
    · intro ms' c'' hrun' hgone
      by_cases hgpu : c.shared.registry.gpuUnavailable = true
      · rw [if_pos hgpu] at hcalls
        exact terminal_of_ends hreach hcalls hrun' hgone
      · rw [if_neg hgpu] at hcalls
        exact terminal_of_ends hreach hcalls hrun' hgone
    · intro ms' c'' hrun'
      -- once stopped, the map only loses entries, and the ticket was not in it
      have hcloses := closes_of_run hreach hrun'
      rw [hshared] at hcloses
      cases he : c''.shared.registry.entries.lookup T with
      | none => rfl
      | some e =>
        have hbefore : c.shared.registry.entries.lookup T = some e :=
          hcloses.entries hstopped T e he
        rw [hnone] at hbefore
        cases hbefore

/-- **Sealing and stopping leave no live execution behind**: when the loop has come to its end,
every entry that was or will be returned is terminal, and from then on nothing is registered,
claimed or started. What is committed in a registry that is stopped is not registered, and ended. -/
theorem sealed_for_good (cfg : SidecarConfig)
    (ms : List (Move ι ServerCall ServerAnswer (Bytes × Bytes × InputTraffic)))
    (c : Threads SidecarServer ι ServerCall)
    (hrun : (program cfg ι).machine.run (init cfg ι) ms = some c) :
    (c.shared.swept = true →
      ∀ ms' c', (program cfg ι).machine.run c ms' = some c' → Sealed cfg c c') ∧
    (c.shared.registry.stopped = true → ∀ t b T rest k c',
      c.calls t = .registry (.commit b T) :: rest →
        (program cfg ι).machine.step c (.exec t k) = some c' → Retracted cfg c c' t T) := by
  constructor
  · intro hswept ms' c' hrun'
    have hkeeps := keeps_of_run hrun hswept hrun'
    obtain ⟨⟨-, hs⟩, -⟩ := run_invariant hrun
    refine ⟨fun ret hret e own ho ↦ ?_, fun T e he ↦ ?_, hkeeps.workers, ?_⟩
    · have hbefore := hkeeps.returned ret hret e own ho
      exact terminal_of_known hrun hswept (hs.returned ret hbefore e own ho)
    · have hbefore := hkeeps.entries T e he
      exact ⟨hbefore, (run_swept hrun).1.terminal hswept T e hbefore⟩
    · exact declines_of_swept (Machine.run_append_eq_some.mpr ⟨c, hrun, hrun'⟩)
        (hkeeps.swept hswept)
  · intro hstopped t b T rest k c' hstack hstep
    exact retracted_of_stopped hrun hstopped hstack hstep

/-- The ticket that a call is about to commit. -/
def committing? : ServerCall → Option Bytes
  | .registry (.commit _ T) => some T
  | _ => none

omit [Fintype ι] [DecidableEq ι] in
theorem exists_commit {t : ι} (h : (c.calls t).head?.bind committing? = some T) :
    ∃ b rest, c.calls t = .registry (.commit b T) :: rest := by
  obtain ⟨f, hf, hT⟩ := Option.bind_eq_some_iff.mp h
  obtain ⟨rest, hstack⟩ := List.head?_eq_some_iff.mp hf
  cases f with
  | registry g =>
    cases g with
    | commit b T' =>
      obtain rfl := Option.some.inj hT
      exact ⟨b, rest, hstack⟩
    | _ => cases hT
  | _ => cases hT

/-- A ticket is about to be committed when the server is stopped. -/
def stopCommitting : List (Move Bool ServerCall ServerAnswer (Bytes × Bytes × InputTraffic)) :=
  deliverOnce.take 5 ++ .call true (.registry .stopAdmissionAndCancel) ::
    List.replicate 2 (.exec true {})

theorem sealed_for_good_stopCommitting :
    ∃ c c', (program oneExecution Bool).machine.run (init oneExecution Bool)
      stopCommitting = some c ∧
      (program oneExecution Bool).machine.step c (.exec false {}) = some c' ∧
      c.shared.swept = true ∧ Sealed oneExecution c c' ∧ Retracted oneExecution c c' false [7] := by
  have hstops : ((program oneExecution Bool).machine.run (init oneExecution Bool)
      stopCommitting).bind (fun c ↦
        ((program oneExecution Bool).machine.step c (.exec false {})).map fun _ ↦
          (c.shared.swept, c.shared.registry.stopped, (c.calls false).head?.bind committing?))
      = some (true, true, some [7]) := by
    decide +kernel
  obtain ⟨c, hrun, hc⟩ := Option.bind_eq_some_iff.mp hstops
  obtain ⟨c', hstep, hc'⟩ := Option.map_eq_some_iff.mp hc
  obtain ⟨hswept, hc'⟩ := Prod.mk.inj hc'
  obtain ⟨hstopped, hcommit⟩ := Prod.mk.inj hc'
  obtain ⟨b, rest, hstack⟩ := exists_commit hcommit
  obtain ⟨hsealed, hretracted⟩ := sealed_for_good oneExecution stopCommitting c hrun
  refine ⟨c, c', hrun, hstep, hswept, hsealed hswept [.exec false {}] c' ?_, ?_⟩
  · rw [Machine.run_cons, hstep]
    rfl
  · exact hretracted hstopped false b [7] rest {} c' hstack hstep

end SidecarServer

end MoSidecar
