import MoSidecar.Server.Removal

/-!
# Retries of the same request

An identical request that comes while the first one is under way is given the entry of the first, as
long as that is neither claimed nor terminal. But the first handler looks at its context only after
its preparation, and cancels the entry when its client is gone. If the entry has been given to
another handler by then, that one's ticket is lost as well.

What is proved here is about servers that only prepare, under the guard that no handler ends an
entry whose ticket another handler has delivered or is about to deliver: every delivered ticket can
be claimed. A run without the guard shows that it is needed.
-/

open Function (update)

namespace MoSidecar

/-! ## The calls of a preparation -/

/-- Calls that `GetFlightInfo` makes of the registry. -/
def RegistryCall.prepares : RegistryCall → Bool
  | .getFlightInfo _ | .prepare .. | .awaitPrepared .. | .replay .. | .drawTicket _ | .construct ..
  | .commit .. | .releaseReservation .. | .unwind .. | .abandon .. | .deliver _ => true
  | _ => false

namespace TicketRegistry

variable {cfg : RegistryConfig} {s r : TicketRegistry} {g : RegistryCall} {a : RegistryAnswer}
  {calls : List RegistryCall}

/-- A preparation goes on with a preparation. -/
theorem prepares_of_exec (hg : g.prepares = true) (hexec : s.exec cfg g a = some (r, calls)) :
    ∀ h ∈ calls, h.prepares = true := by
  cases effect_of_exec hexec with
  | invalid | refused | expired | alreadyClaimed | outOfRange | unwound | abandoned | undelivered
  | delivered => exact List.forall_mem_nil _
  | valid | reserved | waiting | found | retrying | replayed | undrawn | taken | drew | threw
  | unshrunk | built | retracted | withdrawn | committed | released | dropped =>
    exact List.forall_mem_singleton.mpr rfl
  | _ => cases hg

end TicketRegistry

/-- Calls that `GetFlightInfo` makes. -/
def ServerCall.prepares : ServerCall → Bool
  | .registry g => g.prepares
  | .entry _ worker f => !worker && f.passive
  | .drop _ | .destroy _ | .release _ => true
  | _ => false

namespace SidecarServer

variable {cfg : SidecarConfig} {ι : Type*} [Fintype ι] [DecidableEq ι] {s s' : SidecarServer}
  {c c' : Threads SidecarServer ι ServerCall} {f : ServerCall} {new : List ServerCall}
  {m : Move ι ServerCall ServerAnswer (Bytes × Bytes × InputTraffic)}
  {ms : List (Move ι ServerCall ServerAnswer (Bytes × Bytes × InputTraffic))}

/-! ## The guard -/

/-- The ticket of the execution that the next section of a call ends. -/
def ended? : ServerCall → Option Bytes
  | .entry T _ (.terminate _) => some T
  | _ => none

/-- The ticket that the next section of a call delivers. -/
def delivering? : ServerCall → Option Bytes
  | .registry (.deliver e) => some e.ticket
  | _ => none

/-- No execution is ended whose ticket was delivered, or is about to be. -/
def Spares (c : Threads SidecarServer ι ServerCall) :
    Move ι ServerCall ServerAnswer (Bytes × Bytes × InputTraffic) → Prop
  | .exec t _ => ∀ T ∈ (c.calls t).head?.bind ended?,
      T ∉ c.shared.registry.delivered.map (·.ticket) ∧ ∀ u, ∀ f ∈ c.calls u, delivering? f ≠ some T
  | _ => True

instance (c : Threads SidecarServer ι ServerCall) :
    ∀ m : Move ι ServerCall ServerAnswer (Bytes × Bytes × InputTraffic), Decidable (Spares c m)
  | .exec t _ => inferInstanceAs (Decidable (∀ T ∈ (c.calls t).head?.bind ended?,
      T ∉ c.shared.registry.delivered.map (·.ticket) ∧ ∀ u, ∀ f ∈ c.calls u,
        delivering? f ≠ some T))
  | .call .. | .ambient _ => .isTrue trivial

/-- A call of `GetFlightInfo`. -/
def getsInfo : ServerCall → Bool
  | .registry (.getFlightInfo _) => true
  | _ => false

/-- Nothing but `GetFlightInfo` is called. -/
def Prepares : Move ι ServerCall ServerAnswer (Bytes × Bytes × InputTraffic) → Prop
  | .call _ f => getsInfo f = true
  | _ => True

instance : ∀ m : Move ι ServerCall ServerAnswer (Bytes × Bytes × InputTraffic),
    Decidable (Prepares m)
  | .call _ f => inferInstanceAs (Decidable (getsInfo f = true))
  | .exec .. | .ambient _ => .isTrue trivial

/-- A ticket that `claim` will accept. -/
structure Claimable (s : SidecarServer) (T : Bytes) : Prop where
  running : s.registry.stopped = false
  listed : (s.registry.entries.lookup T).isSome = true
  replayable : (s.entry T).replayable = true

/-! ## One section at a time -/

/-- What a section of a preparation does to claims and endings. -/
structure Undisturbing (f : ServerCall) (s s' : SidecarServer) (new : List ServerCall) : Prop where
  running : s'.registry.stopped = s.registry.stopped
  prepares : ∀ g ∈ new, g.prepares = true
  claimed : ∀ T, (s'.entry T).claimed = (s.entry T).claimed
  terminal : ∀ T, ended? f = some T ∨ (s'.entry T).terminal = (s.entry T).terminal
  delivered : ∀ e ∈ s'.registry.delivered,
    e ∈ s.registry.delivered ∨ delivering? f = some e.ticket
  delivering : ∀ g ∈ new, ∀ T, delivering? g = some T → (s'.entry T).terminal = false

namespace Undisturbing

/-- A section that does nothing to entries. -/
theorem of_entry (hentry : s'.entry = s.entry) (hrunning : s'.registry.stopped = s.registry.stopped)
    (hdelivered : s'.registry.delivered = s.registry.delivered)
    (hnew : ∀ g ∈ new, g.prepares = true ∧ delivering? g = none) : Undisturbing f s s' new where
  running := hrunning
  prepares g hg := (hnew g hg).1
  claimed T := by rw [hentry]
  terminal T := .inr (by rw [hentry])
  delivered e he := by
    rw [hdelivered] at he
    exact .inl he
  delivering g hg T hT := by
    rw [(hnew g hg).2] at hT
    cases hT

end Undisturbing

theorem control_setEntry {T : Bytes} {e : ExecutionEntry}
    (he : e.toEntryControl = (s.entry T).toEntryControl) (T' : Bytes) :
    ((s.setEntry T e).entry T').toEntryControl = (s.entry T').toEntryControl := by
  by_cases hT : T' = T
  · rw [hT, entry_setEntry_self, he]
  · rw [entry_setEntry_of_ne hT]

/-- Calls of a preparation that deliver nothing. -/
theorem forall_prepares_nil :
    ∀ g ∈ ([] : List ServerCall), g.prepares = true ∧ delivering? g = none :=
  List.forall_mem_nil _

theorem forall_prepares_cons {g : ServerCall} (hg : g.prepares = true ∧ delivering? g = none)
    (hnew : ∀ g ∈ new, g.prepares = true ∧ delivering? g = none) :
    ∀ h ∈ g :: new, h.prepares = true ∧ delivering? h = none := by
  intro h hh
  rcases List.mem_cons.mp hh with rfl | hh
  · exact hg
  · exact hnew h hh

theorem prepares_afterDrop (T : Bytes) :
    ∀ g ∈ s.afterDrop T, g.prepares = true ∧ delivering? g = none := by
  rw [afterDrop]
  split_ifs
  · exact forall_prepares_cons ⟨rfl, rfl⟩ forall_prepares_nil
  · exact forall_prepares_nil

theorem delivering_of_aside {g : RegistryCall} (hg : g.aside = true) :
    delivering? (.registry g) = none := by
  cases g with
  | deliver e => cases hg
  | _ => rfl

/-- **A section of a preparation** disturbs no execution but the one that it ends. -/
theorem undisturbing_of_effect (hf : f.prepares = true)
    (hfresh : ∀ b T, f = .registry (.commit b T) → (s.entry T).terminal = false)
    (hopen : ∀ T, delivering? f = some T → (s.entry T).terminal = false)
    (h : Effect cfg s f s' new) : Undisturbing f s s' new := by
  cases h with
  | aside hg hexec hapart hcalls =>
    refine .of_entry rfl hapart.stopped hapart.delivered fun g hg' ↦ ?_
    obtain ⟨h, hh, rfl⟩ := List.mem_map.mp hg'
    exact ⟨TicketRegistry.prepares_of_exec hf hexec h hh, delivering_of_aside (hcalls h hh)⟩
  | draw hT hnone =>
    exact .of_entry rfl rfl rfl (forall_prepares_cons ⟨rfl, rfl⟩ forall_prepares_nil)
  | @found g h a r e T hg hexec hapart hh he =>
    refine .of_entry rfl hapart.stopped hapart.delivered ?_
    have hprepares := TicketRegistry.prepares_of_exec hf hexec h List.mem_cons_self
    cases h with
    | replay command e' => exact forall_prepares_cons ⟨rfl, rfl⟩ forall_prepares_nil
    | claimEntry e' | joinEntry identity e' => cases hprepares
    | _ => cases hh
  | sweep hg =>
    rcases hg with rfl | rfl | rfl <;> cases hf
  | threw | unshrunk | built =>
    exact .of_entry rfl rfl rfl (forall_prepares_cons ⟨rfl, rfl⟩ forall_prepares_nil)
  | unwound =>
    exact .of_entry rfl rfl rfl
      (forall_prepares_cons ⟨rfl, rfl⟩ (forall_prepares_cons ⟨rfl, rfl⟩ forall_prepares_nil))
  | retracted hstopped =>
    refine .of_entry rfl rfl rfl (forall_prepares_cons ⟨?_, rfl⟩
      (forall_prepares_cons ⟨rfl, rfl⟩ (forall_prepares_cons ⟨rfl, rfl⟩ forall_prepares_nil)))
    split_ifs <;> rfl
  | withdrawn =>
    exact .of_entry rfl rfl rfl (forall_prepares_cons ⟨rfl, rfl⟩
      (forall_prepares_cons ⟨rfl, rfl⟩ (forall_prepares_cons ⟨rfl, rfl⟩ forall_prepares_nil)))
  | @committed b T r hrunning hr hmarked =>
    refine ⟨rfl, List.forall_mem_singleton.mpr rfl, fun _ ↦ rfl, fun _ ↦ .inr rfl, fun _ ↦ .inl,
      List.forall_mem_singleton.mpr fun T' hT' ↦ ?_⟩
    obtain rfl : T = T' := Option.some.inj hT'
    exact hfresh b T rfl
  | @replayed command e hreplayable =>
    refine ⟨rfl, List.forall_mem_singleton.mpr rfl, fun _ ↦ rfl, fun _ ↦ .inr rfl, fun _ ↦ .inl,
      List.forall_mem_singleton.mpr fun T' hT' ↦ ?_⟩
    obtain rfl : e.ticket = T' := Option.some.inj hT'
    rw [EntryControl.replayable, Bool.and_eq_true, Bool.not_eq_true',
      Bool.not_eq_true'] at hreplayable
    exact hreplayable.2
  | refused => exact .of_entry rfl rfl rfl (forall_prepares_cons ⟨rfl, rfl⟩ forall_prepares_nil)
  | @delivered e =>
    refine ⟨rfl, List.forall_mem_singleton.mpr rfl, fun _ ↦ rfl, fun _ ↦ .inr rfl, fun e' he' ↦ ?_,
      List.forall_mem_singleton.mpr fun _ hT ↦ by cases hT⟩
    rcases List.mem_cons.mp he' with rfl | hold
    · exact .inr rfl
    · exact .inl hold
  | undelivered =>
    exact .of_entry rfl rfl rfl
      (forall_prepares_cons ⟨rfl, rfl⟩ (forall_prepares_cons ⟨rfl, rfl⟩ forall_prepares_nil))
  | @entry T worker g a e calls hg hexec =>
    simp only [ServerCall.prepares, Bool.and_eq_true, Bool.not_eq_true'] at hf
    obtain ⟨rfl, hpassive⟩ := hf
    obtain ⟨hclaimed, -, -, -, hterminal, hcalls⟩ := ExecutionEntry.passive_of_exec hpassive hexec
    have hprepares : ∀ h ∈ calls.map (ServerCall.entry T false),
        h.prepares = true ∧ delivering? h = none := by
      intro h hh
      obtain ⟨g', hg', rfl⟩ := List.mem_map.mp hh
      exact ⟨hcalls g' hg', rfl⟩
    refine ⟨rfl, fun h hh ↦ (hprepares h hh).1, fun T' ↦ ?_, fun T' ↦ ?_, fun _ ↦ .inl,
      fun h hh T' hT' ↦ ?_⟩
    · by_cases hT : T' = T
      · rw [hT, entry_setEntry_self, hclaimed]
      · rw [entry_setEntry_of_ne hT]
    · by_cases hT : T' = T
      · rcases hterminal with ⟨cause, rfl⟩ | hsame
        · exact .inl (congrArg some hT.symm)
        · rw [hT, entry_setEntry_self, hsame]
          exact .inr rfl
      · rw [entry_setEntry_of_ne hT]
        exact .inr rfl
    · rw [(hprepares h hh).2] at hT'
      cases hT'
  | ran | exited =>
    rw [ServerCall.prepares, Bool.and_eq_true] at hf
    cases hf.2
  | @removed T worker e he =>
    obtain ⟨-, hdelivered, -, -, -, hstopped, -⟩ := s.registry.remove_frame T
    have hcontrol := control_setEntry (s := s) (T := T) (e := { s.entry T with
      notifications := (s.entry T).notifications + 1, reported := true }) rfl
    have hnew := prepares_afterDrop (s := s) T
    exact ⟨hstopped, fun g hg ↦ (hnew g hg).1,
      fun T' ↦ congrArg EntryControl.claimed (hcontrol T'),
      fun T' ↦ .inr (congrArg EntryControl.terminal (hcontrol T')),
      fun e' he' ↦ .inl (hdelivered ▸ he'), fun g hg T' hT' ↦ by simp [(hnew g hg).2] at hT'⟩
  | @unlisted T worker hnone =>
    have hcontrol := control_setEntry (s := s) (T := T) (e := { s.entry T with
      notifications := (s.entry T).notifications + 1, reported := true }) rfl
    exact ⟨rfl, List.forall_mem_nil _,
      fun T' ↦ congrArg EntryControl.claimed (hcontrol T'),
      fun T' ↦ .inr (congrArg EntryControl.terminal (hcontrol T')),
      fun _ ↦ .inl, List.forall_mem_nil _⟩
  | drop => exact .of_entry rfl rfl rfl (prepares_afterDrop _)
  | destroy =>
    exact .of_entry rfl rfl rfl
      (forall_prepares_cons ⟨rfl, rfl⟩ (forall_prepares_cons ⟨rfl, rfl⟩ forall_prepares_nil))
  | @release T =>
    obtain ⟨hentry, -, admission, heq⟩ := registry_releaseLease s T
    exact .of_entry hentry (by rw [heq]) (by rw [heq]) forall_prepares_nil
  | _ => cases hf

/-! ## Runs -/

/-- The state of a server that only prepares and whose handlers spare each other. -/
structure Undisturbed (c : Threads SidecarServer ι ServerCall) : Prop where
  running : c.shared.registry.stopped = false
  prepares : ∀ t, ∀ f ∈ c.calls t, f.prepares = true
  unclaimed : ∀ T, (c.shared.entry T).claimed = false
  delivered : ∀ e ∈ c.shared.registry.delivered, (c.shared.entry e.ticket).terminal = false
  delivering : ∀ t, ∀ f ∈ c.calls t, ∀ T, delivering? f = some T →
    (c.shared.entry T).terminal = false

theorem eq_of_getsInfo (h : getsInfo f = true) :
    ∃ command, f = .registry (.getFlightInfo command) := by
  cases f with
  | registry g =>
    cases g with
    | getFlightInfo command => exact ⟨command, rfl⟩
    | _ => cases h
  | _ => cases h

theorem undisturbed_step (hrun : (program cfg ι).machine.run (init cfg ι) ms = some c)
    (hc : Undisturbed c) (hprepares : Prepares m) (hspares : Spares c m)
    (hstep : (program cfg ι).machine.step c m = some c') : Undisturbed c' := by
  cases m with
  | call t f =>
    obtain ⟨command, rfl⟩ := eq_of_getsInfo hprepares
    obtain ⟨hstack, s, hcall, rfl⟩ := Program.step_call_eq_some.mp hstep
    obtain rfl : c.shared = s := Option.some.inj hcall
    exact {
      running := hc.running
      prepares := Program.forall_calls_update (List.forall_mem_singleton.mpr rfl)
        fun u _ ↦ hc.prepares u
      unclaimed := hc.unclaimed
      delivered := hc.delivered
      delivering := Program.forall_calls_update (List.forall_mem_singleton.mpr nofun)
        fun u _ ↦ hc.delivering u }
  | exec t k =>
    obtain ⟨f, rest, s, new, hstack, hexec, rfl⟩ := Program.step_exec_eq_some.mp hstep
    have hmem : f ∈ c.calls t := by rw [hstack]; exact List.mem_cons_self
    have hrest : ∀ g ∈ rest, g ∈ c.calls t := fun g hg ↦ by
      rw [hstack]
      exact List.mem_cons_of_mem _ hg
    have hfresh : ∀ b T, f = .registry (.commit b T) → (c.shared.entry T).terminal = false := by
      rintro b T rfl
      rw [pristine_of_committing hrun hmem]
    obtain ⟨hrunning, hnew, hclaimed, hterminal, hdelivered, hdelivering⟩ :=
      undisturbing_of_effect (hc.prepares t f hmem) hfresh (hc.delivering t f hmem)
        (effect_of_step hrun hstack hexec)
    -- what was delivered, or is about to be, is not what this section ends
    have hopen : ∀ T, (c.shared.entry T).terminal = false →
        (T ∈ c.shared.registry.delivered.map (·.ticket) ∨
          ∃ u, ∃ g ∈ c.calls u, delivering? g = some T) → (s.entry T).terminal = false := by
      intro T hT hneeded
      rcases hterminal T with hended | hsame
      · obtain ⟨hdelivered', hdelivering'⟩ := hspares T (by rw [hstack]; exact hended)
        rcases hneeded with hmem' | ⟨u, g, hg, hgT⟩
        · exact absurd hmem' hdelivered'
        · exact absurd hgT (hdelivering' u g hg)
      · rw [hsame, hT]
    exact {
      running := hrunning.trans hc.running
      prepares := Program.forall_calls_update
        (List.forall_mem_append.mpr ⟨hnew, fun g hg ↦ hc.prepares t g (hrest g hg)⟩)
        fun u _ ↦ hc.prepares u
      unclaimed := fun T ↦ (hclaimed T).trans (hc.unclaimed T)
      delivered := fun e he ↦ by
        rcases hdelivered e he with hold | hdelivers
        · exact hopen _ (hc.delivered e hold) (.inl (List.mem_map_of_mem hold))
        · exact hopen _ (hc.delivering t f hmem _ hdelivers) (.inr ⟨t, f, hmem, hdelivers⟩)
      delivering := Program.forall_calls_update
        (List.forall_mem_append.mpr ⟨hdelivering, fun g hg T hT ↦
          hopen T (hc.delivering t g (hrest g hg) T hT) (.inr ⟨t, g, hrest g hg, hT⟩)⟩)
        fun u _ g hg T hT ↦ hopen T (hc.delivering u g hg T hT) (.inr ⟨u, g, hg, hT⟩) }
  | ambient a =>
    obtain ⟨s, ha, rfl⟩ := Program.step_ambient_eq_some.mp hstep
    simp only [program] at ha
    split_ifs at ha
    obtain ⟨i, -, rfl⟩ := Option.map_eq_some_iff.mp ha
    have hcontrol := control_setEntry (s := c.shared) (T := a.1)
      (e := (c.shared.entry a.1).setInput a.2.1 i) rfl
    exact {
      running := hc.running
      prepares := hc.prepares
      unclaimed := fun T ↦ (congrArg EntryControl.claimed (hcontrol T)).trans (hc.unclaimed T)
      delivered := fun e he ↦
        (congrArg EntryControl.terminal (hcontrol e.ticket)).trans (hc.delivered e he)
      delivering := fun t f hf T hT ↦
        (congrArg EntryControl.terminal (hcontrol T)).trans (hc.delivering t f hf T hT) }

theorem undisturbed_run (hrun : (program cfg ι).machine.run (init cfg ι) ms = some c)
    (hprepares : ∀ m ∈ ms, Prepares m)
    (hspares : (program cfg ι).machine.Meets Spares (init cfg ι) ms) :
    Undisturbed c := by
  refine Machine.run_induction (P := fun ms c ↦ (∀ m ∈ ms, Prepares m) →
    (program cfg ι).machine.Meets Spares (init cfg ι) ms → Undisturbed c)
      ?_ ?_ hrun hprepares hspares
  · intro _ _
    exact ⟨rfl, nofun, fun _ ↦ rfl, nofun, nofun⟩
  · intro ms c m c' hrun ih hstep hprepares hspares
    obtain ⟨hbefore, hlast⟩ := Machine.meets_concat_iff.mp hspares
    have hc := ih (fun m hm ↦ hprepares m (List.mem_append_left _ hm)) hbefore
    exact undisturbed_step hrun hc (hprepares m (List.mem_append_right _ List.mem_cons_self))
      (hlast c hrun) hstep

/-- **A retry's ticket is not lost** to the first caller's connection: in every run of handlers of
`GetFlightInfo`, of which none ends an execution whose ticket another one has delivered or is about
to deliver, every delivered ticket can be claimed. -/
theorem retry_claimable (cfg : SidecarConfig)
    (ms : List (Move ι ServerCall ServerAnswer (Bytes × Bytes × InputTraffic)))
    (c : Threads SidecarServer ι ServerCall) (hprepares : ∀ m ∈ ms, Prepares m)
    (hspares : (program cfg ι).machine.Meets Spares (init cfg ι) ms)
    (hrun : (program cfg ι).machine.run (init cfg ι) ms = some c) :
    ∀ e ∈ c.shared.registry.delivered, Claimable c.shared e.ticket := by
  intro e he
  obtain ⟨hrunning, -, hunclaimed, hdelivered, -⟩ := undisturbed_run hrun hprepares hspares
  obtain ⟨⟨hF, hs⟩, -⟩ := run_invariant hrun
  have hopen := hdelivered e he
  refine ⟨hrunning, ?_, by rw [EntryControl.replayable, hunclaimed, hopen]; rfl⟩
  rcases hs.delivered e he with hlookup | hnotified
  · rw [hlookup]
    rfl
  · -- the terminal callback has not run, since the execution is not terminal
    have hquiesced := (quiesced_of_notified hrun hnotified).1
    rw [((hF.entries e.ticket).sound.quiesced hquiesced).1] at hopen
    cases hopen

/-- The command is sent twice, and the second handler is given the entry of the first and delivers
its ticket. -/
def retried : List (Move Bool ServerCall ServerAnswer (Bytes × Bytes × InputTraffic)) :=
  [.call false (.registry (.getFlightInfo (some TicketRegistry.oneCommand))), .exec false {},
    .exec false {}, .exec false { registry := { ticket := some [7] } }, .exec false {},
    .exec false {}, .call true (.registry (.getFlightInfo (some TicketRegistry.oneCommand))),
    .exec true {}, .exec true {}, .exec true {}, .exec true {}, .exec true {}]

theorem retry_claimable_retried :
    ∃ c, (program oneExecution Bool).machine.run (init oneExecution Bool)
        (retried ++ [.exec false {}]) = some c ∧
      c.shared.registry.delivered.map (·.ticket) = [[7], [7]] ∧
      ∀ e ∈ c.shared.registry.delivered, Claimable c.shared e.ticket := by
  have hdelivered : ((program oneExecution Bool).machine.run (init oneExecution Bool)
      (retried ++ [.exec false {}])).map (fun c ↦ c.shared.registry.delivered.map (·.ticket))
        = some [[7], [7]] := by
    decide +kernel
  have hprepares : ∀ m ∈ retried ++ [.exec false {}], Prepares m := by
    decide
  have hspares : (program oneExecution Bool).machine.Meets Spares (init oneExecution Bool)
      (retried ++ [.exec false {}]) := by
    decide +kernel
  obtain ⟨c, hrun, hc⟩ := Option.map_eq_some_iff.mp hdelivered
  exact ⟨c, hrun, hc, retry_claimable oneExecution _ c hprepares hspares hrun⟩

/-- The first handler finds its client gone and ends the entry, and the second one's ticket cannot
be claimed any more. -/
theorem retry_unclaimable :
    ∃ c, (program oneExecution Bool).machine.run (init oneExecution Bool)
        (retried ++ [.exec false { registry := { stopped := true } }, .exec false {}]) = some c ∧
      (∀ m ∈ retried ++ [.exec false { registry := { stopped := true } }, .exec false {}],
        Prepares m) ∧
      ∃ e ∈ c.shared.registry.delivered, ¬Claimable c.shared e.ticket := by
  have hdelivered : ((program oneExecution Bool).machine.run (init oneExecution Bool)
      (retried ++ [.exec false { registry := { stopped := true } }, .exec false {}])).map
        (fun c ↦ decide (∃ e ∈ c.shared.registry.delivered,
          (c.shared.entry e.ticket).replayable = false)) = some true := by
    decide +kernel
  obtain ⟨c, hrun, hc⟩ := Option.map_eq_some_iff.mp hdelivered
  obtain ⟨e, he, hlost⟩ := of_decide_eq_true hc
  refine ⟨c, hrun, by decide, e, he, fun hclaimable ↦ ?_⟩
  rw [hclaimable.replayable] at hlost
  cases hlost

end SidecarServer

end MoSidecar
