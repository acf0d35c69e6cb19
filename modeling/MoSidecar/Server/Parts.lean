import MoSidecar.Server.Program

/-!
# The registry and the entries as parts of the server

A section of the server is at most one section of the registry, and for each ticket some sections of
its entry. So what was proved of the registry alone and of an execution alone, for any threads,
holds of them within the server.
-/

open Function (update)

namespace MoSidecar

namespace SidecarServer

variable {cfg : SidecarConfig} {ι : Type*} {s s' : SidecarServer} {k : ServerAnswer}
  {new : List ServerCall} {T : Bytes}

/-! ## Frames -/

/-- The call of the registry that a call of the server stands for. -/
def toRegistry : ServerCall → Option RegistryCall
  | .registry f => some f
  | .joining identity e _ | .reply identity e _ => some (.joinEntry identity e)
  | _ => none

/-- The call of an entry that a call of the server stands for. -/
def toEntry (T : Bytes) : ServerCall → Option EntryCall
  | .entry ticket _ f => if ticket = T then some f else none
  | .joining _ e f => if e.ticket = T then some f else none
  | _ => none

theorem toRegistry_map_registry (fs : List RegistryCall) :
    (fs.map .registry).filterMap toRegistry = fs := by
  rw [List.filterMap_map]
  exact List.filterMap_some

theorem toRegistry_flatMap {g : RegistryCall → List ServerCall}
    (hg : ∀ f, (g f).filterMap toRegistry = [f]) (fs : List RegistryCall) :
    (fs.flatMap g).filterMap toRegistry = fs := by
  induction fs with
  | nil => rfl
  | cons f fs ih => rw [List.flatMap_cons, List.filterMap_append, hg, ih, List.singleton_append]

theorem toRegistry_resume (f : RegistryCall) : (resume f).filterMap toRegistry = [f] := by
  cases f <;> rfl

theorem toRegistry_map_entry (ticket : Bytes) (worker : Bool) (fs : List EntryCall) :
    (fs.map (.entry ticket worker)).filterMap toRegistry = [] := by
  rw [List.filterMap_map]
  exact List.filterMap_none fs

theorem toRegistry_map_drop (tickets : List Bytes) :
    (tickets.map .drop).filterMap toRegistry = [] := by
  rw [List.filterMap_map]
  exact List.filterMap_none tickets

theorem toEntry_map_entry (ticket : Bytes) (worker : Bool) (fs : List EntryCall) :
    (fs.map (.entry ticket worker)).filterMap (toEntry T) = if ticket = T then fs else [] := by
  rw [List.filterMap_map]
  split_ifs with h
  · simp [toEntry, h]
  · simp [toEntry, h]

theorem toEntry_map_registry (fs : List RegistryCall) :
    (fs.map .registry).filterMap (toEntry T) = [] := by
  rw [List.filterMap_map]
  exact List.filterMap_none fs

theorem toEntry_map_drop (tickets : List Bytes) :
    (tickets.map .drop).filterMap (toEntry T) = [] := by
  rw [List.filterMap_map]
  exact List.filterMap_none tickets

theorem toEntry_afterDrop (s : SidecarServer) (ticket : Bytes) :
    (s.afterDrop ticket).filterMap (toEntry T) = [] := by
  rw [afterDrop]
  split_ifs <;> rfl

theorem toRegistry_afterDrop (s : SidecarServer) (ticket : Bytes) :
    (s.afterDrop ticket).filterMap toRegistry = [] := by
  rw [afterDrop]
  split_ifs <;> rfl

/-! ## What pointers leave alone -/

@[simp] theorem registry_retain (ticket : Bytes) : (s.retain ticket).registry = s.registry := rfl

@[simp] theorem entry_retain (ticket : Bytes) : (s.retain ticket).entry = s.entry := rfl

@[simp] theorem registry_giveUp (ticket : Bytes) : (s.giveUp ticket).registry = s.registry := rfl

@[simp] theorem entry_giveUp (ticket : Bytes) : (s.giveUp ticket).entry = s.entry := rfl

@[simp] theorem registry_setEntry (ticket : Bytes) (e : ExecutionEntry) :
    (s.setEntry ticket e).registry = s.registry := rfl

@[simp] theorem entry_setEntry_self (ticket : Bytes) (e : ExecutionEntry) :
    (s.setEntry ticket e).entry ticket = e := Function.update_self ..

theorem entry_setEntry_of_ne {ticket : Bytes} (h : T ≠ ticket) (e : ExecutionEntry) :
    (s.setEntry ticket e).entry T = s.entry T := Function.update_of_ne h ..

@[simp] theorem registry_foldl_retain (tickets : List Bytes) :
    (tickets.foldl retain s).registry = s.registry := by
  induction tickets generalizing s with
  | nil => rfl
  | cons ticket tickets ih => rw [List.foldl_cons, ih, registry_retain]

@[simp] theorem entry_foldl_retain (tickets : List Bytes) :
    (tickets.foldl retain s).entry = s.entry := by
  induction tickets generalizing s with
  | nil => rfl
  | cons ticket tickets ih => rw [List.foldl_cons, ih, entry_retain]

@[simp] theorem registry_registrySection (r : TicketRegistry × List RegistryCall) :
    (s.registrySection r).1.registry = r.1 := by
  simp [registrySection]

@[simp] theorem entry_registrySection (r : TicketRegistry × List RegistryCall) :
    (s.registrySection r).1.entry = s.entry := by
  simp [registrySection]

theorem sweep_eq_some {cause : Cause} {r : TicketRegistry} {tickets order : List Bytes}
    (h : s.sweep cause r tickets order = some (s', new)) :
    order.Perm tickets ∧ s' = order.foldl retain { s with registry := r } ∧
      new = [.each cause order order] := by
  rw [sweep] at h
  split_ifs at h with hperm
  obtain ⟨rfl, rfl⟩ := Prod.mk.inj (Option.some.inj h)
  exact ⟨hperm, rfl, rfl⟩

/-! ## The registry -/

theorem registry_of_section {r : Option (TicketRegistry × List RegistryCall)}
    (h : r.map s.registrySection = some (s', new)) :
    r = some (s'.registry, new.filterMap toRegistry) := by
  obtain ⟨r', rfl, heq⟩ := Option.map_eq_some_iff.mp h
  have hs' : s' = (s.registrySection r').1 := by rw [heq]
  have hnew : new = r'.2.flatMap resume := (congrArg Prod.snd heq).symm
  rw [hs', registry_registrySection, hnew, toRegistry_flatMap toRegistry_resume]

/-- A call of the registry within the server runs a section of the registry. -/
theorem execRegistry_registry {f : RegistryCall} (h : s.execRegistry cfg f k = some (s', new)) :
    ∃ a, s.registry.exec cfg.toRegistryConfig f a =
      some (s'.registry, new.filterMap toRegistry) := by
  cases f with
  | replay command e =>
    simp only [execRegistry, Option.map_eq_some_iff, Prod.mk.injEq] at h
    obtain ⟨⟨r, calls⟩, hr, rfl, rfl⟩ := h
    refine ⟨_, hr.trans ?_⟩
    split_ifs with haccepts
    · rw [toRegistry_map_registry]
    · simp only [TicketRegistry.exec, if_neg haccepts, Option.some.injEq, Prod.mk.injEq] at hr
      rw [← hr.2]
      rfl
  | construct b ticket =>
    simp only [execRegistry] at h
    split_ifs at h
    exact ⟨k.registry, registry_of_section h⟩
  | releaseReservation b built what =>
    simp only [execRegistry, Option.map_eq_some_iff, Prod.mk.injEq] at h
    obtain ⟨⟨r, calls⟩, hr, rfl, rfl⟩ := h
    refine ⟨_, hr.trans ?_⟩
    rw [List.filterMap_append, toRegistry_map_registry]
    cases built <;> rfl
  | commit b ticket =>
    simp only [execRegistry, Option.map_eq_some_iff, Prod.mk.injEq] at h
    obtain ⟨⟨r, calls⟩, hr, rfl, rfl⟩ := h
    refine ⟨_, hr.trans ?_⟩
    have hregistry : (if s.registry.stopped = true then { s with registry := r }
        else ({ s with registry := r } : SidecarServer).retain ticket).registry = r := by
      split_ifs <;> rfl
    have hafter : ∀ f, (s.afterCommit ticket f).filterMap toRegistry = [f] := fun f ↦ by
      cases f <;> rfl
    rw [hregistry]
    cases calls with
    | nil => rfl
    | cons g calls =>
      rw [if_neg (by simp), toRegistry_flatMap hafter]
  | deliver e =>
    simp only [execRegistry, Option.map_eq_some_iff, Prod.mk.injEq] at h
    obtain ⟨⟨r, calls⟩, hr, rfl, rfl⟩ := h
    refine ⟨_, hr.trans ?_⟩
    simp only [TicketRegistry.exec] at hr
    split_ifs at hr ⊢ <;> cases hr <;> rfl
  | claimEntry e =>
    simp only [execRegistry, Option.map_eq_some_iff, Prod.mk.injEq] at h
    obtain ⟨⟨r, calls⟩, hr, rfl, rfl⟩ := h
    refine ⟨_, hr.trans ?_⟩
    simp only [TicketRegistry.exec] at hr
    split_ifs at hr ⊢ <;> cases hr <;> rfl
  | lookup ticket =>
    simp only [execRegistry] at h
    split_ifs at h <;> cases h
    · exact ⟨{}, rfl⟩
    · exact ⟨{}, rfl⟩
  | sealGpuUnavailable =>
    simp only [execRegistry] at h
    split_ifs at h with hsealed
    · cases h
      refine ⟨{}, ?_⟩
      simp only [TicketRegistry.exec, TicketRegistry.sealGpuUnavailable, if_pos hsealed]
      rfl
    · obtain ⟨-, rfl, rfl⟩ := sweep_eq_some h
      refine ⟨{}, ?_⟩
      rw [registry_foldl_retain]
      rfl
  | stopAdmissionAndCancel =>
    obtain ⟨-, rfl, rfl⟩ := sweep_eq_some h
    refine ⟨{}, ?_⟩
    rw [registry_foldl_retain]
    rfl
  | reap =>
    simp only [execRegistry] at h
    split_ifs at h
    · cases h
      exact ⟨{}, rfl⟩
    · obtain ⟨-, rfl, rfl⟩ := sweep_eq_some h
      refine ⟨{}, ?_⟩
      rw [registry_foldl_retain]
      rfl
  | joinEntry identity e => cases h
  | _ =>
    exact ⟨k.registry, registry_of_section h⟩

theorem ne_start_of_execEntry {ticket : Bytes} {worker : Bool} {f : EntryCall} {a : EntryAnswer}
    (h : s.execEntry cfg ticket worker f a = some (s', new)) : f ≠ .start := by
  intro hf
  rw [execEntry, if_pos hf] at h
  cases h

/-- What the terminal callback does to the registry, and otherwise nothing is done to it. -/
theorem execEntry_registry {ticket : Bytes} {worker : Bool} {f : EntryCall} {a : EntryAnswer}
    (h : s.execEntry cfg ticket worker f a = some (s', new)) :
    (f = .onTerminal ∧ s'.registry = s.registry.remove ticket ∧ new.filterMap toRegistry = []) ∨
      s'.registry = s.registry ∧ (new.filterMap toRegistry = [] ∨
        f = .run ∧ new.filterMap toRegistry = [.sealGpuUnavailable]) := by
  have hf := ne_start_of_execEntry h
  rw [execEntry, if_neg hf] at h
  obtain ⟨r, hr, heq⟩ := Option.map_eq_some_iff.mp h
  have hnone := toRegistry_map_entry ticket worker r.2
  cases f with
  | onTerminal =>
    refine .inl ⟨rfl, ?_⟩
    simp only at heq
    split_ifs at heq with hlisted <;> obtain ⟨rfl, rfl⟩ := Prod.mk.inj heq
    · exact ⟨rfl, toRegistry_afterDrop s ticket⟩
    · rw [Option.not_isSome_iff_eq_none] at hlisted
      refine ⟨?_, hnone⟩
      rw [TicketRegistry.remove, hlisted]
      rfl
  | start => exact absurd rfl hf
  | run =>
    refine .inr ?_
    simp only at heq
    split_ifs at heq <;> obtain ⟨rfl, rfl⟩ := Prod.mk.inj heq
    · exact ⟨rfl, .inl (toRegistry_afterDrop s ticket)⟩
    · refine ⟨rfl, .inr ⟨rfl, ?_⟩⟩
      exact congrArg (RegistryCall.sealGpuUnavailable :: ·) hnone
    · exact ⟨rfl, .inl hnone⟩
  | _ =>
    obtain ⟨rfl, rfl⟩ := Prod.mk.inj heq
    exact .inr ⟨rfl, .inl hnone⟩

/-- `cancel_and_join` goes on, or comes to its end. -/
theorem joining_eq_some {identity : CancelIdentity} {e : PreparedEntry} {f : EntryCall}
    (h : s.exec cfg (.joining identity e f) k = some (s', new)) :
    ∃ r, (s.entry e.ticket).exec (cfg.executions e.ticket) (some ()) f k.entry = some r ∧
      s' = s.setEntry e.ticket r.1 ∧
        ((r.2 = [] ∧ new = [.drop e.ticket, .reply identity e (f = .join true)]) ∨
          ∃ g, r.2 = [g] ∧ new = [.joining identity e g]) := by
  simp only [exec] at h
  split_ifs at h with hjoins
  obtain ⟨⟨e', calls⟩, hr, heq⟩ := Option.map_eq_some_iff.mp h
  obtain ⟨rfl, rfl⟩ := Prod.mk.inj heq
  refine ⟨_, hr, rfl, ?_⟩
  have hcalls : calls = [] ∨ ∃ g, calls = [g] := by
    cases ExecutionEntry.section_of_exec hr with
    | awaited | unquiet | pollWaiting => exact .inr ⟨_, rfl⟩
    | gaveUp | joinNobody | join => exact .inl rfl
    | _ => cases hjoins
  rcases hcalls with rfl | ⟨g, rfl⟩
  · exact .inl ⟨rfl, rfl⟩
  · exact .inr ⟨g, rfl, rfl⟩

/-- The registry is a part of the server. -/
theorem registry_part (cfg : SidecarConfig) (ι : Type*) :
    Program.Part (program cfg ι) (TicketRegistry.program cfg.toRegistryConfig Unit) (·.registry)
      toRegistry where
  call {s t f s'} hcall := by
    cases f with
    | registry f =>
      obtain ⟨r, hr, rfl⟩ := Option.map_eq_some_iff.mp hcall
      exact .enter (t := ()) hr
    | entry ticket worker f =>
      cases worker with
      | true =>
        obtain ⟨e, -, rfl⟩ := Option.map_eq_some_iff.mp hcall
        exact .refl
      | false => cases hcall
    | _ => cases hcall
  exec {s t f k s' new} hexec := by
    replace hexec : s.exec cfg f k = some (s', new) := hexec
    cases f with
    | registry f =>
      obtain ⟨a, ha⟩ := execRegistry_registry hexec
      exact .single (t := ()) (k := a) ha
    | entry ticket worker f =>
      rcases execEntry_registry hexec with ⟨-, hs, hnew⟩ | ⟨hs, hnew | ⟨-, hnew⟩⟩ <;> rw [hs, hnew]
      · exact Program.Moves.refl.ambient (a := .remove ticket) rfl
      · exact .refl
      · exact .enter (t := ()) rfl
    | joining identity e f =>
      obtain ⟨r, -, rfl, hnew⟩ := joining_eq_some hexec
      rcases hnew with ⟨-, rfl⟩ | ⟨g, -, rfl⟩ <;> exact .refl
    | reply identity e quiesced =>
      obtain ⟨rfl, rfl⟩ := Prod.mk.inj (Option.some.inj hexec)
      exact .single (t := ()) (k := { accepts := quiesced }) rfl
    | opening ticket =>
      obtain ⟨rfl, rfl⟩ := Prod.mk.inj (Option.some.inj hexec)
      split_ifs <;> exact .refl
    | results ticket =>
      obtain ⟨rfl, rfl⟩ := Prod.mk.inj (Option.some.inj hexec)
      split_ifs <;> exact .refl
    | each cause todo held =>
      cases todo with
      | nil =>
        obtain ⟨rfl, rfl⟩ := Prod.mk.inj (Option.some.inj hexec)
        rw [toRegistry_map_drop]
        exact .refl
      | cons ticket todo =>
        obtain ⟨r, -, heq⟩ := Option.map_eq_some_iff.mp hexec
        obtain ⟨rfl, rfl⟩ := Prod.mk.inj heq
        rw [List.filterMap_append, toRegistry_map_entry]
        exact .refl
    | drop ticket =>
      obtain ⟨rfl, rfl⟩ := Prod.mk.inj (Option.some.inj hexec)
      rw [toRegistry_afterDrop]
      exact .refl
    | destroy ticket =>
      obtain ⟨rfl, rfl⟩ := Prod.mk.inj (Option.some.inj hexec)
      exact .refl
    | release ticket =>
      obtain ⟨rfl, rfl⟩ := Prod.mk.inj (Option.some.inj hexec)
      rw [releaseLease]
      split
      · exact .refl
      · next e _ => exact Program.Moves.refl.ambient (a := .releaseLease e.lease) rfl
  ambient {s a s'} ha := by
    simp only [program] at ha
    split_ifs at ha
    obtain ⟨i, -, rfl⟩ := Option.map_eq_some_iff.mp ha
    exact .refl

/-! ## The entries -/

/-- The program of the entry of a ticket. -/
abbrev entryProgram (cfg : SidecarConfig) (T : Bytes) :
    Program ExecutionEntry (Option Unit) EntryCall EntryAnswer (Bytes × InputTraffic) :=
  ExecutionEntry.program (cfg.executions T) Unit

/-- What one entry does, seen from any other entry too. -/
theorem moves_setEntry (cfg : SidecarConfig) {ticket : Bytes} {e : ExecutionEntry}
    {fs fs' : List EntryCall}
    (h : (entryProgram cfg ticket).Moves (s.entry ticket) fs e fs') :
    (entryProgram cfg T).Moves (s.entry T) (if ticket = T then fs else [])
      ((s.setEntry ticket e).entry T) (if ticket = T then fs' else []) := by
  by_cases hT : ticket = T
  · subst hT
    rw [if_pos rfl, if_pos rfl, entry_setEntry_self]
    exact h
  · rw [if_neg hT, if_neg hT, entry_setEntry_of_ne (Ne.symm hT)]
    exact .refl

/-- Entries stay as they are, and calls of them are entered. -/
abbrev Enters (cfg : SidecarConfig) (s : SidecarServer) (T : Bytes) (new : List ServerCall) :
    Prop :=
  ∀ fs, (entryProgram cfg T).Moves (s.entry T) [] (s.entry T) fs →
    (entryProgram cfg T).Moves (s.entry T) [] (s.entry T) (new.filterMap (toEntry T) ++ fs)

theorem enters_of_none (hnew : new.filterMap (toEntry T) = []) : Enters cfg s T new := by
  intro fs h
  rw [hnew]
  exact h

theorem enters_call {ticket : Bytes} {f : EntryCall} {rest : List ServerCall}
    (hcall : ∀ e : ExecutionEntry, e.call (some ()) f = some e)
    (hrest : rest.filterMap (toEntry T) = []) :
    Enters cfg s T (.entry ticket false f :: rest) := by
  intro fs h
  by_cases hT : ticket = T
  · subst hT
    rw [List.filterMap_cons_some (b := f) (by simp [toEntry]), hrest]
    exact h.call (t := some ()) (hcall _)
  · rw [List.filterMap_cons_none (by simp [toEntry, hT]), hrest]
    exact h

theorem enters_flatMap {g : RegistryCall → List ServerCall} (hg : ∀ f, Enters cfg s T (g f))
    (fs : List RegistryCall) : Enters cfg s T (fs.flatMap g) := by
  induction fs with
  | nil => exact enters_of_none rfl
  | cons f fs ih =>
    intro calls h
    rw [List.flatMap_cons, List.filterMap_append, List.append_assoc]
    exact hg f _ (ih calls h)

/-- The calls that a section of the registry leaves begin nothing but `cancel_and_join`. -/
theorem enters_resume (f : RegistryCall) : Enters cfg s T (resume f) := by
  cases f with
  | joinEntry identity e =>
    intro fs h
    by_cases hT : e.ticket = T
    · have hcalls : (resume (.joinEntry identity e)).filterMap (toEntry T)
          = [.cancel false, .awaitQuiesced] := by
        simp [resume, toEntry, hT]
      rw [hcalls]
      exact (h.call (t := some ()) (g := .cancelAndJoin false) rfl).exec (t := some ())
        (k := {}) rfl
    · have hcalls : (resume (.joinEntry identity e)).filterMap (toEntry T) = [] := by
        simp [resume, toEntry, hT]
      rw [hcalls]
      exact h
  | _ => exact enters_of_none rfl

theorem enters_afterCommit (ticket : Bytes) (f : RegistryCall) :
    Enters cfg s T (s.afterCommit ticket f) := by
  cases f with
  | abandon command status =>
    refine enters_call (fun e ↦ ?_) rfl
    split_ifs <;> rfl
  | _ => exact enters_of_none rfl

theorem Enters.moves (h : Enters cfg s T new) (hs : s'.entry = s.entry) :
    (entryProgram cfg T).Moves (s.entry T) [] (s'.entry T) (new.filterMap (toEntry T)) := by
  rw [hs]
  simpa using h [] .refl

theorem enters_section {r : Option (TicketRegistry × List RegistryCall)}
    (h : r.map s.registrySection = some (s', new)) :
    (entryProgram cfg T).Moves (s.entry T) [] (s'.entry T) (new.filterMap (toEntry T)) := by
  obtain ⟨r', -, heq⟩ := Option.map_eq_some_iff.mp h
  have hs' : s' = (s.registrySection r').1 := by rw [heq]
  have hnew : new = r'.2.flatMap resume := (congrArg Prod.snd heq).symm
  rw [hnew]
  refine (enters_flatMap enters_resume r'.2).moves ?_
  rw [hs', entry_registrySection]

theorem execRegistry_entry {f : RegistryCall} (h : s.execRegistry cfg f k = some (s', new)) :
    (entryProgram cfg T).Moves (s.entry T) [] (s'.entry T) (new.filterMap (toEntry T)) := by
  have hsection : s.execRegistry cfg f k
      = (s.registry.exec cfg.toRegistryConfig f k.registry).map s.registrySection →
        (entryProgram cfg T).Moves (s.entry T) [] (s'.entry T) (new.filterMap (toEntry T)) :=
    fun heq ↦ enters_section (heq.symm.trans h)
  cases f with
  | replay command e =>
    simp only [execRegistry, Option.map_eq_some_iff, Prod.mk.injEq] at h
    obtain ⟨⟨r, calls⟩, -, rfl, rfl⟩ := h
    refine (enters_of_none ?_).moves rfl
    split_ifs
    · exact toEntry_map_registry calls
    · rfl
  | construct b ticket =>
    simp only [execRegistry] at h
    split_ifs at h
    exact enters_section h
  | releaseReservation b built what =>
    simp only [execRegistry, Option.map_eq_some_iff, Prod.mk.injEq] at h
    obtain ⟨⟨r, calls⟩, -, rfl, rfl⟩ := h
    refine (enters_of_none ?_).moves rfl
    rw [List.filterMap_append, toEntry_map_registry]
    cases built <;> rfl
  | commit b ticket =>
    simp only [execRegistry, Option.map_eq_some_iff, Prod.mk.injEq] at h
    obtain ⟨⟨r, calls⟩, -, rfl, rfl⟩ := h
    refine Enters.moves ?_ (by split_ifs <;> rfl)
    split_ifs
    · exact enters_of_none rfl
    · exact enters_flatMap (enters_afterCommit ticket) calls
  | deliver e =>
    simp only [execRegistry, Option.map_eq_some_iff, Prod.mk.injEq] at h
    obtain ⟨⟨r, calls⟩, -, rfl, rfl⟩ := h
    refine Enters.moves ?_ rfl
    split_ifs
    · exact enters_call (fun _ ↦ rfl) rfl
    · exact enters_of_none rfl
  | claimEntry e =>
    simp only [execRegistry, Option.map_eq_some_iff, Prod.mk.injEq] at h
    obtain ⟨⟨r, calls⟩, -, rfl, rfl⟩ := h
    have hclaim : (entryProgram cfg e.ticket).Moves (s.entry e.ticket) []
        ((s.entry e.ticket).setControl (s.entry e.ticket).claim) [] :=
      .callExec (t := some ()) (g := .claim) (k := {}) rfl rfl
    have hmoves := moves_setEntry cfg (T := T) hclaim
    rw [ite_self] at hmoves
    split_ifs <;> exact hmoves
  | lookup ticket =>
    simp only [execRegistry] at h
    split_ifs at h <;> obtain ⟨rfl, rfl⟩ := Prod.mk.inj (Option.some.inj h)
    · exact .refl
    · exact (enters_call (fun _ ↦ rfl) rfl).moves rfl
  | sealGpuUnavailable =>
    simp only [execRegistry] at h
    split_ifs at h with hsealed
    · cases h
      exact .refl
    · obtain ⟨-, rfl, rfl⟩ := sweep_eq_some h
      exact (enters_of_none rfl).moves (entry_foldl_retain _)
  | stopAdmissionAndCancel =>
    obtain ⟨-, rfl, rfl⟩ := sweep_eq_some h
    exact (enters_of_none rfl).moves (entry_foldl_retain _)
  | reap =>
    simp only [execRegistry] at h
    split_ifs at h
    · cases h
      exact .refl
    · obtain ⟨-, rfl, rfl⟩ := sweep_eq_some h
      exact (enters_of_none rfl).moves (entry_foldl_retain _)
  | joinEntry identity e => cases h
  | _ => exact hsection rfl

/-- A call of an entry within the server runs a section of the entry. -/
theorem execEntry_entry {ticket : Bytes} {worker : Bool} {f : EntryCall} {a : EntryAnswer}
    (h : s.execEntry cfg ticket worker f a = some (s', new)) :
    ∃ r, (s.entry ticket).exec (cfg.executions ticket) (if worker then none else some ()) f
        { a with seals := false } = some r ∧ s'.entry = (s.setEntry ticket r.1).entry ∧
      ∀ T, new.filterMap (toEntry T) = if ticket = T then r.2 else [] := by
  have hf := ne_start_of_execEntry h
  rw [execEntry, if_neg hf] at h
  obtain ⟨r, hr, heq⟩ := Option.map_eq_some_iff.mp h
  have hnew : ∀ T, (r.2.map (.entry ticket worker)).filterMap (toEntry T)
      = if ticket = T then r.2 else [] := fun T ↦ toEntry_map_entry ticket worker r.2
  refine ⟨r, hr, ?_⟩
  cases f with
  | onTerminal =>
    obtain rfl := Option.some.inj hr
    simp only at heq
    split_ifs at heq <;> obtain ⟨rfl, rfl⟩ := Prod.mk.inj heq
    · exact ⟨rfl, fun T ↦ by rw [toEntry_afterDrop, ite_self]⟩
    · exact ⟨rfl, hnew⟩
  | start => exact absurd rfl hf
  | run =>
    simp only at heq
    split_ifs at heq with hend <;> obtain ⟨rfl, rfl⟩ := Prod.mk.inj heq
    · refine ⟨rfl, fun T ↦ ?_⟩
      have hnil : r.2 = [] := by simpa using hend
      rw [toEntry_afterDrop, hnil, ite_self]
    · exact ⟨rfl, hnew⟩
    · exact ⟨rfl, hnew⟩
  | _ =>
    obtain ⟨rfl, rfl⟩ := Prod.mk.inj heq
    exact ⟨rfl, hnew⟩

/-- Every entry is a part of the server. -/
theorem entry_part (cfg : SidecarConfig) (ι : Type*) (T : Bytes) :
    Program.Part (program cfg ι) (entryProgram cfg T) (·.entry T) (toEntry T) where
  call {s t f s'} hcall := by
    cases f with
    | registry f =>
      obtain ⟨r, -, rfl⟩ := Option.map_eq_some_iff.mp hcall
      exact .refl
    | entry ticket worker f =>
      cases worker with
      | true =>
        obtain ⟨e, he, rfl⟩ := Option.map_eq_some_iff.mp hcall
        have hmoves := moves_setEntry cfg (T := T) (.enter (t := none) he)
        rw [ite_self] at hmoves
        convert hmoves using 1
        by_cases hT : ticket = T <;> simp [toEntry, hT]
      | false => cases hcall
    | _ => cases hcall
  exec {s t f k s' new} hexec := by
    replace hexec : s.exec cfg f k = some (s', new) := hexec
    cases f with
    | registry f => exact execRegistry_entry hexec
    | entry ticket worker f =>
      obtain ⟨r, hr, hs, hnew⟩ := execEntry_entry hexec
      have hmoves := moves_setEntry cfg (T := T) (.single hr)
      rw [hs, hnew]
      convert hmoves using 1
      by_cases hT : ticket = T <;> simp [toEntry, hT]
    | joining identity e f =>
      -- the frame of a cancellation that waits stands for the call it makes of its entry
      obtain ⟨r, hr, rfl, hnew⟩ := joining_eq_some hexec
      have hmoves := moves_setEntry cfg (T := T) (.single hr)
      rcases hnew with ⟨hnil, rfl⟩ | ⟨g, hone, rfl⟩
      · rw [hnil] at hmoves
        convert hmoves using 1
        by_cases hT : e.ticket = T <;> simp [toEntry, hT]
        by_cases hT : e.ticket = T <;> simp [toEntry, hT]
      · rw [hone] at hmoves
        convert hmoves using 1
        by_cases hT : e.ticket = T <;> simp [toEntry, hT]
        by_cases hT : e.ticket = T <;> simp [toEntry, hT]
    | reply identity e quiesced =>
      obtain ⟨rfl, rfl⟩ := Prod.mk.inj (Option.some.inj hexec)
      exact .refl
    | opening ticket =>
      obtain ⟨rfl, rfl⟩ := Prod.mk.inj (Option.some.inj hexec)
      have hstart : (entryProgram cfg ticket).Moves (s.entry ticket) []
          ((s.entry ticket).setControl (s.entry ticket).start) [] :=
        .callExec (t := some ()) (g := .start) (k := {}) rfl rfl
      have hmoves := moves_setEntry cfg (T := T) hstart
      rw [ite_self] at hmoves
      split_ifs <;> exact hmoves
    | results ticket =>
      obtain ⟨rfl, rfl⟩ := Prod.mk.inj (Option.some.inj hexec)
      refine Enters.moves ?_ rfl
      split_ifs
      · exact enters_call (fun _ ↦ rfl) rfl
      · exact enters_call (fun _ ↦ rfl) rfl
    | each cause todo held =>
      cases todo with
      | nil =>
        obtain ⟨rfl, rfl⟩ := Prod.mk.inj (Option.some.inj hexec)
        rw [toEntry_map_drop]
        exact .refl
      | cons ticket todo =>
        obtain ⟨⟨e, calls⟩, hr, heq⟩ := Option.map_eq_some_iff.mp hexec
        obtain ⟨rfl, rfl⟩ := Prod.mk.inj heq
        have hr' : (entryProgram cfg ticket).exec (s.entry ticket) (some ()) (.terminate cause) {}
            = some (e, calls) := hr
        have hcall : (entryProgram cfg ticket).call (s.entry ticket) (some ()) (.terminate cause)
            = some (s.entry ticket) := rfl
        have hmoves := moves_setEntry cfg (T := T) (.callExec hcall hr')
        rw [ite_self] at hmoves
        have hrest : ([.each cause todo held] : List ServerCall).filterMap (toEntry T) = [] := rfl
        rw [List.filterMap_append, toEntry_map_entry, hrest, List.append_nil]
        exact hmoves
    | drop ticket =>
      obtain ⟨rfl, rfl⟩ := Prod.mk.inj (Option.some.inj hexec)
      rw [toEntry_afterDrop]
      exact .refl
    | destroy ticket =>
      -- the destructor calls its own entry once more
      obtain ⟨rfl, rfl⟩ := Prod.mk.inj (Option.some.inj hexec)
      exact (enters_call (fun _ ↦ rfl) rfl).moves rfl
    | release ticket =>
      obtain ⟨rfl, rfl⟩ := Prod.mk.inj (Option.some.inj hexec)
      rw [releaseLease]
      split <;> exact .refl
  ambient {s a s'} ha := by
    simp only [program] at ha
    split_ifs at ha
    obtain ⟨i, hi, rfl⟩ := Option.map_eq_some_iff.mp ha
    have htraffic : (entryProgram cfg a.1).ambient (s.entry a.1) a.2
        = some ((s.entry a.1).setInput a.2.1 i) := Option.map_eq_some_iff.mpr ⟨i, hi, rfl⟩
    have hmoves : (entryProgram cfg a.1).Moves (s.entry a.1) []
        ((s.entry a.1).setInput a.2.1 i) [] :=
      Program.Moves.refl.ambient htraffic
    simpa only [ite_self] using moves_setEntry cfg (T := T) hmoves

end SidecarServer

end MoSidecar
