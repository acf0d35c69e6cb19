import MoSidecar.Execution.Quiescence
import MoSidecar.Registry.Sections
import MoSidecar.Server.Parts

/-!
# The sections of the server

What a section of the server does, listed once (`SidecarServer.Effect`): which pointers to entries
it takes, passes on or gives up, which entry it is a section of, and what it does to the registry.
The invariants of the server are each proved by cases on this list.
-/

open Function (update)

namespace MoSidecar

/-- Calls of the registry that have no pointer to an entry. -/
def RegistryCall.aside : RegistryCall → Bool
  | .construct .. | .commit .. | .releaseReservation _ (some _) _ | .replay .. | .deliver _
  | .claimEntry _ | .joinEntry .. | .sealGpuUnavailable | .stopAdmissionAndCancel => false
  | _ => true

/-- The entry that a call of the registry has found. -/
def RegistryCall.found? : RegistryCall → Option PreparedEntry
  | .replay _ e | .claimEntry e | .joinEntry _ e => some e
  | _ => none

namespace TicketRegistry

variable {cfg : RegistryConfig} {s r : TicketRegistry} {g : RegistryCall} {a : RegistryAnswer}
  {calls : List RegistryCall}

/-- The registry as far as its entries are concerned, and no entry is returned. -/
structure Apart (s r : TicketRegistry) : Prop where
  entries : r.entries = s.entries
  exposed : r.exposed = s.exposed
  drawn : s.drawn ⊆ r.drawn
  delivered : r.delivered = s.delivered
  stopped : r.stopped = s.stopped
  gpuUnavailable : r.gpuUnavailable = s.gpuUnavailable
  returns : s.returns ⊆ r.returns
  failed : ∀ ret ∈ r.returns, ret ∈ s.returns ∨ ret.outcome.fails = true

namespace Apart

theorem refl (s : TicketRegistry) : Apart s s :=
  ⟨rfl, rfl, List.Subset.refl _, rfl, rfl, rfl, List.Subset.refl _, fun _ ↦ .inl⟩

theorem returned {s' : TicketRegistry} (h : Apart s s') {command : Bytes} {outcome : PrepareOutcome}
    (hfails : outcome.fails = true) : Apart s (s'.returned command outcome) where
  entries := h.entries
  exposed := h.exposed
  drawn := h.drawn
  delivered := h.delivered
  stopped := h.stopped
  gpuUnavailable := h.gpuUnavailable
  returns := fun _ hret ↦ List.mem_append_left _ (h.returns hret)
  failed ret hret := by
    rcases List.mem_append.mp hret with hold | hnew
    · exact h.failed ret hold
    · rw [List.mem_singleton.mp hnew]
      exact .inr hfails

end Apart

/-- The ticket that a cancellation finds by an identity. -/
def Finds (s : TicketRegistry) : CancelIdentity → Bytes → Prop
  | .ticket T', T => T' = T
  | .idempotencyKey key, T => ∃ record, s.idempotency.lookup key = some record ∧
      record.preparing = false ∧ record.ticket = T

/-- What the calls that a section leaves have to do with entries: nothing, or one of them has found
an entry, or it has drawn a new ticket. -/
inductive Leaves (s : TicketRegistry) (g : RegistryCall) :
    TicketRegistry → List RegistryCall → Prop
  | aside {r : TicketRegistry} {calls : List RegistryCall} (hr : Apart s r)
    (hcalls : ∀ h ∈ calls, h.aside = true) : Leaves s g r calls
  | found {r : TicketRegistry} {h : RegistryCall} {e : PreparedEntry} {T : Bytes} (hr : Apart s r)
    (hh : h.found? = some e) (he : s.entries.lookup T = some e)
    (hfinds : ∀ identity e, h = .joinEntry identity e → s.Finds identity T) : Leaves s g r [h]
  | draw {b : Building} {T : Bytes} (hg : g = .drawTicket b) (hT : T ∉ s.drawn.map Prod.fst)
    (hnone : s.entries.lookup T = none) :
    Leaves s g { s with drawn := (T, b.serial) :: s.drawn } [.construct b T]

theorem Leaves.one {h : RegistryCall} (hr : Apart s r) (hh : h.aside = true) :
    Leaves s g r [h] :=
  .aside hr fun h' hh' ↦ by rwa [List.mem_singleton.mp hh']

theorem Leaves.done (hr : Apart s r) : Leaves s g r [] :=
  .aside hr (List.forall_mem_nil _)

theorem leaves_of_exec (hg : g.aside = true) (h : s.exec cfg g a = some (r, calls)) :
    Leaves s g r calls := by
  have happart : ∀ drawn idempotency cancelled reserved reservations replies admission,
      s.drawn ⊆ drawn → Apart s { s with
        drawn, idempotency, cancelled, reserved, reservations, replies, admission } :=
    fun _ _ _ _ _ _ _ hdrawn ↦
      ⟨rfl, rfl, hdrawn, rfl, rfl, rfl, List.Subset.refl _, fun _ ↦ .inl⟩
  have hrefl : s.drawn ⊆ s.drawn := List.Subset.refl _
  cases effect_of_exec h with
  | invalid | unavailable | unclaimed | looked | reaped => exact .done (.refl s)
  | valid | waiting | retrying | undrawn | available | retryingKey => exact .one (.refl s) rfl
  | refused hfails => exact .done ((happart _ _ _ _ _ _ _ hrefl).returned hfails)
  | reserved | released => exact .one (happart _ _ _ _ _ _ _ hrefl) rfl
  | taken => exact .one (happart _ _ _ _ _ _ _ (List.subset_cons_self _ _)) rfl
  | drew hT hnone => exact .draw rfl hT hnone
  | expired | abandoned => exact .done ((Apart.refl s).returned rfl)
  | unwound => exact .done ((happart _ _ _ _ _ _ _ hrefl).returned rfl)
  | missed | missedStopped | missedKey | missedEntry | expiredKey =>
    exact .done (happart _ _ _ _ _ _ _ hrefl)
  | marked => exact .one (happart _ _ _ _ _ _ _ hrefl) rfl
  | found he | claimed he => exact .found (.refl s) rfl he (by simp)
  | cancelling he =>
    refine .found (.refl s) rfl he ?_
    rintro identity e' ⟨⟩
    rfl
  | cancellingKey hkey hcommitted he =>
    refine .found (happart _ _ _ _ _ _ _ hrefl) rfl he ?_
    rintro identity e' ⟨⟩
    exact ⟨_, hkey, hcommitted, rfl⟩
  | _ => cases hg

end TicketRegistry

namespace SidecarServer

/-- The number of inputs that an execution has resolved. -/
abbrev inputs (cfg : SidecarConfig) (T : Bytes) : ℕ := (cfg.executions T).inputRefs.length

/-- What a section of the server does. -/
inductive Effect (cfg : SidecarConfig) (s : SidecarServer) :
    ServerCall → SidecarServer → List ServerCall → Prop
  /-- A section of the registry without entries. -/
  | aside {g : RegistryCall} {a : RegistryAnswer} {r : TicketRegistry} {calls : List RegistryCall}
    (hg : g.aside = true) (hexec : s.registry.exec cfg.toRegistryConfig g a = some (r, calls))
    (hr : s.registry.Apart r) (hcalls : ∀ h ∈ calls, h.aside = true) :
    Effect cfg s (.registry g) { s with registry := r } (calls.map .registry)
  | draw {b : Building} {T : Bytes} (hT : T ∉ s.registry.drawn.map Prod.fst)
    (hnone : s.registry.entries.lookup T = none) :
    Effect cfg s (.registry (.drawTicket b))
      { s with registry := { s.registry with drawn := (T, b.serial) :: s.registry.drawn } }
      [.registry (.construct b T)]
  | found {g h : RegistryCall} {a : RegistryAnswer} {r : TicketRegistry} {e : PreparedEntry}
    {T : Bytes} (hg : g.aside = true)
    (hexec : s.registry.exec cfg.toRegistryConfig g a = some (r, [h])) (hr : s.registry.Apart r)
    (hh : h.found? = some e) (he : s.registry.entries.lookup T = some e)
    (hfinds : ∀ identity e, h = .joinEntry identity e → s.registry.Finds identity T) :
    Effect cfg s (.registry g) ({ s with registry := r }.retain e.ticket) (resume h)
  | lookup {T ref : Bytes} {e : PreparedEntry} (he : s.registry.entries.lookup T = some e)
    (hrunning : s.registry.stopped = false) :
    Effect cfg s (.registry (.lookup T)) (s.retain T) [.entry T false (.attachInput ref), .drop T]
  | alreadySealed (hsealed : s.registry.gpuUnavailable = true) :
    Effect cfg s (.registry .sealGpuUnavailable) s []
  | sweep {g : RegistryCall} {cause : Cause} {r : TicketRegistry} {order : List Bytes}
    (hg : g = .sealGpuUnavailable ∨ g = .stopAdmissionAndCancel ∨ g = .reap) (hnodup : order.Nodup)
    (horder : ∀ T ∈ order, ∃ e, s.registry.entries.lookup T = some e)
    (hall : cause ≠ .timedOut → r.stopped = true ∧
      ∀ T e, s.registry.entries.lookup T = some e → T ∈ order)
    (hr : r = { s.registry with stopped := r.stopped, gpuUnavailable := r.gpuUnavailable })
    (hstopped : s.registry.stopped = true → r.stopped = true) :
    Effect cfg s (.registry g) (order.foldl retain { s with registry := r })
      [.each cause order order]
  /-- The constructor of an entry throws. -/
  | threw {b : Building} {T : Bytes} {what : Thrown} :
    Effect cfg s (.registry (.construct b T))
      { s with registry := { s.registry with admission := s.registry.admission.release b.lease } }
      [.registry (.releaseReservation { b with lease := 0 } none what)]
  /-- The lease of a new entry does not shrink. -/
  | unshrunk {b : Building} {T : Bytes} {what : Thrown}
    (herror : (do
      let bytes ← streamExecutionCharge b.request (inputs cfg T)
      return (bytes, ← s.registry.admission.shrink b.lease bytes)) = .error what) :
    Effect cfg s (.registry (.construct b T)) ({ s with alive := b.entry T :: s.alive }.retain T)
      [.registry (.releaseReservation b (some T) what)]
  | built {b : Building} {T : Bytes} {bytes : UInt64} {admission : StreamAdmissionController}
    (hcharge : streamExecutionCharge b.request (inputs cfg T) = .ok bytes)
    (hshrink : s.registry.admission.shrink b.lease bytes = .ok admission) :
    Effect cfg s (.registry (.construct b T))
      ({ s with
        registry := { s.registry with admission }
        alive := { b with lease := bytes }.entry T :: s.alive }.retain T)
      [.registry (.commit { b with lease := bytes } T)]
  | unwound {b : Building} {T : Bytes} {what : Thrown} :
    Effect cfg s (.registry (.releaseReservation b (some T) what))
      { s with registry := { s.registry.releaseReservation b with
        exposed := (T, b.serial) :: s.registry.exposed } }
      [.drop T, .registry (.unwind { b with lease := 0 } what)]
  /-- A commit in a registry that is stopped. -/
  | retracted {b : Building} {T : Bytes} (hstopped : s.registry.stopped = true) :
    Effect cfg s (.registry (.commit b T))
      { s with registry := { s.registry.releaseReservation b with
        exposed := (T, b.serial) :: s.registry.exposed } }
      [.entry T false
        (if s.registry.gpuUnavailable then .failGpuUnavailable else .cancel false),
        .drop T, .registry (.abandon b.command s.registry.stoppedStatus)]
  /-- A commit after a cancellation of the key. -/
  | withdrawn {b : Building} {T : Bytes} {r : IdempotencyRecord} {status : ArrowError}
    (hrunning : s.registry.stopped = false)
    (hr : s.registry.idempotency.lookup b.key = some r) (hmarked : r.cancelRequested = true) :
    Effect cfg s (.registry (.commit b T))
      ({ s with registry := s.registry.committed b T r }.retain T)
      [.entry T false (.cancelAndJoin false), .drop T, .registry (.abandon b.command status)]
  | committed {b : Building} {T : Bytes} {r : IdempotencyRecord}
    (hrunning : s.registry.stopped = false)
    (hr : s.registry.idempotency.lookup b.key = some r) (hmarked : r.cancelRequested = false) :
    Effect cfg s (.registry (.commit b T))
      ({ s with registry :=
        (s.registry.committed b T r).returned b.command (.entry (b.entry T) true) }.retain T)
      [.registry (.deliver (b.entry T))]
  | replayed {command : Bytes} {e : PreparedEntry}
    (hreplayable : (s.entry e.ticket).replayable = true) :
    Effect cfg s (.registry (.replay command e))
      { s with registry := s.registry.returned command (.entry e false) }
      [.registry (.deliver e)]
  | refused {command : Bytes} {e : PreparedEntry} {status : ArrowError} :
    Effect cfg s (.registry (.replay command e))
      { s with registry := s.registry.returned command (.failed status) } [.drop e.ticket]
  | delivered {e : PreparedEntry} :
    Effect cfg s (.registry (.deliver e))
      { s with registry := { s.registry with delivered := e :: s.registry.delivered } }
      [.drop e.ticket]
  | undelivered {e : PreparedEntry} :
    Effect cfg s (.registry (.deliver e)) s
      [.entry e.ticket false (.cancel false), .drop e.ticket]
  | claimed {e : PreparedEntry} (hreplayable : (s.entry e.ticket).replayable = true) :
    Effect cfg s (.registry (.claimEntry e))
      ({ s with registry := { s.registry with started := e :: s.registry.started } }.setEntry
        e.ticket ((s.entry e.ticket).setControl (s.entry e.ticket).claim))
      [.opening e.ticket]
  | unclaimed {e : PreparedEntry} :
    Effect cfg s (.registry (.claimEntry e)) s [.drop e.ticket]
  /-- A section of an entry that has no effect outside. -/
  | entry {T : Bytes} {worker : Bool} {f : EntryCall} {a : EntryAnswer} {e : ExecutionEntry}
    {calls : List EntryCall} (hf : f ≠ .start ∧ f ≠ .onTerminal ∧ f ≠ .run)
    (hexec : (s.entry T).exec (cfg.executions T) (if worker then none else some ()) f a
      = some (e, calls)) :
    Effect cfg s (.entry T worker f) (s.setEntry T e) (calls.map (.entry T worker))
  | started {T : Bytes} (hclaimed : (s.entry T).claimed = true)
    (hterminal : (s.entry T).terminal = false) (hworker : (s.entry T).worker.joinable = false) :
    Effect cfg s (.opening T)
      ((s.setEntry T ((s.entry T).setControl (s.entry T).start)).retain T) [.results T]
  | unstarted {T : Bytes} : Effect cfg s (.opening T) s [.results T]
  /-- The terminal callback. -/
  | removed {T : Bytes} {worker : Bool} {e : PreparedEntry}
    (he : s.registry.entries.lookup T = some e) :
    Effect cfg s (.entry T worker .onTerminal)
      { (s.setEntry T { s.entry T with
          notifications := (s.entry T).notifications + 1, reported := true }).giveUp T with
        registry := s.registry.remove T } (s.afterDrop T)
  | unlisted {T : Bytes} {worker : Bool} (hnone : s.registry.entries.lookup T = none) :
    Effect cfg s (.entry T worker .onTerminal)
      (s.setEntry T { s.entry T with
        notifications := (s.entry T).notifications + 1, reported := true }) []
  | ran {T : Bytes} {worker : Bool} {a : EntryAnswer} {point : RunPoint} {e : ExecutionEntry}
    {calls : List EntryCall} {fatal : List ServerCall}
    (hw : (s.entry T).worker = .running point)
    (hexec : (s.entry T).exec (cfg.executions T) (if worker then none else some ()) .run a
      = some (e, calls)) (hpoint : ∃ point', e.worker = .running point')
    (hfatal : fatal = [] ∨ fatal = [.registry .sealGpuUnavailable]) :
    Effect cfg s (.entry T worker .run) (s.setEntry T e)
      (fatal ++ calls.map (.entry T worker))
  /-- The worker returns. -/
  | exited {T : Bytes} {worker : Bool} (hw : (s.entry T).worker = .running .leaving) :
    Effect cfg s (.entry T worker .run)
      ((s.setEntry T ((s.entry T).setControl
        { (s.entry T).toEntryControl with worker := .exited })).giveUp T) (s.afterDrop T)
  | joining {identity : CancelIdentity} {e : PreparedEntry} {f g : EntryCall} {a : EntryAnswer}
    {e' : ExecutionEntry} (hf : f.joins = true)
    (hexec : (s.entry e.ticket).exec (cfg.executions e.ticket) (some ()) f a = some (e', [g])) :
    Effect cfg s (.joining identity e f) (s.setEntry e.ticket e') [.joining identity e g]
  | joined {identity : CancelIdentity} {e : PreparedEntry} {f : EntryCall} {a : EntryAnswer}
    {e' : ExecutionEntry} (hf : f.joins = true)
    (hexec : (s.entry e.ticket).exec (cfg.executions e.ticket) (some ()) f a = some (e', [])) :
    Effect cfg s (.joining identity e f) (s.setEntry e.ticket e')
      [.drop e.ticket, .reply identity e (f = .join true)]
  | replied {identity : CancelIdentity} {e : PreparedEntry} {quiesced : Bool} :
    Effect cfg s (.reply identity e quiesced)
      { s with registry :=
        s.registry.replied identity (if quiesced then .quiesced else .deadlineExceeded) } []
  | readOn {T : Bytes} :
    Effect cfg s (.results T) s [.entry T false .readNext, .results T]
  | closed {T : Bytes} :
    Effect cfg s (.results T) s [.entry T false (.cancel false), .drop T]
  | each {cause : Cause} {T : Bytes} {todo held : List Bytes} {e : ExecutionEntry}
    {calls : List EntryCall}
    (hexec : (s.entry T).exec (cfg.executions T) (some ()) (.terminate cause) {} =
      some (e, calls)) :
    Effect cfg s (.each cause (T :: todo) held) (s.setEntry T e)
      (calls.map (.entry T false) ++ [.each cause todo held])
  | eachEnd {cause : Cause} {held : List Bytes} :
    Effect cfg s (.each cause [] held) { s with swept := s.swept || cause != .timedOut }
      (held.map .drop)
  | drop {T : Bytes} : Effect cfg s (.drop T) (s.giveUp T) (s.afterDrop T)
  | destroy {T : Bytes} :
    Effect cfg s (.destroy T) s [.entry T false (.cancel false), .release T]
  | release {T : Bytes} : Effect cfg s (.release T) (s.releaseLease T) []

variable {cfg : SidecarConfig} {s s' : SidecarServer} {k : ServerAnswer} {new : List ServerCall}

/-- An entry that is left as it is. -/
theorem setEntry_entry (T : Bytes) : s.setEntry T (s.entry T) = s := by
  rw [setEntry, Function.update_eq_self]

theorem resume_of_aside {h : RegistryCall} (hh : h.aside = true) :
    h.taken? = none ∧ h.constructed? = none ∧ resume h = [.registry h] := by
  cases h with
  | releaseReservation b built what =>
    cases built with
    | none => exact ⟨rfl, rfl, rfl⟩
    | some T => cases hh
  | construct | commit | replay | deliver | claimEntry | joinEntry | sealGpuUnavailable
  | stopAdmissionAndCancel => cases hh
  | _ => exact ⟨rfl, rfl, rfl⟩

theorem section_of_aside {r : TicketRegistry} {calls : List RegistryCall}
    (hcalls : ∀ h ∈ calls, h.aside = true) :
    s.registrySection (r, calls) = ({ s with registry := r }, calls.map .registry) := by
  have htaken : calls.filterMap (·.taken?) = [] :=
    List.filterMap_eq_nil_iff.mpr fun h hh ↦ (resume_of_aside (hcalls h hh)).1
  have hconstructed : calls.filterMap (·.constructed?) = [] :=
    List.filterMap_eq_nil_iff.mpr fun h hh ↦ (resume_of_aside (hcalls h hh)).2.1
  have hresume : calls.flatMap resume = calls.map .registry := by
    rw [← List.flatMap_singleton' (calls.map _), List.flatMap_map]
    exact List.flatMap_congr fun h hh ↦ (resume_of_aside (hcalls h hh)).2.2
  simp only [registrySection, htaken, hconstructed, hresume]
  rfl

theorem section_of_found {r : TicketRegistry} {h : RegistryCall} {e : PreparedEntry}
    (hh : h.found? = some e) :
    s.registrySection (r, [h]) = ({ s with registry := r }.retain e.ticket, resume h) := by
  cases h with
  | replay command e' | claimEntry e' | joinEntry identity e' =>
    obtain rfl := Option.some.inj hh
    rfl
  | _ => cases hh

/-- A section of the registry that has no pointer yet. -/
theorem effect_of_aside {g : RegistryCall} (hg : g.aside = true)
    (h : (s.registry.exec cfg.toRegistryConfig g k.registry).map s.registrySection
      = some (s', new)) : Effect cfg s (.registry g) s' new := by
  obtain ⟨⟨r, calls⟩, hexec, heq⟩ := Option.map_eq_some_iff.mp h
  have hleaves : s.registry.Leaves g r calls := TicketRegistry.leaves_of_exec hg hexec
  cases hleaves with
  | aside hr hcalls =>
    rw [section_of_aside hcalls] at heq
    obtain ⟨rfl, rfl⟩ := Prod.mk.inj heq
    exact .aside hg hexec hr hcalls
  | found hr hh he hfinds =>
    rw [section_of_found hh] at heq
    obtain ⟨rfl, rfl⟩ := Prod.mk.inj heq
    exact .found hg hexec hr hh he hfinds
  | draw hb hT hnone =>
    obtain ⟨rfl, rfl⟩ := Prod.mk.inj heq
    subst hb
    exact .draw hT hnone

/-- A sweep over the entries of a map. -/
theorem effect_of_sweep {g : RegistryCall} {cause : Cause} {r : TicketRegistry}
    {tickets order : List Bytes}
    (hg : g = .sealGpuUnavailable ∨ g = .stopAdmissionAndCancel ∨ g = .reap)
    (htickets : tickets.Sublist s.registry.entries.keys)
    (hall : cause ≠ .timedOut → r.stopped = true ∧ tickets = s.registry.entries.keys)
    (hr : r = { s.registry with stopped := r.stopped, gpuUnavailable := r.gpuUnavailable })
    (hstopped : s.registry.stopped = true → r.stopped = true)
    (h : s.sweep cause r tickets order = some (s', new)) : Effect cfg s (.registry g) s' new := by
  obtain ⟨hperm, rfl, rfl⟩ := sweep_eq_some h
  have hkeys : ∀ T, T ∈ s.registry.entries.keys ↔ ∃ e, s.registry.entries.lookup T = some e :=
    fun T ↦ by
      rw [← AList.mem_keys, ← AList.lookup_isSome, Option.isSome_iff_exists]
  refine .sweep hg ?_ (fun T hT ↦ ?_) (fun hcause ↦ ?_) hr hstopped
  · exact hperm.nodup_iff.mpr (s.registry.entries.keys_nodup.sublist htickets)
  · exact (hkeys T).mp (htickets.subset (hperm.mem_iff.mp hT))
  · obtain ⟨hrunning, heq⟩ := hall hcause
    refine ⟨hrunning, fun T e he ↦ hperm.mem_iff.mpr ?_⟩
    rw [heq]
    exact (hkeys T).mpr ⟨e, he⟩

theorem effect_of_commit {b : Building} {T : Bytes}
    (hrecord : ∃ r, s.registry.idempotency.lookup b.key = some r)
    (h : s.execRegistry cfg (.commit b T) k = some (s', new)) :
    Effect cfg s (.registry (.commit b T)) s' new := by
  obtain ⟨r, hr⟩ := hrecord
  simp only [execRegistry, TicketRegistry.exec, Option.map_some, Option.some.injEq,
    Prod.mk.injEq] at h
  obtain ⟨rfl, rfl⟩ := h
  by_cases hstopped : s.registry.stopped = true
  · have hcommit : s.registry.commit b T = ({ s.registry.releaseReservation b with
        exposed := (T, b.serial) :: s.registry.exposed },
        [.abandon b.command s.registry.stoppedStatus]) := if_pos hstopped
    simp only [hcommit, if_pos hstopped, afterCommit, List.isEmpty_cons, Bool.false_eq_true,
      if_false, List.flatMap_cons, List.flatMap_nil, List.append_nil]
    exact .retracted hstopped
  · have hrunning : s.registry.stopped = false := by simpa using hstopped
    by_cases hmarked : r.cancelRequested = true
    · have hcommit : s.registry.commit b T = (s.registry.committed b T r,
          [.abandon b.command (flightError .cancelled
            "idempotent request was cancelled while preparing" "CANCELLED")]) := by
        simp only [TicketRegistry.commit, if_neg hstopped, hr, if_pos hmarked]
        rfl
      simp only [hcommit, if_neg hstopped, afterCommit, List.isEmpty_cons, Bool.false_eq_true,
        if_false, List.flatMap_cons, List.flatMap_nil, List.append_nil]
      exact .withdrawn hrunning hr hmarked
    · have hcommit : s.registry.commit b T =
          ((s.registry.committed b T r).returned b.command (.entry (b.entry T) true),
            [.deliver (b.entry T)]) := by
        simp only [TicketRegistry.commit, if_neg hstopped, hr, if_neg hmarked]
        rfl
      simp only [hcommit, if_neg hstopped, List.isEmpty_cons, Bool.false_eq_true, if_false,
        List.flatMap_cons, List.flatMap_nil, List.append_nil]
      exact .committed hrunning hr (by simpa using hmarked)

theorem effect_of_registry {g : RegistryCall}
    (hrecord : ∀ b T, g = .commit b T → ∃ r, s.registry.idempotency.lookup b.key = some r)
    (h : s.execRegistry cfg g k = some (s', new)) : Effect cfg s (.registry g) s' new := by
  cases g with
  | replay command e =>
    obtain ⟨⟨q, calls⟩, hexec, heq⟩ := Option.map_eq_some_iff.mp h
    obtain ⟨rfl, rfl⟩ := Prod.mk.inj heq
    simp only [TicketRegistry.exec] at hexec
    split_ifs at hexec ⊢ with haccepts <;> obtain ⟨rfl, rfl⟩ := Prod.mk.inj (Option.some.inj hexec)
    · exact .replayed haccepts
    · exact .refused
  | construct b T =>
    -- it ends in one of three ways: the constructor throws, the lease cannot shrink, or it is built
    simp only [execRegistry] at h
    split_ifs at h with hbuilt
    obtain ⟨⟨q, calls⟩, hexec, heq⟩ := Option.map_eq_some_iff.mp h
    obtain ⟨rfl, rfl⟩ := Prod.mk.inj heq
    have hconstruct : s.registry.construct b T k.registry.built = (q, calls) :=
      Option.some.inj hexec
    cases hresult : k.registry.built with
    | error what =>
      rw [hresult] at hconstruct
      obtain ⟨rfl, rfl⟩ := Prod.mk.inj hconstruct
      exact .threw
    | ok streamInputs =>
      obtain rfl : streamInputs = inputs cfg T := by
        rw [hresult] at hbuilt
        simpa [Except.isOk, Except.toBool] using hbuilt
      rw [hresult] at hconstruct
      simp only [TicketRegistry.construct] at hconstruct
      split at hconstruct
      · next what herror =>
        obtain ⟨rfl, rfl⟩ := Prod.mk.inj hconstruct
        exact .unshrunk herror
      · next bytes admission hok =>
        obtain ⟨rfl, rfl⟩ := Prod.mk.inj hconstruct
        cases hcharge : streamExecutionCharge b.request (inputs cfg T) with
        | error what =>
          rw [hcharge] at hok
          cases hok
        | ok bytes' =>
          cases hshrink : s.registry.admission.shrink b.lease bytes' with
          | error what =>
            simp only [hcharge, bind, Except.bind, hshrink, reduceCtorEq] at hok
          | ok admission' =>
            simp only [hcharge, bind, Except.bind, hshrink, pure, Except.pure, Except.ok.injEq,
              Prod.mk.injEq] at hok
            obtain ⟨rfl, rfl⟩ := hok
            exact .built hcharge hshrink
  | releaseReservation b built what =>
    cases built with
    | none =>
      refine effect_of_aside (k := k) rfl ?_
      exact h
    | some T =>
      obtain ⟨rfl, rfl⟩ := Prod.mk.inj (Option.some.inj h)
      exact .unwound
  | commit b T => exact effect_of_commit (hrecord b T rfl) h
  | deliver e =>
    obtain ⟨⟨q, calls⟩, hexec, heq⟩ := Option.map_eq_some_iff.mp h
    obtain ⟨rfl, rfl⟩ := Prod.mk.inj heq
    simp only [TicketRegistry.exec] at hexec
    split_ifs at hexec ⊢ <;> obtain ⟨rfl, rfl⟩ := Prod.mk.inj (Option.some.inj hexec)
    · exact .undelivered
    · exact .delivered
  | claimEntry e =>
    obtain ⟨⟨q, calls⟩, hexec, heq⟩ := Option.map_eq_some_iff.mp h
    obtain ⟨rfl, rfl⟩ := Prod.mk.inj heq
    simp only [TicketRegistry.exec] at hexec
    split_ifs at hexec ⊢ with haccepts <;> obtain ⟨rfl, rfl⟩ := Prod.mk.inj (Option.some.inj hexec)
    · exact .claimed haccepts
    · have hclaim : (s.entry e.ticket).claim = (s.entry e.ticket).toEntryControl := by
        refine if_pos ?_
        simpa [EntryControl.replayable, Bool.or_eq_true, or_iff_not_imp_left] using haccepts
      have hsame : s.setEntry e.ticket ((s.entry e.ticket).setControl (s.entry e.ticket).claim)
          = s := by
        rw [hclaim]
        exact setEntry_entry e.ticket
      rw [hsame]
      exact .unclaimed
  | lookup T =>
    simp only [execRegistry] at h
    split_ifs at h with hno <;> obtain ⟨rfl, rfl⟩ := Prod.mk.inj (Option.some.inj h)
    · show Effect cfg s _ s (([] : List RegistryCall).map .registry)
      refine .aside (a := {}) rfl rfl (.refl _) ?_
      exact List.forall_mem_nil _
    · rw [not_or, Bool.not_eq_true] at hno
      obtain ⟨e, he⟩ := Option.ne_none_iff_exists'.mp hno.2
      exact .lookup he hno.1
  | sealGpuUnavailable =>
    simp only [execRegistry] at h
    split_ifs at h with hsealed
    · obtain ⟨rfl, rfl⟩ := Prod.mk.inj (Option.some.inj h)
      exact .alreadySealed hsealed
    · have hseal : s.registry.sealGpuUnavailable
          = { s.registry with gpuUnavailable := true, stopped := true } := if_neg hsealed
      rw [hseal] at h
      exact effect_of_sweep (.inl rfl) (List.Sublist.refl _) (fun _ ↦ ⟨rfl, rfl⟩) rfl
        (fun _ ↦ rfl) h
  | stopAdmissionAndCancel =>
    exact effect_of_sweep (.inr (.inl rfl)) (List.Sublist.refl _) (fun _ ↦ ⟨rfl, rfl⟩) rfl
      (fun _ ↦ rfl) h
  | reap =>
    simp only [execRegistry] at h
    split_ifs at h
    · obtain ⟨rfl, rfl⟩ := Prod.mk.inj (Option.some.inj h)
      show Effect cfg s _ s (([] : List RegistryCall).map .registry)
      refine .aside (a := {}) rfl rfl (.refl _) ?_
      exact List.forall_mem_nil _
    · exact effect_of_sweep (.inr (.inr rfl)) List.filter_sublist (fun hcause ↦ absurd rfl hcause)
        rfl id h
  | joinEntry identity e => cases h
  | _ => exact effect_of_aside (k := k) rfl h

/-- `run` goes on, or returns. -/
theorem run_cases {T : Bytes} {ι : Type*} {t : Option ι} {a : EntryAnswer} {e : ExecutionEntry}
    {calls : List EntryCall}
    (h : (s.entry T).exec (cfg.executions T) t .run a = some (e, calls)) :
    ∃ point, (s.entry T).worker = .running point ∧
      ((point = .leaving ∧ e = (s.entry T).setControl
          { (s.entry T).toEntryControl with worker := .exited } ∧ calls = []) ∨
        (∃ point', e.worker = .running point') ∧ calls ≠ []) := by
  cases ExecutionEntry.section_of_exec h with
  | @run k point c calls hw hrun =>
    refine ⟨point, hw, ?_⟩
    cases EntryControl.section_of_runStep hrun with
    | finished =>
      refine .inr ⟨⟨.leaving, ?_⟩, by simp⟩
      simp only [ExecutionEntry.setControl, EntryControl.finish]
      split_ifs <;> rfl
    | left => exact .inl ⟨rfl, rfl, rfl⟩
    | _ => exact .inr ⟨⟨_, rfl⟩, by simp⟩

theorem effect_of_entry {T : Bytes} {worker : Bool} {f : EntryCall} {a : EntryAnswer}
    (h : s.execEntry cfg T worker f a = some (s', new)) :
    Effect cfg s (.entry T worker f) s' new := by
  have hstart := ne_start_of_execEntry h
  rw [execEntry, if_neg hstart] at h
  obtain ⟨⟨e, calls⟩, hexec, heq⟩ := Option.map_eq_some_iff.mp h
  have hdefault : f ≠ .start ∧ f ≠ .onTerminal ∧ f ≠ .run →
      (s.setEntry T e, calls.map (.entry T worker)) = (s', new) →
        Effect cfg s (.entry T worker f) s' new := by
    intro hf hsame
    obtain ⟨rfl, rfl⟩ := Prod.mk.inj hsame
    exact .entry hf hexec
  cases f with
  | start => exact absurd rfl hstart
  | onTerminal =>
    obtain ⟨rfl, rfl⟩ := Prod.mk.inj (Option.some.inj hexec)
    simp only at heq
    split_ifs at heq with hlisted <;> obtain ⟨rfl, rfl⟩ := Prod.mk.inj heq
    · obtain ⟨e, he⟩ := Option.isSome_iff_exists.mp hlisted
      exact .removed he
    · exact .unlisted (Option.not_isSome_iff_eq_none.mp hlisted)
  | run =>
    obtain ⟨point, hw, hcalls⟩ := run_cases hexec
    rcases hcalls with ⟨rfl, rfl, rfl⟩ | ⟨hpoint, hne⟩
    · obtain ⟨rfl, rfl⟩ := Prod.mk.inj heq
      exact .exited hw
    · have hmore : (calls.map (ServerCall.entry T worker)).isEmpty = false := by
        simpa using hne
      simp only [hmore, Bool.false_eq_true, if_false] at heq
      split_ifs at heq
      · obtain ⟨rfl, rfl⟩ := Prod.mk.inj heq
        exact .ran hw hexec hpoint (.inr rfl)
      · obtain ⟨rfl, rfl⟩ := Prod.mk.inj heq
        exact .ran hw hexec hpoint (.inl rfl)
  | _ => exact hdefault ⟨by simp, by simp, by simp⟩ heq

theorem effect_of_opening {T : Bytes} (h : s.exec cfg (.opening T) k = some (s', new)) :
    Effect cfg s (.opening T) s' new := by
  obtain ⟨rfl, rfl⟩ := Prod.mk.inj (Option.some.inj h)
  change Effect cfg s _ (if (s.entry T).workers < (s.entry T).start.workers then _ else _) _
  by_cases hno :
      (!(s.entry T).claimed || (s.entry T).worker.joinable || (s.entry T).terminal) = true
  · have hstart : (s.entry T).start = (s.entry T).toEntryControl := if_pos hno
    have hsame : s.setEntry T ((s.entry T).setControl (s.entry T).start) = s := by
      rw [hstart]
      exact setEntry_entry T
    have hworkers : ¬(s.entry T).workers < (s.entry T).start.workers := by
      rw [hstart]
      exact lt_irrefl _
    rw [if_neg hworkers, hsame]
    exact .unstarted
  · have hworkers : (s.entry T).workers < (s.entry T).start.workers := by
      rw [EntryControl.start, if_neg hno]
      exact Nat.lt_succ_self _
    rw [if_pos hworkers]
    simp only [Bool.or_eq_true, Bool.not_eq_true', not_or, Bool.not_eq_false,
      Bool.not_eq_true] at hno
    exact .started hno.1.1 hno.2 hno.1.2

/-- **Every section** of the server is one of the list. -/
theorem effect_of_exec {f : ServerCall}
    (hrecord : ∀ b T, f = .registry (.commit b T) →
      ∃ r, s.registry.idempotency.lookup b.key = some r)
    (h : s.exec cfg f k = some (s', new)) : Effect cfg s f s' new := by
  cases f with
  | registry g => exact effect_of_registry (fun b T hg ↦ hrecord b T (congrArg _ hg)) h
  | entry T worker f => exact effect_of_entry h
  | joining identity e f =>
    obtain ⟨⟨e', calls⟩, hexec, rfl, hcalls⟩ := joining_eq_some h
    have hf : f.joins = true := by
      by_contra hno
      simp [exec, hno] at h
    rcases hcalls with ⟨rfl, rfl⟩ | ⟨g, rfl, rfl⟩
    · exact .joined hf hexec
    · exact .joining hf hexec
  | reply identity e quiesced =>
    obtain ⟨rfl, rfl⟩ := Prod.mk.inj (Option.some.inj h)
    exact .replied
  | opening T => exact effect_of_opening h
  | results T =>
    obtain ⟨rfl, rfl⟩ := Prod.mk.inj (Option.some.inj h)
    split_ifs
    · exact .readOn
    · exact .closed
  | each cause todo held =>
    cases todo with
    | nil =>
      obtain ⟨rfl, rfl⟩ := Prod.mk.inj (Option.some.inj h)
      exact .eachEnd
    | cons T todo =>
      obtain ⟨⟨e, calls⟩, hexec, heq⟩ := Option.map_eq_some_iff.mp h
      obtain ⟨rfl, rfl⟩ := Prod.mk.inj heq
      exact .each hexec
  | drop T =>
    obtain ⟨rfl, rfl⟩ := Prod.mk.inj (Option.some.inj h)
    exact .drop
  | destroy T =>
    obtain ⟨rfl, rfl⟩ := Prod.mk.inj (Option.some.inj h)
    exact .destroy
  | release T =>
    obtain ⟨rfl, rfl⟩ := Prod.mk.inj (Option.some.inj h)
    exact .release

end SidecarServer

end MoSidecar
