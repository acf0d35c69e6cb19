import MoSidecar.Server.Sections

/-!
# What holds of the server at all times

The registry and every entry keep their own invariants within the server. What the server adds is
how they fit: nobody works on an entry before its preparation is over, an entry that has been handed
out is registered until its terminal callback has run, and is not registered again after that.
-/

open Function (update)

namespace MoSidecar

/-- The entry that a call of the registry hands on. -/
def RegistryCall.hands? : RegistryCall → Option PreparedEntry
  | .replay _ e | .deliver e | .claimEntry e | .joinEntry _ e => some e
  | _ => none

namespace SidecarServer

variable {cfg : SidecarConfig} {ι : Type*} {s s' : SidecarServer} {k : ServerAnswer}
  {f : ServerCall} {new : List ServerCall} {T : Bytes} {e : PreparedEntry}
  {n : Option Reservation → ℕ}

/-! ## The parts -/

/-- The invariants of the registry and of all entries. -/
structure Founded (cfg : SidecarConfig) (s : SidecarServer) (n : Option Reservation → ℕ) :
    Prop where
  registry : s.registry.Invariant cfg.toRegistryConfig n
  entries : ∀ T, (s.entry T).Ordered

/-- What a call knows of the part it is a call of. -/
structure Informed (cfg : SidecarConfig) (f : ServerCall) (s : SidecarServer) : Prop where
  registry : Program.liftClaim (·.registry) toRegistry
    (fun g r ↦ r.Knows cfg.toRegistryConfig g) f s
  entries : ∀ T, Program.liftClaim (·.entry T) (toEntry T) ExecutionEntry.Unstarted f s

/-- The calls of the server that hold a reservation. -/
abbrev holding (o : Option Reservation) : ServerCall → ℕ :=
  Program.liftWeight toRegistry (TicketRegistry.holding o)

theorem founded_ledger (cfg : SidecarConfig) (ι : Type*) :
    Program.Ledger (program cfg ι) holding (Founded cfg) fun _ f s ↦ Informed cfg f s := by
  have hregistry := (TicketRegistry.ledger cfg.toRegistryConfig Unit).lift (registry_part cfg ι)
  have hentries := Program.Assertional.all fun T ↦
    (ExecutionEntry.assertional_ordered (cfg.executions T) Unit).lift (entry_part cfg ι T)
  have hboth := hregistry.with hentries
  constructor
  · intro s t f s' n hs hcall
    obtain ⟨⟨hr, he⟩, ⟨hf, hf'⟩, hframe⟩ := hboth.call ⟨hs.registry, hs.entries⟩ hcall
    refine ⟨⟨hr, he⟩, ⟨hf, hf'⟩, fun u g hg ↦ ?_⟩
    exact ⟨(hframe u g ⟨hg.registry, hg.entries⟩).1, (hframe u g ⟨hg.registry, hg.entries⟩).2⟩
  · intro s t f k s' new n hs hA hexec
    obtain ⟨⟨hr, he⟩, hnew, hframe⟩ :=
      hboth.exec ⟨hs.registry, hs.entries⟩ ⟨hA.registry, hA.entries⟩ hexec
    refine ⟨⟨hr, he⟩, fun g hg ↦ ⟨(hnew g hg).1, (hnew g hg).2⟩, fun u g hg ↦ ?_⟩
    exact ⟨(hframe u g ⟨hg.registry, hg.entries⟩).1, (hframe u g ⟨hg.registry, hg.entries⟩).2⟩
  · intro s a s' n hs ha
    obtain ⟨⟨hr, he⟩, hframe⟩ := hboth.ambient ⟨hs.registry, hs.entries⟩ ha
    refine ⟨⟨hr, he⟩, fun u g hg ↦ ?_⟩
    exact ⟨(hframe u g ⟨hg.registry, hg.entries⟩).1, (hframe u g ⟨hg.registry, hg.entries⟩).2⟩

/-- Any number of sections of an execution make steps of its control state. -/
theorem control_of_moves {cfg : ExecutionConfig} {e e' : ExecutionEntry} {fs fs' : List EntryCall}
    (h : (ExecutionEntry.program cfg Unit).Moves e fs e' fs') (he : e.Ordered)
    (hfs : ∀ g ∈ fs, ExecutionEntry.Unstarted g e) :
    EntryControl.Steps cfg e.toEntryControl e'.toEntryControl := by
  refine (ExecutionEntry.assertional_ordered cfg Unit).moves_rel
    (R := fun e e' ↦ EntryControl.Steps cfg e.toEntryControl e'.toEntryControl) (fun _ ↦ .refl)
    (fun _ _ _ ↦ Relation.ReflTransGen.trans) ?_ ?_ ?_ h he hfs
  · exact fun _ _ _ _ _ hcall ↦ ExecutionEntry.call_control cfg hcall
  · exact fun _ _ _ _ _ _ he hA hexec ↦ ExecutionEntry.exec_control he.sound hA hexec
  · rintro e a e' - hambient
    obtain ⟨i, -, rfl⟩ := Option.map_eq_some_iff.mp hambient
    exact .refl

/-- A call makes steps of the control state of every entry, and so does every section. -/
theorem steps_of_call (h : Founded cfg s n) {t : ι} (hcall : (program cfg ι).call s t f = some s')
    (T : Bytes) :
    EntryControl.Steps (cfg.executions T) (s.entry T).toEntryControl (s'.entry T).toEntryControl :=
  control_of_moves ((entry_part cfg ι T).call hcall) (h.entries T)
    (List.forall_mem_nil _)

theorem steps_of_exec (h : Founded cfg s n) (hA : Informed cfg f s)
    (hexec : s.exec cfg f k = some (s', new)) (T : Bytes) :
    EntryControl.Steps (cfg.executions T) (s.entry T).toEntryControl (s'.entry T).toEntryControl :=
  control_of_moves ((entry_part cfg Unit T).exec (t := ()) hexec) (h.entries T)
    fun g hg ↦ hA.entries T g (Option.mem_toList.mp hg)

theorem steps_of_ambient (h : Founded cfg s n) {a : Bytes × Bytes × InputTraffic}
    (ha : (program cfg ι).ambient s a = some s') (T : Bytes) :
    EntryControl.Steps (cfg.executions T) (s.entry T).toEntryControl (s'.entry T).toEntryControl :=
  control_of_moves ((entry_part cfg ι T).ambient ha) (h.entries T)
    (List.forall_mem_nil _)

/-! ## How they fit -/

/-- The tickets of the entries that a call may work on. -/
def mentions : ServerCall → List Bytes
  | .registry g => (g.hands?.map (·.ticket)).toList
  | .entry T _ _ | .opening T | .results T | .drop T | .destroy T | .release T => [T]
  | .joining _ e _ | .reply _ e _ => [e.ticket]
  | .each _ todo held => todo ++ held

/-- The entries that a call hands on. -/
def carries : ServerCall → List PreparedEntry
  | .registry g => g.hands?.toList
  | .joining _ e _ | .reply _ e _ => [e]
  | _ => []

/-- The preparation of the ticket is over. -/
def Exposed (s : SidecarServer) (T : Bytes) : Prop := T ∈ s.registry.exposed.map Prod.fst

/-- An entry that was handed out is registered, or has been removed by its terminal callback. -/
def Known (s : SidecarServer) (e : PreparedEntry) : Prop :=
  s.registry.entries.lookup e.ticket = some e ∨ 0 < (s.entry e.ticket).notifications

/-- How the registry and the entries fit. -/
structure Coherent (s : SidecarServer) : Prop where
  pristine : ∀ T, ¬s.Exposed T →
    (s.entry T).toEntryControl = {} ∧ (s.entry T).notifications = 0
  unlisted : ∀ T, 0 < (s.entry T).notifications → s.registry.entries.lookup T = none
  delivered : ∀ e ∈ s.registry.delivered, s.Known e
  returned : ∀ ret ∈ s.registry.returns, ∀ e own, ret.outcome = .entry e own → s.Known e

/-- What a call may rely on when it works on an entry. -/
structure Refers (f : ServerCall) (s : SidecarServer) : Prop where
  exposed : ∀ T ∈ mentions f, s.Exposed T
  known : ∀ e ∈ carries f, s.Known e

/-- What others leave of that. -/
structure Onward (s s' : SidecarServer) : Prop where
  exposed : ∀ T, s.Exposed T → s'.Exposed T
  known : ∀ e, s.Known e → s'.Known e

theorem Onward.refers (h : Onward s s') {f : ServerCall} (hf : Refers f s) : Refers f s' :=
  ⟨fun T hT ↦ h.exposed T (hf.exposed T hT), fun e he ↦ h.known e (hf.known e he)⟩

theorem Founded.exposed_of_lookup (h : Founded cfg s n)
    (he : s.registry.entries.lookup T = some e) : e.ticket = T ∧ s.Exposed T :=
  ⟨(h.registry.recorded.matched.recordOf he).1,
    List.mem_map_of_mem (f := Prod.fst) (h.registry.entry he).1⟩

/-- A change after which the same entries are registered, and none has been notified. -/
structure Steady (s s' : SidecarServer) : Prop where
  entries : s'.registry.entries = s.registry.entries
  exposed : s.registry.exposed ⊆ s'.registry.exposed
  delivered : ∀ e ∈ s'.registry.delivered, e ∈ s.registry.delivered ∨ s.Known e
  returned : ∀ ret ∈ s'.registry.returns, ret ∈ s.registry.returns ∨
    ∀ e own, ret.outcome = .entry e own → s.Known e
  notifications : ∀ T, (s'.entry T).notifications = (s.entry T).notifications
  control : ∀ T, s.Exposed T ∨ (s'.entry T).toEntryControl = (s.entry T).toEntryControl

namespace Steady

theorem refl (s : SidecarServer) : Steady s s :=
  ⟨rfl, List.Subset.refl _, fun _ ↦ .inl, fun _ ↦ .inl, fun _ ↦ rfl, fun _ ↦ .inr rfl⟩

theorem onward (h : Steady s s') : Onward s s' where
  exposed T hT := List.map_subset _ h.exposed hT
  known e he := by
    rw [Known, h.entries, h.notifications]
    exact he

theorem coherent (h : Steady s s') (hs : Coherent s) : Coherent s' where
  pristine T hT := by
    have hno : ¬s.Exposed T := fun hT' ↦ hT (h.onward.exposed T hT')
    rw [h.notifications, (h.control T).resolve_left hno]
    exact hs.pristine T hno
  unlisted T hT := by
    rw [h.notifications] at hT
    rw [h.entries]
    exact hs.unlisted T hT
  delivered e he := by
    rcases h.delivered e he with hold | hnew
    · exact h.onward.known e (hs.delivered e hold)
    · exact h.onward.known e hnew
  returned ret hret e own houtcome := by
    rcases h.returned ret hret with hold | hnew
    · exact h.onward.known e (hs.returned ret hold e own houtcome)
    · exact h.onward.known e (hnew e own houtcome)

theorem of_apart (hr : s.registry.Apart s'.registry) (hentry : s'.entry = s.entry) :
    Steady s s' where
  entries := hr.entries
  exposed := by
    rw [hr.exposed]
    exact List.Subset.refl _
  delivered e he := by
    rw [hr.delivered] at he
    exact .inl he
  returned ret hret := by
    refine (hr.failed ret hret).imp_right fun hfails e own houtcome ↦ ?_
    rw [houtcome] at hfails
    cases hfails
  notifications T := by rw [hentry]
  control T := .inr (by rw [hentry])

theorem of_eq (hr : s'.registry = s.registry) (hentry : s'.entry = s.entry) : Steady s s' :=
  .of_apart (hr ▸ .refl _) hentry

theorem of_entry {e : ExecutionEntry} (hT : s.Exposed T)
    (hn : e.notifications = (s.entry T).notifications) : Steady s (s.setEntry T e) where
  entries := rfl
  exposed := List.Subset.refl _
  delivered _ := .inl
  returned _ := .inl
  notifications T' := by
    by_cases heq : T' = T
    · rw [heq, entry_setEntry_self, hn]
    · rw [entry_setEntry_of_ne heq e]
  control T' := by
    by_cases heq : T' = T
    · exact .inl (heq ▸ hT)
    · exact .inr (by rw [entry_setEntry_of_ne heq e])

/-- Pointers and leases are not looked at. -/
theorem congr {s'' : SidecarServer} (h : Steady s s') (hr : s''.registry = s'.registry)
    (hentry : s''.entry = s'.entry) : Steady s s'' where
  entries := by rw [hr, h.entries]
  exposed := by
    rw [hr]
    exact h.exposed
  delivered := by
    rw [hr]
    exact h.delivered
  returned := by
    rw [hr]
    exact h.returned
  notifications := by
    rw [hentry]
    exact h.notifications
  control := by
    rw [hentry]
    exact h.control

end Steady

/-- The lease of an entry is no concern of the maps. -/
theorem registry_releaseLease (s : SidecarServer) (T : Bytes) :
    (s.releaseLease T).entry = s.entry ∧ (s.releaseLease T).uses = s.uses ∧
      ∃ admission, (s.releaseLease T).registry = { s.registry with admission } := by
  rw [releaseLease]
  split
  · exact ⟨rfl, rfl, s.registry.admission, rfl⟩
  · exact ⟨rfl, rfl, _, rfl⟩

/-- A section of an entry other than the terminal callback does not count as one. -/
theorem notifications_of_exec {cfg : ExecutionConfig} {e e' : ExecutionEntry} {t : Option ι}
    {f : EntryCall} {a : EntryAnswer} {calls : List EntryCall} (hf : f ≠ .onTerminal)
    (h : e.exec cfg t f a = some (e', calls)) : e'.notifications = e.notifications := by
  have heffect : ExecutionEntry.Effect cfg f e e' calls := ExecutionEntry.exec_effect h
  cases heffect with
  | onTerminal => exact absurd rfl hf
  | _ => rfl

/-! ## One section at a time -/

/-- What a section has to do. -/
structure Fits (s s' : SidecarServer) (new : List ServerCall) : Prop where
  coherent : Coherent s'
  onward : Onward s s'
  refers : ∀ g ∈ new, Refers g s'

theorem Steady.fits (h : Steady s s') (hs : Coherent s) (hnew : ∀ g ∈ new, Refers g s) :
    Fits s s' new :=
  ⟨h.coherent hs, h.onward, fun g hg ↦ h.onward.refers (hnew g hg)⟩

theorem refers_of_aside {h : RegistryCall} (hh : h.aside = true) : Refers (.registry h) s := by
  have hnone : h.hands? = none := by
    cases h with
    | replay | deliver | claimEntry | joinEntry => cases hh
    | _ => rfl
  constructor
  · intro T hT
    simp [mentions, hnone] at hT
  · intro e he
    simp [carries, hnone] at he

/-- A call that mentions no ticket and hands nothing on. -/
theorem refers_of_silent {g : ServerCall} (hg : mentions g = []) (hcarries : carries g = []) :
    Refers g s := by
  constructor
  · intro T hT
    rw [hg] at hT
    cases hT
  · intro e he
    rw [hcarries] at he
    cases he

/-- A call that mentions one ticket and hands nothing on. -/
theorem refers_of_mention {g : ServerCall} (hg : mentions g = [T]) (hcarries : carries g = [])
    (hT : s.Exposed T) : Refers g s := by
  constructor
  · rw [hg]
    intro T' hT'
    rwa [List.mem_singleton.mp hT']
  · rw [hcarries]
    exact List.forall_mem_nil _

/-- A call that hands an entry on. -/
theorem refers_of_carry {g : ServerCall} (hg : mentions g = [e.ticket]) (hcarries : carries g = [e])
    (hT : s.Exposed e.ticket) (he : s.Known e) : Refers g s := by
  constructor
  · rw [hg]
    intro T' hT'
    rwa [List.mem_singleton.mp hT']
  · rw [hcarries]
    intro e' he'
    rwa [List.mem_singleton.mp he']

theorem refers_map_entry {worker : Bool} {calls : List EntryCall} (hT : s.Exposed T) :
    ∀ g ∈ calls.map (ServerCall.entry T worker), Refers g s := by
  intro g hg
  obtain ⟨f, -, rfl⟩ := List.mem_map.mp hg
  exact refers_of_mention rfl rfl hT

theorem refers_resume {h : RegistryCall} (hh : h.found? = some e) (hT : s.Exposed e.ticket)
    (he : s.Known e) : ∀ g ∈ resume h, Refers g s := by
  cases h with
  | replay command e' | claimEntry e' =>
    obtain rfl := Option.some.inj hh
    intro g hg
    rw [List.mem_singleton.mp hg]
    exact refers_of_carry rfl rfl hT he
  | joinEntry identity e' =>
    obtain rfl := Option.some.inj hh
    rintro g (_ | ⟨_, _ | ⟨_, hg⟩⟩)
    · exact refers_of_mention rfl rfl hT
    · exact refers_of_carry rfl rfl hT he
    · cases hg
  | _ => cases hh

theorem refers_afterDrop (hT : s.Exposed T) : ∀ g ∈ s.afterDrop T, Refers g s := by
  rw [afterDrop]
  split_ifs
  · intro g hg
    rw [List.mem_singleton.mp hg]
    exact refers_of_mention rfl rfl hT
  · exact List.forall_mem_nil _

/-- An entry is registered whose preparation is over only now. -/
theorem fits_committed {b : Building} {r : IdempotencyRecord} (hs : Coherent s)
    (hfresh : s.registry.entries.lookup T = none) (hT : ¬s.Exposed T)
    (hentries : s'.registry.entries = (s.registry.committed b T r).entries)
    (hexposed : s'.registry.exposed = (T, b.serial) :: s.registry.exposed)
    (hdelivered : s'.registry.delivered = s.registry.delivered)
    (hreturned : ∀ ret ∈ s'.registry.returns, ret ∈ s.registry.returns ∨
      ∀ e own, ret.outcome = .entry e own → e = b.entry T)
    (hentry : s'.entry = s.entry) (hnew : s'.Exposed T → s'.Known (b.entry T) →
      ∀ g ∈ new, Refers g s') : Fits s s' new := by
  have hmap : s'.registry.entries.lookup = update s.registry.entries.lookup T
      (some (b.entry T)) := by
    rw [hentries]
    exact TicketRegistry.lookup_committed hfresh
  have hself : s'.registry.entries.lookup T = some (b.entry T) := by
    rw [congrFun hmap T, Function.update_self]
  have hother : ∀ T', T' ≠ T → s'.registry.entries.lookup T' = s.registry.entries.lookup T' :=
    fun T' hne ↦ by rw [congrFun hmap T', Function.update_of_ne hne]
  have hold : ∀ T', s.Exposed T' → s'.Exposed T' := fun T' hT' ↦ by
    rw [Exposed, hexposed]
    exact List.mem_cons_of_mem _ hT'
  have hknown : ∀ e, s.Known e → s'.Known e := fun e he ↦ by
    refine he.imp (fun hlookup ↦ ?_) fun hn ↦ ?_
    · rw [hother, hlookup]
      rintro rfl
      rw [hfresh] at hlookup
      cases hlookup
    · rwa [hentry]
  have hcommitted : s'.Known (b.entry T) := .inl hself
  refine ⟨⟨?_, ?_, ?_, ?_⟩, ⟨hold, hknown⟩, hnew ?_ hcommitted⟩
  · intro T' hT'
    rw [hentry]
    exact hs.pristine T' fun h ↦ hT' (hold T' h)
  · intro T' hn
    rw [hentry] at hn
    rw [hother, hs.unlisted T' hn]
    rintro rfl
    rw [(hs.pristine T' hT).2] at hn
    exact lt_irrefl 0 hn
  · intro e he
    rw [hdelivered] at he
    exact hknown e (hs.delivered e he)
  · intro ret hret e own houtcome
    rcases hreturned ret hret with hold' | hnew'
    · exact hknown e (hs.returned ret hold' e own houtcome)
    · rw [hnew' e own houtcome]
      exact hcommitted
  · rw [Exposed, hexposed]
    exact List.mem_cons_self

/-- The terminal callback of an entry, which is registered no longer after that. -/
theorem fits_notified {e : ExecutionEntry} (hs : Coherent s) (hT : s.Exposed T)
    (hregistry : s'.registry = s.registry.remove T) (hentry : s'.entry = update s.entry T e)
    (hn : e.notifications = (s.entry T).notifications + 1) (hnew : ∀ g ∈ new, Refers g s) :
    Fits s s' new := by
  obtain ⟨hexposed, hdelivered, hreturns, -⟩ := s.registry.remove_frame T
  have hmap : s'.registry.entries.lookup = update s.registry.entries.lookup T none := by
    rw [hregistry]
    exact s.registry.lookup_remove T
  have hnone : s'.registry.entries.lookup T = none := by
    rw [congrFun hmap T, Function.update_self]
  have hlisted : ∀ T', T' ≠ T → s'.registry.entries.lookup T' = s.registry.entries.lookup T' :=
    fun T' hne ↦ by rw [congrFun hmap T', Function.update_of_ne hne]
  have hself : 0 < (s'.entry T).notifications := by
    rw [hentry, Function.update_self, hn]
    exact Nat.succ_pos _
  have hother : ∀ T', T' ≠ T → s'.entry T' = s.entry T' := fun T' hne ↦ by
    rw [hentry, Function.update_of_ne hne]
  have hexposed' : ∀ T', s'.Exposed T' ↔ s.Exposed T' := fun T' ↦ by
    rw [Exposed, hregistry, hexposed, Exposed]
  have hknown : ∀ e, s.Known e → s'.Known e := fun e he ↦ by
    by_cases heq : e.ticket = T
    · exact .inr (heq ▸ hself)
    · rw [Known, hlisted _ heq, hother _ heq]
      exact he
  have honward : Onward s s' := ⟨fun T' ↦ (hexposed' T').mpr, hknown⟩
  refine ⟨⟨?_, ?_, ?_, ?_⟩, honward, fun g hg ↦ honward.refers (hnew g hg)⟩
  · intro T' hT'
    rw [hexposed'] at hT'
    have hne : T' ≠ T := by
      rintro rfl
      exact hT' hT
    rw [hother T' hne]
    exact hs.pristine T' hT'
  · intro T' hn'
    by_cases heq : T' = T
    · rw [heq, hnone]
    · rw [hother T' heq] at hn'
      rw [hlisted T' heq]
      exact hs.unlisted T' hn'
  · intro e' he'
    rw [hregistry, hdelivered] at he'
    exact hknown e' (hs.delivered e' he')
  · intro ret hret e' own houtcome
    rw [hregistry, hreturns] at hret
    exact hknown e' (hs.returned ret hret e' own houtcome)

/-- **What a section has to do, it does.** -/
theorem fits_of_effect (hF : Founded cfg s fun o ↦ n o + holding o f) (hA : Informed cfg f s)
    (hs : Coherent s) (hf : Refers f s) (h : Effect cfg s f s' new) : Fits s s' new := by
  have hmention : ∀ {T}, mentions f = [T] → s.Exposed T := fun hT ↦
    hf.exposed _ (by rw [hT]; exact List.mem_cons_self)
  have hone : ∀ {g : ServerCall}, Refers g s → ∀ g' ∈ [g], Refers g' s :=
    fun hg ↦ List.forall_mem_singleton.mpr hg
  have htwo : ∀ {g h : ServerCall}, Refers g s → Refers h s → ∀ g' ∈ [g, h], Refers g' s :=
    fun hg hh ↦ List.forall_mem_cons.mpr ⟨hg, hone hh⟩
  cases h with
  | aside hg hexec hr hcalls =>
    refine Steady.fits (.of_apart hr rfl) hs fun g hg' ↦ ?_
    obtain ⟨h, hh, rfl⟩ := List.mem_map.mp hg'
    exact refers_of_aside (hcalls h hh)
  | draw hT hnone =>
    refine Steady.fits ?_ hs (hone (refers_of_silent rfl rfl))
    exact ⟨rfl, List.Subset.refl _, fun _ ↦ .inl, fun _ ↦ .inl, fun _ ↦ rfl, fun _ ↦ .inr rfl⟩
  | found hg hexec hr hh he =>
    obtain ⟨rfl, hT⟩ := hF.exposed_of_lookup he
    refine Steady.fits ?_ hs (refers_resume hh hT (.inl he))
    exact .of_apart hr rfl
  | lookup he hrunning =>
    obtain ⟨-, hT⟩ := hF.exposed_of_lookup he
    refine Steady.fits ?_ hs
      (htwo (refers_of_mention rfl rfl hT) (refers_of_mention rfl rfl hT))
    exact .of_eq rfl rfl
  | alreadySealed hsealed => exact (Steady.refl s).fits hs (List.forall_mem_nil _)
  | sweep hg hnodup horder hall hr hstopped =>
    -- a sweep goes over the tickets of registered entries, and those are exposed
    refine Steady.fits ?_ hs (hone ⟨fun T hT ↦ ?_, List.forall_mem_nil _⟩)
    · refine Steady.congr ?_ (registry_foldl_retain _) (entry_foldl_retain _)
      rw [hr]
      exact ⟨rfl, List.Subset.refl _, fun _ ↦ .inl, fun _ ↦ .inl, fun _ ↦ rfl, fun _ ↦ .inr rfl⟩
    · obtain ⟨e, he⟩ := horder T (by simpa [mentions] using hT)
      exact (hF.exposed_of_lookup he).2
  | threw =>
    refine Steady.fits ?_ hs (hone (refers_of_aside rfl))
    exact .of_apart ⟨rfl, rfl, List.Subset.refl _, rfl, rfl, rfl, List.Subset.refl _,
      fun _ ↦ .inl⟩ rfl
  | unshrunk herror =>
    refine Steady.fits ?_ hs (hone (refers_of_silent rfl rfl))
    exact .of_eq rfl rfl
  | built hcharge hshrink =>
    refine Steady.fits ?_ hs (hone (refers_of_silent rfl rfl))
    exact .of_apart ⟨rfl, rfl, List.Subset.refl _, rfl, rfl, rfl, List.Subset.refl _,
      fun _ ↦ .inl⟩ rfl
  | @unwound b T =>
    have hsteady : Steady s { s with registry := { s.registry.releaseReservation b with
        exposed := (T, b.serial) :: s.registry.exposed } } :=
      ⟨rfl, List.subset_cons_self _ _, fun _ ↦ .inl, fun _ ↦ .inl, fun _ ↦ rfl, fun _ ↦ .inr rfl⟩
    refine ⟨hsteady.coherent hs, hsteady.onward, ?_⟩
    rintro g (_ | ⟨_, _ | ⟨_, hg⟩⟩)
    · exact refers_of_mention rfl rfl List.mem_cons_self
    · exact refers_of_aside rfl
    · cases hg
  | @retracted b T hstopped =>
    have hsteady : Steady s { s with registry := { s.registry.releaseReservation b with
        exposed := (T, b.serial) :: s.registry.exposed } } :=
      ⟨rfl, List.subset_cons_self _ _, fun _ ↦ .inl, fun _ ↦ .inl, fun _ ↦ rfl, fun _ ↦ .inr rfl⟩
    refine ⟨hsteady.coherent hs, hsteady.onward, ?_⟩
    rintro g (_ | ⟨_, _ | ⟨_, _ | ⟨_, hg⟩⟩⟩)
    · exact refers_of_mention rfl rfl List.mem_cons_self
    · exact refers_of_mention rfl rfl List.mem_cons_self
    · exact refers_of_aside rfl
    · cases hg
  | @withdrawn b T r status hrunning hr hmarked =>
    -- the ticket was drawn for this call alone, so nothing is registered or exposed under it
    have hdrawn : (T, b.serial) ∈ s.registry.drawn := (hA.registry (.commit b T) rfl).2
    refine fits_committed hs (hF.registry.lookup_eq_none (f := .commit b T) rfl hdrawn)
      (hF.registry.not_exposed (f := .commit b T) rfl hdrawn) rfl rfl rfl (fun _ ↦ .inl) rfl ?_
    rintro hT - g (_ | ⟨_, _ | ⟨_, _ | ⟨_, hg⟩⟩⟩)
    · exact refers_of_mention rfl rfl hT
    · exact refers_of_mention rfl rfl hT
    · exact refers_of_aside rfl
    · cases hg
  | @committed b T r hrunning hr hmarked =>
    have hdrawn : (T, b.serial) ∈ s.registry.drawn := (hA.registry (.commit b T) rfl).2
    refine fits_committed (r := r) hs (hF.registry.lookup_eq_none (f := .commit b T) rfl hdrawn)
      (hF.registry.not_exposed (f := .commit b T) rfl hdrawn) rfl rfl rfl (fun ret hret ↦ ?_) rfl ?_
    · refine (List.mem_append.mp hret).imp_right fun hnew e own houtcome ↦ ?_
      rw [List.mem_singleton.mp hnew] at houtcome
      exact (PrepareOutcome.entry.inj houtcome).1.symm
    · intro hT he g hg
      rw [List.mem_singleton.mp hg]
      exact refers_of_carry rfl rfl hT he
  | replayed hreplayable =>
    have he := hf.known _ List.mem_cons_self
    refine Steady.fits ?_ hs (hone (refers_of_carry rfl rfl (hmention rfl) he))
    refine ⟨rfl, List.Subset.refl _, fun _ ↦ .inl, fun ret hret ↦ ?_, fun _ ↦ rfl, fun _ ↦ .inr rfl⟩
    refine (List.mem_append.mp hret).imp_right fun hnew e own houtcome ↦ ?_
    rw [List.mem_singleton.mp hnew] at houtcome
    rw [← (PrepareOutcome.entry.inj houtcome).1]
    exact he
  | refused =>
    refine Steady.fits ?_ hs (hone (refers_of_mention rfl rfl (hmention rfl)))
    exact .of_apart ((TicketRegistry.Apart.refl _).returned rfl) rfl
  | delivered =>
    refine Steady.fits ?_ hs (hone (refers_of_mention rfl rfl (hmention rfl)))
    refine ⟨rfl, List.Subset.refl _, fun e he ↦ ?_, fun _ ↦ .inl, fun _ ↦ rfl, fun _ ↦ .inr rfl⟩
    rcases List.mem_cons.mp he with rfl | hold
    · exact .inr (hf.known _ List.mem_cons_self)
    · exact .inl hold
  | undelivered =>
    refine (Steady.refl s).fits hs
      (htwo (refers_of_mention rfl rfl (hmention rfl)) (refers_of_mention rfl rfl (hmention rfl)))
  | @claimed e hreplayable =>
    have hclaim : Steady s
        (s.setEntry e.ticket ((s.entry e.ticket).setControl (s.entry e.ticket).claim)) :=
      .of_entry (hmention rfl) rfl
    refine Steady.fits ?_ hs (hone (refers_of_mention rfl rfl (hmention rfl)))
    exact ⟨rfl, List.Subset.refl _, fun _ ↦ .inl, fun _ ↦ .inl, hclaim.notifications,
      hclaim.control⟩
  | unclaimed =>
    exact (Steady.refl s).fits hs (hone (refers_of_mention rfl rfl (hmention rfl)))
  | entry hf' hexec =>
    refine Steady.fits (.of_entry (hmention rfl) ?_) hs (refers_map_entry (hmention rfl))
    exact notifications_of_exec hf'.2.1 hexec
  | @started T =>
    have hstart : Steady s (s.setEntry T ((s.entry T).setControl (s.entry T).start)) :=
      .of_entry (hmention rfl) rfl
    refine Steady.fits ?_ hs (hone (refers_of_mention rfl rfl (hmention rfl)))
    exact hstart.congr rfl rfl
  | unstarted =>
    exact (Steady.refl s).fits hs (hone (refers_of_mention rfl rfl (hmention rfl)))
  | removed he =>
    exact fits_notified hs (hmention rfl) rfl rfl rfl (refers_afterDrop (hmention rfl))
  | unlisted hnone =>
    refine fits_notified hs (hmention rfl) ?_ rfl rfl (List.forall_mem_nil _)
    rw [TicketRegistry.remove, hnone]
    rfl
  | ran hw hexec hpoint hfatal =>
    refine Steady.fits (.of_entry (hmention rfl)
      (notifications_of_exec (f := .run) (by simp) hexec)) hs ?_
    intro g hg
    rcases List.mem_append.mp hg with hg | hg
    · rcases hfatal with rfl | rfl
      · cases hg
      · rw [List.mem_singleton.mp hg]
        exact refers_of_silent rfl rfl
    · exact refers_map_entry (hmention rfl) g hg
  | @exited T _ hw =>
    have hexit : Steady s (s.setEntry T ((s.entry T).setControl
        { (s.entry T).toEntryControl with worker := .exited })) :=
      .of_entry (hmention rfl) rfl
    refine Steady.fits ?_ hs (refers_afterDrop (hmention rfl))
    exact hexit.congr rfl rfl
  | joining hf' hexec =>
    refine Steady.fits (.of_entry (hmention rfl) (notifications_of_exec ?_ hexec)) hs
      (hone (refers_of_carry rfl rfl (hmention rfl) (hf.known _ List.mem_cons_self)))
    rintro rfl
    cases hf'
  | joined hf' hexec =>
    refine Steady.fits (.of_entry (hmention rfl) (notifications_of_exec ?_ hexec)) hs
      (htwo (refers_of_mention rfl rfl (hmention rfl))
        (refers_of_carry rfl rfl (hmention rfl) (hf.known _ List.mem_cons_self)))
    rintro rfl
    cases hf'
  | replied =>
    refine Steady.fits ?_ hs (List.forall_mem_nil _)
    exact ⟨rfl, List.Subset.refl _, fun _ ↦ .inl, fun _ ↦ .inl, fun _ ↦ rfl, fun _ ↦ .inr rfl⟩
  | readOn =>
    exact (Steady.refl s).fits hs
      (htwo (refers_of_mention rfl rfl (hmention rfl)) (refers_of_mention rfl rfl (hmention rfl)))
  | closed =>
    exact (Steady.refl s).fits hs
      (htwo (refers_of_mention rfl rfl (hmention rfl)) (refers_of_mention rfl rfl (hmention rfl)))
  | each hexec =>
    have hT := hf.exposed _ List.mem_cons_self
    refine Steady.fits
      (.of_entry hT (notifications_of_exec (f := .terminate _) (by simp) hexec)) hs fun g hg ↦ ?_
    rcases List.mem_append.mp hg with hg | hg
    · exact refers_map_entry hT g hg
    · rw [List.mem_singleton.mp hg]
      exact ⟨fun T' hT' ↦ hf.exposed T' (List.mem_cons_of_mem _ hT'), List.forall_mem_nil _⟩
  | eachEnd =>
    refine Steady.fits ?_ hs fun g hg ↦ ?_
    · exact .of_eq rfl rfl
    · obtain ⟨T, hT, rfl⟩ := List.mem_map.mp hg
      exact refers_of_mention rfl rfl (hf.exposed T hT)
  | drop =>
    refine Steady.fits ?_ hs (refers_afterDrop (hmention rfl))
    exact .of_eq rfl rfl
  | destroy =>
    exact (Steady.refl s).fits hs
      (htwo (refers_of_mention rfl rfl (hmention rfl)) (refers_of_mention rfl rfl (hmention rfl)))
  | @release T =>
    refine Steady.fits ?_ hs (List.forall_mem_nil _)
    obtain ⟨hentry, -, admission, hr⟩ := registry_releaseLease s T
    refine .of_apart ?_ hentry
    rw [hr]
    exact ⟨rfl, rfl, List.Subset.refl _, rfl, rfl, rfl, List.Subset.refl _, fun _ ↦ .inl⟩

/-! ## All sections -/

/-- The record of a call that commits. -/
theorem Founded.record (h : Founded cfg s fun o ↦ n o + holding o f) {b : Building}
    (hf : f = .registry (.commit b T)) : ∃ r, s.registry.idempotency.lookup b.key = some r := by
  subst hf
  obtain ⟨r, hr, -⟩ := h.registry.reservation (f := .commit b T) rfl
  exact ⟨r, hr⟩

theorem apart_of_call {q r : TicketRegistry} {g : RegistryCall} (h : q.call g = some r) :
    q.Apart r ∧ r.admission = q.admission ∧ g.hands? = none := by
  cases g with
  | doGet T =>
    obtain rfl := Option.some.inj h
    refine ⟨?_, ?_, rfl⟩
    · split_ifs
      · exact .refl q
      · exact ⟨rfl, rfl, List.Subset.refl _, rfl, rfl, rfl, List.Subset.refl _, fun _ ↦ .inl⟩
    · split_ifs <;> rfl
  | getFlightInfo | lookup | cancelAndJoin | cancelAndJoinIdempotency | sealGpuUnavailable
  | stopAdmissionAndCancel | reap =>
    obtain rfl := Option.some.inj h
    exact ⟨.refl q, rfl, rfl⟩
  | _ => cases h

/-- What is not a section changes nothing but executions. -/
structure Idle (s s' : SidecarServer) : Prop where
  registry : s.registry.Apart s'.registry
  admission : s'.registry.admission = s.registry.admission
  uses : s'.uses = s.uses
  alive : s'.alive = s.alive
  swept : s'.swept = s.swept
  workers : ∀ T, (s'.entry T).workers = (s.entry T).workers
  steady : Steady s s'

/-- A thread enters a function. -/
theorem idle_of_call (hs : Coherent s) {t : ι} (hcall : (program cfg ι).call s t f = some s') :
    Idle s s' ∧ Refers f s := by
  cases f with
  | registry g =>
    obtain ⟨r, hr, rfl⟩ := Option.map_eq_some_iff.mp hcall
    obtain ⟨hapart, hadmission, hhands⟩ := apart_of_call hr
    refine ⟨⟨hapart, hadmission, rfl, rfl, rfl, fun _ ↦ rfl, .of_apart hapart rfl⟩, ?_, ?_⟩
    · intro T hT
      simp [mentions, hhands] at hT
    · intro e he
      simp [carries, hhands] at he
  | entry T worker f =>
    cases worker with
    | true =>
      obtain ⟨e, he, rfl⟩ := Option.map_eq_some_iff.mp hcall
      obtain ⟨hw, hn, hworkers⟩ : (s.entry T).worker = .created ∧
          e.notifications = (s.entry T).notifications ∧ e.workers = (s.entry T).workers := by
        simp only [ExecutionEntry.call] at he
        split at he
        · next hw =>
          obtain rfl := Option.some.inj he
          exact ⟨hw, rfl, rfl⟩
        · cases he
      have hT : s.Exposed T := by
        by_contra hno
        rw [(hs.pristine T hno).1] at hw
        cases hw
      refine ⟨⟨.refl _, rfl, rfl, rfl, rfl, fun T' ↦ ?_, .of_entry hT hn⟩,
        refers_of_mention rfl rfl hT⟩
      by_cases heq : T' = T
      · rw [heq, entry_setEntry_self, hworkers]
      · rw [entry_setEntry_of_ne heq]
    | false => cases hcall
  | _ => cases hcall

/-- Something happens to an input. -/
theorem idle_of_ambient {a : Bytes × Bytes × InputTraffic}
    (ha : (program cfg ι).ambient s a = some s') : Idle s s' := by
  simp only [program] at ha
  split_ifs at ha with hT
  obtain ⟨i, -, rfl⟩ := Option.map_eq_some_iff.mp ha
  refine ⟨.refl _, rfl, rfl, rfl, rfl, fun T ↦ ?_, rfl, List.Subset.refl _, fun _ ↦ .inl,
    fun _ ↦ .inl, fun T ↦ ?_, fun T ↦ .inr ?_⟩
  all_goals
    by_cases heq : T = a.1
    · rw [heq, entry_setEntry_self]
      rfl
    · rw [entry_setEntry_of_ne heq]

/-- **The parts fit**, in a ledger that rests on theirs. -/
theorem coherent_rests (cfg : SidecarConfig) (ι : Type*) :
    Program.Rests (program cfg ι) holding (Founded cfg) (fun _ f s ↦ Informed cfg f s)
      (fun b : Empty ↦ b.elim) (fun s _ ↦ Coherent s) fun _ f s ↦ Refers f s where
  call {s t f s' n m} hF hs hcall := by
    obtain ⟨hidle, hf⟩ := idle_of_call hs hcall
    have honward := hidle.steady.onward
    exact ⟨hidle.steady.coherent hs, honward.refers hf, fun _ g _ hg ↦ honward.refers hg⟩
  exec {s t f k s' new n m} hF hA hs hf hexec := by
    obtain ⟨hs', honward, hnew⟩ := fits_of_effect hF hA hs hf
      (effect_of_exec (fun b T heq ↦ hF.record heq) hexec)
    exact ⟨hs', hnew, fun _ g _ hg ↦ honward.refers hg⟩
  ambient {s a s' n m} hF hs ha := by
    have hsteady := (idle_of_ambient ha).steady
    exact ⟨hsteady.coherent hs, fun _ g _ hg ↦ hsteady.onward.refers hg⟩

/-- The invariants of the parts, and how they fit. -/
theorem ledger (cfg : SidecarConfig) (ι : Type*) :
    Program.Ledger (program cfg ι) holding (fun s n ↦ Founded cfg s n ∧ Coherent s)
      fun _ f s ↦ Informed cfg f s ∧ Refers f s :=
  (founded_ledger cfg ι).assert (coherent_rests cfg ι)

variable [Fintype ι] [DecidableEq ι] {c : Threads SidecarServer ι ServerCall}
  {ms : List (Move ι ServerCall ServerAnswer (Bytes × Bytes × InputTraffic))}

omit [DecidableEq ι] in
theorem weight_init (w : ServerCall → ℕ) : Program.weight w (init cfg ι) = 0 :=
  Program.weight_eq_zero nofun

omit [DecidableEq ι] in
theorem founded_init : Founded cfg (init cfg ι).shared
    (fun o ↦ Program.weight (holding o) (init cfg ι)) ∧
    Coherent (init cfg ι).shared := by
  refine ⟨⟨?_, fun T ↦ ⟨?_, nofun, nofun⟩⟩, ⟨fun T _ ↦ ⟨rfl, rfl⟩, nofun, nofun, nofun⟩⟩
  · have hregistry := (TicketRegistry.balanced_init cfg.toRegistryConfig Unit).1
    have hzero : ∀ o, Program.weight (TicketRegistry.holding o)
        (TicketRegistry.init cfg.toRegistryConfig Unit) = 0 := fun o ↦
      Program.weight_eq_zero nofun
    simp only [hzero] at hregistry
    simp only [weight_init]
    exact hregistry
  · exact (ExecutionEntry.holds_init (ι := Unit)).1

/-- **What holds of every reachable state** of the server and its threads. -/
theorem run_invariant (hrun : (program cfg ι).machine.run (init cfg ι) ms = some c) :
    (Founded cfg c.shared (fun o ↦ Program.weight (holding o) c) ∧ Coherent c.shared) ∧
      ∀ t, ∀ f ∈ c.calls t, Informed cfg f c.shared ∧ Refers f c.shared :=
  (ledger cfg ι).run ⟨founded_init, nofun⟩ hrun

/-- The invariants, with a call set apart from the others. -/
theorem founded_apart (hrun : (program cfg ι).machine.run (init cfg ι) ms = some c) {t : ι}
    (hf : f ∈ c.calls t) :
    Founded cfg c.shared fun o ↦ (Program.weight (holding o) c - holding o f) + holding o f := by
  obtain ⟨⟨hF, -⟩, -⟩ := run_invariant hrun
  have hle : ∀ o, holding o f ≤ Program.weight (holding o) c := fun o ↦ Program.le_weight hf
  simpa only [Nat.sub_add_cancel (hle _)] using hF

/-- The sections of a run are on the list. -/
theorem effect_of_step (hrun : (program cfg ι).machine.run (init cfg ι) ms = some c) {t : ι}
    {rest : List ServerCall} (hstack : c.calls t = f :: rest)
    (hexec : c.shared.exec cfg f k = some (s', new)) : Effect cfg c.shared f s' new := by
  have hF := founded_apart hrun (t := t) (f := f) (by rw [hstack]; exact List.mem_cons_self)
  exact effect_of_exec (fun b T heq ↦ hF.record heq) hexec

/-- An entry that is to be committed is as it was made. -/
theorem pristine_of_committing (hrun : (program cfg ι).machine.run (init cfg ι) ms = some c) {t : ι}
    {b : Building} (hf : .registry (.commit b T) ∈ c.calls t) :
    (c.shared.entry T).toEntryControl = {} := by
  obtain ⟨⟨-, hs⟩, hknows⟩ := run_invariant hrun
  have hdrawn : (T, b.serial) ∈ c.shared.registry.drawn :=
    ((hknows t _ hf).1.registry (.commit b T) rfl).2
  have hF := (founded_apart hrun hf).registry
  exact (hs.pristine T (hF.not_exposed (f := .commit b T) rfl hdrawn)).1

end SidecarServer

end MoSidecar
