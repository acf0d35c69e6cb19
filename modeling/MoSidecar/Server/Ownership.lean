import MoSidecar.Machine.Shared
import MoSidecar.Server.Retry

/-!
# Pointers to entries

An entry is there as long as somebody has a pointer to it: the registry, a handler of a cancellation
or of an upload, a result stream, a sweep or a preparation that is under way, or its own worker. The
use count that the server keeps for an entry is the number of these, in every reachable state; the
entry is destroyed by whoever gives up the last one.

Cancellation waits for an execution to be quiesced and for its worker, and not for its pointers. So
when it answers that the execution is quiesced, the worker has stopped, but the entry is gone only
if nobody else has a pointer to it.
-/

open Function (update)

namespace MoSidecar

/-- The ticket of the entry that a call of the registry has a pointer to. -/
def RegistryCall.owned? : RegistryCall → Option Bytes
  | .replay _ e | .deliver e | .claimEntry e => some e.ticket
  | .commit _ T => some T
  | .releaseReservation _ built _ => built
  | _ => none

/-- The call is the bottom of a worker's stack. -/
def EntryCall.runs : EntryCall → Bool
  | .run => true
  | _ => false

namespace SidecarServer

variable {cfg : SidecarConfig} {ι : Type*} {s s' : SidecarServer} {k : ServerAnswer}
  {f : ServerCall} {new : List ServerCall} {T : Bytes} {e : PreparedEntry}

/-! ## What calls have to do with an entry -/

/-- The pointers that a call has. A call of an entry relies on the pointer of its caller, but `run`
has the one of its worker. -/
def owned : ServerCall → List Bytes
  | .registry g => g.owned?.toList
  | .entry T _ f => if f.runs then [T] else []
  | .joining _ e _ => [e.ticket]
  | .opening T | .results T | .drop T => [T]
  | .each _ _ held => held
  | .reply .. | .destroy _ | .release _ => []

/-- The entries that a call is about to construct. -/
def constructing : ServerCall → List Bytes
  | .registry (.construct _ T) => [T]
  | _ => []

/-- The entries that a call is about to destroy. -/
def destroying : ServerCall → List Bytes
  | .destroy T | .release T => [T]
  | _ => []

/-- The entries that a call is the worker of. -/
def working : ServerCall → List Bytes
  | .entry T _ f => if f.runs then [T] else []
  | _ => []

/-- What a call may have to do with an entry. -/
inductive Role where
  | owner
  | constructor
  | destructor
  | worker
  deriving DecidableEq

def tickets : Role → ServerCall → List Bytes
  | .owner => owned
  | .constructor => constructing
  | .destructor => destroying
  | .worker => working

/-- How often a call plays a role for an entry. -/
def role (x : Role × Bytes) (f : ServerCall) : ℕ := (tickets x.1 f).count x.2

theorem sum_role (x : Role × Bytes) (new : List ServerCall) :
    (new.map (role x)).sum = (new.flatMap (tickets x.1)).count x.2 := by
  rw [List.count_flatMap]
  rfl

/-- The pointer of the map. -/
def mapped (s : SidecarServer) (T : Bytes) : ℕ := (s.registry.entries.lookup T).isSome.toNat

/-- The pointer of a worker that was created. -/
def created (s : SidecarServer) (T : Bytes) : ℕ := (s.entry T).worker.isCreated.toNat

/-- The entry of the ticket was constructed, and not destroyed. -/
def Alive (s : SidecarServer) (T : Bytes) : Prop := T ∈ s.alive.map (·.ticket)

/-- The ticket was drawn. -/
def Drawn (s : SidecarServer) (T : Bytes) : Prop := T ∈ s.registry.drawn.map Prod.fst

/-- Use counts are what they should be. -/
structure Owned (s : SidecarServer) (n : Role × Bytes → ℕ) : Prop where
  shared : ∀ T, Shared (s.uses T) (n (.owner, T) + s.mapped T + s.created T) (n (.constructor, T))
    (n (.destructor, T)) (s.Alive T) (s.Drawn T)
  worker : ∀ T, n (.worker, T) = (s.entry T).worker.isRunning.toNat
  nodup : (s.alive.map (·.ticket)).Nodup

/-- An entry of which nothing has changed that has to do with pointers. -/
structure Alike (s s' : SidecarServer) (T : Bytes) : Prop where
  uses : s'.uses T = s.uses T
  mapped : s'.mapped T = s.mapped T
  created : s'.created T = s.created T
  running : (s'.entry T).worker.isRunning = (s.entry T).worker.isRunning
  alive : s'.Alive T ↔ s.Alive T

namespace Owned

variable {m : Role × Bytes → ℕ}

/-- A section that has to do with the pointers to one entry only. -/
theorem step (h : Owned s fun x ↦ m x + role x f) (T : Bytes)
    (hother : ∀ T', T' ≠ T → Alike s s' T' ∧
      ∀ r, (new.flatMap (tickets r)).count T' = (tickets r f).count T')
    (hdrawn : s.registry.drawn ⊆ s'.registry.drawn) (hnodup : (s'.alive.map (·.ticket)).Nodup)
    (hself : ∀ {p c d}, Shared (s.uses T) (p + (owned f).count T + s.mapped T + s.created T)
        (c + (constructing f).count T) (d + (destroying f).count T) (s.Alive T) (s.Drawn T) →
      Shared (s'.uses T) (p + (new.flatMap owned).count T + s'.mapped T + s'.created T)
        (c + (new.flatMap constructing).count T) (d + (new.flatMap destroying).count T)
        (s'.Alive T) (s'.Drawn T))
    (hworker : ∀ {w}, w + (working f).count T = (s.entry T).worker.isRunning.toNat →
      w + (new.flatMap working).count T = (s'.entry T).worker.isRunning.toNat) :
    Owned s' fun x ↦ m x + (new.map (role x)).sum where
  shared T' := by
    simp only [sum_role]
    by_cases hT : T' = T
    · subst hT
      exact hself (h.shared T')
    · obtain ⟨halike, hroles⟩ := hother T' hT
      have hold := h.shared T'
      simp only [role, ← hroles] at hold
      rw [halike.uses, halike.mapped, halike.created]
      exact (hold.learn fun hk ↦ List.map_subset _ hdrawn hk).congr rfl rfl rfl rfl halike.alive
  worker T' := by
    simp only [sum_role]
    by_cases hT : T' = T
    · subst hT
      exact hworker (h.worker T')
    · obtain ⟨halike, hroles⟩ := hother T' hT
      have hold := h.worker T'
      simp only [role, ← hroles] at hold
      rw [halike.running]
      exact hold
  nodup := hnodup

end Owned

/-! ## What a section leaves as it is -/

theorem worker_setEntry {a : ExecutionEntry}
    (hcreated : a.worker.isCreated = (s.entry T).worker.isCreated)
    (hrunning : a.worker.isRunning = (s.entry T).worker.isRunning) (T' : Bytes) :
    ((s.setEntry T a).entry T').worker.isCreated = (s.entry T').worker.isCreated ∧
      ((s.setEntry T a).entry T').worker.isRunning = (s.entry T').worker.isRunning := by
  by_cases hT : T' = T
  · rw [hT, entry_setEntry_self]
    exact ⟨hcreated, hrunning⟩
  · rw [entry_setEntry_of_ne hT]
    exact ⟨rfl, rfl⟩

theorem uses_retain (T T' : Bytes) : (s.retain T).uses T' = s.uses T' + [T].count T' := by
  by_cases hT : T' = T
  · rw [hT, List.count_singleton_self]
    exact Function.update_self ..
  · rw [List.count_eq_zero_of_not_mem (by simpa using hT)]
    exact Function.update_of_ne hT ..

theorem uses_foldl_retain (order : List Bytes) (T : Bytes) :
    (order.foldl retain s).uses T = s.uses T + order.count T := by
  induction order generalizing s with
  | nil => rfl
  | cons T' order ih =>
    rw [List.foldl_cons, ih, uses_retain, ← List.singleton_append (l := order), List.count_append,
      Nat.add_assoc]

theorem alive_foldl_retain (order : List Bytes) : (order.foldl retain s).alive = s.alive := by
  induction order generalizing s with
  | nil => rfl
  | cons T' order ih =>
    rw [List.foldl_cons, ih]
    rfl

theorem tickets_of_aside {g : RegistryCall} (hg : g.aside = true) (r : Role) :
    tickets r (.registry g) = [] := by
  cases g with
  | releaseReservation b built what =>
    cases built with
    | none => cases r <;> rfl
    | some T => cases hg
  | construct | commit | replay | deliver | claimEntry | joinEntry | sealGpuUnavailable
  | stopAdmissionAndCancel => cases hg
  | _ => cases r <;> rfl

/-- Calls of an entry that are not `run` play no role of their own. -/
theorem tickets_of_not_runs {worker : Bool} {g : EntryCall} (hg : g.runs = false) (r : Role) :
    tickets r (.entry T worker g) = [] := by
  cases r with
  | owner | worker =>
    show (if g.runs = true then [T] else []) = []
    rw [hg]
    rfl
  | constructor | destructor => rfl

theorem tickets_map_entry {worker : Bool} {calls : List EntryCall}
    (hcalls : ∀ g ∈ calls, g.runs = false) (r : Role) :
    (calls.map (.entry T worker)).flatMap (tickets r) = [] := by
  rw [List.flatMap_eq_nil_iff]
  intro f hf
  obtain ⟨g, hg, rfl⟩ := List.mem_map.mp hf
  exact tickets_of_not_runs (hcalls g hg) r

theorem not_runs_of_passive {g : EntryCall} (hg : g.passive = true) : g.runs = false := by
  cases g with
  | run => cases hg
  | _ => rfl

theorem tickets_afterDrop (T : Bytes) (r : Role) :
    (s.afterDrop T).flatMap (tickets r) = match r with
      | .destructor => if s.uses T = 1 then [T] else []
      | _ => [] := by
  rw [afterDrop]
  cases r <;> split_ifs <;> rfl

/-- A worker that goes on has its pointer still. -/
theorem tickets_of_run {c c' : EntryControl} {cfg : ExecutionConfig} {k : EntryAnswer}
    {point : RunPoint} {calls : List EntryCall} (hrun : c.runStep cfg k point = some (c', calls))
    (hne : calls ≠ []) :
    ∃ before, calls = before ++ [.run] ∧ ∀ g ∈ before, g.runs = false := by
  cases EntryControl.section_of_runStep hrun with
  | @threw point what before hpoint hbefore =>
    refine ⟨before, rfl, ?_⟩
    rcases hbefore with rfl | rfl
    · exact List.forall_mem_nil _
    · exact List.forall_mem_singleton.mpr rfl
  | expired => exact ⟨[.cancel true], rfl, List.forall_mem_singleton.mpr rfl⟩
  | @finished status outcome =>
    refine ⟨[EntryControl.releaseInputs cfg outcome, .maybeNotifyTerminal], rfl, ?_⟩
    rintro g (_ | ⟨_, _ | ⟨_, hg⟩⟩)
    · cases outcome <;> rfl
    · rfl
    · cases hg
  | left => exact absurd rfl hne
  | _ => exact ⟨[], rfl, List.forall_mem_nil _⟩

/-- The same for a section of `run` that does not return. -/
theorem tickets_of_exec_run {t : Option ι} {a : EntryAnswer} {e' : ExecutionEntry}
    {calls : List EntryCall} {point : RunPoint}
    (h : (s.entry T).exec (cfg.executions T) t .run a = some (e', calls))
    (hw : e'.worker = .running point) :
    ∃ before, calls = before ++ [.run] ∧ ∀ g ∈ before, g.runs = false := by
  obtain ⟨point', hw', ⟨-, rfl, -⟩ | ⟨-, hne⟩⟩ := run_cases h
  · cases hw
  · cases ExecutionEntry.section_of_exec h with
    | run hw hrun => exact tickets_of_run hrun hne

/-! ## One section at a time -/

variable {n : Option Reservation → ℕ} {m : Role × Bytes → ℕ}

theorem mapped_of_lookup (he : s.registry.entries.lookup T = some e) : s.mapped T = 1 := by
  rw [mapped, he]
  rfl

theorem mapped_of_lookup_none (he : s.registry.entries.lookup T = none) : s.mapped T = 0 := by
  rw [mapped, he]
  rfl

/-- A section that plays at most one role each for one entry. -/
theorem Owned.at {b a : Role → ℕ} (hs : Owned s fun x ↦ m x + role x f) (T : Bytes)
    (hf : ∀ r, tickets r f = List.replicate (b r) T)
    (hnew : ∀ r, new.flatMap (tickets r) = List.replicate (a r) T)
    (hother : ∀ T', T' ≠ T → Alike s s' T') (hdrawn : s.registry.drawn ⊆ s'.registry.drawn)
    (hnodup : (s'.alive.map (·.ticket)).Nodup)
    (hself : ∀ {p c d}, Shared (s.uses T) (p + (b .owner + s.mapped T + s.created T))
        (c + b .constructor) (d + b .destructor) (s.Alive T) (s.Drawn T) →
      Shared (s'.uses T) (p + (a .owner + s'.mapped T + s'.created T)) (c + a .constructor)
        (d + a .destructor) (s'.Alive T) (s'.Drawn T))
    (hworker : ∀ {w}, w + b .worker = (s.entry T).worker.isRunning.toNat →
      w + a .worker = (s'.entry T).worker.isRunning.toNat) :
    Owned s' fun x ↦ m x + (new.map (role x)).sum := by
  refine hs.step T (fun T' hT ↦ ⟨hother T' hT, fun r ↦ ?_⟩) hdrawn hnodup (fun h ↦ ?_) fun h ↦ ?_
  · have hnone : ∀ j, (List.replicate j T).count T' = 0 := fun j ↦
      List.count_eq_zero_of_not_mem fun h ↦ hT (List.eq_of_mem_replicate h)
    rw [hf, hnew, hnone, hnone]
  · rw [show owned f = _ from hf .owner, show constructing f = _ from hf .constructor,
      show destroying f = _ from hf .destructor, List.count_replicate_self,
      List.count_replicate_self, List.count_replicate_self] at h
    rw [show new.flatMap owned = _ from hnew .owner,
      show new.flatMap constructing = _ from hnew .constructor,
      show new.flatMap destroying = _ from hnew .destructor, List.count_replicate_self,
      List.count_replicate_self, List.count_replicate_self, Nat.add_assoc, Nat.add_assoc,
      ← Nat.add_assoc (a .owner)]
    rw [Nat.add_assoc, Nat.add_assoc, ← Nat.add_assoc (b .owner)] at h
    exact hself h
  · rw [show working f = _ from hf .worker, List.count_replicate_self] at h
    rw [show new.flatMap working = _ from hnew .worker, List.count_replicate_self]
    exact hworker h

/-- One role, once. -/
def once (r : Role) : Role → ℕ
  | r' => if r' = r then 1 else 0

/-- A pointer is copied, from the map for the call, or from the call for the map. -/
theorem Owned.copied {b : Role → ℕ} (hs : Owned s fun x ↦ m x + role x f)
    (hf : ∀ r, tickets r f = List.replicate (b r) T)
    (hb : b .constructor = 0 ∧ b .destructor = 0 ∧ b .worker = 0)
    (hnew : ∀ r, new.flatMap (tickets r) = List.replicate (once .owner r) T)
    (hpos : 0 < b .owner + s.mapped T) (hmapped : s'.mapped T = b .owner + s.mapped T)
    (hother : ∀ T', T' ≠ T → s'.mapped T' = s.mapped T')
    (hframe : s'.uses = (s.retain T).uses ∧ s.registry.drawn ⊆ s'.registry.drawn ∧
      s'.alive = s.alive ∧ s'.entry = s.entry) :
    Owned s' fun x ↦ m x + (new.map (role x)).sum := by
  obtain ⟨huses, hdrawn, halive, hentry⟩ := hframe
  have hcreated : ∀ T', s'.created T' = s.created T' := fun T' ↦ by rw [created, hentry, created]
  have hsameAlive : ∀ T', s'.Alive T' ↔ s.Alive T' := fun T' ↦ by rw [Alive, halive, Alive]
  refine hs.at T hf hnew (fun T' hT ↦ ⟨?_, hother T' hT, hcreated T', ?_, hsameAlive T'⟩) hdrawn ?_
    (fun {p c d} h ↦ ?_) fun {w} h ↦ ?_
  · rw [huses]
    exact Function.update_of_ne hT ..
  · rw [hentry]
  · rw [halive]
    exact hs.nodup
  · have hcounted := h.counted
    have hcopy := (h.copy (by omega)).learn fun hk ↦ List.map_subset Prod.fst hdrawn hk
    refine hcopy.congr ?_ ?_ ?_ ?_ (hsameAlive T)
    · rw [huses, uses_retain, List.count_singleton_self]
    · rw [hmapped, hcreated]
      show p + (1 + (b .owner + s.mapped T) + s.created T)
        = p + (b .owner + s.mapped T + s.created T) + 1
      omega
    · rw [hb.1]
      rfl
    · rw [hb.2.1]
      rfl
  · rw [hb.2.2] at h
    rw [hentry]
    exact h

/-- A pointer is given up, by the call or by the map. -/
theorem Owned.givenUp {b : Role → ℕ} (hs : Owned s fun x ↦ m x + role x f)
    (hf : ∀ r, tickets r f = List.replicate (b r) T) (hb : b .constructor = 0 ∧ b .destructor = 0)
    (hpointer : b .owner + s.mapped T = 1 + s'.mapped T)
    (hother : ∀ T', T' ≠ T → s'.mapped T' = s.mapped T')
    (hframe : s'.uses = (s.giveUp T).uses ∧ s'.registry.drawn = s.registry.drawn ∧
      s'.alive = s.alive) (hcreated : ∀ T', s'.created T' = s.created T')
    (hrunning : ∀ T', T' ≠ T → (s'.entry T').worker.isRunning = (s.entry T').worker.isRunning)
    (hworker : b .worker + (s'.entry T).worker.isRunning.toNat
      = (s.entry T).worker.isRunning.toNat) :
    Owned s' fun x ↦ m x + ((s.afterDrop T).map (role x)).sum := by
  obtain ⟨huses, hdrawn, halive⟩ := hframe
  have hsameAlive : ∀ T', s'.Alive T' ↔ s.Alive T' := fun T' ↦ by rw [Alive, halive, Alive]
  refine hs.at (a := fun r ↦ if r = .destructor ∧ s.uses T = 1 then 1 else 0) T hf (fun r ↦ ?_)
    (fun T' hT ↦ ⟨?_, hother T' hT, hcreated T', hrunning T' hT, hsameAlive T'⟩) ?_ ?_
    (fun {p c d} h ↦ ?_) fun {w} h ↦ ?_
  · rw [tickets_afterDrop]
    cases r with
    | destructor => by_cases hlast : s.uses T = 1 <;> simp [hlast]
    | _ => rfl
  · rw [huses]
    exact Function.update_of_ne hT ..
  · rw [hdrawn]
    exact List.Subset.refl _
  · rw [halive]
    exact hs.nodup
  · have hsum : p + (s'.mapped T + s.created T) + 1 =
        p + (b .owner + s.mapped T + s.created T) := by
      omega
    have hgive := (h.congr rfl hsum rfl rfl .rfl).giveUp
    rw [Drawn, hdrawn]
    refine hgive.congr ?_ ?_ ?_ ?_ (hsameAlive T)
    · rw [huses]
      exact Function.update_self ..
    · rw [hcreated]
      show p + (0 + s'.mapped T + s.created T) = p + (s'.mapped T + s.created T)
      omega
    · rw [hb.1]
      rfl
    · rw [hb.2]
      simp
  · rw [← hworker] at h
    show w + 0 = _
    omega

/-- A new entry is registered, with a pointer for the map. -/
theorem Owned.mapsNew {b : Building} {r : IdempotencyRecord}
    (hs : Owned s fun x ↦ m x + role x f) (hf : f = .registry (.commit b T))
    (hfresh : s.registry.entries.lookup T = none)
    (hentries : s'.registry.entries = (s.registry.committed b T r).entries)
    (hnew : ∀ r, new.flatMap (tickets r) = List.replicate (once .owner r) T)
    (hframe : s'.uses = (s.retain T).uses ∧ s.registry.drawn ⊆ s'.registry.drawn ∧
      s'.alive = s.alive ∧ s'.entry = s.entry) :
    Owned s' fun x ↦ m x + (new.map (role x)).sum := by
  subst hf
  have hmap : s'.registry.entries.lookup = update s.registry.entries.lookup T
      (some (b.entry T)) := by
    rw [hentries]
    exact TicketRegistry.lookup_committed hfresh
  refine hs.copied (b := once .owner) (T := T) (fun r ↦ by cases r <;> rfl) ⟨rfl, rfl, rfl⟩ hnew
    ?_ ?_ (fun T' hT ↦ ?_) hframe
  · exact Nat.lt_of_lt_of_le Nat.one_pos (Nat.le_add_right 1 _)
  · rw [mapped_of_lookup_none hfresh, mapped, congrFun hmap T, Function.update_self]
    rfl
  · rw [mapped, congrFun hmap T', Function.update_of_ne hT, mapped]

/-- A sweep takes a pointer to each of its entries. -/
theorem Owned.swept {cause : Cause} {q : TicketRegistry} {order : List Bytes}
    (hs : Owned s fun x ↦ m x + role x f)
    (horder : ∀ T ∈ order, ∃ e, s.registry.entries.lookup T = some e)
    (hentries : q.entries = s.registry.entries) (hdrawn : q.drawn = s.registry.drawn)
    (hf : ∀ r, tickets r f = []) :
    Owned (order.foldl retain { s with registry := q })
      fun x ↦ m x + ([ServerCall.each cause order order].map (role x)).sum where
  shared T := by
    have h := hs.shared T
    simp only [role, hf, List.count_nil, Nat.add_zero] at h
    have hcopies := h.copies (order.count T) fun hcount ↦ by
      obtain ⟨e, he⟩ := horder T (List.count_pos_iff.mp hcount)
      rw [h.counted, mapped_of_lookup he]
      omega
    rw [mapped, created, Alive, Drawn, registry_foldl_retain, entry_foldl_retain,
      alive_foldl_retain, hentries, hdrawn, ← mapped, ← created, ← Alive, ← Drawn]
    refine hcopies.congr (uses_foldl_retain order T) ?_ rfl rfl .rfl
    show m (.owner, T) + (order.count T + 0) + s.mapped T + s.created T = _
    omega
  worker T := by
    have h := hs.worker T
    simp only [role, hf, List.count_nil] at h
    rw [entry_foldl_retain]
    exact h
  nodup := by
    rw [alive_foldl_retain]
    exact hs.nodup

/-- An entry is constructed, with a pointer for the call. -/
theorem Owned.constructed (hs : Owned s fun x ↦ m x + role x f)
    (hf : ∀ r, tickets r f = List.replicate (once .constructor r) T)
    (hnew : ∀ r, new.flatMap (tickets r) = List.replicate (once .owner r) T)
    (hmapped : ∀ T', s'.mapped T' = s.mapped T')
    (hframe : s'.uses = (s.retain T).uses ∧ s'.registry.drawn = s.registry.drawn ∧
      s'.alive.map (·.ticket) = T :: s.alive.map (·.ticket) ∧ s'.entry = s.entry) :
    Owned s' fun x ↦ m x + (new.map (role x)).sum := by
  obtain ⟨huses, hdrawn, halive, hentry⟩ := hframe
  have hcreated : ∀ T', s'.created T' = s.created T' := fun T' ↦ by rw [created, hentry, created]
  have hself : s'.Alive T := by
    rw [Alive, halive]
    exact List.mem_cons_self
  refine hs.at T hf hnew (fun T' hT ↦ ⟨?_, hmapped T', hcreated T', ?_, ?_⟩) ?_ ?_
    (fun {p c d} h ↦ ?_) fun {w} h ↦ ?_
  · rw [huses]
    exact Function.update_of_ne hT ..
  · rw [hentry]
  · rw [Alive, halive, Alive, List.mem_cons, or_iff_right hT]
  · rw [hdrawn]
    exact List.Subset.refl _
  · rw [halive, List.nodup_cons]
    refine ⟨?_, hs.nodup⟩
    have hshared := hs.shared T
    simp only [role] at hshared
    rw [show tickets Role.constructor f = [T] from hf .constructor,
      List.count_singleton_self] at hshared
    exact hshared.not_alive_of_constructing
  · rw [Drawn, hdrawn]
    refine (h.construct hself).congr ?_ ?_ rfl rfl .rfl
    · rw [huses, uses_retain, List.count_singleton_self]
    · rw [hmapped, hcreated]
      show p + (1 + s.mapped T + s.created T) = p + (0 + s.mapped T + s.created T) + 1
      omega
  · rw [hentry]
    exact h

/-- The lease is given back, and the entry is gone. -/
theorem alive_releaseLease (s : SidecarServer) (T : Bytes) :
    (s.releaseLease T).alive.map (·.ticket) = (s.alive.map (·.ticket)).filter (· ≠ T) := by
  rw [releaseLease, List.filter_map]
  split
  · next hnone =>
    rw [List.filter_eq_self.mpr]
    intro e he
    simpa using List.find?_eq_none.mp hnone e he
  · rfl

theorem tickets_resume {h : RegistryCall} (hh : h.found? = some e) (r : Role) :
    (resume h).flatMap (tickets r) = List.replicate (once .owner r) e.ticket := by
  cases h with
  | replay command e' | claimEntry e' | joinEntry identity e' =>
    obtain rfl := Option.some.inj hh
    cases r <;> rfl
  | _ => cases hh

/-- A section of an entry other than `start` and `run` leaves the worker where it is. -/
theorem idle_of_exec {cfg : ExecutionConfig} {e e' : ExecutionEntry} {t : Option ι} {g : EntryCall}
    {a : EntryAnswer} {calls : List EntryCall} (hg : g ≠ .start ∧ g ≠ .run)
    (h : e.exec cfg t g a = some (e', calls)) :
    e'.worker.isCreated = e.worker.isCreated ∧ e'.worker.isRunning = e.worker.isRunning ∧
      ∀ g' ∈ calls, g'.runs = false := by
  have hpassive : g.passive = true → e'.worker.isCreated = e.worker.isCreated ∧
      e'.worker.isRunning = e.worker.isRunning ∧ ∀ g' ∈ calls, g'.runs = false := fun hg ↦ by
    obtain ⟨-, hcreated, hrunning, -, -, hcalls⟩ := ExecutionEntry.passive_of_exec hg h
    exact ⟨hcreated, hrunning, fun g' hg' ↦ not_runs_of_passive (hcalls g' hg')⟩
  cases g with
  | claim =>
    obtain ⟨rfl, rfl⟩ := Prod.mk.inj (Option.some.inj h)
    refine ⟨?_, ?_, List.forall_mem_nil _⟩
    · simp only [ExecutionEntry.setControl, EntryControl.claim]
      split_ifs <;> rfl
    · simp only [ExecutionEntry.setControl, EntryControl.claim]
      split_ifs <;> rfl
  | start => exact absurd rfl hg.1
  | run => exact absurd rfl hg.2
  | _ => exact hpassive rfl

theorem ne_of_joins {g : EntryCall} (hg : g.joins = true) : g ≠ .start ∧ g ≠ .run := by
  constructor
  · rintro rfl
    cases hg
  · rintro rfl
    cases hg

theorem worker_setEntry_created {a : ExecutionEntry}
    (hcreated : a.worker.isCreated = (s.entry T).worker.isCreated) (T' : Bytes) :
    ((s.setEntry T a).entry T').worker.isCreated = (s.entry T').worker.isCreated := by
  by_cases hT : T' = T
  · rw [hT, entry_setEntry_self, hcreated]
  · rw [entry_setEntry_of_ne hT]

/-- The worker is created, with a pointer of its own. -/
theorem Owned.starts (hs : Owned s fun x ↦ m x + role x (.opening T))
    (hidle : (s.entry T).worker.isCreated = false ∧ (s.entry T).worker.isRunning = false)
    (hstart : (s.entry T).start.worker = .created) :
    Owned ((s.setEntry T ((s.entry T).setControl (s.entry T).start)).retain T)
      fun x ↦ m x + ([ServerCall.results T].map (role x)).sum := by
  have hself : (((s.setEntry T ((s.entry T).setControl (s.entry T).start)).retain T).entry T).worker
      = .created := by
    rw [entry_retain, entry_setEntry_self]
    exact hstart
  refine hs.at (b := once .owner) (a := once .owner) T (fun r ↦ by cases r <;> rfl)
    (fun r ↦ by cases r <;> rfl) (fun T' hT ↦ ⟨Function.update_of_ne hT .., rfl, ?_, ?_, .rfl⟩)
    (List.Subset.refl _) hs.nodup (fun {p c d} h ↦ ?_) fun {w} h ↦ ?_
  · rw [created, entry_retain, entry_setEntry_of_ne hT, created]
  · rw [entry_retain, entry_setEntry_of_ne hT]
  · have hsum : p + (s.mapped T + s.created T) + 1
        = p + (once .owner .owner + s.mapped T + s.created T) := by
      show _ = p + (1 + s.mapped T + s.created T)
      omega
    have hcopy := h.congr rfl hsum rfl rfl .rfl
    refine (hcopy.copy hcopy.pos).congr ?_ ?_ rfl rfl .rfl
    · rw [uses_retain, List.count_singleton_self]
      rfl
    · rw [created, hself, created, hidle.1]
      show p + (1 + s.mapped T + 1) = p + (s.mapped T + 0) + 1 + 1
      omega
  · rw [hself]
    rw [hidle.2] at h
    exact h

/-- The entry is destroyed. -/
theorem Owned.released (hs : Owned s fun x ↦ m x + role x (.release T))
    (hentry : (s.releaseLease T).entry = s.entry) (huses : (s.releaseLease T).uses = s.uses)
    {admission : StreamAdmissionController}
    (hr : (s.releaseLease T).registry = { s.registry with admission }) :
    Owned (s.releaseLease T) fun x ↦ m x + (([] : List ServerCall).map (role x)).sum := by
  have hmapped : ∀ T', (s.releaseLease T).mapped T' = s.mapped T' := fun T' ↦ by
    rw [mapped, hr, mapped]
  have hcreated : ∀ T', (s.releaseLease T).created T' = s.created T' := fun T' ↦ by
    rw [created, hentry, created]
  have halive := alive_releaseLease s T
  refine hs.at (b := once .destructor) (a := fun _ ↦ 0) T (fun r ↦ by cases r <;> rfl)
    (fun r ↦ by cases r <;> rfl)
    (fun T' hT ↦ ⟨congrFun huses T', hmapped T', hcreated T', by rw [hentry], ?_⟩) ?_ ?_
    (fun {p c d} h ↦ ?_) fun {w} h ↦ ?_
  · rw [Alive, halive, List.mem_filter, Alive, and_iff_left (by simpa using hT)]
  · rw [hr]
    exact List.Subset.refl _
  · rw [halive]
    exact hs.nodup.filter _
  · have hgone : ¬(s.releaseLease T).Alive T := by
      rw [Alive, halive, List.mem_filter]
      simp
    rw [Drawn, hr, ← Drawn]
    exact (h.destroyed hgone).congr (congrFun huses T) (by rw [hmapped, hcreated]; rfl) rfl rfl .rfl
  · rw [hentry]
    exact h

/-- A section that leaves all pointers where they are, or hands them on. -/
structure HandsOn (s s' : SidecarServer) (f : ServerCall) (new : List ServerCall) : Prop where
  uses : s'.uses = s.uses
  entries : s'.registry.entries = s.registry.entries
  drawn : s.registry.drawn ⊆ s'.registry.drawn
  alive : s'.alive = s.alive
  worker : ∀ T, (s'.entry T).worker.isCreated = (s.entry T).worker.isCreated ∧
    (s'.entry T).worker.isRunning = (s.entry T).worker.isRunning
  tickets : ∀ r, new.flatMap (tickets r) = SidecarServer.tickets r f

theorem Owned.handsOn (hs : Owned s fun x ↦ m x + role x f) (h : HandsOn s s' f new) :
    Owned s' fun x ↦ m x + (new.map (role x)).sum where
  shared T := by
    have hmapped : s'.mapped T = s.mapped T := by rw [mapped, h.entries, mapped]
    have hcreated : s'.created T = s.created T := congrArg Bool.toNat (h.worker T).1
    simp only [sum_role, h.tickets]
    rw [h.uses, hmapped, hcreated]
    refine ((hs.shared T).learn fun hk ↦ List.map_subset _ h.drawn hk).congr rfl rfl rfl rfl ?_
    rw [Alive, h.alive, Alive]
  worker T := by
    simp only [sum_role, h.tickets]
    rw [(h.worker T).2]
    exact hs.worker T
  nodup := by
    rw [h.alive]
    exact hs.nodup

/-- **Every section keeps the use counts right.** -/
theorem owned_of_effect (hF : Founded cfg s fun o ↦ n o + holding o f) (hA : Informed cfg f s)
    (hs : Owned s fun x ↦ m x + role x f) (h : Effect cfg s f s' new) :
    Owned s' fun x ↦ m x + (new.map (role x)).sum := by
  have hsubset : s.registry.drawn ⊆ s.registry.drawn := List.Subset.refl _
  have hworker : ∀ T, (s.entry T).worker.isCreated = (s.entry T).worker.isCreated ∧
      (s.entry T).worker.isRunning = (s.entry T).worker.isRunning := fun _ ↦ ⟨rfl, rfl⟩
  cases h with
  | aside hg hexec hapart hcalls =>
    refine hs.handsOn ⟨rfl, hapart.entries, hapart.drawn, rfl, hworker, fun r ↦ ?_⟩
    rw [tickets_of_aside hg, List.flatMap_eq_nil_iff]
    intro f hf
    obtain ⟨g, hg', rfl⟩ := List.mem_map.mp hf
    exact tickets_of_aside (hcalls g hg') r
  | @draw b T hT hnone =>
    refine hs.at (b := fun _ ↦ 0) (a := once .constructor) T (fun r ↦ by cases r <;> rfl)
      (fun r ↦ by cases r <;> rfl) (fun T' _ ↦ ?_) (List.subset_cons_self _ _) hs.nodup
      (fun h ↦ ?_) fun h ↦ h
    · exact ⟨rfl, rfl, rfl, rfl, .rfl⟩
    · exact h.announce hT List.mem_cons_self
  | @found g h a r e T hg hexec hapart hh he =>
    -- the map keeps its pointer, and the call gets another one
    obtain ⟨rfl, -⟩ := hF.exposed_of_lookup he
    have hmapped : ∀ T', ({ s with registry := r }.retain e.ticket).mapped T' = s.mapped T' :=
      fun T' ↦ by
        rw [mapped, registry_retain, hapart.entries, mapped]
    refine hs.copied (b := fun _ ↦ 0) (T := e.ticket) (fun r ↦ tickets_of_aside hg r)
      ⟨rfl, rfl, rfl⟩ (tickets_resume hh) ?_ ?_ (fun T' _ ↦ hmapped T')
        ⟨rfl, hapart.drawn, rfl, rfl⟩
    · rw [mapped_of_lookup he]
      exact Nat.one_pos
    · rw [hmapped, Nat.zero_add]
  | @lookup T ref e he hrunning =>
    refine hs.copied (b := fun _ ↦ 0) (T := T) (fun r ↦ by cases r <;> rfl) ⟨rfl, rfl, rfl⟩
      (fun r ↦ by cases r <;> rfl) ?_ ?_ (fun _ _ ↦ rfl) ⟨rfl, hsubset, rfl, rfl⟩
    · rw [mapped_of_lookup he]
      exact Nat.one_pos
    · exact (Nat.zero_add _).symm
  | alreadySealed =>
    refine hs.handsOn ?_
    exact ⟨rfl, rfl, hsubset, rfl, hworker, fun r ↦ by cases r <;> rfl⟩
  | @sweep g cause q order hg hnodup horder hall hr hstopped =>
    have hentries : q.entries = s.registry.entries := by rw [hr]
    have hdrawn : q.drawn = s.registry.drawn := by rw [hr]
    have htickets : ∀ r, tickets r (.registry g) = [] := fun r ↦ by
      rcases hg with rfl | rfl | rfl <;> cases r <;> rfl
    exact hs.swept horder hentries hdrawn htickets
  | @threw b T what =>
    refine hs.at (b := once .constructor) (a := fun _ ↦ 0) T (fun r ↦ by cases r <;> rfl)
      (fun r ↦ by cases r <;> rfl) (fun T' _ ↦ ?_) hsubset hs.nodup (fun h ↦ ?_) fun h ↦ h
    · exact ⟨rfl, rfl, rfl, rfl, .rfl⟩
    · exact h.abandon
  | @unshrunk b T what herror =>
    exact hs.constructed (fun r ↦ by cases r <;> rfl) (fun r ↦ by cases r <;> rfl)
      (fun _ ↦ rfl) ⟨rfl, rfl, rfl, rfl⟩
  | @built b T bytes admission hcharge hshrink =>
    exact hs.constructed (fun r ↦ by cases r <;> rfl) (fun r ↦ by cases r <;> rfl)
      (fun _ ↦ rfl) ⟨rfl, rfl, rfl, rfl⟩
  | retracted =>
    refine hs.handsOn ⟨rfl, rfl, hsubset, rfl, hworker, fun r ↦ ?_⟩
    split_ifs <;> cases r <;> rfl
  | @withdrawn b T r status hrunning hr hmarked =>
    -- the pointer of the constructor goes into the map
    have hdrawn : (T, b.serial) ∈ s.registry.drawn := (hA.registry (.commit b T) rfl).2
    exact hs.mapsNew (b := b) (r := r) rfl
      (hF.registry.lookup_eq_none (f := .commit b T) rfl hdrawn) rfl
      (fun r ↦ by cases r <;> rfl) ⟨rfl, hsubset, rfl, rfl⟩
  | @committed b T r hrunning hr hmarked =>
    have hdrawn : (T, b.serial) ∈ s.registry.drawn := (hA.registry (.commit b T) rfl).2
    exact hs.mapsNew (b := b) (r := r) rfl
      (hF.registry.lookup_eq_none (f := .commit b T) rfl hdrawn) rfl
      (fun r ↦ by cases r <;> rfl) ⟨rfl, hsubset, rfl, rfl⟩
  | unwound | replayed | refused | delivered | undelivered | unclaimed | unstarted | replied
  | readOn | closed | destroy =>
    refine hs.handsOn ?_
    exact ⟨rfl, rfl, hsubset, rfl, hworker, fun r ↦ by cases r <;> rfl⟩
  | @claimed e hreplayable =>
    have hexec : (s.entry e.ticket).exec (cfg.executions e.ticket) (some ()) .claim {}
        = some ((s.entry e.ticket).setControl (s.entry e.ticket).claim, []) := rfl
    have hclaim := idle_of_exec (g := .claim) ⟨by simp, by simp⟩ hexec
    refine hs.handsOn ⟨rfl, rfl, hsubset, rfl, ?_, fun r ↦ by cases r <;> rfl⟩
    exact worker_setEntry hclaim.1 hclaim.2.1
  | @entry T worker g a e' calls hg hexec =>
    obtain ⟨hcreated, hrunning, hcalls⟩ := idle_of_exec ⟨hg.1, hg.2.2⟩ hexec
    refine hs.handsOn ⟨rfl, rfl, hsubset, rfl, worker_setEntry hcreated hrunning, fun r ↦ ?_⟩
    rw [tickets_map_entry hcalls]
    exact (tickets_of_not_runs (by cases g <;> first | rfl | exact absurd rfl hg.2.2) r).symm
  | @started T hclaimed hterminal hjoinable =>
    have hcreated : (s.entry T).worker.isCreated = false ∧
        (s.entry T).worker.isRunning = false := by
      cases hw : (s.entry T).worker with
      | absent | joined => exact ⟨rfl, rfl⟩
      | _ => simp [hw, WorkerThread.joinable] at hjoinable
    have hstart : (s.entry T).start.worker = .created := by
      rw [EntryControl.start, if_neg (by simp [hclaimed, hterminal, hjoinable])]
    exact hs.starts hcreated hstart
  | @removed T worker e he =>
    -- the pointer of the map goes into the call that drops it
    have hmap := s.registry.lookup_remove T
    have hcreated := worker_setEntry (s := s) (T := T) (a := { s.entry T with
      notifications := (s.entry T).notifications + 1, reported := true }) rfl rfl
    refine hs.givenUp (b := fun _ ↦ 0) (fun r ↦ by cases r <;> rfl) ⟨rfl, rfl⟩ ?_ (fun T' hT ↦ ?_)
      ⟨rfl, ?_, rfl⟩ (fun T' ↦ congrArg Bool.toNat (hcreated T').1) (fun T' _ ↦ (hcreated T').2) ?_
    · rw [mapped_of_lookup he, mapped]
      show 0 + 1 = 1 + ((s.registry.remove T).entries.lookup T).isSome.toNat
      rw [congrFun hmap T, Function.update_self]
      rfl
    · rw [mapped]
      show ((s.registry.remove T).entries.lookup T').isSome.toNat = _
      rw [congrFun hmap T', Function.update_of_ne hT, mapped]
    · exact (s.registry.remove_frame T).2.2.2.1
    · rw [Nat.zero_add]
      exact congrArg Bool.toNat (hcreated T).2
  | unlisted hnone =>
    refine hs.handsOn ⟨rfl, rfl, hsubset, rfl, ?_, fun r ↦ by cases r <;> rfl⟩
    exact worker_setEntry rfl rfl
  | @ran T worker a point e' calls fatal hw hexec hpoint hfatal =>
    obtain ⟨point', hw'⟩ := hpoint
    have hsame := worker_setEntry (s := s) (T := T) (a := e') (by rw [hw, hw']; rfl)
      (by rw [hw, hw']; rfl)
    refine hs.handsOn ⟨rfl, rfl, hsubset, rfl, hsame, fun r ↦ ?_⟩
    have hnone : fatal.flatMap (tickets r) = [] := by
      rcases hfatal with rfl | rfl
      · rfl
      · cases r <;> rfl
    obtain ⟨before, rfl, hbefore⟩ := tickets_of_exec_run hexec hw'
    rw [List.flatMap_append, hnone, List.nil_append, List.map_append, List.flatMap_append,
      tickets_map_entry hbefore]
    cases r <;> rfl
  | @exited T worker hw =>
    -- the worker leaves: its role ends, and its pointer is dropped
    have hcreated := worker_setEntry_created (s := s) (T := T) (a := (s.entry T).setControl
      { (s.entry T).toEntryControl with worker := .exited }) (by rw [hw]; rfl)
    refine hs.givenUp (b := fun r ↦ once .owner r + once .worker r) (T := T)
      (fun r ↦ by cases r <;> rfl) ⟨rfl, rfl⟩ rfl (fun _ _ ↦ rfl) ⟨rfl, rfl, rfl⟩
      (fun T' ↦ congrArg Bool.toNat (hcreated T')) (fun T' hT ↦ ?_) ?_
    · exact congrArg (fun e ↦ e.worker.isRunning) (entry_setEntry_of_ne hT _)
    · rw [hw]
      exact congrArg (fun e ↦ 1 + e.worker.isRunning.toNat) (entry_setEntry_self T _)
  | @joining identity e f g a e' hf hexec =>
    obtain ⟨hcreated, hrunning, hcalls⟩ := idle_of_exec (ne_of_joins hf) hexec
    refine hs.handsOn ⟨rfl, rfl, hsubset, rfl, worker_setEntry hcreated hrunning, fun r ↦ ?_⟩
    cases r <;> rfl
  | @joined identity e f a e' hf hexec =>
    obtain ⟨hcreated, hrunning, -⟩ := idle_of_exec (ne_of_joins hf) hexec
    refine hs.handsOn ⟨rfl, rfl, hsubset, rfl, worker_setEntry hcreated hrunning, fun r ↦ ?_⟩
    cases r <;> rfl
  | @each cause T todo held e' calls hexec =>
    obtain ⟨hcreated, hrunning, hcalls⟩ := idle_of_exec (g := .terminate cause)
      ⟨by simp, by simp⟩ hexec
    refine hs.handsOn ⟨rfl, rfl, hsubset, rfl, worker_setEntry hcreated hrunning, fun r ↦ ?_⟩
    rw [List.flatMap_append, tickets_map_entry hcalls, List.nil_append, List.flatMap_singleton]
    cases r <;> rfl
  | @eachEnd cause held =>
    -- the pointers a sweep has held are dropped one by one
    refine hs.handsOn ⟨rfl, rfl, hsubset, rfl, hworker, fun r ↦ ?_⟩
    rw [List.flatMap_map]
    cases r with
    | owner => exact List.flatMap_singleton' held
    | constructor | destructor | worker => exact List.flatMap_eq_nil_iff.mpr fun _ _ ↦ rfl
  | @drop T =>
    exact hs.givenUp (b := once .owner) (fun r ↦ by cases r <;> rfl) ⟨rfl, rfl⟩ rfl
      (fun _ _ ↦ rfl) ⟨rfl, rfl, rfl⟩ (fun _ ↦ rfl) (fun _ _ ↦ rfl) (Nat.zero_add _)
  | @release T =>
    obtain ⟨hentry, huses, admission, hr⟩ := registry_releaseLease s T
    exact hs.released hentry huses hr

/-! ## Cancellations that wait -/

/-- What a cancellation that waits knows of its entry: it is one that was asked for, and terminal
when the worker is joined, and stopped when the cancellation is about to answer. -/
def Joins (f : ServerCall) (s : SidecarServer) : Prop :=
  match f with
  | .joining identity e g => identity.Names e ∧
    (g = .join true → (s.entry e.ticket).terminal = true)
  | .reply identity e quiesced => identity.Names e ∧ (quiesced = true → (s.entry e.ticket).Stopped)
  | _ => True

/-- A call that is past the registry in a cancellation. -/
def waits : ServerCall → Bool
  | .joining .. | .reply .. => true
  | _ => false

theorem joins_of_not_waits (hf : waits f = false) : Joins f s := by
  cases f with
  | joining | reply => cases hf
  | _ => trivial

theorem Joins.later (h : Joins f s)
    (hsteps : ∀ T, EntryControl.Steps (cfg.executions T) (s.entry T).toEntryControl
      (s'.entry T).toEntryControl) (hsound : ∀ T, EntryControl.Sound (s.entry T).toEntryControl) :
    Joins f s' := by
  cases f with
  | joining identity e g => exact ⟨h.1, fun hg ↦ ((hsteps _).spec (hsound _)).2.terminal (h.2 hg)⟩
  | reply identity e quiesced => exact ⟨h.1, fun hq ↦ (hsteps _).stopped (h.2 hq)⟩
  | _ => trivial

theorem not_waits_map_entry {worker : Bool} (calls : List EntryCall) :
    ∀ g ∈ calls.map (ServerCall.entry T worker), waits g = false := by
  intro g hg
  obtain ⟨h, -, rfl⟩ := List.mem_map.mp hg
  rfl

theorem not_waits_cons {g : ServerCall} (hg : waits g = false)
    (hnew : ∀ g ∈ new, waits g = false) : ∀ h ∈ g :: new, waits h = false := by
  intro h hh
  rcases List.mem_cons.mp hh with rfl | hh
  · exact hg
  · exact hnew h hh

theorem not_waits_nil : ∀ g ∈ ([] : List ServerCall), waits g = false :=
  List.forall_mem_nil _

theorem not_waits_afterDrop (T : Bytes) : ∀ g ∈ s.afterDrop T, waits g = false := by
  rw [afterDrop]
  split_ifs
  · exact not_waits_cons rfl not_waits_nil
  · exact not_waits_nil

/-- The entry that a cancellation finds is one that it was asked for. -/
theorem names_of_finds (hF : Founded cfg s n) {identity : CancelIdentity}
    (hfinds : s.registry.Finds identity T) (he : s.registry.entries.lookup T = some e) :
    identity.Names e := by
  have hmatched := hF.registry.recorded.matched
  cases identity with
  | ticket T' =>
    obtain rfl : T' = T := hfinds
    exact (hmatched.recordOf he).1
  | idempotencyKey key =>
    obtain ⟨record, hrecord, hcommitted, rfl⟩ := hfinds
    obtain ⟨e', he', hkey⟩ := hmatched.entryOf hrecord hcommitted
    rw [he] at he'
    obtain rfl := Option.some.inj he'
    exact hkey

/-- A cancellation joins the worker of a terminal execution, and answers for one that has
stopped. -/
theorem joins_of_effect (hF : Founded cfg s n) (hf : Joins f s) (h : Effect cfg s f s' new) :
    ∀ g ∈ new, Joins g s' := by
  have hplain : (∀ g ∈ new, waits g = false) → ∀ g ∈ new, Joins g s' :=
    fun hnew g hg ↦ joins_of_not_waits (hnew g hg)
  cases h with
  | aside hg hexec hapart hcalls =>
    intro g hg'
    obtain ⟨h, -, rfl⟩ := List.mem_map.mp hg'
    trivial
  | @found g h a r e T hg hexec hapart hh he hfinds =>
    cases h with
    | replay | claimEntry =>
      intro g hg
      rw [List.mem_singleton.mp hg]
      trivial
    | joinEntry identity e' =>
      obtain rfl := Option.some.inj hh
      rintro g (_ | ⟨_, _ | ⟨_, hg⟩⟩)
      · trivial
      · exact ⟨names_of_finds hF (hfinds identity _ rfl) he, nofun⟩
      · cases hg
    | _ => cases hh
  | @joining identity e g h a e' hjoins hexec =>
    intro g' hg'
    rw [List.mem_singleton.mp hg']
    refine ⟨hf.1, ?_⟩
    rintro rfl
    cases g with
    | awaitQuiesced =>
      cases ExecutionEntry.section_of_exec hexec with
      | awaited hquiet =>
        rw [entry_setEntry_self]
        exact ((hF.entries e.ticket).sound.quiesced (Bool.and_eq_true_iff.mp hquiet).1).1
    | pollWaiting | join => cases ExecutionEntry.section_of_exec hexec
    | _ => cases hjoins
  | @joined identity e g a e' hjoins hexec =>
    rintro g' (_ | ⟨_, _ | ⟨_, hg'⟩⟩)
    · trivial
    · refine ⟨hf.1, fun hq ↦ ?_⟩
      obtain rfl : g = .join true := of_decide_eq_true hq
      cases ExecutionEntry.section_of_exec hexec with
      | joinNobody hnobody =>
        rw [entry_setEntry_self]
        exact ⟨hf.2 rfl, hnobody.resolve_left (Option.some_ne_none _)⟩
      | join hw =>
        rw [entry_setEntry_self]
        exact ⟨hf.2 rfl, rfl⟩
    · cases hg'
  | each hexec =>
    refine hplain fun g hg ↦ ?_
    rcases List.mem_append.mp hg with hg | hg
    · exact not_waits_map_entry _ g hg
    · rw [List.mem_singleton.mp hg]
      rfl
  | entry hf hexec => exact hplain (not_waits_map_entry _)
  | ran hw hexec hpoint hfatal =>
    refine hplain fun g hg ↦ ?_
    rcases List.mem_append.mp hg with hg | hg
    · rcases hfatal with rfl | rfl
      · cases hg
      · rw [List.mem_singleton.mp hg]
        rfl
    · exact not_waits_map_entry _ g hg
  | eachEnd =>
    refine hplain fun g hg ↦ ?_
    obtain ⟨T, -, rfl⟩ := List.mem_map.mp hg
    rfl
  | drop | exited | removed => exact hplain (not_waits_afterDrop _)
  | unwound | lookup | undelivered | readOn | closed | destroy =>
    exact hplain (not_waits_cons rfl (not_waits_cons rfl not_waits_nil))
  | retracted | withdrawn =>
    exact hplain (not_waits_cons rfl (not_waits_cons rfl (not_waits_cons rfl not_waits_nil)))
  | alreadySealed | unlisted | replied | release => exact hplain not_waits_nil
  | draw | sweep | threw | unshrunk | built | committed | replayed | refused | delivered | claimed
  | unclaimed | started | unstarted =>
    exact hplain (not_waits_cons rfl not_waits_nil)

/-! ## All sections -/

/-- A call that plays no role. -/
theorem role_eq_zero (hf : ∀ r, tickets r f = []) (x : Role × Bytes) : role x f = 0 := by
  rw [role, hf]
  rfl

theorem Owned.idle (hs : Owned s m) : Owned s fun x ↦ m x + role x (.registry .reap) := by
  simpa only [role_eq_zero (f := .registry .reap) (fun r ↦ by cases r <;> rfl),
    Nat.add_zero] using hs

/-- What leaves all pointers where they are, without a call. -/
theorem Owned.aside (hs : Owned s m) (h : HandsOn s s' (.registry .reap) []) : Owned s' m :=
  hs.idle.handsOn h

/-- A thread becomes the worker of an entry, with the pointer that was made for it. -/
theorem Owned.enters (hs : Owned s m) {g : EntryCall} {e' : ExecutionEntry}
    (hcall : (s.entry T).call (none : Option Unit) g = some e') :
    Owned (s.setEntry T e') fun x ↦ m x + role x (.entry T true g) := by
  obtain ⟨rfl, hw, rfl⟩ : g = .run ∧ (s.entry T).worker = .created ∧
      e' = (s.entry T).setControl ((s.entry T).goto (.batches 0)) := by
    simp only [ExecutionEntry.call] at hcall
    split at hcall
    · next hw => exact ⟨rfl, hw, (Option.some.inj hcall).symm⟩
    · cases hcall
  have hself : ((s.setEntry T ((s.entry T).setControl ((s.entry T).goto (.batches 0)))).entry
      T).worker = .running (.batches 0) := by
    rw [entry_setEntry_self]
    rfl
  have hrole : ∀ x, role x (.entry T true .run)
      = ([ServerCall.entry T true .run].map (role x)).sum := fun x ↦ List.sum_singleton.symm
  simp only [hrole]
  refine hs.idle.at (b := fun _ ↦ 0) (a := fun r ↦ once .owner r + once .worker r) T
    (fun r ↦ by cases r <;> rfl) (fun r ↦ by cases r <;> rfl)
    (fun T' hT ↦ ⟨rfl, rfl, ?_, ?_, .rfl⟩) (List.Subset.refl _) hs.nodup
    (fun {p c d} h ↦ ?_) fun {w} h ↦ ?_
  · rw [created, entry_setEntry_of_ne hT, created]
  · rw [entry_setEntry_of_ne hT]
  · refine h.congr rfl ?_ rfl rfl .rfl
    rw [created, hself, created, hw]
    show p + (1 + s.mapped T + 0) = p + (0 + s.mapped T + 1)
    omega
  · rw [hw] at h
    rw [hself]
    show w + 1 = 1
    exact congrArg (· + 1) h

/-- **Use counts** are a ledger that rests on how the parts fit. -/
theorem owned_rests (cfg : SidecarConfig) (ι : Type*) :
    Program.Rests (program cfg ι) holding (fun s n ↦ Founded cfg s n ∧ Coherent s)
      (fun _ f s ↦ Informed cfg f s ∧ Refers f s) role (fun s m ↦ Owned s m)
      fun _ f s ↦ Joins f s where
  call {s t f s' n m} hF hs hcall := by
    have hsteps := steps_of_call hF.1 hcall
    have hlater : ∀ g, Joins g s → Joins g s' := fun g hg ↦
      hg.later hsteps fun T ↦ (hF.1.entries T).sound
    have howned : Owned s' (fun x ↦ m x + role x f) ∧ waits f = false := by
      cases f with
      | registry g =>
        obtain ⟨r, hr, rfl⟩ := Option.map_eq_some_iff.mp hcall
        obtain ⟨hapart, -, -⟩ := apart_of_call hr
        have htickets : ∀ r, tickets r (.registry g) = [] := fun r ↦ by
          cases g <;> first | (cases r <;> rfl) | cases hr
        have haside : Owned { s with registry := r } m := hs.aside
          ⟨rfl, hapart.entries, hapart.drawn, rfl, fun _ ↦ ⟨rfl, rfl⟩, fun r ↦ by cases r <;> rfl⟩
        simpa only [role_eq_zero htickets] using ⟨haside, rfl⟩
      | entry T worker g =>
        cases worker with
        | true =>
          obtain ⟨e', he', rfl⟩ := Option.map_eq_some_iff.mp hcall
          exact ⟨hs.enters he', rfl⟩
        | false => cases hcall
      | _ => cases hcall
    exact ⟨howned.1, joins_of_not_waits howned.2, fun _ g _ hg ↦ hlater g hg⟩
  exec {s t f k s' new n m} hF hA hs hf hexec := by
    have hsteps := steps_of_exec hF.1 hA.1 hexec
    have heffect := effect_of_exec (fun b T heq ↦ hF.1.record heq) hexec
    exact ⟨owned_of_effect hF.1 hA.1 hs heffect, joins_of_effect hF.1 hf heffect,
      fun _ g _ hg ↦ hg.later hsteps fun T ↦ (hF.1.entries T).sound⟩
  ambient {s a s' n m} hF hs ha := by
    have hsteps := steps_of_ambient hF.1 ha
    refine ⟨?_, fun _ g _ hg ↦ hg.later hsteps fun T ↦ (hF.1.entries T).sound⟩
    simp only [program] at ha
    split_ifs at ha
    obtain ⟨i, -, rfl⟩ := Option.map_eq_some_iff.mp ha
    exact hs.aside
      ⟨rfl, rfl, List.Subset.refl _, rfl, worker_setEntry rfl rfl, fun r ↦ by cases r <;> rfl⟩

variable [Fintype ι] [DecidableEq ι] {c c' : Threads SidecarServer ι ServerCall}
  {m : Move ι ServerCall ServerAnswer (Bytes × Bytes × InputTraffic)}
  {ms : List (Move ι ServerCall ServerAnswer (Bytes × Bytes × InputTraffic))}

omit [DecidableEq ι] in
theorem owned_init :
    Owned (init cfg ι).shared fun x ↦ Program.weight (role x) (init cfg ι) := by
  simp only [weight_init]
  exact ⟨fun T ↦ .unknown nofun, fun _ ↦ rfl, List.nodup_nil⟩

/-- **Use counts are right** in every reachable state. -/
theorem run_owned (hrun : (program cfg ι).machine.run (init cfg ι) ms = some c) :
    Owned c.shared (fun x ↦ Program.weight (role x) c) ∧ ∀ t, ∀ f ∈ c.calls t,
      Joins f c.shared := by
  have hledger := (ledger cfg ι).extend (owned_rests cfg ι)
  obtain ⟨⟨-, hs⟩, hA⟩ := hledger.run ⟨⟨founded_init, owned_init⟩, nofun⟩ hrun
  exact ⟨hs, fun t f hf ↦ (hA t f hf).2⟩

/-! ## Answers of cancellations -/

/-- Nobody has anything to do with an entry: it is not registered, and no call has a pointer to it
or is destroying it. -/
structure Unheld (c : Threads SidecarServer ι ServerCall) (T : Bytes) : Prop where
  unlisted : c.shared.registry.entries.lookup T = none
  unowned : ∀ t, ∀ f ∈ c.calls t, T ∉ owned f ∧ T ∉ destroying f

/-- The entry of a worker that does not wait to begin is gone exactly if nobody has anything to do
with it. -/
theorem not_alive_iff_unheld (hrun : (program cfg ι).machine.run (init cfg ι) ms = some c)
    (hcreated : c.shared.created T = 0) : ¬c.shared.Alive T ↔ Unheld c T := by
  have hweight : ∀ r, Program.weight (role (r, T)) c = 0 ↔ ∀ t, ∀ f ∈ c.calls t, T ∉ tickets r f :=
    fun r ↦ by simp only [Program.weight_eq_zero_iff, role, List.count_eq_zero]
  have hmapped : c.shared.mapped T = 0 ↔ c.shared.registry.entries.lookup T = none := by
    rw [mapped]
    cases c.shared.registry.entries.lookup T <;> simp
  rw [((run_owned hrun).1.shared T).not_alive_iff, hcreated, Nat.add_zero, Nat.add_eq_zero_iff,
    hweight, hweight, hmapped]
  constructor
  · rintro ⟨⟨howned, hunlisted⟩, hdestroying⟩
    exact ⟨hunlisted, fun t f hf ↦ ⟨howned t f hf, hdestroying t f hf⟩⟩
  · rintro ⟨hunlisted, hunowned⟩
    exact ⟨⟨fun t f hf ↦ (hunowned t f hf).1, hunlisted⟩, fun t f hf ↦ (hunowned t f hf).2⟩

/-- So is the entry of a worker that was stopped. -/
theorem not_alive_iff (hrun : (program cfg ι).machine.run (init cfg ι) ms = some c)
    (hstopped : (c.shared.entry T).Stopped) : ¬c.shared.Alive T ↔ Unheld c T := by
  refine not_alive_iff_unheld hrun ?_
  have hjoinable := hstopped.worker
  rw [created]
  cases hw : (c.shared.entry T).worker <;> simp [hw, WorkerThread.joinable] at hjoinable ⊢ <;> rfl

theorem Replies.quiesced {s : SidecarServer} {f : ServerCall} {identity : CancelIdentity}
    (h : Replies s f identity .quiesced) : ∃ e, f = .reply identity e true := by
  cases h with
  | @waited _ e => exact ⟨e, rfl⟩

theorem Effect.of_reply {identity : CancelIdentity} {quiesced : Bool}
    (h : Effect cfg s (.reply identity e quiesced) s' new) :
    s'.alive = s.alive ∧ s'.entry = s.entry := by
  cases h with
  | replied => exact ⟨rfl, rfl⟩

/-- **A cancellation that answers that an execution is quiesced**: the worker has stopped, and the
entry is gone exactly if nobody else has anything to do with it. -/
theorem quiesced_gone (cfg : SidecarConfig)
    (ms : List (Move ι ServerCall ServerAnswer (Bytes × Bytes × InputTraffic)))
    (c c' : Threads SidecarServer ι ServerCall)
    (m : Move ι ServerCall ServerAnswer (Bytes × Bytes × InputTraffic))
    (hrun : (program cfg ι).machine.run (init cfg ι) ms = some c)
    (hstep : (program cfg ι).machine.step c m = some c') (identity : CancelIdentity)
    (hr : c'.shared.registry.replies = c.shared.registry.replies ++ [(identity, .quiesced)]) :
    ∃ e, identity.Names e ∧ (∃ t, .reply identity e true ∈ c.calls t) ∧
      (c'.shared.entry e.ticket).Stopped ∧ (¬c'.shared.Alive e.ticket ↔ Unheld c e.ticket) := by
  obtain ⟨t, k, f, rfl, hhead, -, -, hreplies⟩ := replies_of_step hrun hstep hr
  obtain ⟨e, rfl⟩ := hreplies.quiesced
  obtain ⟨f, rest, s', new, hstack, hexec, rfl⟩ := Program.step_exec_eq_some.mp hstep
  rw [hstack, List.head?_cons] at hhead
  obtain rfl := Option.some.inj hhead
  have hmem : .reply identity e true ∈ c.calls t := by
    rw [hstack]
    exact List.mem_cons_self
  have heffect : Effect cfg c.shared (.reply identity e true) s' new :=
    effect_of_step (k := k) hrun hstack hexec
  obtain ⟨halive, hentry⟩ := heffect.of_reply
  obtain ⟨hnames, hstopped⟩ := (run_owned hrun).2 t _ hmem
  refine ⟨e, hnames, ⟨t, hmem⟩, ?_, ?_⟩
  · rw [hentry]
    exact hstopped rfl
  · rw [Alive, halive, ← Alive]
    exact not_alive_iff hrun (hstopped rfl)

theorem quiesced_gone_cancelDelivered :
    ∃ c c' e, (program oneExecution Bool).machine.run (init oneExecution Bool)
        (deliverOnce ++ .call true (.registry (.cancelAndJoin [7])) ::
          List.replicate 12 (.exec true {})) = some c ∧
      (program oneExecution Bool).machine.step c (.exec true {}) = some c' ∧
      c'.shared.registry.replies = c.shared.registry.replies ++ [(.ticket [7], .quiesced)] ∧
      (CancelIdentity.ticket [7]).Names e ∧ (c'.shared.entry e.ticket).Stopped ∧
        Unheld c e.ticket := by
  have hreplies : (((program oneExecution Bool).machine.run (init oneExecution Bool)
      (deliverOnce ++ .call true (.registry (.cancelAndJoin [7])) ::
        List.replicate 12 (.exec true {}))).bind fun c ↦
          ((program oneExecution Bool).machine.step c (.exec true {})).map fun c' ↦
            decide (c'.shared.registry.replies =
              c.shared.registry.replies ++ [(.ticket [7], .quiesced)] ∧
                c'.shared.alive.isEmpty = true)) = some true := by
    decide +kernel
  obtain ⟨c, hrun, hc⟩ := Option.bind_eq_some_iff.mp hreplies
  obtain ⟨c', hstep, hc'⟩ := Option.map_eq_some_iff.mp hc
  obtain ⟨hr, hempty⟩ := of_decide_eq_true hc'
  obtain ⟨e, hnames, -, hstopped, hgone⟩ :=
    quiesced_gone oneExecution _ c c' _ hrun hstep (.ticket [7]) hr
  refine ⟨c, c', e, hrun, hstep, hr, hnames, hstopped, hgone.mp ?_⟩
  rw [Alive, List.isEmpty_iff.mp hempty]
  exact List.not_mem_nil

/-- `DoGet` has claimed an entry when it is cancelled, and makes a result stream of it. -/
def cancelClaimed : List (Move Bool ServerCall ServerAnswer (Bytes × Bytes × InputTraffic)) :=
  deliverOnce ++ .call false (.registry (.doGet [7])) :: List.replicate 3 (.exec false {}) ++
    [.call true (.registry (.cancelAndJoin [7])), .exec true {}, .exec true {}, .exec false {}] ++
    List.replicate 7 (.exec true {})

/-- The cancellation answers that the execution is quiesced, and the result stream has the entry
still. -/
theorem quiesced_held :
    ∃ c c', (program oneExecution Bool).machine.run (init oneExecution Bool)
      cancelClaimed = some c ∧
      (program oneExecution Bool).machine.step c (.exec true {}) = some c' ∧
      c'.shared.registry.replies = c.shared.registry.replies ++ [(.ticket [7], .quiesced)] ∧
      (∃ f ∈ c'.calls false, [7] ∈ owned f) ∧ c'.shared.Alive [7] := by
  have hreplies : (((program oneExecution Bool).machine.run (init oneExecution Bool)
      cancelClaimed).bind fun c ↦
        ((program oneExecution Bool).machine.step c (.exec true {})).map fun c' ↦
          decide (c'.shared.registry.replies =
              c.shared.registry.replies ++ [(.ticket [7], .quiesced)] ∧
            (∃ f ∈ c'.calls false, [7] ∈ owned f) ∧ [7] ∈ c'.shared.alive.map (·.ticket)))
      = some true := by
    decide +kernel
  obtain ⟨c, hrun, hc⟩ := Option.bind_eq_some_iff.mp hreplies
  obtain ⟨c', hstep, hc'⟩ := Option.map_eq_some_iff.mp hc
  obtain ⟨hr, howned, halive⟩ := of_decide_eq_true hc'
  exact ⟨c, c', hrun, hstep, hr, howned, halive⟩

end SidecarServer

end MoSidecar
