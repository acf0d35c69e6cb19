import MoSidecar.Registry.Leases
import MoSidecar.Server.Sealing

/-!
# Admitted bytes

Every byte that the controller has admitted is on the lease of a preparation that has not
constructed its entry yet, or on the lease of an entry that is not destroyed. A lease is granted for
as many inputs as a request may have, and shrinks to what the entry has resolved before the entry is
committed. An entry that has resolved more keeps its lease until it is destroyed, and is not
committed.

So the admitted bytes stay within the capacity, and whoever has a pointer to an entry can rely on
its lease.
-/

open Function (update)

namespace MoSidecar

/-- The number of inputs that an entry is charged for. The lease of one with more inputs than a
request may have does not shrink. -/
def SidecarConfig.inputsCharged (cfg : SidecarConfig) (T : Bytes) : ℕ :=
  min (SidecarServer.inputs cfg T) kMaxStreamInputs

namespace SidecarServer

variable {cfg : SidecarConfig} {ι : Type*} {s s' : SidecarServer} {k : ServerAnswer}
  {f : ServerCall} {new : List ServerCall} {T : Bytes} {e : PreparedEntry} {m : ℕ}

/-- The bytes that a call has a lease on, before there is an entry. -/
def leased : ServerCall → ℕ
  | .registry g => g.leased
  | _ => 0

/-- That lease was granted for as many inputs as a request may have. -/
def Charged : ServerCall → Prop
  | .registry g => g.Charged
  | _ => True

/-- The bytes on the leases of entries. -/
def entryBytes (s : SidecarServer) : ℕ := (s.alive.map (·.lease.toNat)).sum

/-- The admitted bytes are those of entries, and of calls. -/
structure Accounted (cfg : SidecarConfig) (s : SidecarServer) (m : ℕ) : Prop where
  capacity : s.registry.admission.capacityBytes = cfg.streamInputCapacityBytes
  bound : s.registry.admission.currentBytes ≤ s.registry.admission.capacityBytes
  current : s.registry.admission.currentBytes.toNat = m + s.entryBytes
  charged : ∀ e ∈ s.alive,
    streamExecutionCharge e.request (cfg.inputsCharged e.ticket) = .ok e.lease
  drawn : ∀ e ∈ s.alive, (e.ticket, e.serial) ∈ s.registry.drawn

namespace Accounted

/-- A section that leaves the leases of entries as they are, and hands on that of the call. -/
theorem of_eq (h : Accounted cfg s (m + leased f))
    (hframe : s'.registry.admission = s.registry.admission ∧ s'.alive = s.alive ∧
      s.registry.drawn ⊆ s'.registry.drawn) (hleased : (new.map leased).sum = leased f) :
    Accounted cfg s' (m + (new.map leased).sum) := by
  obtain ⟨hadmission, halive, hdrawn⟩ := hframe
  refine ⟨?_, ?_, ?_, ?_, ?_⟩
  · rw [hadmission, h.capacity]
  · rw [hadmission]
    exact h.bound
  · rw [hadmission, h.current, hleased, entryBytes, entryBytes, halive]
  · rw [halive]
    exact h.charged
  · rw [halive]
    exact fun e he ↦ hdrawn (h.drawn e he)

/-- A section of the registry. -/
theorem of_leases {g : RegistryCall} {r : TicketRegistry} {calls : List RegistryCall}
    (h : Accounted cfg s (m + leased (.registry g)))
    (hleases : TicketRegistry.Leases cfg.toRegistryConfig (m + s.entryBytes) r calls)
    (hr : s'.registry = r) (halive : s'.alive = s.alive) (hdrawn : s.registry.drawn ⊆ r.drawn)
    (hnew : (new.map leased).sum = (calls.map RegistryCall.leased).sum) :
    Accounted cfg s' (m + (new.map leased).sum) := by
  subst hr
  refine ⟨hleases.capacity, hleases.bound, ?_, ?_, ?_⟩
  · rw [hleases.current, hnew, entryBytes, entryBytes, halive]
    omega
  · rw [halive]
    exact h.charged
  · rw [halive]
    exact fun e he ↦ hdrawn (h.drawn e he)

theorem le_current (h : Accounted cfg s (m + leased f)) :
    leased f ≤ s.registry.admission.currentBytes.toNat := by
  rw [h.current]
  omega

theorem leases {g : RegistryCall} (h : Accounted cfg s (m + leased (.registry g)))
    (hg : g.Charged) :
    TicketRegistry.Leases cfg.toRegistryConfig (m + s.entryBytes) s.registry [g] where
  capacity := h.capacity
  bound := h.bound
  current := by
    rw [h.current, List.map_singleton, List.sum_singleton, leased]
    omega
  charged := List.forall_mem_singleton.mpr hg

/-- An entry is constructed, and has the lease of the call, or what is left of it. -/
theorem constructs {b : Building} (h : Accounted cfg s (m + b.lease.toNat))
    (hsize : e.lease.toNat ≤ b.lease.toNat)
    (hadmission : s'.registry.admission.capacityBytes = s.registry.admission.capacityBytes ∧
      s'.registry.admission.currentBytes.toNat
        = s.registry.admission.currentBytes.toNat - (b.lease.toNat - e.lease.toNat))
    (halive : s'.alive = e :: s.alive) (hdrawn : s'.registry.drawn = s.registry.drawn)
    (he : streamExecutionCharge e.request (cfg.inputsCharged e.ticket) = .ok e.lease ∧
      (e.ticket, e.serial) ∈ s.registry.drawn) :
    Accounted cfg s' m := by
  obtain ⟨hcapacity, hcurrent⟩ := hadmission
  have hbound := UInt64.le_iff_toNat_le.mp h.bound
  refine ⟨?_, ?_, ?_, ?_, ?_⟩
  · rw [hcapacity, h.capacity]
  · rw [UInt64.le_iff_toNat_le, hcapacity, hcurrent]
    omega
  · rw [hcurrent, h.current, entryBytes, entryBytes, halive, List.map_cons, List.sum_cons]
    omega
  · rw [halive]
    exact List.forall_mem_cons.mpr ⟨he.1, h.charged⟩
  · rw [halive, hdrawn]
    exact List.forall_mem_cons.mpr ⟨he.2, h.drawn⟩

end Accounted

/-- The entry of a ticket takes its bytes with it. -/
theorem entryBytes_filter {entries : List PreparedEntry} (hnodup : (entries.map (·.ticket)).Nodup)
    (he : e ∈ entries) :
    ((entries.filter (·.ticket ≠ e.ticket)).map (·.lease.toNat)).sum + e.lease.toNat
      = (entries.map (·.lease.toNat)).sum := by
  induction entries with
  | nil => cases he
  | cons a entries ih =>
    rw [List.map_cons, List.nodup_cons] at hnodup
    rcases List.mem_cons.mp he with rfl | he
    · -- the others have other tickets
      have hothers : entries.filter (·.ticket ≠ e.ticket) = entries := by
        refine List.filter_eq_self.mpr fun e' he' ↦ decide_eq_true fun heq ↦ hnodup.1 ?_
        exact heq ▸ List.mem_map_of_mem he'
      rw [List.filter_cons_of_neg (by simp), hothers, List.map_cons, List.sum_cons, Nat.add_comm]
    · have hne : a.ticket ≠ e.ticket := fun heq ↦ hnodup.1 (heq ▸ List.mem_map_of_mem he)
      rw [List.filter_cons_of_pos (by simpa using hne), List.map_cons, List.sum_cons, List.map_cons,
        List.sum_cons, ← ih hnodup.2 he, Nat.add_assoc]

/-- The lease of an entry is given back in full. -/
theorem Accounted.release (h : Accounted cfg s m) (hnodup : (s.alive.map (·.ticket)).Nodup) :
    Accounted cfg (s.releaseLease T) m := by
  rw [releaseLease]
  split
  · exact h
  · next e hfind =>
    have he := List.mem_of_find?_eq_some hfind
    obtain rfl : e.ticket = T := by simpa using List.find?_some hfind
    have hsum := entryBytes_filter hnodup he
    have hcurrent := h.current
    have hbound := UInt64.le_iff_toNat_le.mp h.bound
    rw [entryBytes, ← hsum] at hcurrent
    have hrelease : (s.registry.admission.release e.lease).currentBytes.toNat
        = s.registry.admission.currentBytes.toNat - e.lease.toNat :=
      StreamAdmissionController.release_toNat (by omega)
    refine ⟨h.capacity, ?_, ?_, ?_, ?_⟩
    · rw [UInt64.le_iff_toNat_le, hrelease]
      show _ ≤ s.registry.admission.capacityBytes.toNat
      omega
    · rw [hrelease, hcurrent]
      show _ = m + ((s.alive.filter (·.ticket ≠ e.ticket)).map (·.lease.toNat)).sum
      omega
    · exact fun e' he' ↦ h.charged e' (List.mem_of_mem_filter he')
    · exact fun e' he' ↦ h.drawn e' (List.mem_of_mem_filter he')

/-- A lease that does not shrink is one for more inputs than a request may have. -/
theorem not_le_of_unshrunk {b : Building} {a : StreamAdmissionController} {n : ℕ} {what : Thrown}
    (hb : streamExecutionCharge b.request kMaxStreamInputs = .ok b.lease)
    (hheld : b.lease.toNat ≤ a.currentBytes.toNat)
    (herror : (do
      let bytes ← streamExecutionCharge b.request n
      return (bytes, ← a.shrink b.lease bytes)) = .error what) : ¬n ≤ kMaxStreamInputs := by
  intro hn
  obtain ⟨bytes, hcharge, hle⟩ := streamExecutionCharge_le hn hb
  obtain ⟨a', hshrink, -⟩ := StreamAdmissionController.shrink_toNat hle hheld
  rw [hcharge] at herror
  simp only [bind, Except.bind, hshrink, pure, Except.pure, reduceCtorEq] at herror

/-- What is charged is for as many inputs as a request may have, at most. -/
theorem le_of_charged {request : ExecuteRequest} {n : ℕ} {bytes : UInt64}
    (h : streamExecutionCharge request n = .ok bytes) : n ≤ kMaxStreamInputs := by
  rw [streamExecutionCharge] at h
  split_ifs at h with hn
  exact Nat.le_of_not_lt hn

/-! ## One section at a time -/

variable {n : Option Reservation → ℕ}

theorem leased_map_registry (calls : List RegistryCall) :
    ((calls.map ServerCall.registry).map leased).sum = (calls.map RegistryCall.leased).sum := by
  rw [List.map_map]
  rfl

theorem leased_map_entry {worker : Bool} (calls : List EntryCall) :
    ((calls.map (ServerCall.entry T worker)).map leased).sum = 0 := by
  refine List.sum_eq_zero fun n hn ↦ ?_
  rw [List.map_map] at hn
  obtain ⟨g, -, rfl⟩ := List.mem_map.mp hn
  rfl

theorem leased_afterDrop (T : Bytes) : ((s.afterDrop T).map leased).sum = 0 := by
  rw [afterDrop]
  split_ifs <;> rfl

theorem charged_afterDrop (T : Bytes) : ∀ g ∈ s.afterDrop T, Charged g := by
  rw [afterDrop]
  split_ifs
  · exact List.forall_mem_singleton.mpr trivial
  · exact List.forall_mem_nil _

theorem charged_map_entry {worker : Bool} (calls : List EntryCall) :
    ∀ g ∈ calls.map (ServerCall.entry T worker), Charged g :=
  List.forall_mem_map.mpr fun _ _ ↦ trivial

/-- **No section loses a byte**: what is admitted is on the lease of a call, or of an entry. -/
theorem accounted_of_effect (hA : Informed cfg f s) (hnodup : (s.alive.map (·.ticket)).Nodup)
    (hs : Accounted cfg s (m + leased f)) (hf : Charged f) (h : Effect cfg s f s' new) :
    Accounted cfg s' (m + (new.map leased).sum) ∧ ∀ g ∈ new, Charged g := by
  have hsubset : s.registry.drawn ⊆ s.registry.drawn := List.Subset.refl _
  -- most sections leave all leases where they are
  have hkeep : s'.registry.admission = s.registry.admission ∧ s'.alive = s.alive ∧
      s.registry.drawn ⊆ s'.registry.drawn → (new.map leased).sum = leased f →
      (∀ g ∈ new, Charged g) → Accounted cfg s' (m + (new.map leased).sum) ∧
        ∀ g ∈ new, Charged g :=
    fun hframe hleased hnew ↦ ⟨hs.of_eq hframe hleased, hnew⟩
  cases h with
  | @aside g a r calls hg hexec hapart hcalls =>
    have hleases : TicketRegistry.Leases cfg.toRegistryConfig (m + s.entryBytes) r calls :=
      TicketRegistry.leases_of_exec (hs.leases hf) (by rintro b T rfl; cases hg) hexec
    refine ⟨hs.of_leases hleases rfl rfl hapart.drawn (leased_map_registry calls), ?_⟩
    exact List.forall_mem_map.mpr hleases.charged
  | draw hT hnone =>
    refine hkeep ⟨rfl, rfl, List.subset_cons_self _ _⟩ rfl ?_
    exact List.forall_mem_singleton.mpr hf
  | @found g h a r e T hg hexec hapart hh he hfinds =>
    have hleases : TicketRegistry.Leases cfg.toRegistryConfig (m + s.entryBytes) r [h] :=
      TicketRegistry.leases_of_exec (hs.leases hf) (by rintro b T rfl; cases hg) hexec
    have hnone : ((resume h).map leased).sum = ([h].map RegistryCall.leased).sum ∧
        ∀ g ∈ resume h, Charged g := by
      cases h with
      | replay | claimEntry | joinEntry =>
        exact ⟨rfl, by simp [resume, Charged, RegistryCall.Charged]⟩
      | _ => cases hh
    exact ⟨hs.of_leases hleases rfl rfl hapart.drawn hnone.1, hnone.2⟩
  | sweep hg hnodup horder hall hr hstopped =>
    refine hkeep ⟨?_, alive_foldl_retain _, ?_⟩ ?_ (List.forall_mem_singleton.mpr trivial)
    · rw [registry_foldl_retain, hr]
    · rw [registry_foldl_retain, hr]
      exact hsubset
    · rcases hg with rfl | rfl | rfl <;> rfl
  | @threw b T what =>
    have hleases : TicketRegistry.Leases cfg.toRegistryConfig (m + s.entryBytes)
        { s.registry with admission := s.registry.admission.release b.lease }
        [.releaseReservation { b with lease := 0 } none what] :=
      (hs.leases hf).of_release rfl rfl rfl (List.forall_mem_singleton.mpr (.inl rfl))
    exact ⟨hs.of_leases hleases rfl rfl hsubset rfl, List.forall_mem_singleton.mpr (.inl rfl)⟩
  | @unshrunk b T what herror =>
    have hcharge : streamExecutionCharge b.request kMaxStreamInputs = .ok b.lease := hf
    have hmany : ¬inputs cfg T ≤ kMaxStreamInputs := not_le_of_unshrunk hcharge hs.le_current herror
    refine ⟨hs.constructs (e := b.entry T) le_rfl ⟨rfl, ?_⟩ rfl rfl ⟨?_, ?_⟩,
      List.forall_mem_singleton.mpr trivial⟩
    · rw [show (b.entry T).lease = b.lease from rfl, Nat.sub_self, Nat.sub_zero]
      rfl
    · rw [SidecarConfig.inputsCharged, show (b.entry T).ticket = T from rfl,
        Nat.min_eq_right (Nat.le_of_not_le hmany)]
      exact hcharge
    · exact (hA.registry (.construct b T) rfl).2
  | @built b T bytes admission hbytes hshrink =>
    have hcharge : streamExecutionCharge b.request kMaxStreamInputs = .ok b.lease := hf
    have hfew := le_of_charged hbytes
    obtain ⟨bytes', hbytes', hle⟩ := streamExecutionCharge_le hfew hcharge
    obtain rfl : bytes = bytes' := Except.ok.inj (hbytes.symm.trans hbytes')
    obtain ⟨a, ha, hcapacity, hshrunk⟩ :=
      StreamAdmissionController.shrink_toNat (a := s.registry.admission) hle hs.le_current
    obtain rfl : admission = a := Except.ok.inj (hshrink.symm.trans ha)
    refine ⟨hs.constructs (e := Building.entry { b with lease := bytes } T) hle
      ⟨hcapacity, hshrunk⟩ rfl rfl ⟨?_, ?_⟩, List.forall_mem_singleton.mpr trivial⟩
    · rw [SidecarConfig.inputsCharged]
      show streamExecutionCharge b.request (min (inputs cfg T) kMaxStreamInputs) = .ok bytes
      rw [Nat.min_eq_left hfew]
      exact hbytes
    · exact (hA.registry (.construct b T) rfl).2
  | @release T =>
    exact ⟨hs.release hnodup, List.forall_mem_nil _⟩
  | @removed T worker e he =>
    have hremove := s.registry.remove_frame T
    refine hkeep ⟨?_, rfl, ?_⟩ (leased_afterDrop T) (charged_afterDrop T)
    · exact hremove.2.2.2.2.1
    · exact hremove.2.2.2.1 ▸ hsubset
  | entry => exact hkeep ⟨rfl, rfl, hsubset⟩ (leased_map_entry _) (charged_map_entry _)
  | @ran T worker a point e calls fatal hw hexec hpoint hfatal =>
    refine hkeep ⟨rfl, rfl, hsubset⟩ ?_ ?_
    · rw [List.map_append, List.sum_append, leased_map_entry]
      rcases hfatal with rfl | rfl <;> rfl
    · refine List.forall_mem_append.mpr ⟨?_, charged_map_entry _⟩
      rcases hfatal with rfl | rfl
      · exact List.forall_mem_nil _
      · exact List.forall_mem_singleton.mpr trivial
  | drop | exited => exact hkeep ⟨rfl, rfl, hsubset⟩ (leased_afterDrop _) (charged_afterDrop _)
  | each hexec =>
    refine hkeep ⟨rfl, rfl, hsubset⟩ ?_ ?_
    · rw [List.map_append, List.sum_append, leased_map_entry]
      rfl
    · exact List.forall_mem_append.mpr
        ⟨charged_map_entry _, List.forall_mem_singleton.mpr trivial⟩
  | @eachEnd cause held =>
    refine hkeep ⟨rfl, rfl, hsubset⟩ ?_ (List.forall_mem_map.mpr fun _ _ ↦ trivial)
    refine List.sum_eq_zero fun n hn ↦ ?_
    rw [List.map_map] at hn
    obtain ⟨T, -, rfl⟩ := List.mem_map.mp hn
    rfl
  | unwound =>
    refine hkeep ⟨rfl, rfl, hsubset⟩ rfl ?_
    exact List.forall_mem_cons.mpr ⟨trivial, List.forall_mem_singleton.mpr (.inl rfl)⟩
  | _ => exact hkeep ⟨rfl, rfl, hsubset⟩ rfl (by simp [Charged, RegistryCall.Charged])

/-! ## All sections -/

/-- What leaves all leases where they are, without a call. -/
theorem Accounted.idle (hs : Accounted cfg s m) (h : Idle s s') : Accounted cfg s' m := by
  have hnone : ((resume .reap).map leased).sum = leased (.registry .reap) := rfl
  exact hs.of_eq ⟨h.admission, h.alive, h.registry.drawn⟩ hnone

/-- **Admitted bytes** are a ledger that rests on the use counts. -/
theorem accounted_rests (cfg : SidecarConfig) (ι : Type*) :
    Program.Rests (program cfg ι) (Sum.elim holding role)
      (fun s n ↦ (Founded cfg s (fun o ↦ n (.inl o)) ∧ Coherent s) ∧ Owned s fun x ↦ n (.inr x))
      (fun _ f s ↦ (Informed cfg f s ∧ Refers f s) ∧ Joins f s) (fun _ : Unit ↦ leased)
      (fun s m ↦ Accounted cfg s (m ())) fun _ f _ ↦ Charged f where
  call {s t f s' n m} hF hs hcall := by
    have hidle := (idle_of_call hF.1.2 hcall).1
    have hf : leased f = 0 ∧ Charged f := by
      cases f with
      | registry g => cases g <;> first | exact ⟨rfl, trivial⟩ | cases hcall
      | _ => exact ⟨rfl, trivial⟩
    refine ⟨?_, hf.2, fun _ _ _ ↦ id⟩
    rw [hf.1]
    exact hs.idle hidle
  exec {s t f k s' new n m} hF hA hs hf hexec := by
    have heffect := effect_of_exec (fun b T heq ↦ hF.1.1.record heq) hexec
    obtain ⟨hs', hnew⟩ := accounted_of_effect hA.1.1 hF.2.nodup hs hf heffect
    exact ⟨hs', hnew, fun _ _ _ ↦ id⟩
  ambient {s a s' n m} hF hs ha := ⟨hs.idle (idle_of_ambient ha), fun _ _ _ ↦ id⟩

variable [Fintype ι] [DecidableEq ι] {c : Threads SidecarServer ι ServerCall}
  {ms : List (Move ι ServerCall ServerAnswer (Bytes × Bytes × InputTraffic))}

omit [DecidableEq ι] in
theorem accounted_init :
    Accounted cfg (init cfg ι).shared (Program.weight leased (init cfg ι)) := by
  rw [weight_init]
  exact ⟨rfl, UInt64.zero_le, rfl, nofun, nofun⟩

/-- **Bytes are accounted for** in every reachable state. -/
theorem run_accounted (hrun : (program cfg ι).machine.run (init cfg ι) ms = some c) :
    Accounted cfg c.shared (Program.weight leased c) ∧ ∀ t, ∀ f ∈ c.calls t, Charged f := by
  have hledger := ((ledger cfg ι).extend (owned_rests cfg ι)).extend (accounted_rests cfg ι)
  obtain ⟨⟨-, hs⟩, hA⟩ :=
    hledger.run ⟨⟨⟨founded_init, owned_init⟩, accounted_init⟩, nofun⟩ hrun
  exact ⟨hs, fun t f hf ↦ (hA t f hf).2⟩

/-! ## The account of the server -/

/-- The account of the bytes that the controller has admitted. -/
structure Accounting (cfg : SidecarConfig) (c : Threads SidecarServer ι ServerCall) : Prop where
  /-- They are those of preparations whose lease has not shrunk, and of entries. -/
  current : c.shared.registry.admission.currentBytes.toNat = Program.weight leased c +
    (c.shared.alive.map fun e ↦ charge e.request (cfg.inputsCharged e.ticket)).sum
  /-- A preparation that has a lease was charged for as many inputs as a request may have. -/
  leased : ∀ t, ∀ f ∈ c.calls t, leased f = 0 ∨ ∃ g b, f = .registry g ∧ g.leasing? = some b ∧
    streamExecutionCharge b.request kMaxStreamInputs = .ok b.lease ∧ leased f = b.lease.toNat
  bound : c.shared.registry.admission.currentBytes ≤ cfg.streamInputCapacityBytes
  /-- An execution whose worker has not stopped has its charge. -/
  working : ∀ T, (c.shared.entry T).worker.working = true → ∃ e ∈ c.shared.alive, e.ticket = T ∧
    streamExecutionCharge e.request (cfg.inputsCharged T) = .ok e.lease
  /-- So has one that a handler has a pointer to. -/
  held : ∀ t, ∀ f ∈ c.calls t, ∀ T ∈ owned f, ∃ e ∈ c.shared.alive, e.ticket = T ∧
    streamExecutionCharge e.request (cfg.inputsCharged T) = .ok e.lease

/-- A call that has a lease was charged for it. -/
theorem leased_of_charged (hf : Charged f) : leased f = 0 ∨ ∃ g b, f = .registry g ∧
    g.leasing? = some b ∧ streamExecutionCharge b.request kMaxStreamInputs = .ok b.lease ∧
      leased f = b.lease.toNat := by
  cases f with
  | registry g =>
    cases g with
    | drawTicket b | construct b => exact .inr ⟨_, b, rfl, rfl, hf, rfl⟩
    | releaseReservation b built what =>
      cases built with
      | none => exact hf.imp (congrArg UInt64.toNat) fun hcharge ↦ ⟨_, b, rfl, rfl, hcharge, rfl⟩
      | some T => exact .inl rfl
    | unwind b what =>
      exact hf.imp (congrArg UInt64.toNat) fun hcharge ↦ ⟨_, b, rfl, rfl, hcharge, rfl⟩
    | _ => exact .inl rfl
  | _ => exact .inl rfl

/-- An entry that has a pointer is there. -/
theorem alive_of_pointer (hrun : (program cfg ι).machine.run (init cfg ι) ms = some c)
    (hpointer : 0 < Program.weight (role (.owner, T)) c + c.shared.created T) :
    c.shared.Alive T := by
  have hshared := (run_owned hrun).1.shared T
  rw [hshared.alive_iff, hshared.counted]
  omega

/-- **Bytes are accounted for**: what the controller has admitted is what was charged for the
preparations and entries that are there, it stays within the capacity, and nobody has an entry
without its charge. -/
theorem accounting (cfg : SidecarConfig)
    (ms : List (Move ι ServerCall ServerAnswer (Bytes × Bytes × InputTraffic)))
    (c : Threads SidecarServer ι ServerCall)
    (hrun : (program cfg ι).machine.run (init cfg ι) ms = some c) : Accounting cfg c := by
  obtain ⟨hs, hcharged⟩ := run_accounted hrun
  have halive : ∀ T, c.shared.Alive T → ∃ e ∈ c.shared.alive, e.ticket = T ∧
      streamExecutionCharge e.request (cfg.inputsCharged T) = .ok e.lease := by
    intro T hT
    obtain ⟨e, he, rfl⟩ := List.mem_map.mp hT
    exact ⟨e, he, rfl, hs.charged e he⟩
  have howned : ∀ t, ∀ f ∈ c.calls t, ∀ T ∈ owned f, c.shared.Alive T := by
    intro t f hf T hT
    refine alive_of_pointer hrun (Nat.lt_of_lt_of_le ?_ (Nat.le_add_right _ _))
    exact Nat.lt_of_lt_of_le (List.count_pos_iff.mpr hT)
      (Program.le_weight (w := role (.owner, T)) hf)
  refine ⟨?_, fun t f hf ↦ leased_of_charged (hcharged t f hf), ?_, fun T hworking ↦ halive T ?_,
    fun t f hf T hT ↦ halive T (howned t f hf T hT)⟩
  · rw [hs.current, entryBytes]
    refine congrArg (_ + List.sum ·) (List.map_congr_left fun e he ↦ ?_)
    exact (charge_of_ok (hs.charged e he)).symm
  · rw [← hs.capacity]
    exact hs.bound
  · rw [WorkerThread.working_eq, Bool.or_eq_true] at hworking
    rcases hworking with hcreated | hrunning
    · refine alive_of_pointer hrun (Nat.lt_of_lt_of_le ?_ (Nat.le_add_left _ _))
      rw [created, hcreated]
      exact Nat.one_pos
    · -- a worker that runs has a frame, and that has a pointer
      have hworker := (run_owned hrun).1.worker T
      rw [hrunning] at hworker
      by_contra hno
      have hnone : Program.weight (role (.worker, T)) c = 0 := by
        refine Program.weight_eq_zero fun t f hf ↦ List.count_eq_zero.mpr fun hT ↦ ?_
        refine hno (howned t f hf T ?_)
        cases f with
        | entry => exact hT
        | _ => exact absurd hT List.not_mem_nil
      rw [hnone] at hworker
      cases hworker

theorem accounting_deliverOnce :
    ∃ c, (program oneExecution Bool).machine.run (init oneExecution Bool) deliverOnce = some c ∧
      c.shared.alive.map (·.ticket) = [[7]] ∧ Accounting oneExecution c := by
  have halive : ((program oneExecution Bool).machine.run (init oneExecution Bool) deliverOnce).map
      (fun c ↦ c.shared.alive.map (·.ticket)) = some [[7]] := by
    decide +kernel
  obtain ⟨c, hrun, hc⟩ := Option.map_eq_some_iff.mp halive
  exact ⟨c, hrun, hc, accounting oneExecution deliverOnce c hrun⟩

end SidecarServer

end MoSidecar
