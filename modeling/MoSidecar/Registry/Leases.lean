import MoSidecar.Registry.Sections

/-!
# Leases of preparations

A preparation takes its lease together with its reservation, for as many inputs as a request may
have. It holds the lease until the entry is constructed, which has it from then on. A constructor
that throws gives the lease back, and what is left to the preparation is empty; a preparation that
fails before gives it back itself.
-/

namespace MoSidecar

/-- `stream_execution_charge` as a number, which is zero where it throws. -/
def charge (request : ExecuteRequest) (streamInputs : ℕ) : ℕ :=
  match streamExecutionCharge request streamInputs with
  | .ok bytes => bytes.toNat
  | .error _ => 0

theorem charge_of_ok {request : ExecuteRequest} {streamInputs : ℕ} {bytes : UInt64}
    (h : streamExecutionCharge request streamInputs = .ok bytes) :
    charge request streamInputs = bytes.toNat := by
  rw [charge, h]

/-- The preparation that has its lease itself. -/
def RegistryCall.leasing? : RegistryCall → Option Building
  | .drawTicket b | .construct b _ | .releaseReservation b none _ | .unwind b _ => some b
  | _ => none

/-- The bytes that a call has a lease on. -/
def RegistryCall.leased (f : RegistryCall) : ℕ := f.leasing?.elim 0 (·.lease.toNat)

/-- A lease was granted for as many inputs as a request may have, and has been given back at the end
perhaps. -/
def RegistryCall.Charged : RegistryCall → Prop
  | .drawTicket b | .construct b _ =>
    streamExecutionCharge b.request kMaxStreamInputs = .ok b.lease
  | .releaseReservation b none _ | .unwind b _ =>
    b.lease = 0 ∨ streamExecutionCharge b.request kMaxStreamInputs = .ok b.lease
  | _ => True

theorem RegistryCall.charged_of_leasing {f : RegistryCall} (hf : f.leasing? = none) :
    f.Charged := by
  cases f with
  | drawTicket | construct | unwind => cases hf
  | releaseReservation b built what =>
    cases built with
    | none => cases hf
    | some T => trivial
  | _ => trivial

namespace TicketRegistry

variable {cfg : RegistryConfig} {s r : TicketRegistry} {g : RegistryCall} {a : RegistryAnswer}
  {calls : List RegistryCall} {m : ℕ}

/-- The admitted bytes are those of the given calls, and others. -/
structure Leases (cfg : RegistryConfig) (m : ℕ) (s : TicketRegistry) (calls : List RegistryCall) :
    Prop where
  capacity : s.admission.capacityBytes = cfg.streamInputCapacityBytes
  bound : s.admission.currentBytes ≤ s.admission.capacityBytes
  current : s.admission.currentBytes.toNat = m + (calls.map RegistryCall.leased).sum
  charged : ∀ g ∈ calls, g.Charged

namespace Leases

/-- The lease is handed on. -/
theorem of_eq (h : Leases cfg m s [g]) (hadmission : r.admission = s.admission)
    (hleased : (calls.map RegistryCall.leased).sum = g.leased) (hcharged : ∀ g ∈ calls, g.Charged) :
    Leases cfg m r calls where
  capacity := by rw [hadmission, h.capacity]
  bound := by
    rw [hadmission]
    exact h.bound
  current := by
    rw [hadmission, h.current, hleased]
    rfl
  charged := hcharged

/-- There is no lease to be handed on. -/
theorem free (h : Leases cfg m s [g]) (hg : g.leasing? = none)
    (hadmission : r.admission = s.admission) (hcalls : ∀ g ∈ calls, g.leasing? = none) :
    Leases cfg m r calls := by
  refine h.of_eq hadmission ?_ fun g' hg' ↦ RegistryCall.charged_of_leasing (hcalls g' hg')
  rw [RegistryCall.leased, hg]
  refine List.sum_eq_zero fun n hn ↦ ?_
  obtain ⟨g', hg', rfl⟩ := List.mem_map.mp hn
  rw [RegistryCall.leased, hcalls g' hg']
  rfl

theorem free_nil (h : Leases cfg m s [g]) (hg : g.leasing? = none)
    (hadmission : r.admission = s.admission) : Leases cfg m r [] :=
  h.free hg hadmission (List.forall_mem_nil _)

theorem free_one {g' : RegistryCall} (h : Leases cfg m s [g]) (hg : g.leasing? = none)
    (hadmission : r.admission = s.admission) (hg' : g'.leasing? = none) : Leases cfg m r [g'] :=
  h.free hg hadmission (List.forall_mem_singleton.mpr hg')

/-- The lease is given back. -/
theorem of_release (h : Leases cfg m s [g]) {bytes : UInt64} (hg : g.leased = bytes.toNat)
    (hadmission : r.admission = s.admission.release bytes)
    (hleased : (calls.map RegistryCall.leased).sum = 0) (hcharged : ∀ g ∈ calls, g.Charged) :
    Leases cfg m r calls := by
  have hcurrent : s.admission.currentBytes.toNat = m + bytes.toNat := by
    rw [h.current, ← hg]
    rfl
  have hrelease : (s.admission.release bytes).currentBytes.toNat
      = s.admission.currentBytes.toNat - bytes.toNat :=
    StreamAdmissionController.release_toNat (by omega)
  refine ⟨?_, ?_, ?_, hcharged⟩
  · rw [hadmission]
    exact h.capacity
  · have hbound := UInt64.le_iff_toNat_le.mp h.bound
    rw [hadmission, UInt64.le_iff_toNat_le, hrelease]
    show _ ≤ s.admission.capacityBytes.toNat
    omega
  · rw [hadmission, hrelease, hleased, hcurrent]
    omega

/-- A lease is granted. -/
theorem grant (h : Leases cfg m s [g]) (hg : g.leasing? = none) {b : Building}
    (hadmitted : Admitted cfg s b) :
    Leases cfg m { s.reserve b with admission := (s.admission.tryAcquire b.lease).1 }
      [.drawTicket b] := by
  have hcurrent : s.admission.currentBytes.toNat = m := by
    rw [h.current, List.map_singleton, List.sum_singleton, RegistryCall.leased, hg]
    rfl
  obtain ⟨hcapacity, hsum, hfits⟩ :=
    StreamAdmissionController.tryAcquire_granted h.bound hadmitted.granted
  refine ⟨hcapacity.trans h.capacity, ?_, ?_, List.forall_mem_singleton.mpr hadmitted.charge⟩
  · show (s.admission.tryAcquire b.lease).1.currentBytes
      ≤ (s.admission.tryAcquire b.lease).1.capacityBytes
    rw [hcapacity, UInt64.le_iff_toNat_le, hsum]
    exact hfits
  · show (s.admission.tryAcquire b.lease).1.currentBytes.toNat = m + (b.lease.toNat + 0)
    rw [hsum, hcurrent]
    rfl

/-- A lease is refused. -/
theorem refuse (h : Leases cfg m s [g]) (hg : g.leasing? = none)
    (hcapacity : r.admission.capacityBytes = s.admission.capacityBytes)
    (hcurrent : r.admission.currentBytes = s.admission.currentBytes) : Leases cfg m r [] where
  capacity := hcapacity.trans h.capacity
  bound := by
    rw [hcapacity, hcurrent]
    exact h.bound
  current := by
    rw [hcurrent, h.current, List.map_singleton, List.sum_singleton, RegistryCall.leased, hg]
    rfl
  charged := List.forall_mem_nil _

end Leases

/-- **No section loses a lease**: what is granted, held and given back adds up. -/
theorem leases_of_exec (h : Leases cfg m s [g]) (hg : ∀ b T, g ≠ .construct b T)
    (hexec : s.exec cfg g a = some (r, calls)) : Leases cfg m r calls := by
  have hcharged : g.Charged := h.charged g List.mem_cons_self
  cases effect_of_exec hexec with
  | reserved hadmitted => exact h.grant rfl hadmitted
  | refused hfails hcapacity hcurrent => exact h.refuse rfl hcapacity hcurrent
  | undrawn => exact h.of_eq rfl rfl (List.forall_mem_singleton.mpr (.inr hcharged))
  | taken | drew | released =>
    exact h.of_eq rfl rfl (List.forall_mem_singleton.mpr hcharged)
  | threw | unshrunk | built => exact absurd rfl (hg _ _)
  | dropped => exact h.of_eq rfl rfl (List.forall_mem_singleton.mpr (.inl rfl))
  | unwound => exact h.of_release rfl rfl rfl (List.forall_mem_nil _)
  | invalid | expired | alreadyClaimed | outOfRange | abandoned | undelivered | delivered
  | unavailable | unclaimed | unstarted | started | looked | missed | missedStopped | missedKey
  | missedEntry | expiredKey | joined | unjoined | alreadySealed | gpuSealed | stopped | reaped =>
    exact h.free_nil rfl rfl
  | valid | waiting | found | retrying | replayed | retracted | withdrawn | committed | available
  | claimed | cancelling | marked | cancellingKey | retryingKey => exact h.free_one rfl rfl rfl

end TicketRegistry

end MoSidecar
