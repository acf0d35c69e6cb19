import MoSidecar.Protocol.Status
import MoSidecar.Protocol.Wire

/-!
# Admission of streamed input

Every preparation of an execution takes a lease on a process-wide number of bytes before anything
else is done for it. The charge is computed from the limits of the request, with overflow checked at
every operation; the controller grants a lease only while the sum of what it has granted stays
within its capacity. A lease can be shrunk, and gives back what it holds when it is destroyed.
-/

namespace MoSidecar

/-! ## The charge of an execution -/

def kChargeAlignment : UInt64 := 64 * 1024
def kTransportOverhead : UInt64 := 64 * 1024
def kExpandedInputBytes : UInt64 := 64 * 1024 * 1024
def kMaxUInt64 : UInt64 := 0xffffffffffffffff

/-- `checked_add`. -/
def checkedAdd (left right : UInt64) : Except Thrown UInt64 :=
  if right > kMaxUInt64 - left then .error (.exception "stream admission charge overflow")
  else .ok (left + right)

/-- `checked_multiply`. -/
def checkedMultiply (left right : UInt64) : Except Thrown UInt64 :=
  if left ≠ 0 ∧ right > kMaxUInt64 / left then
    .error (.exception "stream admission charge overflow")
  else .ok (left * right)

/-- `align`. -/
def alignCharge (bytes : UInt64) : Except Thrown UInt64 := do
  checkedMultiply ((← checkedAdd bytes (kChargeAlignment - 1)) / kChargeAlignment) kChargeAlignment

/-- `stream_execution_charge`. -/
def streamExecutionCharge (request : ExecuteRequest) (streamInputs : ℕ) : Except Thrown UInt64 :=
  if streamInputs > kMaxStreamInputs then
    .error (.invalidArgument "stream input count exceeds admission bound")
  else do
    let inputFrame ← alignCharge (← checkedAdd
      (← checkedAdd request.maxInputBatchBytes kNativeBatchFrameHeaderBytes.toUInt64)
      kTransportOverhead)
    let perRead ← checkedAdd (← checkedMultiply 2 inputFrame) kExpandedInputBytes
    let result ← checkedMultiply 2
      (← alignCharge (← checkedAdd request.maxBatchBytes kTransportOverhead))
    let requestBytes ← checkedAdd request.plan.length.toUInt64 request.resultSchema.length.toUInt64
    let requestOverlap ← checkedMultiply 2
      (← alignCharge (← checkedAdd requestBytes kTransportOverhead))
    checkedAdd (← checkedAdd (← checkedMultiply streamInputs.toUInt64 perRead) result)
      requestOverlap

/-! ## Checked arithmetic -/

theorem checkedAdd_eq_ok {l r x : UInt64} :
    checkedAdd l r = .ok x ↔ x.toNat = l.toNat + r.toNat := by
  have hleft := l.toNat_lt
  have hright := r.toNat_lt
  have hx := x.toNat_lt
  have hmax : (kMaxUInt64 - l).toNat = 2 ^ 64 - 1 - l.toNat := by
    rw [UInt64.toNat_sub_of_le]
    · rfl
    · rw [UInt64.le_iff_toNat_le]
      show l.toNat ≤ 2 ^ 64 - 1
      omega
  rw [checkedAdd]
  split_ifs with hover
  · rw [gt_iff_lt, UInt64.lt_iff_toNat_lt, hmax] at hover
    constructor
    · exact nofun
    · omega
  · rw [gt_iff_lt, UInt64.lt_iff_toNat_lt, hmax] at hover
    rw [Except.ok.injEq, ← UInt64.toNat_inj, UInt64.toNat_add]
    omega

theorem checkedMultiply_eq_ok {l r x : UInt64} :
    checkedMultiply l r = .ok x ↔ x.toNat = l.toNat * r.toNat := by
  have hx := x.toNat_lt
  have hdiv : (kMaxUInt64 / l).toNat = (2 ^ 64 - 1) / l.toNat := UInt64.toNat_div ..
  have hfits : ¬(l ≠ 0 ∧ r > kMaxUInt64 / l) ↔ l.toNat * r.toNat < 2 ^ 64 := by
    rw [gt_iff_lt, UInt64.lt_iff_toNat_lt, hdiv]
    rcases Nat.eq_zero_or_pos l.toNat with hzero | hpos
    · have hleft : l = 0 := UInt64.toNat_inj.mp hzero
      simp [hleft]
    · have hleft : l ≠ 0 := by
        rintro rfl
        exact Nat.lt_irrefl 0 hpos
      rw [not_and, imp_iff_right hleft, Nat.not_lt, Nat.le_div_iff_mul_le hpos, Nat.mul_comm]
      omega
  rw [checkedMultiply]
  split_ifs with hover
  · have hno : ¬l.toNat * r.toNat < 2 ^ 64 := fun h ↦ hfits.mpr h hover
    constructor
    · exact nofun
    · omega
  · have hlt := hfits.mp hover
    rw [Except.ok.injEq, ← UInt64.toNat_inj, UInt64.toNat_mul, Nat.mod_eq_of_lt hlt]
    exact eq_comm

theorem exists_checkedAdd {l r : UInt64} (h : l.toNat + r.toNat < 2 ^ 64) :
    ∃ x, checkedAdd l r = .ok x ∧ x.toNat = l.toNat + r.toNat := by
  have hx : (UInt64.ofNat (l.toNat + r.toNat)).toNat = l.toNat + r.toNat := by
    rw [UInt64.toNat_ofNat', Nat.mod_eq_of_lt h]
  exact ⟨_, checkedAdd_eq_ok.mpr hx, hx⟩

theorem exists_checkedMultiply {l r : UInt64} (h : l.toNat * r.toNat < 2 ^ 64) :
    ∃ x, checkedMultiply l r = .ok x ∧ x.toNat = l.toNat * r.toNat := by
  have hx : (UInt64.ofNat (l.toNat * r.toNat)).toNat = l.toNat * r.toNat := by
    rw [UInt64.toNat_ofNat', Nat.mod_eq_of_lt h]
  exact ⟨_, checkedMultiply_eq_ok.mpr hx, hx⟩

/-- Fewer inputs are not charged more. -/
theorem streamExecutionCharge_le {request : ExecuteRequest} {n m : ℕ} {bytes : UInt64} (h : n ≤ m)
    (hm : streamExecutionCharge request m = .ok bytes) :
    ∃ charge, streamExecutionCharge request n = .ok charge ∧ charge.toNat ≤ bytes.toNat := by
  rw [streamExecutionCharge] at hm
  split_ifs at hm with hbound
  have hbound' : ¬n > kMaxStreamInputs := fun hn ↦ hbound (Nat.lt_of_lt_of_le hn h)
  -- only the product with the number of inputs is different
  obtain ⟨header, hheader, hm⟩ := bind_eq_ok.mp hm
  obtain ⟨frame, hframe, hm⟩ := bind_eq_ok.mp hm
  obtain ⟨inputFrame, hinput, hm⟩ := bind_eq_ok.mp hm
  obtain ⟨twice, htwice, hm⟩ := bind_eq_ok.mp hm
  obtain ⟨perRead, hread, hm⟩ := bind_eq_ok.mp hm
  obtain ⟨batch, hbatch, hm⟩ := bind_eq_ok.mp hm
  obtain ⟨aligned, haligned, hm⟩ := bind_eq_ok.mp hm
  obtain ⟨result, hresult, hm⟩ := bind_eq_ok.mp hm
  obtain ⟨requestBytes, hbytes, hm⟩ := bind_eq_ok.mp hm
  obtain ⟨transport, htransport, hm⟩ := bind_eq_ok.mp hm
  obtain ⟨aligned', haligned', hm⟩ := bind_eq_ok.mp hm
  obtain ⟨overlap, hoverlap, hm⟩ := bind_eq_ok.mp hm
  obtain ⟨reads, hreads, hm⟩ := bind_eq_ok.mp hm
  obtain ⟨both, hboth, hm⟩ := bind_eq_ok.mp hm
  rw [checkedMultiply_eq_ok] at hreads
  rw [checkedAdd_eq_ok] at hboth hm
  have hn : n.toUInt64.toNat ≤ m.toUInt64.toNat := by
    have hmax : m ≤ 16 := Nat.le_of_not_lt hbound
    rw [UInt64.toNat_ofNat', UInt64.toNat_ofNat', Nat.mod_eq_of_lt (by omega),
      Nat.mod_eq_of_lt (by omega)]
    exact h
  have hle := Nat.mul_le_mul_right perRead.toNat hn
  have hlt := bytes.toNat_lt
  obtain ⟨reads', hreads', hsize⟩ := exists_checkedMultiply (l := n.toUInt64) (r := perRead)
    (by omega)
  obtain ⟨both', hboth', hsize'⟩ := exists_checkedAdd (l := reads') (r := result) (by omega)
  obtain ⟨charge, hcharge, hsize''⟩ := exists_checkedAdd (l := both') (r := overlap) (by omega)
  refine ⟨charge, ?_, by omega⟩
  rw [streamExecutionCharge, if_neg hbound']
  refine bind_eq_ok.mpr ⟨header, hheader, ?_⟩
  refine bind_eq_ok.mpr ⟨frame, hframe, ?_⟩
  refine bind_eq_ok.mpr ⟨inputFrame, hinput, ?_⟩
  refine bind_eq_ok.mpr ⟨twice, htwice, ?_⟩
  refine bind_eq_ok.mpr ⟨perRead, hread, ?_⟩
  refine bind_eq_ok.mpr ⟨batch, hbatch, ?_⟩
  refine bind_eq_ok.mpr ⟨aligned, haligned, ?_⟩
  refine bind_eq_ok.mpr ⟨result, hresult, ?_⟩
  refine bind_eq_ok.mpr ⟨requestBytes, hbytes, ?_⟩
  refine bind_eq_ok.mpr ⟨transport, htransport, ?_⟩
  refine bind_eq_ok.mpr ⟨aligned', haligned', ?_⟩
  refine bind_eq_ok.mpr ⟨overlap, hoverlap, ?_⟩
  refine bind_eq_ok.mpr ⟨reads', hreads', ?_⟩
  exact bind_eq_ok.mpr ⟨both', hboth', hcharge⟩

/-! ## The controller -/

/-- `stream_admission_controller`. -/
structure StreamAdmissionController where
  capacityBytes : UInt64
  currentBytes : UInt64 := 0
  peakBytes : UInt64 := 0
  rejectedRequests : UInt64 := 0

namespace StreamAdmissionController

variable (a : StreamAdmissionController)

/-- `try_acquire`, and whether a lease was granted. -/
def tryAcquire (bytes : UInt64) : StreamAdmissionController × Bool :=
  if bytes > a.capacityBytes - min a.capacityBytes a.currentBytes then
    ({ a with rejectedRequests := a.rejectedRequests + 1 }, false)
  else
    ({ a with
      currentBytes := a.currentBytes + bytes
      peakBytes := max a.peakBytes (a.currentBytes + bytes) }, true)

/-- `release`. -/
def release (bytes : UInt64) : StreamAdmissionController :=
  { a with currentBytes := if bytes > a.currentBytes then 0 else a.currentBytes - bytes }

/-- `shrink`, of the lease and of the controller. -/
def shrink (held bytes : UInt64) : Except Thrown StreamAdmissionController :=
  if bytes > held then .error (.invalidArgument "stream admission lease can only shrink")
  else if held - bytes > a.currentBytes then
    .error (.exception "invalid stream admission shrink")
  else .ok { a with currentBytes := a.currentBytes - (held - bytes) }

variable {a}

/-- What is compared with a lease is the room that is left. -/
theorem room_lt_iff {bytes : UInt64} (h : a.currentBytes ≤ a.capacityBytes) :
    bytes > a.capacityBytes - min a.capacityBytes a.currentBytes ↔
      a.capacityBytes.toNat - a.currentBytes.toNat < bytes.toNat := by
  have hmin : min a.capacityBytes a.currentBytes = a.currentBytes := by
    show (if a.capacityBytes ≤ a.currentBytes then a.capacityBytes else a.currentBytes) = _
    split_ifs with hle
    · exact UInt64.le_antisymm hle h
    · rfl
  rw [hmin, gt_iff_lt, UInt64.lt_iff_toNat_lt, UInt64.toNat_sub_of_le _ _ h]

/-- What is granted fits. -/
theorem fits_of_granted {bytes : UInt64} (h : a.currentBytes ≤ a.capacityBytes)
    (hgranted : ¬bytes > a.capacityBytes - min a.capacityBytes a.currentBytes) :
    a.currentBytes.toNat + bytes.toNat ≤ a.capacityBytes.toNat := by
  rw [room_lt_iff h] at hgranted
  rw [UInt64.le_iff_toNat_le] at h
  omega

/-- A lease that is granted is added to what is held, within the capacity. -/
theorem tryAcquire_granted {bytes : UInt64} (h : a.currentBytes ≤ a.capacityBytes)
    (hgranted : (a.tryAcquire bytes).2 = true) :
    (a.tryAcquire bytes).1.capacityBytes = a.capacityBytes ∧
      (a.tryAcquire bytes).1.currentBytes.toNat = a.currentBytes.toNat + bytes.toNat ∧
      a.currentBytes.toNat + bytes.toNat ≤ a.capacityBytes.toNat := by
  have hcapacity := a.capacityBytes.toNat_lt
  rw [tryAcquire] at hgranted ⊢
  split_ifs at hgranted ⊢ with hfull
  have hfits := fits_of_granted h hfull
  refine ⟨rfl, ?_, hfits⟩
  rw [UInt64.toNat_add, Nat.mod_eq_of_lt (by omega)]

/-- A lease is granted exactly while there is room for it. -/
theorem tryAcquire_granted_iff (bytes : UInt64) (h : a.currentBytes ≤ a.capacityBytes) :
    (a.tryAcquire bytes).2 = true ↔
      bytes.toNat ≤ a.capacityBytes.toNat - a.currentBytes.toNat := by
  rw [tryAcquire]
  split_ifs with hfull
  · rw [room_lt_iff h] at hfull
    simp only [false_iff]
    omega
  · rw [room_lt_iff h] at hfull
    simp only [true_iff]
    omega

/-- The peak is the largest count there has been. -/
theorem tryAcquire_peak {bytes : UInt64} (hgranted : (a.tryAcquire bytes).2 = true) :
    (a.tryAcquire bytes).1.peakBytes.toNat
      = max a.peakBytes.toNat (a.tryAcquire bytes).1.currentBytes.toNat := by
  rw [tryAcquire] at hgranted ⊢
  split_ifs at hgranted ⊢ with hfull
  show (if a.peakBytes ≤ a.currentBytes + bytes then a.currentBytes + bytes
    else a.peakBytes).toNat = _
  split_ifs with hle
  · exact (Nat.max_eq_right (UInt64.le_iff_toNat_le.mp hle)).symm
  · rw [UInt64.le_iff_toNat_le, Nat.not_le] at hle
    exact (Nat.max_eq_left (Nat.le_of_lt hle)).symm

/-- A refused request changes no byte. -/
theorem tryAcquire_refused {bytes : UInt64} (h : (a.tryAcquire bytes).2 = false) :
    (a.tryAcquire bytes).1.capacityBytes = a.capacityBytes ∧
      (a.tryAcquire bytes).1.currentBytes = a.currentBytes := by
  rw [tryAcquire] at h ⊢
  split_ifs at h ⊢
  exact ⟨rfl, rfl⟩

/-- A lease that was granted is given back in full. -/
theorem release_toNat {bytes : UInt64} (h : bytes.toNat ≤ a.currentBytes.toNat) :
    (a.release bytes).currentBytes.toNat = a.currentBytes.toNat - bytes.toNat := by
  have hle : bytes ≤ a.currentBytes := UInt64.le_iff_toNat_le.mpr h
  rw [release, if_neg (UInt64.not_lt.mpr hle)]
  exact UInt64.toNat_sub_of_le _ _ hle

/-- A lease that was granted shrinks to whatever is less. -/
theorem shrink_toNat {held bytes : UInt64} (h : bytes.toNat ≤ held.toNat)
    (hheld : held.toNat ≤ a.currentBytes.toNat) :
    ∃ r, a.shrink held bytes = .ok r ∧ r.capacityBytes = a.capacityBytes ∧
      r.currentBytes.toNat = a.currentBytes.toNat - (held.toNat - bytes.toNat) := by
  have hle : bytes ≤ held := UInt64.le_iff_toNat_le.mpr h
  have hdiff : (held - bytes).toNat = held.toNat - bytes.toNat := UInt64.toNat_sub_of_le _ _ hle
  have hle' : held - bytes ≤ a.currentBytes := by
    rw [UInt64.le_iff_toNat_le, hdiff]
    omega
  refine ⟨{ a with currentBytes := a.currentBytes - (held - bytes) }, ?_, rfl, ?_⟩
  · rw [shrink, if_neg (UInt64.not_lt.mpr hle), if_neg (UInt64.not_lt.mpr hle')]
  · rw [← hdiff]
    exact UInt64.toNat_sub_of_le _ _ hle'

end StreamAdmissionController

end MoSidecar
