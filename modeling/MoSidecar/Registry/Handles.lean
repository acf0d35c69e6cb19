import MoSidecar.Registry.Admission

/-!
# Leases as objects

A lease is an object that owns bytes of the admission controller until it is moved from, assigned
to, shrunk or destroyed. Whatever a program does with any number of them, the controller's count is
the sum of what the objects own: a double release would break the sum before the saturation of
`release` could hide it. The proofs follow one equation, `Sound.current_eq`, through each call.

The objects are numbered in the order they are made, and a number whose object is destroyed is not
used again. A call on an object that is not alive is no call of a C++ program, so it has no outcome.
-/

namespace MoSidecar

/-! ## The objects -/

/-- `stream_admission_controller::lease`: whether `owner_` is set, and `bytes_`. -/
structure Lease where
  owner : Bool := false
  bytes : UInt64 := 0
  deriving DecidableEq

namespace StreamAdmissionController

/-- `shrink` of the controller. -/
def resize (a : StreamAdmissionController) (held bytes : UInt64) :
    Except Thrown StreamAdmissionController :=
  if held < bytes ∨ held - bytes > a.currentBytes then
    .error (.exception "invalid stream admission shrink")
  else .ok { a with currentBytes := a.currentBytes - (held - bytes) }

end StreamAdmissionController

namespace Lease

/-- `reset`: what is left of the controller and of the lease. -/
def reset (a : StreamAdmissionController) (l : Lease) : StreamAdmissionController × Lease :=
  if l.owner then (a.release l.bytes, {}) else (a, l)

/-- `reset` takes the branch of `release` that cuts off at zero. -/
def saturates (a : StreamAdmissionController) (l : Lease) : Bool :=
  l.owner && decide (l.bytes > a.currentBytes)

/-- `shrink` of the lease. -/
def shrink (a : StreamAdmissionController) (l : Lease) (bytes : UInt64) :
    Except Thrown (StreamAdmissionController × Lease) :=
  if !l.owner ∨ bytes > l.bytes then
    .error (.invalidArgument "stream admission lease can only shrink")
  else do
    let a ← a.resize l.bytes bytes
    .ok (a, { l with bytes := bytes })

/-- What the lease owns of the controller. -/
def held (l : Lease) : ℕ := if l.owner then l.bytes.toNat else 0

end Lease

/-- The controller and the lease objects there have been. -/
structure Admission where
  controller : StreamAdmissionController
  leases : List (Option Lease) := []

/-- What a program does with the controller and its leases. -/
inductive LeaseCall where
  | tryAcquire (bytes : UInt64)
  | construct
  | moveConstruct (other : ℕ)
  | moveAssign (lease other : ℕ)
  | shrink (lease : ℕ) (bytes : UInt64)
  | destroy (lease : ℕ)
  deriving DecidableEq

inductive LeaseAnswer where
  | granted
  | rejected
  | done
  | threw (error : Thrown)
  deriving DecidableEq

/-- The outcome of a call. -/
structure LeaseOutcome where
  state : Admission
  answer : LeaseAnswer := .done
  /-- Some `release` was cut off at zero. -/
  saturated : Bool := false

namespace Admission

def init (capacity : UInt64) : Admission := { controller := { capacityBytes := capacity } }

variable (s : Admission)

/-- The object of a number, while it is alive. -/
def lease (i : ℕ) : Option Lease := s.leases[i]?.join

/-- A call; nothing if it names an object that is not alive. -/
def call : LeaseCall → Option LeaseOutcome
  | .tryAcquire bytes =>
    let (controller, granted) := s.controller.tryAcquire bytes
    if granted then
      some ⟨⟨controller, s.leases ++ [some ⟨true, bytes⟩]⟩, .granted, false⟩
    else some ⟨{ s with controller := controller }, .rejected, false⟩
  | .construct => some { state := { s with leases := s.leases ++ [some {}] } }
  | .moveConstruct other => do
    let source ← s.lease other
    some { state := { s with leases := s.leases.set other (some {}) ++ [some source] } }
  | .moveAssign lease other => do
    let target ← s.lease lease
    let source ← s.lease other
    if lease = other then some { state := s }
    else
      some ⟨⟨(target.reset s.controller).1,
        (s.leases.set lease (some source)).set other (some {})⟩, .done,
        target.saturates s.controller⟩
  | .shrink lease bytes => do
    let target ← s.lease lease
    match target.shrink s.controller bytes with
    | .error error => some ⟨s, .threw error, false⟩
    | .ok (controller, shrunk) =>
      some { state := ⟨controller, s.leases.set lease (some shrunk)⟩ }
  | .destroy lease => do
    let target ← s.lease lease
    some ⟨⟨(target.reset s.controller).1, s.leases.set lease none⟩, .done,
      target.saturates s.controller⟩

/-- A program's calls one after another. -/
def run (s : Admission) : List LeaseCall → Option Admission
  | [] => some s
  | c :: calls => do
    let outcome ← s.call c
    run outcome.state calls

/-! ## What is held -/

/-- What a place in the list of objects owns. -/
def heldAt : Option Lease → ℕ
  | none => 0
  | some l => l.held

/-- What all objects own together. -/
def held : ℕ := (s.leases.map heldAt).sum

/-- The count is what the objects own, within the peak and the capacity. -/
structure Sound : Prop where
  current_eq : s.controller.currentBytes.toNat = s.held
  current_le_peak : s.controller.currentBytes.toNat ≤ s.controller.peakBytes.toNat
  peak_le_capacity : s.controller.peakBytes.toNat ≤ s.controller.capacityBytes.toNat

theorem sum_map_set {α : Type} (f : α → ℕ) {l : List α} {i : ℕ} {x : α} (h : l[i]? = some x)
    (y : α) : ((l.set i y).map f).sum + f x = (l.map f).sum + f y := by
  induction l generalizing i with
  | nil => simp at h
  | cons a l ih =>
    cases i with
    | zero =>
      obtain rfl : a = x := by simpa using h
      simp only [List.set_cons_zero, List.map_cons, List.sum_cons]
      omega
    | succ i =>
      have hrest := ih (by simpa using h)
      simp only [List.set_cons_succ, List.map_cons, List.sum_cons]
      omega

variable {s}

theorem getElem?_of_lease {i : ℕ} {l : Lease} (h : s.lease i = some l) :
    s.leases[i]? = some (some l) := by
  rw [lease] at h
  exact Option.join_eq_some_iff.mp h

theorem held_le_of_lease {i : ℕ} {l : Lease} (h : s.lease i = some l) : l.held ≤ s.held := by
  have hset := sum_map_set heldAt (getElem?_of_lease h) none
  rw [heldAt, heldAt, ← held] at hset
  omega

theorem held_append (a a' : StreamAdmissionController) (ls : List (Option Lease))
    (x : Option Lease) : held ⟨a, ls ++ [x]⟩ = held ⟨a', ls⟩ + heldAt x := by
  rw [held, held, List.map_append, List.sum_append, List.map_singleton, List.sum_singleton]

theorem held_set (a : StreamAdmissionController) {i : ℕ} {l : Lease} (h : s.lease i = some l)
    (x : Option Lease) : held ⟨a, s.leases.set i x⟩ + l.held = s.held + heldAt x :=
  sum_map_set heldAt (getElem?_of_lease h) x

/-! ## What a call does -/

theorem Sound.le_capacity (h : s.Sound) :
    s.controller.currentBytes ≤ s.controller.capacityBytes := by
  rw [UInt64.le_iff_toNat_le]
  exact Nat.le_trans h.current_le_peak h.peak_le_capacity

/-- What `reset` leaves of the controller. -/
theorem Sound.reset (h : s.Sound) {i : ℕ} {l : Lease} (hl : s.lease i = some l) :
    (l.reset s.controller).1.capacityBytes = s.controller.capacityBytes ∧
      (l.reset s.controller).1.peakBytes = s.controller.peakBytes ∧
      (l.reset s.controller).1.currentBytes.toNat + l.held = s.controller.currentBytes.toNat ∧
      l.saturates s.controller = false := by
  have hle := held_le_of_lease hl
  rw [← h.current_eq] at hle
  rw [Lease.reset, Lease.saturates]
  rw [Lease.held] at hle ⊢
  cases howner : l.owner with
  | false => exact ⟨rfl, rfl, rfl, rfl⟩
  | true =>
    rw [howner, if_pos rfl] at hle
    have hrelease := StreamAdmissionController.release_toNat hle
    have hnot : ¬l.bytes > s.controller.currentBytes := by
      rw [gt_iff_lt, UInt64.lt_iff_toNat_lt]
      omega
    refine ⟨rfl, rfl, ?_, ?_⟩
    · simp only [if_true]
      rw [hrelease]
      omega
    · rw [decide_eq_false hnot]
      rfl

/-- A lease that owns its bytes shrinks to whatever is not more. -/
theorem Sound.resize (h : s.Sound) {i : ℕ} {l : Lease} (hl : s.lease i = some l)
    (howner : l.owner = true) {bytes : UInt64} (hbytes : bytes.toNat ≤ l.bytes.toNat) :
    ∃ a, s.controller.resize l.bytes bytes = .ok a ∧
      a.capacityBytes = s.controller.capacityBytes ∧ a.peakBytes = s.controller.peakBytes ∧
      a.currentBytes.toNat + l.bytes.toNat = s.controller.currentBytes.toNat + bytes.toNat := by
  have hheld := held_le_of_lease hl
  rw [← h.current_eq, Lease.held, if_pos howner] at hheld
  have hle : bytes ≤ l.bytes := UInt64.le_iff_toNat_le.mpr hbytes
  have hdiff : (l.bytes - bytes).toNat = l.bytes.toNat - bytes.toNat :=
    UInt64.toNat_sub_of_le _ _ hle
  have hfits : l.bytes - bytes ≤ s.controller.currentBytes := by
    rw [UInt64.le_iff_toNat_le, hdiff]
    omega
  refine ⟨{ s.controller with currentBytes := s.controller.currentBytes - (l.bytes - bytes) },
    ?_, rfl, rfl, ?_⟩
  · rw [StreamAdmissionController.resize, if_neg]
    rw [not_or, gt_iff_lt, UInt64.not_lt, UInt64.not_lt]
    exact ⟨hle, hfits⟩
  · have hcurrent := UInt64.toNat_sub_of_le _ _ hfits
    rw [hdiff] at hcurrent
    simp only
    rw [hcurrent]
    omega

/-- What holds of one call: what is granted fits and no more is asked for it, a call that fails
changes nothing that is owned, and no unreachable branch is reached. -/
structure Sane (s : Admission) (c : LeaseCall) (outcome : LeaseOutcome) : Prop where
  granted_iff : ∀ bytes, c = .tryAcquire bytes → (outcome.answer = .granted ↔
    bytes.toNat ≤ s.controller.capacityBytes.toNat - s.controller.currentBytes.toNat)
  no_wrap : ∀ bytes, c = .tryAcquire bytes → outcome.answer = .granted →
    outcome.state.controller.currentBytes.toNat
      = s.controller.currentBytes.toNat + bytes.toNat
  kept : outcome.answer = .rejected ∨ (∃ error, outcome.answer = .threw error) →
    outcome.state.leases = s.leases ∧
      outcome.state.controller.currentBytes = s.controller.currentBytes
  not_saturated : outcome.saturated = false
  not_logic_error : outcome.answer ≠ .threw (.exception "invalid stream admission shrink")

/-- What one call keeps. -/
structure Keeps (s : Admission) (c : LeaseCall) (outcome : LeaseOutcome) : Prop where
  sound : outcome.state.Sound
  capacity_eq :
    outcome.state.controller.capacityBytes = s.controller.capacityBytes
  sane : Sane s c outcome

/-- A call that only hands owned bytes from object to object, or gives some back. -/
theorem keeps_of_held {c : LeaseCall} {t : Admission} {saturated : Bool} (h : s.Sound)
    (hc : ∀ bytes, c ≠ .tryAcquire bytes)
    (hcapacity : t.controller.capacityBytes = s.controller.capacityBytes)
    (hpeak : t.controller.peakBytes = s.controller.peakBytes) (hle : t.held ≤ s.held)
    (hcurrent : t.controller.currentBytes.toNat + s.held
      = s.controller.currentBytes.toNat + t.held)
    (hsaturated : saturated = false) : Keeps s c ⟨t, .done, saturated⟩ := by
  have hs := h.current_eq
  have hpeak' := h.current_le_peak
  refine ⟨⟨?_, ?_, ?_⟩, hcapacity, ⟨?_, ?_, ?_, hsaturated, nofun⟩⟩
  · simp only
    omega
  · simp only [hpeak]
    omega
  · simp only [hpeak, hcapacity]
    exact h.peak_le_capacity
  · intro bytes hb
    exact absurd hb (hc bytes)
  · intro bytes hb
    exact absurd hb (hc bytes)
  · rintro (hrejected | ⟨error, hthrew⟩)
    · cases hrejected
    · cases hthrew

theorem keeps_tryAcquire (h : s.Sound) {bytes : UInt64} {outcome : LeaseOutcome}
    (hcall : s.call (.tryAcquire bytes) = some outcome) :
    Keeps s (.tryAcquire bytes) outcome := by
  have hle := h.le_capacity
  have hiff := StreamAdmissionController.tryAcquire_granted_iff bytes hle
  cases hgranted : (s.controller.tryAcquire bytes).2 with
  | false =>
    obtain ⟨hcapacity, hcurrent⟩ := StreamAdmissionController.tryAcquire_refused hgranted
    have hpeak : (s.controller.tryAcquire bytes).1.peakBytes = s.controller.peakBytes := by
      rw [StreamAdmissionController.tryAcquire] at hgranted ⊢
      split_ifs at hgranted ⊢
      rfl
    simp only [call, hgranted, Bool.false_eq_true, if_false] at hcall
    obtain rfl := Option.some.inj hcall
    refine ⟨⟨?_, ?_, ?_⟩, hcapacity, ⟨?_, ?_, ?_, rfl, by simp⟩⟩
    · simp only [hcurrent]
      exact h.current_eq
    · simp only [hcurrent, hpeak]
      exact h.current_le_peak
    · simp only [hpeak, hcapacity]
      exact h.peak_le_capacity
    · rintro b hb
      obtain rfl := LeaseCall.tryAcquire.inj hb
      rw [← hiff, hgranted]
      simp
    · simp
    · exact fun _ ↦ ⟨rfl, hcurrent⟩
  | true =>
    obtain ⟨hcapacity, hcurrent, hfits⟩ :=
      StreamAdmissionController.tryAcquire_granted hle hgranted
    have hpeak := StreamAdmissionController.tryAcquire_peak hgranted
    simp only [call, hgranted, if_true] at hcall
    obtain rfl := Option.some.inj hcall
    have hs := h.current_eq
    have hmax := h.peak_le_capacity
    refine ⟨⟨?_, ?_, ?_⟩, hcapacity, ⟨?_, ?_, ?_, rfl, by simp⟩⟩
    · rw [held_append _ s.controller, ← hs]
      exact hcurrent
    · simp only [hpeak]
      exact Nat.le_max_right _ _
    · simp only [hpeak, hcapacity, hcurrent]
      exact Nat.max_le.mpr ⟨hmax, hfits⟩
    · rintro b hb
      obtain rfl := LeaseCall.tryAcquire.inj hb
      rw [← hiff, hgranted]
      simp
    · rintro b hb -
      obtain rfl := LeaseCall.tryAcquire.inj hb
      exact hcurrent
    · rintro (hrejected | ⟨error, hthrew⟩)
      · cases hrejected
      · cases hthrew

theorem keeps_shrink (h : s.Sound) {i : ℕ} {bytes : UInt64} {outcome : LeaseOutcome}
    (hcall : s.call (.shrink i bytes) = some outcome) : Keeps s (.shrink i bytes) outcome := by
  obtain ⟨l, hl, hcall⟩ := Option.bind_eq_some_iff.mp hcall
  rw [Lease.shrink] at hcall
  by_cases hbad : !l.owner ∨ bytes > l.bytes
  · rw [if_pos hbad] at hcall
    obtain rfl := Option.some.inj hcall
    refine ⟨h, rfl, ⟨nofun, nofun, fun _ ↦ ⟨rfl, rfl⟩, rfl, ?_⟩⟩
    simp
  · rw [if_neg hbad] at hcall
    rw [not_or, Bool.not_eq_true', Bool.not_eq_false, gt_iff_lt, UInt64.lt_iff_toNat_lt,
      Nat.not_lt] at hbad
    obtain ⟨a, ha, hcapacity, hpeak, hcurrent⟩ := h.resize hl hbad.1 hbad.2
    rw [ha] at hcall
    obtain rfl := Option.some.inj hcall
    have hsum := held_set a hl (some { l with bytes := bytes })
    have hl_held : l.held = l.bytes.toNat := if_pos hbad.1
    have hshrunk : heldAt (some { l with bytes := bytes }) = bytes.toNat := if_pos hbad.1
    exact keeps_of_held h nofun hcapacity hpeak (by omega) (by simp only; omega) rfl

theorem keeps_destroy (h : s.Sound) {i : ℕ} {outcome : LeaseOutcome}
    (hcall : s.call (.destroy i) = some outcome) : Keeps s (.destroy i) outcome := by
  obtain ⟨l, hl, hcall⟩ := Option.bind_eq_some_iff.mp hcall
  obtain rfl := Option.some.inj hcall
  obtain ⟨hcapacity, hpeak, hcurrent, hsaturated⟩ := h.reset hl
  have hsum := held_set (l.reset s.controller).1 hl none
  rw [heldAt] at hsum
  exact keeps_of_held h nofun hcapacity hpeak (by omega) (by simp only; omega) hsaturated

theorem keeps_moveConstruct (h : s.Sound) {other : ℕ} {outcome : LeaseOutcome}
    (hcall : s.call (.moveConstruct other) = some outcome) :
    Keeps s (.moveConstruct other) outcome := by
  obtain ⟨source, hsource, hcall⟩ := Option.bind_eq_some_iff.mp hcall
  obtain rfl := Option.some.inj hcall
  have hsum := held_set s.controller hsource (some {})
  have hmoved := held_append s.controller s.controller (s.leases.set other (some {})) (some source)
  have hempty : heldAt (some {}) = 0 := rfl
  have hheld : heldAt (some source) = source.held := rfl
  exact keeps_of_held h nofun rfl rfl (by omega) (by simp only; omega) rfl

theorem keeps_construct (h : s.Sound) {outcome : LeaseOutcome}
    (hcall : s.call .construct = some outcome) : Keeps s .construct outcome := by
  obtain rfl := Option.some.inj hcall
  have hheld : held ⟨s.controller, s.leases ++ [some (Lease.mk false 0)]⟩ = s.held :=
    held_append s.controller s.controller s.leases (some {})
  exact keeps_of_held h nofun rfl rfl (Nat.le_of_eq hheld) (by simp only; omega) rfl

theorem keeps_moveAssign (h : s.Sound) {i j : ℕ} {outcome : LeaseOutcome}
    (hcall : s.call (.moveAssign i j) = some outcome) : Keeps s (.moveAssign i j) outcome := by
  obtain ⟨target, htarget, hcall⟩ := Option.bind_eq_some_iff.mp hcall
  obtain ⟨source, hsource, hcall⟩ := Option.bind_eq_some_iff.mp hcall
  by_cases hij : i = j
  · rw [if_pos hij] at hcall
    obtain rfl := Option.some.inj hcall
    exact keeps_of_held h nofun rfl rfl (Nat.le_refl _) rfl rfl
  · rw [if_neg hij] at hcall
    obtain rfl := Option.some.inj hcall
    obtain ⟨hcapacity, hpeak, hcurrent, hsaturated⟩ := h.reset htarget
    -- The target's bytes go back, the source's change hands.
    have hfirst := held_set s.controller htarget (some source)
    have hmoved : lease ⟨s.controller, s.leases.set i (some source)⟩ j = some source := by
      rw [lease] at hsource ⊢
      rw [List.getElem?_set_ne hij]
      exact hsource
    have hsecond := held_set (target.reset s.controller).1 hmoved (some {})
    have hempty : heldAt (some {}) = 0 := rfl
    have hheld : heldAt (some source) = source.held := rfl
    simp only at hsecond
    exact keeps_of_held h nofun hcapacity hpeak (by omega) (by simp only; omega) hsaturated

theorem keeps_of_call (h : s.Sound) {c : LeaseCall} {outcome : LeaseOutcome}
    (hcall : s.call c = some outcome) : Keeps s c outcome := by
  cases c with
  | tryAcquire bytes => exact keeps_tryAcquire h hcall
  | construct => exact keeps_construct h hcall
  | moveConstruct other => exact keeps_moveConstruct h hcall
  | moveAssign lease other => exact keeps_moveAssign h hcall
  | shrink lease bytes => exact keeps_shrink h hcall
  | destroy lease => exact keeps_destroy h hcall

/-! ## Runs -/

theorem sound_init (capacity : UInt64) : (init capacity).Sound where
  current_eq := rfl
  current_le_peak := Nat.le_refl _
  peak_le_capacity := Nat.zero_le _

theorem sound_of_run {calls : List LeaseCall} {s t : Admission} (h : s.Sound)
    (hrun : run s calls = some t) :
    t.Sound ∧ t.controller.capacityBytes = s.controller.capacityBytes := by
  induction calls generalizing s with
  | nil =>
    obtain rfl := Option.some.inj hrun
    exact ⟨h, rfl⟩
  | cons c calls ih =>
    obtain ⟨outcome, hcall, hrest⟩ := Option.bind_eq_some_iff.mp hrun
    have hkeeps := keeps_of_call h hcall
    obtain ⟨hsound, hcapacity⟩ := ih hkeeps.sound hrest
    exact ⟨hsound, hcapacity.trans hkeeps.capacity_eq⟩

/-- After any calls the count is what the leases own, within the peak and the capacity; every call
that can follow is sane; and once no lease is left, nothing is held. -/
theorem admission_sound (capacity : UInt64) (calls : List LeaseCall) (s : Admission)
    (hrun : run (init capacity) calls = some s) :
    s.Sound ∧ s.controller.capacityBytes = capacity ∧
      (∀ c outcome, s.call c = some outcome → Sane s c outcome) ∧
        ((∀ l ∈ s.leases, l = none) → s.controller.currentBytes = 0) := by
  obtain ⟨hsound, hcapacity⟩ := sound_of_run (sound_init capacity) hrun
  refine ⟨hsound, hcapacity, fun c outcome hcall ↦ (keeps_of_call hsound hcall).sane, ?_⟩
  intro hnone
  have hheld : s.held = 0 := by
    refine List.sum_eq_zero fun n hn ↦ ?_
    obtain ⟨l, hl, rfl⟩ := List.mem_map.mp hn
    rw [hnone l hl]
    rfl
  exact UInt64.toNat_inj.mp (hsound.current_eq.trans hheld)

/-- Acquire twice, assign over the live one, shrink, and destroy both. -/
def leaseTour : List LeaseCall :=
  [.tryAcquire 6, .tryAcquire 3, .tryAcquire 2, .moveAssign 0 1, .moveAssign 0 0, .shrink 0 2,
    .moveConstruct 0, .destroy 0, .destroy 1, .destroy 2]

theorem admission_sound_leaseTour :
    ∃ s, run (init 10) leaseTour = some s ∧ s.controller.peakBytes = 9 ∧ s.Sound ∧
      s.controller.currentBytes = 0 := by
  have hpeak : (run (init 10) leaseTour).map
      (fun s ↦ (s.controller.peakBytes, s.leases)) = some (9, [none, none, none]) := by
    decide
  obtain ⟨s, hrun, hs⟩ := Option.map_eq_some_iff.mp hpeak
  obtain ⟨hpeak, hleases⟩ := Prod.mk.inj hs
  obtain ⟨hsound, -, -, hzero⟩ := admission_sound 10 leaseTour s hrun
  refine ⟨s, hrun, hpeak, hsound, hzero fun l hl ↦ ?_⟩
  rw [hleases] at hl
  simpa using hl

end Admission

end MoSidecar
