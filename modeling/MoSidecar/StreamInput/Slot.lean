import MoSidecar.Protocol.Status
import MoSidecar.Protocol.Wire

/-!
# The one-frame slot of a stream input

`stream_input` hands batches from the handler that uploads them to the scan that reads them through
a single slot. Every function of the class is a sequence of critical sections of its mutex; the
sections are the functions of this file, each taking the state before to the state after.

`publish` and `finish_upload` wait in loops that give the mutex up. Such a loop is cut where the
mutex is taken again: `publish` and `finishUpload` run from the call up to the first wait,
`publishSlot`, `publishRelease` and `finishWait` from a wake-up to the next wait or to the return.
A wait without a predicate may end at any time, so each of them tests the loop condition itself.
-/

namespace MoSidecar

/-- `native_batch_view`, as far as the slot and the scan's bookkeeping read it. The constructor
throws on a batch without rows, and a frame with sequence `0` does not parse. -/
structure NativeBatchView where
  sequence : UInt64
  rows : UInt64
  payloadBytes : UInt64
  sequence_ne_zero : sequence ≠ 0
  rows_pos : 0 < rows.toNat
  rows_lt : rows.toNat < 2 ^ 32
  deriving DecidableEq

/-- `upload_input_ack`. -/
structure UploadInputAck where
  acknowledgedBatches : UInt64 := 0
  rows : UInt64 := 0
  bytes : UInt64 := 0
  complete : Bool := false
  notNeeded : Bool := false
  ready : Bool := false
  deriving DecidableEq

/-- The members of `stream_input` that its mutex guards. -/
structure StreamInput where
  batch : Option NativeBatchView := none
  error : String := ""
  acknowledgedBatches : UInt64 := 0
  acknowledgedRows : UInt64 := 0
  acknowledgedBytes : UInt64 := 0
  attached : Bool := false
  detached : Bool := false
  producerEof : Bool := false
  consumerEof : Bool := false
  notNeeded : Bool := false
  cancelled : Bool := false
  deriving DecidableEq

/-- Where `publish` stands when it gives the mutex up. -/
inductive PublishOutcome where
  | returned (result : Except ArrowError UploadInputAck)
  /-- In the first loop: the slot is still taken. -/
  | awaitingSlot
  /-- In the second loop: the own frame is in the slot. -/
  | awaitingRelease

namespace StreamInput

variable (s : StreamInput)

/-- The text of an input that was cancelled, for whoever meets it. -/
def cancelText : String := if s.error.isEmpty then "StreamRead input was cancelled" else s.error

/-- `terminal_status_locked`. -/
def terminalStatusLocked : ArrowError := .cancelled s.cancelText

/-- The condition on which both loops of `publish` wait. -/
def occupied : Bool := s.batch.isSome && !s.cancelled && !s.notNeeded

/-- The ack `publish` and `finish_upload` build from the counters. -/
def ack (complete notNeeded : Bool) : UploadInputAck where
  acknowledgedBatches := s.acknowledgedBatches
  rows := s.acknowledgedRows
  bytes := s.acknowledgedBytes
  complete := complete
  notNeeded := notNeeded

/-! ## The uploading handler -/

/-- `attach`. -/
def attach : Except ArrowError StreamInput :=
  if s.attached then .error (.invalid "StreamRead input was already attached")
  else if s.cancelled then .error s.terminalStatusLocked
  else .ok { s with attached := true, detached := false }

/-- `publish`, from the test of the first loop up to the next wait or the return. -/
def publishSlot (decoded : NativeBatchView) : StreamInput × PublishOutcome :=
  if s.occupied then (s, .awaitingSlot)
  else if s.cancelled then (s, .returned (.error s.terminalStatusLocked))
  else if s.notNeeded then (s, .returned (.ok (s.ack true true)))
  else ({ s with batch := some decoded }, .awaitingRelease)

/-- `publish`, from the call (with the frame already decoded) up to the first wait or the return. -/
def publish (decoded : NativeBatchView) : StreamInput × PublishOutcome :=
  if !s.attached || s.detached || s.producerEof then
    (s, .returned (.error (.invalid "StreamRead input is not writable")))
  else if decoded.sequence ≠ s.acknowledgedBatches + 1 then
    (s, .returned (.error (.invalid "MO native batch sequence is not contiguous")))
  else s.publishSlot decoded

/-- `publish`, from a wake-up in the second loop. -/
def publishRelease : PublishOutcome :=
  if s.occupied then .awaitingRelease
  else if s.cancelled then .returned (.error s.terminalStatusLocked)
  else .returned (.ok (s.ack s.notNeeded s.notNeeded))

/-- `finish_upload`, from a wake-up; `none` while it has to wait again. -/
def finishWait : Option (Except ArrowError UploadInputAck) :=
  if !s.consumerEof && !s.cancelled && !s.notNeeded then none
  else if s.cancelled then some (.error s.terminalStatusLocked)
  else some (.ok (s.ack true s.notNeeded))

/-- The first effect of `finish_upload`, before it looks at its loop condition. -/
def endOfUpload : StreamInput := { s with producerEof := true }

/-- What a wait of `publish` or `finish_upload` returns when `stopped()` turns out true. -/
def stoppedStatus : ArrowError := .cancelled "StreamRead upload was cancelled"

/-- `detach`. -/
def detach : StreamInput := { s with detached := true }

/-! ## The scan -/

/-- The predicate `next_batch` waits for. -/
def ready : Bool := s.batch.isSome || s.producerEof || s.cancelled || s.notNeeded

/-- `next_batch`; `none` while its predicate is false. It throws, or returns a batch or a null
pointer. -/
def nextBatch : Option (StreamInput × Except String (Option NativeBatchView)) :=
  if s.ready then
    if s.cancelled then some (s, .error s.cancelText)
    else if s.notNeeded then some (s, .ok none)
    else match s.batch with
      | none => some ({ s with consumerEof := true }, .ok none)
      | some b => some (s, .ok (some b))
  else none

/-- The batch that `mark_consumed` releases, if the sequence is the slot's. -/
def released (sequence : UInt64) : Option NativeBatchView :=
  s.batch.filter (·.sequence == sequence)

/-- `mark_consumed`. -/
def markConsumed (sequence : UInt64) : StreamInput :=
  match s.released sequence with
  | none => s
  | some b =>
    { s with
      acknowledgedBatches := s.acknowledgedBatches + 1
      acknowledgedRows := s.acknowledgedRows + b.rows
      acknowledgedBytes := s.acknowledgedBytes + b.payloadBytes
      batch := none }

/-! ## Ending the stream from outside -/

/-- `mark_not_needed`. -/
def markNotNeeded : StreamInput :=
  if !s.cancelled && !s.consumerEof then { s with notNeeded := true, batch := none } else s

/-- `cancel`. -/
def cancel (error : String) : StreamInput :=
  if !s.cancelled && !s.notNeeded then
    { s with cancelled := true, error := error, batch := none }
  else s

/-! ## What a section does

Each section either leaves the state alone or makes one change under known flags. -/

variable {s} {s' : StreamInput} {b : NativeBatchView}

theorem attach_eq_ok :
    s.attach = .ok s' ↔ s.attached = false ∧ s.cancelled = false ∧
      s' = { s with attached := true, detached := false } := by
  rw [attach]
  cases s.attached <;> cases s.cancelled <;> simp [eq_comm]

theorem occupied_eq_false (hbatch : s.batch = none) : s.occupied = false := by
  rw [occupied, hbatch]
  rfl

/-- With an empty slot `publish` never waits for it. -/
theorem publishSlot_of_batch_none (hbatch : s.batch = none) (b : NativeBatchView) :
    s.publishSlot b =
      if s.cancelled then (s, .returned (.error s.terminalStatusLocked))
      else if s.notNeeded then (s, .returned (.ok (s.ack true true)))
      else ({ s with batch := some b }, .awaitingRelease) := by
  rw [publishSlot, occupied_eq_false hbatch]
  rfl

theorem nextBatch_cases {r : Except String (Option NativeBatchView)}
    (h : s.nextBatch = some (s', r)) :
    s' = s ∨ (s' = { s with consumerEof := true } ∧ r = .ok none ∧ s.producerEof = true ∧
      s.batch = none ∧ s.cancelled = false ∧ s.notNeeded = false) := by
  rw [nextBatch] at h
  split_ifs at h with hready hcancelled hneeded
  · exact .inl (by simpa using congrArg (·.map Prod.fst) h.symm)
  · exact .inl (by simpa using congrArg (·.map Prod.fst) h.symm)
  · rw [Bool.not_eq_true] at hcancelled hneeded
    split at h
    · rename_i hbatch
      obtain ⟨hs, hr⟩ := Prod.mk.inj (Option.some.inj h)
      simp only [ready, hbatch, hcancelled, hneeded, Option.isSome_none, Bool.false_or,
        Bool.or_false] at hready
      exact .inr ⟨hs.symm, hr.symm, hready, hbatch, hcancelled, hneeded⟩
    · exact .inl (by simpa using congrArg (·.map Prod.fst) h.symm)

/-- The batch a call of `next_batch` returns is the one in the slot. -/
theorem nextBatch_batch (h : s.nextBatch = some (s', .ok (some b))) :
    s' = s ∧ s.batch = some b ∧ s.cancelled = false ∧ s.notNeeded = false := by
  rw [nextBatch] at h
  split_ifs at h with hready hcancelled hneeded
  · simp at h
  · simp at h
  · cases hbatch : s.batch with
    | none => simp [hbatch] at h
    | some b' =>
      obtain ⟨rfl, rfl⟩ : s = s' ∧ b' = b := by simpa [hbatch] using h
      exact ⟨rfl, rfl, by simpa using hcancelled, by simpa using hneeded⟩

theorem released_eq_some {sequence : UInt64} :
    s.released sequence = some b ↔ s.batch = some b ∧ b.sequence = sequence := by
  rw [released, Option.filter_eq_some_iff]
  simp

theorem released_of_batch_none (hbatch : s.batch = none) (sequence : UInt64) :
    s.released sequence = none := by
  rw [released, hbatch]
  rfl

theorem markConsumed_of_released_none {sequence : UInt64} (h : s.released sequence = none) :
    s.markConsumed sequence = s := by
  rw [markConsumed, h]

@[simp] theorem markConsumed_cancelled (s : StreamInput) (sequence : UInt64) :
    (s.markConsumed sequence).cancelled = s.cancelled := by
  rw [markConsumed]
  cases s.released sequence <;> rfl

@[simp] theorem markConsumed_notNeeded (s : StreamInput) (sequence : UInt64) :
    (s.markConsumed sequence).notNeeded = s.notNeeded := by
  rw [markConsumed]
  cases s.released sequence <;> rfl

@[simp] theorem markConsumed_consumerEof (s : StreamInput) (sequence : UInt64) :
    (s.markConsumed sequence).consumerEof = s.consumerEof := by
  rw [markConsumed]
  cases s.released sequence <;> rfl

@[simp] theorem publishSlot_consumerEof (s : StreamInput) (b : NativeBatchView) :
    (s.publishSlot b).1.consumerEof = s.consumerEof := by
  rw [publishSlot]
  split_ifs <;> rfl

@[simp] theorem publish_consumerEof (s : StreamInput) (b : NativeBatchView) :
    (s.publish b).1.consumerEof = s.consumerEof := by
  rw [publish]
  split_ifs <;> simp

@[simp] theorem markNotNeeded_consumerEof (s : StreamInput) :
    s.markNotNeeded.consumerEof = s.consumerEof := by
  rw [markNotNeeded]
  split_ifs <;> rfl

@[simp] theorem cancel_consumerEof (s : StreamInput) (error : String) :
    (s.cancel error).consumerEof = s.consumerEof := by
  rw [cancel]
  split_ifs <;> rfl

theorem markConsumed_batch_eq_none {sequence : UInt64} (h : s.released sequence = some b) :
    (s.markConsumed sequence).batch = none := by
  rw [markConsumed, h]

theorem markNotNeeded_cases :
    s.markNotNeeded = s ∨
      (s.markNotNeeded = { s with notNeeded := true, batch := none } ∧ s.cancelled = false ∧
        s.consumerEof = false) := by
  rw [markNotNeeded]
  split_ifs with h
  · rw [Bool.and_eq_true, Bool.not_eq_true', Bool.not_eq_true'] at h
    exact .inr ⟨rfl, h⟩
  · exact .inl rfl

theorem cancel_cases (error : String) :
    s.cancel error = s ∨
      (s.cancel error = { s with cancelled := true, error := error, batch := none } ∧
        s.cancelled = false ∧ s.notNeeded = false) := by
  rw [cancel]
  split_ifs with h
  · rw [Bool.and_eq_true, Bool.not_eq_true', Bool.not_eq_true'] at h
    exact .inr ⟨rfl, h⟩
  · exact .inl rfl

/-- After a call of `cancel` the stream has ended one way or the other. -/
theorem cancelled_or_notNeeded_cancel (error : String) :
    (s.cancel error).cancelled = true ∨ (s.cancel error).notNeeded = true := by
  rcases cancel_cases (s := s) error with h | ⟨h, -, -⟩
  · rw [h]
    rw [cancel] at h
    split_ifs at h with hopen
    · exact .inl (by rw [← h])
    · revert hopen
      cases s.cancelled <;> cases s.notNeeded <;> simp
  · exact .inl (by rw [h])

end StreamInput

end MoSidecar
