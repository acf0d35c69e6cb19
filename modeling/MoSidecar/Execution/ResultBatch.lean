import MoSidecar.Protocol.Status
import MoSidecar.Protocol.Wire

/-!
# Frames of a result batch

`consume_batch` cuts a result batch into frames: from the offset it has reached it tries all rows
that are left, and halves their number until the encoding fits `max_batch_bytes`. The frame then
gets the next sequence number. All of this is local to the worker; only the hand-over of the frame
to the reader is not, and is left to the execution.

The encoder itself is a parameter: a number of rows, and for a range of rows the size of its
encoding and the encoding, each of which may throw.
-/

namespace MoSidecar

/-- `native_result_batch_encoder`, for one batch. -/
structure ResultEncoder where
  rows : ℕ
  encodedSize : ℕ → ℕ → Except Thrown ℕ
  encode : ℕ → ℕ → Except Thrown Bytes

/-- A range of rows of a batch. -/
structure RowRange where
  batch : ℕ
  offset : ℕ
  rows : ℕ
  deriving DecidableEq

/-- A serialized frame, with the range it encodes. The range is not part of what is sent. -/
structure ResultFrame where
  bytes : Bytes
  range : RowRange
  deriving DecidableEq

/-- The halving loop of `consume_batch`; as many rounds as there are rows are enough. -/
def fitRows (encoder : ResultEncoder) (maxBatchBytes offset : ℕ) : ℕ → ℕ → Except Thrown ℕ
  | 0, rows => .ok rows
  | rounds + 1, rows =>
    match encoder.encodedSize offset rows with
    | .error e => .error e
    | .ok size =>
      if size > maxBatchBytes then
        if rows = 1 then
          .error (.exception "one MO native result row exceeds negotiated max_batch_bytes")
        else fitRows encoder maxBatchBytes offset rounds (rows / 2)
      else .ok rows

/-- `publish`, up to where it takes the mutex. -/
def sealFrame (sequence : UInt64) (maxBatchBytes : ℕ) (range : RowRange) (payload : Bytes) :
    Except Thrown ResultFrame :=
  if payload.length > maxBatchBytes then
    .error (.exception "MO native result batch exceeds negotiated max_batch_bytes")
  else
    match serializeNativeBatchFrame sequence payload with
    | .error what => .error (.invalidArgument what)
    | .ok bytes => .ok ⟨bytes, range⟩

/-- One round of the loop of `consume_batch`, from the offset it has reached to the frame it is
about to hand over. -/
def nextFrame (encoder : ResultEncoder) (maxBatchBytes : ℕ) (sequence : UInt64)
    (batch offset : ℕ) : Except Thrown ResultFrame :=
  match fitRows encoder maxBatchBytes offset (encoder.rows - offset) (encoder.rows - offset) with
  | .error e => .error e
  | .ok rows =>
    match encoder.encode offset rows with
    | .error e => .error e
    | .ok payload => sealFrame sequence maxBatchBytes ⟨batch, offset, rows⟩ payload

/-! ## What a frame holds -/

variable {encoder : ResultEncoder} {maxBatchBytes batch offset rounds rows rows' : ℕ}
  {sequence : UInt64} {frame : ResultFrame}

theorem fitRows_le (h : fitRows encoder maxBatchBytes offset rounds rows = .ok rows') :
    rows' ≤ rows := by
  induction rounds generalizing rows with
  | zero => exact Nat.le_of_eq (Except.ok.inj h).symm
  | succ rounds ih =>
    rw [fitRows] at h
    cases hsize : encoder.encodedSize offset rows with
    | error e => simp [hsize] at h
    | ok size =>
      simp only [hsize] at h
      split_ifs at h
      · exact Nat.le_trans (ih h) (Nat.div_le_self _ _)
      · exact Nat.le_of_eq (Except.ok.inj h).symm

/-- Halving stops before it reaches zero. -/
theorem fitRows_pos (hrows : 0 < rows)
    (h : fitRows encoder maxBatchBytes offset rounds rows = .ok rows') : 0 < rows' := by
  induction rounds generalizing rows with
  | zero => exact (Except.ok.inj h) ▸ hrows
  | succ rounds ih =>
    rw [fitRows] at h
    cases hsize : encoder.encodedSize offset rows with
    | error e => simp [hsize] at h
    | ok size =>
      simp only [hsize] at h
      split_ifs at h
      · exact ih (by omega) h
      · exact (Except.ok.inj h) ▸ hrows

/-- The rounds never run out: where they end, the rows fit. -/
theorem fitRows_fits (hrows : 0 < rows) (hrounds : rows ≤ rounds)
    (h : fitRows encoder maxBatchBytes offset rounds rows = .ok rows') :
    ∃ size ≤ maxBatchBytes, encoder.encodedSize offset rows' = .ok size := by
  induction rounds generalizing rows with
  | zero => omega
  | succ rounds ih =>
    rw [fitRows] at h
    cases hsize : encoder.encodedSize offset rows with
    | error e => simp [hsize] at h
    | ok size =>
      simp only [hsize] at h
      split_ifs at h with hbig hone
      · exact ih (by omega) (by omega) h
      · exact ⟨size, by omega, Except.ok.inj h ▸ hsize⟩

/-- A frame that comes out of a round: the next rows of the batch, under the given sequence. -/
structure FrameOf (encoder : ResultEncoder) (sequence : UInt64) (frame : ResultFrame) : Prop where
  rows_pos : 0 < frame.range.rows
  range_le : frame.range.offset + frame.range.rows ≤ encoder.rows
  sequence_ne_zero : sequence ≠ 0
  encoded : ∃ payload, encoder.encode frame.range.offset frame.range.rows = .ok payload ∧
    serializeNativeBatchFrame sequence payload = .ok frame.bytes

theorem nextFrame_spec (hoffset : offset < encoder.rows)
    (h : nextFrame encoder maxBatchBytes sequence batch offset = .ok frame) :
    frame.range.batch = batch ∧ frame.range.offset = offset ∧ FrameOf encoder sequence frame := by
  rw [nextFrame] at h
  cases hfit : fitRows encoder maxBatchBytes offset (encoder.rows - offset)
      (encoder.rows - offset) with
  | error e => simp [hfit] at h
  | ok rows =>
    cases hencode : encoder.encode offset rows with
    | error e => simp [hfit, hencode] at h
    | ok payload =>
      simp only [hfit, hencode, sealFrame] at h
      split_ifs at h
      cases hserialize : serializeNativeBatchFrame sequence payload with
      | error what => simp [hserialize] at h
      | ok bytes =>
        simp only [hserialize] at h
        obtain rfl := Except.ok.inj h
        have hle := fitRows_le hfit
        have hpos := fitRows_pos (by omega) hfit
        refine ⟨rfl, rfl, hpos, by simp only; omega, ?_, payload, hencode, hserialize⟩
        rintro rfl
        simp [serializeNativeBatchFrame] at hserialize

end MoSidecar
