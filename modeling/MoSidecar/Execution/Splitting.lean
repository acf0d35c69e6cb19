import MoSidecar.Execution.ResultBatch

/-!
# Splitting a batch into ranges

`consume_batch` publishes the rows of a batch range by range. Here the loop runs to its end, with a
reader that takes every frame, for an encoder that is `Predictable`: it predicts a size for every
range, a row by itself is never predicted to be larger than a range that it is in, and what fits by
its prediction is encoded and is no larger.

Then the loop publishes all rows, one range behind the other, or it stops at the first row that is
too large by itself. That such a row is not hidden in a range that fits is what monotonicity says.
-/

namespace MoSidecar

/-- A payload that is handed to `publish`, with the range it encodes. -/
structure PublishedRange where
  offset : ℕ
  rows : ℕ
  payload : Bytes
  deriving DecidableEq

/-- What `consume_batch` throws for a row that is too large. -/
def rowTooLarge : Thrown := .exception "one MO native result row exceeds negotiated max_batch_bytes"

/-- One round of the loop of `consume_batch`, with the check of `publish`. -/
def nextRange (encoder : ResultEncoder) (maxBatchBytes offset : ℕ) : Except Thrown PublishedRange :=
  match fitRows encoder maxBatchBytes offset (encoder.rows - offset) (encoder.rows - offset) with
  | .error e => .error e
  | .ok rows =>
    match encoder.encode offset rows with
    | .error e => .error e
    | .ok payload =>
      if payload.length > maxBatchBytes then
        .error (.exception "MO native result batch exceeds negotiated max_batch_bytes")
      else .ok ⟨offset, rows, payload⟩

section

variable {encoder : ResultEncoder} {maxBatchBytes offset rounds rows batch : ℕ} {p : PublishedRange}
  {sequence : UInt64}

/-- The frame of a round is made of its range. -/
theorem nextFrame_eq_nextRange : nextFrame encoder maxBatchBytes sequence batch offset
    = (nextRange encoder maxBatchBytes offset).bind fun p ↦
      match serializeNativeBatchFrame sequence p.payload with
      | .error what => .error (.invalidArgument what)
      | .ok bytes => .ok ⟨bytes, ⟨batch, p.offset, p.rows⟩⟩ := by
  rw [nextFrame, nextRange]
  cases fitRows encoder maxBatchBytes offset (encoder.rows - offset) (encoder.rows - offset) with
  | error e => rfl
  | ok rows =>
    simp only
    cases encoder.encode offset rows with
    | error e => rfl
    | ok payload =>
      simp only [sealFrame]
      split_ifs <;> rfl

theorem nextRange_progress (hmore : offset < encoder.rows)
    (h : nextRange encoder maxBatchBytes offset = .ok p) : 0 < p.rows := by
  rw [nextRange] at h
  cases hfit : fitRows encoder maxBatchBytes offset (encoder.rows - offset)
      (encoder.rows - offset) with
  | error e => simp [hfit] at h
  | ok rows =>
    cases hencode : encoder.encode offset rows with
    | error e => simp [hfit, hencode] at h
    | ok payload =>
      simp only [hfit, hencode] at h
      split_ifs at h
      rw [← Except.ok.inj h]
      exact fitRows_pos (by omega) hfit

end

/-- The loop of `consume_batch` from an offset on, where `publish` answers `CONTINUE`: the payloads
that are published, and how the loop ends. -/
def consumeBatch (encoder : ResultEncoder) (maxBatchBytes offset : ℕ) :
    List PublishedRange × Except Thrown Unit :=
  if _hmore : offset < encoder.rows then
    match _hround : nextRange encoder maxBatchBytes offset with
    | .error e => ([], .error e)
    | .ok p =>
      let rest := consumeBatch encoder maxBatchBytes (offset + p.rows)
      (p :: rest.1, rest.2)
  else ([], .ok ())
termination_by encoder.rows - offset
decreasing_by
  have hpos := nextRange_progress _hmore _hround
  omega

/-! ## The ranges -/

/-- Ranges that are not empty, one behind the other from `start` to `stop`. -/
def Covers : ℕ → List PublishedRange → ℕ → Prop
  | start, [], stop => start = stop
  | start, p :: ps, stop => p.offset = start ∧ 0 < p.rows ∧ Covers (start + p.rows) ps stop

/-- Every row between the ends is in one of the ranges. -/
theorem Covers.exists_mem {ps : List PublishedRange} {start stop row : ℕ} (h : Covers start ps stop)
    (hstart : start ≤ row) (hstop : row < stop) :
    ∃ p ∈ ps, p.offset ≤ row ∧ row < p.offset + p.rows := by
  induction ps generalizing start with
  | nil =>
    obtain rfl : start = stop := h
    omega
  | cons p ps ih =>
    obtain ⟨rfl, -, htail⟩ := h
    rcases Nat.lt_or_ge row (p.offset + p.rows) with hin | hout
    · exact ⟨p, List.mem_cons_self, hstart, hin⟩
    · obtain ⟨q, hq, hrow⟩ := ih htail hout
      exact ⟨q, List.mem_cons_of_mem p hq, hrow⟩

/-- There are at most as many ranges as rows. -/
theorem Covers.length_le {ps : List PublishedRange} {start stop : ℕ} (h : Covers start ps stop) :
    start + ps.length ≤ stop := by
  induction ps generalizing start with
  | nil =>
    obtain rfl : start = stop := h
    exact Nat.le_refl _
  | cons p ps ih =>
    obtain ⟨-, hpos, htail⟩ := h
    have hle := ih htail
    rw [List.length_cons]
    omega

/-- What `consume_batch` relies on an encoder for. -/
structure ResultEncoder.Predictable (encoder : ResultEncoder) (maxBatchBytes : ℕ) : Prop where
  size_ok : ∀ offset rows, 0 < rows → offset + rows ≤ encoder.rows →
    ∃ size, encoder.encodedSize offset rows = .ok size
  row_le : ∀ offset rows row size rowSize, offset ≤ row → row < offset + rows →
    encoder.encodedSize offset rows = .ok size → encoder.encodedSize row 1 = .ok rowSize →
    rowSize ≤ size
  encode_ok : ∀ offset rows size, 0 < rows → offset + rows ≤ encoder.rows →
    encoder.encodedSize offset rows = .ok size → size ≤ maxBatchBytes →
    ∃ payload, encoder.encode offset rows = .ok payload ∧ payload.length ≤ size

/-- A range that is published: it fits, and it is what the encoder makes of its rows. -/
structure PublishedRange.Fits (encoder : ResultEncoder) (maxBatchBytes : ℕ) (p : PublishedRange) :
    Prop where
  rows_pos : 0 < p.rows
  range_le : p.offset + p.rows ≤ encoder.rows
  size_le : ∃ size ≤ maxBatchBytes, encoder.encodedSize p.offset p.rows = .ok size
  encode_eq : encoder.encode p.offset p.rows = .ok p.payload
  length_le : p.payload.length ≤ maxBatchBytes

variable {encoder : ResultEncoder} {maxBatchBytes offset rounds rows : ℕ}

/-- Halving ends with rows that fit, or at one row that does not. -/
theorem fitRows_cases (h : encoder.Predictable maxBatchBytes) (hrows : 0 < rows)
    (hrounds : rows ≤ rounds) (hrange : offset + rows ≤ encoder.rows) :
    (∃ rows', fitRows encoder maxBatchBytes offset rounds rows = .ok rows') ∨
      fitRows encoder maxBatchBytes offset rounds rows = .error rowTooLarge ∧
        ∃ size, encoder.encodedSize offset 1 = .ok size ∧ size > maxBatchBytes := by
  induction rounds generalizing rows with
  | zero => omega
  | succ rounds ih =>
    obtain ⟨size, hsize⟩ := h.size_ok offset rows hrows hrange
    rw [fitRows, hsize]
    simp only
    split_ifs with hbig hone
    · subst hone
      exact .inr ⟨rfl, size, hsize, hbig⟩
    · exact ih (by omega) (by omega) (by omega)
    · exact .inl ⟨rows, rfl⟩

/-- A round publishes a range that fits, or finds that the row it is at does not. -/
theorem nextRange_cases (h : encoder.Predictable maxBatchBytes) (hmore : offset < encoder.rows) :
    (∃ p, nextRange encoder maxBatchBytes offset = .ok p ∧ p.offset = offset ∧
        p.Fits encoder maxBatchBytes) ∨
      nextRange encoder maxBatchBytes offset = .error rowTooLarge ∧
        ∃ size, encoder.encodedSize offset 1 = .ok size ∧ size > maxBatchBytes := by
  have hleft : 0 < encoder.rows - offset := by omega
  have hrange : offset + (encoder.rows - offset) ≤ encoder.rows := by omega
  rw [nextRange]
  rcases fitRows_cases h hleft (Nat.le_refl _) hrange with ⟨rows, hfit⟩ | ⟨hfit, hsize⟩
  · have hpos := fitRows_pos hleft hfit
    have hle := fitRows_le hfit
    obtain ⟨size, hmax, hsize⟩ := fitRows_fits hleft (Nat.le_refl _) hfit
    obtain ⟨payload, hencode, hlength⟩ := h.encode_ok offset rows size hpos (by omega) hsize hmax
    refine .inl ⟨⟨offset, rows, payload⟩, ?_, rfl, hpos, by simp only; omega, ⟨size, hmax, hsize⟩,
      hencode, Nat.le_trans hlength hmax⟩
    simp only [hfit, hencode]
    exact if_neg (by omega)
  · rw [hfit]
    exact .inr ⟨rfl, hsize⟩

/-- The loop publishes ranges that fit, one behind the other, up to where it ends: at the last row,
or at a row that does not fit. -/
theorem consumeBatch_spec (h : encoder.Predictable maxBatchBytes)
    (hoffset : offset ≤ encoder.rows) :
    ∃ stop, Covers offset (consumeBatch encoder maxBatchBytes offset).1 stop ∧
      (∀ p ∈ (consumeBatch encoder maxBatchBytes offset).1, p.Fits encoder maxBatchBytes) ∧
      ((consumeBatch encoder maxBatchBytes offset).2 = .ok () ∧ stop = encoder.rows ∨
        (consumeBatch encoder maxBatchBytes offset).2 = .error rowTooLarge ∧ stop < encoder.rows ∧
          ∃ size, encoder.encodedSize stop 1 = .ok size ∧ size > maxBatchBytes) := by
  induction hleft : encoder.rows - offset using Nat.strongRecOn generalizing offset with
  | ind left ih =>
    rw [consumeBatch]
    split_ifs with hmore
    · rcases nextRange_cases h hmore with ⟨p, hround, hp, hfits⟩ | ⟨hround, hsize⟩
      · have hpos := hfits.rows_pos
        have hle := hfits.range_le
        obtain ⟨stop, hcovers, hall, hend⟩ :=
          ih (encoder.rows - (offset + p.rows)) (by omega) (by omega) rfl
        split
        · next e herror => cases hround.symm.trans herror
        · next q hok =>
          obtain rfl := Except.ok.inj (hround.symm.trans hok)
          exact ⟨stop, ⟨hp, hpos, hcovers⟩, List.forall_mem_cons.mpr ⟨hfits, hall⟩, hend⟩
      · split
        · next e herror =>
          obtain rfl := Except.error.inj (hround.symm.trans herror)
          exact ⟨offset, rfl, List.forall_mem_nil _, .inr ⟨rfl, hmore, hsize⟩⟩
        · next q hok => cases hround.symm.trans hok
    · exact ⟨offset, rfl, List.forall_mem_nil _, .inl ⟨rfl, by omega⟩⟩

/-- A batch that is consumed to its end has no row that is too large by itself. -/
theorem rows_fit_of_consumed (h : encoder.Predictable maxBatchBytes)
    (hend : (consumeBatch encoder maxBatchBytes 0).2 = .ok ()) {row size : ℕ}
    (hrow : row < encoder.rows) (hsize : encoder.encodedSize row 1 = .ok size) :
    size ≤ maxBatchBytes := by
  obtain ⟨stop, hcovers, hall, hcases⟩ := consumeBatch_spec h (Nat.zero_le encoder.rows)
  rcases hcases with ⟨-, rfl⟩ | ⟨herror, -, -⟩
  · obtain ⟨p, hp, hle, hlt⟩ := hcovers.exists_mem (Nat.zero_le row) hrow
    obtain ⟨total, htotal, hpredicted⟩ := (hall p hp).size_le
    exact Nat.le_trans (h.row_le p.offset p.rows row total size hle hlt hpredicted hsize) htotal
  · rw [hend] at herror
    cases herror

end MoSidecar
