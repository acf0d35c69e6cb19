import MoSidecar.StreamInput.Upload

/-!
# The handshake between handler and slot

What relates the slot, its counters, the program point of the handler and the history of an upload,
in every state an upload can reach. It comes in two parts.

* `Accounting` is about the slot alone: every accepted frame was released, is in the slot, or was
  discarded, in this order, and the counters describe the released ones.
* `AtPoint` says what is settled at each program point of `DoPut`. Between two frames everything
  that was uploaded has been released; while `publish` waits, only its own frame can be missing.

The first part bears the second through `mark_consumed`: a release can happen only while a frame is
in the slot, which the accounting excludes at every point but the wait of `publish` and the ends.
-/

namespace MoSidecar.Upload

variable {cfg : UploadConfig} {script : List FlightStreamChunk} {u u' : Upload}
  {s s' : StreamInput} {accepted released discarded bs cs : List NativeBatchView}
  {b : NativeBatchView}

/-! ## Sums over frames -/

/-- The rows of some frames. -/
def rowSum (bs : List NativeBatchView) : ℕ := (bs.map fun b ↦ b.rows.toNat).sum

/-- The payload bytes of some frames. -/
def byteSum (bs : List NativeBatchView) : ℕ := (bs.map fun b ↦ b.payloadBytes.toNat).sum

theorem rowSum_concat (bs : List NativeBatchView) (b : NativeBatchView) :
    rowSum (bs ++ [b]) = rowSum bs + b.rows.toNat := by
  simp [rowSum]

theorem byteSum_concat (bs : List NativeBatchView) (b : NativeBatchView) :
    byteSum (bs ++ [b]) = byteSum bs + b.payloadBytes.toNat := by
  simp [byteSum]

/-- The ack that counts exactly the given frames. -/
def ackOf (bs : List NativeBatchView) (complete notNeeded : Bool) : UploadInputAck where
  acknowledgedBatches := .ofNat bs.length
  rows := .ofNat (rowSum bs)
  bytes := .ofNat (byteSum bs)
  complete := complete
  notNeeded := notNeeded

/-- The acks of the first `m` frames, each counting the frames up to its own. -/
def frameAcks (bs : List NativeBatchView) (m : ℕ) : List UploadInputAck :=
  (List.range m).map fun k ↦ ackOf (bs.take (k + 1)) false false

theorem frameAcks_append {m : ℕ} (hm : m ≤ bs.length) (cs : List NativeBatchView) :
    frameAcks (bs ++ cs) m = frameAcks bs m := by
  refine List.map_congr_left fun k hk ↦ ?_
  rw [List.mem_range] at hk
  rw [List.take_append_of_le_length (by omega)]

theorem frameAcks_succ (bs : List NativeBatchView) (m : ℕ) :
    frameAcks bs (m + 1) = frameAcks bs m ++ [ackOf (bs.take (m + 1)) false false] := by
  rw [frameAcks, frameAcks, List.range_succ, List.map_append, List.map_singleton]

/-! ## The accounting of the slot -/

/-- The slot, its counters and flags, and what became of the accepted frames. -/
structure Accounting (s : StreamInput) (accepted released discarded : List NativeBatchView) :
    Prop where
  batches : s.acknowledgedBatches.toNat = released.length
  rows : s.acknowledgedRows = .ofNat (rowSum released)
  bytes : s.acknowledgedBytes = .ofNat (byteSum released)
  accepted_eq : accepted = released ++ (s.batch.toList ++ discarded)
  sequences : ∀ i b, accepted[i]? = some b → b.sequence.toNat = i + 1
  closed : s.cancelled = true ∨ s.notNeeded = true → s.batch = none
  kept : s.cancelled = false → s.notNeeded = false → discarded = []
  not_both : ¬(s.cancelled = true ∧ s.notNeeded = true)
  needed : s.consumerEof = true → s.notNeeded = false
  ended : s.consumerEof = true → s.producerEof = true ∧ s.batch = none

namespace Accounting

theorem init : Accounting {} [] [] [] where
  batches := rfl
  rows := rfl
  bytes := rfl
  accepted_eq := rfl
  sequences := by simp
  closed := fun _ ↦ rfl
  kept := fun _ _ ↦ rfl
  not_both := by simp
  needed := by simp
  ended := by simp

theorem ack_eq (h : Accounting s accepted released discarded) (complete notNeeded : Bool) :
    s.ack complete notNeeded = ackOf released complete notNeeded := by
  have hbatches : s.acknowledgedBatches = .ofNat released.length := by
    rw [← h.batches, UInt64.ofNat_toNat]
  rw [StreamInput.ack, ackOf, hbatches, h.rows, h.bytes]

/-- With nothing in the slot and the stream open, every accepted frame was released. -/
theorem accepted_eq_released (h : Accounting s accepted released discarded)
    (hbatch : s.batch = none) (hcancelled : s.cancelled = false) (hneeded : s.notNeeded = false) :
    accepted = released := by
  rw [h.accepted_eq, hbatch, h.kept hcancelled hneeded]
  simp

theorem batch_eq_none (h : Accounting s accepted released discarded)
    (heq : accepted = released) : s.batch = none := by
  have hlen := congrArg List.length (heq.symm.trans h.accepted_eq)
  simp only [List.length_append] at hlen
  have hzero : s.batch.toList.length = 0 := by omega
  cases hbatch : s.batch with
  | none => rfl
  | some b => simp [hbatch] at hzero

/-- The next sequence does not wrap: `0` is no sequence of a frame. -/
theorem sequence_eq (h : Accounting s accepted released discarded)
    (hseq : b.sequence = s.acknowledgedBatches + 1) : b.sequence.toNat = released.length + 1 := by
  have hne : b.sequence.toNat ≠ 0 := fun h0 ↦ b.sequence_ne_zero (UInt64.toNat_inj.mp h0)
  have hlt := s.acknowledgedBatches.toNat_lt
  rw [hseq, UInt64.toNat_add, h.batches, UInt64.toNat_one] at hne ⊢
  rw [h.batches] at hlt
  omega

theorem place (h : Accounting s accepted released discarded) (heq : accepted = released)
    (hcancelled : s.cancelled = false) (hneeded : s.notNeeded = false)
    (heof : s.producerEof = false) (hseq : b.sequence = s.acknowledgedBatches + 1) :
    Accounting { s with batch := some b } (accepted ++ [b]) released discarded where
  batches := h.batches
  rows := h.rows
  bytes := h.bytes
  accepted_eq := by rw [heq, h.kept hcancelled hneeded]; rfl
  sequences i b' hb' := by
    rcases Nat.lt_or_ge i accepted.length with hi | hi
    · rw [List.getElem?_append_left hi] at hb'
      exact h.sequences i b' hb'
    · rw [List.getElem?_append_right hi, List.getElem?_singleton] at hb'
      split_ifs at hb' with hzero
      obtain rfl : b = b' := Option.some.inj hb'
      rw [h.sequence_eq hseq, ← heq]
      omega
  closed := by simp [hcancelled, hneeded]
  kept := h.kept
  not_both := h.not_both
  needed := h.needed
  ended hc := by
    rw [(h.ended hc).1] at heof
    cases heof

theorem nextBatch (h : Accounting s accepted released discarded)
    {r : Except String (Option NativeBatchView)} (hs : s.nextBatch = some (s', r)) :
    Accounting s' accepted released discarded := by
  rcases StreamInput.nextBatch_cases hs with rfl | ⟨rfl, -, heof, hbatch, -, hneeded⟩
  · exact h
  · exact { h with needed := fun _ ↦ hneeded, ended := fun _ ↦ ⟨heof, hbatch⟩ }

theorem markConsumed (h : Accounting s accepted released discarded) (sequence : UInt64) :
    Accounting (s.markConsumed sequence) accepted
      (released ++ (s.released sequence).toList) discarded := by
  cases hr : s.released sequence with
  | none =>
    rw [StreamInput.markConsumed_of_released_none hr]
    simpa using h
  | some b =>
    have hbatch : s.batch = some b := (StreamInput.released_eq_some.mp hr).1
    have haccepted : accepted = released ++ [b] ++ discarded := by
      rw [h.accepted_eq, hbatch]
      simp
    have hseq : b.sequence.toNat = released.length + 1 :=
      h.sequences released.length b (by simp [haccepted])
    have hbatches : (s.acknowledgedBatches + 1).toNat = released.length + 1 := by
      have hlt := b.sequence.toNat_lt
      rw [UInt64.toNat_add, h.batches, UInt64.toNat_one]
      omega
    rw [StreamInput.markConsumed, hr]
    refine
      { batches := ?_, rows := ?_, bytes := ?_, accepted_eq := ?_, sequences := h.sequences
        closed := fun _ ↦ rfl, kept := h.kept, not_both := h.not_both, needed := h.needed
        ended := fun hc ↦ ⟨(h.ended hc).1, rfl⟩ }
    · simpa using hbatches
    · simp only [Option.toList_some]
      rw [h.rows, rowSum_concat, UInt64.ofNat_add, UInt64.ofNat_toNat]
    · simp only [Option.toList_some]
      rw [h.bytes, byteSum_concat, UInt64.ofNat_add, UInt64.ofNat_toNat]
    · simpa using haccepted

/-- Ending the stream discards what was in the slot. -/
theorem close (h : Accounting s accepted released discarded)
    (hs : s' = s ∨ (s' = s.markNotNeeded) ∨ ∃ error, s' = s.cancel error) :
    Accounting s' accepted released
      (discarded ++ (if s'.batch.isNone then s.batch.toList else [])) := by
  have hkeep : Accounting s accepted released
      (discarded ++ (if s.batch.isNone then s.batch.toList else [])) := by
    cases hbatch : s.batch <;> simpa [hbatch] using h
  have hdrop : accepted = released ++ (none.toList ++ (discarded ++ s.batch.toList)) := by
    rw [h.accepted_eq]
    by_cases hopen : s.cancelled = false ∧ s.notNeeded = false
    · rw [h.kept hopen.1 hopen.2]
      simp
    · have hbatch := h.closed (by
        cases hc : s.cancelled <;> cases hn : s.notNeeded <;> simp_all)
      rw [hbatch]
      simp
  rcases hs with rfl | rfl | ⟨error, rfl⟩
  · exact hkeep
  · rcases StreamInput.markNotNeeded_cases (s := s) with heq | ⟨heq, hcancelled, heof⟩
    · rw [heq]
      exact hkeep
    · rw [heq]
      exact { h with
        accepted_eq := hdrop
        closed := fun _ ↦ rfl
        kept := by simp
        not_both := by simp [hcancelled]
        needed := by simp [heof]
        ended := fun hc ↦ ⟨(h.ended hc).1, rfl⟩ }
  · rcases StreamInput.cancel_cases (s := s) error with heq | ⟨heq, hcancelled, hneeded⟩
    · rw [heq]
      exact hkeep
    · rw [heq]
      exact { h with
        accepted_eq := hdrop
        closed := fun _ ↦ rfl
        kept := by simp
        not_both := by simp [hneeded]
        ended := fun hc ↦ ⟨(h.ended hc).1, rfl⟩ }

end Accounting

/-! ## The program points of the handler -/

/-- The acks sent so far are the ready ack and those of the first `m` frames. -/
def Trail (u : Upload) (m : ℕ) : Prop := u.written = readyAck :: frameAcks u.released m

/-- Between two frames: all that was uploaded has been released, and the input is writable. -/
structure Settled (u : Upload) : Prop where
  uploaded : u.uploaded = u.released
  accepted : u.accepted = u.released
  attached : u.input.attached = true
  detached : u.input.detached = false
  writable : u.input.producerEof = false

/-- What the ack that ends an upload is based on. -/
structure Final (u : Upload) (ack : UploadInputAck) : Prop where
  ack_eq : ack = ackOf u.released true ack.notNeeded
  needed : ack.notNeeded = true → u.input.notNeeded = true
  ended : ack.notNeeded = false →
    u.input.consumerEof = true ∧ u.accepted = u.released ∧ u.uploaded = u.accepted

/-- What the client was sent, whatever became of the upload. -/
def Written (u : Upload) : Prop :=
  u.written = [] ∨ ∃ m ≤ u.released.length,
    Trail u m ∨ ∃ ack, Final u ack ∧ u.written = readyAck :: (frameAcks u.released m ++ [ack])

/-- What is settled at each program point of `DoPut`. -/
def AtPoint (u : Upload) : Prop :=
  match u.handler with
  | .attaching =>
    u.input.attached = false ∧ u.input.producerEof = false ∧ u.uploaded = [] ∧ u.accepted = [] ∧
      u.written = []
  | .acking ack last =>
    (u.written = [] ∧ ack = readyAck ∧ last = false ∧ Settled u ∧ u.released = []) ∨
      (∃ m, u.released.length = m + 1 ∧ Trail u m ∧ ack = ackOf u.released false false ∧
        last = false ∧ Settled u) ∨
      ∃ m ≤ u.released.length, Trail u m ∧ Final u ack
  | .reading | .finishing => Settled u ∧ Trail u u.released.length
  | .publishing b =>
    u.uploaded = u.released ++ [b] ∧ u.accepted = u.released ∧ u.input.producerEof = false ∧
      u.input.attached = true ∧ u.input.detached = false ∧ Trail u u.released.length
  -- with the slot empty at every call, `publish` never waits for it
  | .awaitingSlot _ _ => False
  | .awaitingRelease b _ =>
    ∃ before, u.uploaded = before ++ [b] ∧ u.accepted = before ++ [b] ∧
      (u.released = before ∨ u.released = before ++ [b]) ∧ u.input.producerEof = false ∧
      u.input.attached = true ∧ u.input.detached = false ∧ Trail u before.length
  | .awaitingEof _ =>
    u.uploaded = u.released ∧ u.accepted = u.released ∧ Trail u u.released.length
  | .failing _ _ _ | .detaching _ _ | .returned _ => Written u

/-- What a step that is not the handler's may change without disturbing it. -/
structure Undisturbed (u u' : Upload) : Prop where
  uploaded : u'.uploaded = u.uploaded
  accepted : u'.accepted = u.accepted
  released : u'.released = u.released
  written : u'.written = u.written
  attached : u'.input.attached = u.input.attached
  detached : u'.input.detached = u.input.detached
  producerEof : u'.input.producerEof = u.input.producerEof
  notNeeded : u.input.notNeeded = true → u'.input.notNeeded = true
  consumerEof : u.input.consumerEof = true → u'.input.consumerEof = true

namespace Undisturbed

theorem trail (h : Undisturbed u u') {m : ℕ} (ht : Trail u m) : Trail u' m := by
  rw [Trail, h.written, h.released]
  exact ht

theorem settled (h : Undisturbed u u') (hs : Settled u) : Settled u' where
  uploaded := by rw [h.uploaded, h.released, hs.uploaded]
  accepted := by rw [h.accepted, h.released, hs.accepted]
  attached := by rw [h.attached, hs.attached]
  detached := by rw [h.detached, hs.detached]
  writable := by rw [h.producerEof, hs.writable]

theorem final (h : Undisturbed u u') {ack : UploadInputAck} (hf : Final u ack) :
    Final u' ack where
  ack_eq := by rw [h.released]; exact hf.ack_eq
  needed hn := h.notNeeded (hf.needed hn)
  ended hn := by
    obtain ⟨heof, haccepted, huploaded⟩ := hf.ended hn
    exact ⟨h.consumerEof heof, by rw [h.accepted, h.released, haccepted],
      by rw [h.uploaded, h.accepted, huploaded]⟩

theorem writtenSoFar (h : Undisturbed u u') (hu : Written u) : Written u' := by
  rcases hu with hw | ⟨m, hm, ht | ⟨ack, hf, hw⟩⟩
  · exact .inl (by rw [h.written, hw])
  · exact .inr ⟨m, by rwa [h.released], .inl (h.trail ht)⟩
  · exact .inr ⟨m, by rwa [h.released], .inr ⟨ack, h.final hf, by rw [h.written, h.released, hw]⟩⟩

theorem atPoint (h : Undisturbed u u') (hhandler : u'.handler = u.handler) (hu : AtPoint u) :
    AtPoint u' := by
  rw [AtPoint] at hu ⊢
  rw [hhandler]
  cases hpc : u.handler with
  | attaching =>
    rw [hpc] at hu
    simpa only [h.attached, h.producerEof, h.uploaded, h.accepted, h.written] using hu
  | acking ack last =>
    rw [hpc] at hu
    rcases hu with ⟨hw, hack, hlast, hs, hr⟩ | ⟨m, hm, ht, hack, hlast, hs⟩ | ⟨m, hm, ht, hf⟩
    · exact .inl ⟨by rw [h.written, hw], hack, hlast, h.settled hs, by rw [h.released, hr]⟩
    · exact .inr (.inl ⟨m, by rw [h.released, hm], h.trail ht, by rw [h.released, hack], hlast,
        h.settled hs⟩)
    · exact .inr (.inr ⟨m, by rwa [h.released], h.trail ht, h.final hf⟩)
  | reading | finishing =>
    rw [hpc] at hu
    exact ⟨h.settled hu.1, by rw [h.released]; exact h.trail hu.2⟩
  | publishing b =>
    rw [hpc] at hu
    simp only [h.uploaded, h.released, h.accepted, h.producerEof, h.attached, h.detached]
    obtain ⟨h1, h2, h3, h4, h5, ht⟩ := hu
    exact ⟨h1, h2, h3, h4, h5, h.trail ht⟩
  | awaitingSlot b polled =>
    rw [hpc] at hu
    exact hu
  | awaitingRelease b polled =>
    rw [hpc] at hu
    simp only [h.uploaded, h.released, h.accepted, h.producerEof, h.attached, h.detached]
    obtain ⟨before, h1, h2, h3, h4, h5, h6, ht⟩ := hu
    exact ⟨before, h1, h2, h3, h4, h5, h6, h.trail ht⟩
  | awaitingEof polled =>
    rw [hpc] at hu
    simp only [h.uploaded, h.released, h.accepted]
    exact ⟨hu.1, hu.2.1, h.trail hu.2.2⟩
  | failing _ _ _ | detaching _ _ | returned _ =>
    rw [hpc] at hu
    exact h.writtenSoFar hu

end Undisturbed

/-! ## Releases -/

theorem consume_of_released_none {sequence : UInt64} (h : u.input.released sequence = none) :
    u.consume sequence = u := by
  rw [consume, StreamInput.markConsumed_of_released_none h, h]
  simp

theorem Trail.consume {m : ℕ} (h : Trail u m) (hm : m ≤ u.released.length) (sequence : UInt64) :
    Trail (u.consume sequence) m := by
  have hacks : frameAcks (u.consume sequence).released m = frameAcks u.released m :=
    frameAcks_append hm _
  rw [Trail, hacks]
  exact h

/-- While a frame is in the slot no final ack is due. -/
theorem Final.batch_eq_none {ack : UploadInputAck}
    (hacc : Accounting u.input u.accepted u.released u.discarded) (h : Final u ack) :
    u.input.batch = none := by
  cases hneeded : ack.notNeeded with
  | true => exact hacc.closed (.inr (h.needed hneeded))
  | false => exact hacc.batch_eq_none (h.ended hneeded).2.1

/-- A release disturbs no program point: it happens in the wait of `publish` or after the end. -/
theorem AtPoint.consume (hacc : Accounting u.input u.accepted u.released u.discarded)
    (hu : AtPoint u) (sequence : UInt64) : AtPoint (u.consume sequence) := by
  cases hr : u.input.released sequence with
  | none =>
    rw [consume_of_released_none hr]
    exact hu
  | some b =>
    have hbatch : u.input.batch = some b := (StreamInput.released_eq_some.mp hr).1
    have hne : u.accepted ≠ u.released := fun heq ↦ by simp [hacc.batch_eq_none heq] at hbatch
    have hfinal : ∀ ack, ¬Final u ack := fun ack hf ↦ by simp [hf.batch_eq_none hacc] at hbatch
    have hpc : (u.consume sequence).handler = u.handler := rfl
    rw [AtPoint] at hu ⊢
    rw [hpc]
    cases hcase : u.handler with
    | attaching =>
      rw [hcase] at hu
      have haccepted := hacc.accepted_eq
      simp [hu.2.2.2.1, hbatch] at haccepted
    | acking ack last =>
      rw [hcase] at hu
      rcases hu with ⟨-, -, -, hs, -⟩ | ⟨-, -, -, -, -, hs⟩ | ⟨-, -, -, hf⟩
      · exact absurd hs.accepted hne
      · exact absurd hs.accepted hne
      · exact absurd hf (hfinal ack)
    | reading | finishing =>
      rw [hcase] at hu
      exact absurd hu.1.accepted hne
    | publishing b | awaitingEof polled =>
      rw [hcase] at hu
      exact absurd hu.2.1 hne
    | awaitingSlot b polled =>
      rw [hcase] at hu
      exact hu
    | awaitingRelease b' polled =>
      rw [hcase] at hu
      obtain ⟨before, huploaded, haccepted, hreleased, heof, hattached, hdetached, ht⟩ := hu
      obtain rfl : u.released = before :=
        hreleased.resolve_right fun h ↦ hne (haccepted.trans h.symm)
      have hb : b' = b := by
        have heq := hacc.accepted_eq
        rw [haccepted, hbatch, Option.toList_some, List.append_cancel_left_eq] at heq
        exact (List.cons.inj heq).1
      refine ⟨u.released, huploaded, haccepted, .inr ?_, ?_, ?_, ?_, ht.consume le_rfl sequence⟩
      · simp [Upload.consume, hr, hb]
      all_goals simpa [Upload.consume, StreamInput.markConsumed, hr]
    | failing _ _ _ | detaching _ _ | returned _ =>
      rw [hcase] at hu
      rcases hu with hw | ⟨m, hm, ht | ⟨ack, hf, -⟩⟩
      · exact .inl hw
      · refine .inr ⟨m, ?_, .inl (ht.consume hm sequence)⟩
        simp only [Upload.consume, List.length_append]
        omega
      · exact absurd hf (hfinal ack)

/-! ## Steps of others -/

theorem undisturbed_nextBatch {r : Except String (Option NativeBatchView)}
    (h : u.input.nextBatch = some (s, r)) : Undisturbed u { u with input := s } := by
  rcases StreamInput.nextBatch_cases h with rfl | ⟨rfl, -⟩
  · exact ⟨rfl, rfl, rfl, rfl, rfl, rfl, rfl, id, id⟩
  · exact ⟨rfl, rfl, rfl, rfl, rfl, rfl, rfl, id, fun _ ↦ rfl⟩

theorem undisturbed_close_markNotNeeded : Undisturbed u (u.close u.input.markNotNeeded) := by
  rcases StreamInput.markNotNeeded_cases (s := u.input) with heq | ⟨heq, -, -⟩
  all_goals rw [close, heq]
  · exact ⟨rfl, rfl, rfl, rfl, rfl, rfl, rfl, id, id⟩
  · exact ⟨rfl, rfl, rfl, rfl, rfl, rfl, rfl, fun _ ↦ rfl, id⟩

theorem undisturbed_close_cancel (error : String) :
    Undisturbed u (u.close (u.input.cancel error)) := by
  rcases StreamInput.cancel_cases (s := u.input) error with heq | ⟨heq, -, -⟩
  all_goals
    rw [close, heq]
    exact ⟨rfl, rfl, rfl, rfl, rfl, rfl, rfl, id, id⟩

/-! ## Steps of the handler -/

/-- An upload in which the handshake is intact. -/
structure Invariant (cfg : UploadConfig) (script : List FlightStreamChunk) (u : Upload) : Prop where
  accounting : Accounting u.input u.accepted u.released u.discarded
  point : AtPoint u
  script : frames cfg script = u.uploaded ++ frames cfg u.pending
  accepted : u.accepted <+: u.uploaded

theorem Trail.written (h : Trail u u.released.length) : Written u := .inr ⟨_, le_rfl, .inl h⟩

/-- A step that only moves the handler changes nothing the client was sent. -/
theorem Written.congr (h : Written u) (hhistory : u'.toUploadHistory = u.toUploadHistory)
    (hinput : u'.input = u.input) : Written u' := by
  refine Undisturbed.writtenSoFar ⟨?_, ?_, ?_, ?_, ?_, ?_, ?_, ?_, ?_⟩ h
  all_goals simp [hhistory, hinput]

theorem dispatch_cases (cfg : UploadConfig) (chunk : FlightStreamChunk) :
    (∃ b, dispatch cfg chunk = .publishing b) ∨ dispatch cfg chunk = .finishing ∨
      (∃ error status unwound, dispatch cfg chunk = .failing error status unwound) ∨
        ∃ status thrown, dispatch cfg chunk = .detaching status thrown := by
  rw [dispatch]
  cases chunk.appMetadata with
  | none => cases chunk.data <;> simp
  | some bytes =>
    cases chunk.data with
    | true => simp
    | false =>
      simp only [Bool.false_eq_true, if_false]
      split_ifs
      · simp
      · cases cfg.decode bytes <;> simp

theorem frames_cons_of_publishing {chunk : FlightStreamChunk} {rest : List FlightStreamChunk}
    (h : dispatch cfg chunk = .publishing b) :
    frames cfg (chunk :: rest) = b :: frames cfg rest := by
  simp [frames, h]

theorem frames_cons_of_ne_publishing {chunk : FlightStreamChunk} {rest : List FlightStreamChunk}
    (h : ∀ b, dispatch cfg chunk ≠ .publishing b) :
    frames cfg (chunk :: rest) = frames cfg rest := by
  rw [frames, List.filterMap_cons, frames]
  split
  · rfl
  · rename_i b' hb'
    split at hb'
    · rename_i b'' hb''
      exact absurd hb'' (h b'')
    · cases hb'

namespace Invariant

/-- Keep the invariant where neither the frames nor the slot change. -/
theorem of_point (h : Invariant cfg script u) (hinput : u'.input = u.input)
    (haccepted : u'.accepted = u.accepted) (hreleased : u'.released = u.released)
    (hdiscarded : u'.discarded = u.discarded) (huploaded : u'.uploaded = u.uploaded)
    (hpending : u'.pending = u.pending) (hpoint : AtPoint u') : Invariant cfg script u' where
  accounting := by
    rw [hinput, haccepted, hreleased, hdiscarded]
    exact h.accounting
  point := hpoint
  script := by rw [huploaded, hpending, h.script]
  accepted := by
    rw [haccepted, huploaded]
    exact h.accepted

theorem init : Invariant cfg script (Upload.init script) where
  accounting := .init
  point := ⟨rfl, rfl, rfl, rfl, rfl⟩
  script := rfl
  accepted := List.prefix_rfl

theorem attach (h : Invariant cfg script u) (hpc : u.handler = .attaching)
    (hstep : step cfg u .attach = some u') : Invariant cfg script u' := by
  have hpoint := h.point
  simp only [AtPoint, hpc] at hpoint
  obtain ⟨hattached, heof, huploaded, haccepted, hwritten⟩ := hpoint
  have hreleased : u.released = [] := by
    have heq := h.accounting.accepted_eq
    rw [haccepted] at heq
    exact (List.append_eq_nil_iff.mp heq.symm).1
  simp only [step, hpc] at hstep
  cases hattach : u.input.attach with
  | error e =>
    rw [hattach] at hstep
    obtain rfl := Option.some.inj hstep
    exact h.of_point rfl rfl rfl rfl rfl rfl (.inl hwritten)
  | ok s =>
    rw [hattach] at hstep
    obtain rfl := Option.some.inj hstep
    obtain ⟨-, -, rfl⟩ := StreamInput.attach_eq_ok.mp hattach
    have hsettled : Settled { u with
        input := { u.input with attached := true, detached := false }
        handler := .acking readyAck false } :=
      ⟨huploaded.trans hreleased.symm, haccepted.trans hreleased.symm, rfl, rfl, heof⟩
    exact
      { accounting := { h.accounting with }
        point := .inl ⟨hwritten, rfl, rfl, hsettled, hreleased⟩
        script := h.script
        accepted := h.accepted }

theorem writeAck (h : Invariant cfg script u) {ack : UploadInputAck} {last : Bool}
    (hpc : u.handler = .acking ack last) (failure : Option String)
    (hstep : step cfg u (.writeAck failure) = some u') : Invariant cfg script u' := by
  have hpoint := h.point
  simp only [AtPoint, hpc] at hpoint
  cases failure with
  | some text =>
    simp only [step, hpc] at hstep
    obtain rfl := Option.some.inj hstep
    have hwritten : Written u := by
      rcases hpoint with ⟨hw, -⟩ | ⟨m, hm, ht, -⟩ | ⟨m, hm, ht, -⟩
      · exact .inl hw
      · exact .inr ⟨m, by omega, .inl ht⟩
      · exact .inr ⟨m, hm, .inl ht⟩
    refine h.of_point rfl rfl rfl rfl rfl rfl ?_
    cases last <;> exact hwritten.congr rfl rfl
  | none =>
    simp only [step, hpc] at hstep
    obtain rfl := Option.some.inj hstep
    refine h.of_point rfl rfl rfl rfl rfl rfl ?_
    rcases hpoint with ⟨hw, rfl, rfl, hs, hr⟩ | ⟨m, hm, ht, rfl, rfl, hs⟩ | ⟨m, hm, ht, hf⟩
    · refine ⟨⟨hs.1, hs.2, hs.3, hs.4, hs.5⟩, ?_⟩
      simp only [Trail, hw, hr]
      rfl
    · refine ⟨⟨hs.1, hs.2, hs.3, hs.4, hs.5⟩, ?_⟩
      have hall : u.released.take (m + 1) = u.released := by rw [← hm, List.take_length]
      simp only [Trail] at ht ⊢
      rw [ht, hm, frameAcks_succ, hall]
      rfl
    · have hcomplete : ack.complete = true := by rw [hf.ack_eq]; rfl
      simp only [hcomplete, Bool.true_or, if_true]
      refine .inr ⟨m, hm, .inr ⟨ack, ⟨hf.1, hf.2, hf.3⟩, ?_⟩⟩
      simp only [Trail] at ht
      simp only [ht, List.cons_append]

theorem read (h : Invariant cfg script u) (hpc : u.handler = .reading)
    (hstep : step cfg u .read = some u') : Invariant cfg script u' := by
  have hpoint := h.point
  simp only [AtPoint, hpc] at hpoint
  obtain ⟨hs, ht⟩ := hpoint
  simp only [step, hpc] at hstep
  cases hpending : u.pending with
  | nil =>
    simp only [hpending] at hstep
    obtain rfl := Option.some.inj hstep
    exact h.of_point rfl rfl rfl rfl rfl hpending.symm ⟨⟨hs.1, hs.2, hs.3, hs.4, hs.5⟩, ht⟩
  | cons chunk rest =>
    have hscript := h.script
    rw [hpending] at hscript
    simp only [hpending] at hstep
    rcases dispatch_cases cfg chunk with ⟨b, hd⟩ | hd | ⟨error, status, unwound, hd⟩ |
      ⟨status, thrown, hd⟩
    · simp only [hd] at hstep
      obtain rfl := Option.some.inj hstep
      rw [frames_cons_of_publishing hd] at hscript
      exact
        { accounting := h.accounting
          point := ⟨by simp [hs.uploaded], hs.accepted, hs.writable, hs.attached, hs.detached, ht⟩
          script := by simpa using hscript
          accepted := h.accepted.trans (List.prefix_append _ _) }
    all_goals
      simp only [hd] at hstep
      obtain rfl := Option.some.inj hstep
      rw [frames_cons_of_ne_publishing (by simp [hd])] at hscript
      refine { accounting := h.accounting, point := ?_, script := hscript, accepted := h.accepted }
    · exact ⟨⟨hs.1, hs.2, hs.3, hs.4, hs.5⟩, ht⟩
    · exact ht.written.congr rfl rfl
    · exact ht.written.congr rfl rfl

/-- What `publish` leaves behind, from the sections that can put its frame into the slot. -/
theorem publish (h : Invariant cfg script u) (hpc : u.handler = .publishing b)
    (hstep : step cfg u .publish = some u') : Invariant cfg script u' := by
  have hpoint := h.point
  simp only [AtPoint, hpc] at hpoint
  obtain ⟨huploaded, haccepted, heof, hattached, hdetached, ht⟩ := hpoint
  have hbatch := h.accounting.batch_eq_none haccepted
  simp only [step, hpc] at hstep
  obtain rfl := Option.some.inj hstep
  by_cases hseq : b.sequence = u.input.acknowledgedBatches + 1
  · have hpublish : u.input.publish b = u.input.publishSlot b := by
      simp [StreamInput.publish, hattached, hdetached, heof, hseq]
    rw [hpublish, StreamInput.publishSlot_of_batch_none hbatch]
    by_cases hcancelled : u.input.cancelled = true
    · rw [if_pos hcancelled]
      refine h.of_point rfl (by simp [published, placed]) rfl rfl rfl rfl ?_
      exact ht.written.congr (by simp [published, placed]) rfl
    rw [if_neg hcancelled]
    by_cases hneeded : u.input.notNeeded = true
    · rw [if_pos hneeded]
      refine h.of_point rfl (by simp [published, placed]) rfl rfl rfl rfl ?_
      refine .inr (.inr ⟨_, le_rfl, ht, ?_, fun _ ↦ hneeded, by simp [StreamInput.ack]⟩)
      exact h.accounting.ack_eq true true
    rw [if_neg hneeded]
    rw [Bool.not_eq_true] at hcancelled hneeded
    exact
      { accounting := h.accounting.place haccepted hcancelled hneeded heof hseq
        point := ⟨u.released, huploaded, by simp [published, placed, haccepted], .inl rfl, heof,
          hattached, hdetached, ht⟩
        script := h.script
        accepted := by simp [published, placed, haccepted, huploaded] }
  · have hpublish : u.input.publish b =
        (u.input, .returned (.error (.invalid "MO native batch sequence is not contiguous"))) := by
      simp [StreamInput.publish, hattached, hdetached, heof, hseq]
    rw [hpublish]
    refine h.of_point rfl (by simp [published, placed]) rfl rfl rfl rfl ?_
    exact ht.written.congr (by simp [published, placed]) rfl

theorem awaitRelease (h : Invariant cfg script u) {polled : Bool}
    (hpc : u.handler = .awaitingRelease b polled)
    (hstep : step cfg u .poll = some u' ∨ step cfg u .wake = some u') :
    Invariant cfg script u' := by
  have hpoint := h.point
  simp only [AtPoint, hpc] at hpoint
  obtain ⟨before, huploaded, haccepted, hreleased, heof, hattached, hdetached, ht⟩ := hpoint
  have hle : before.length ≤ u.released.length := by
    rcases hreleased with hr | hr <;> simp [hr]
  have hwritten : Written u := .inr ⟨_, hle, .inl ht⟩
  rcases hstep with hstep | hstep
  · cases polled with
    | true => simp [step, hpc] at hstep
    | false =>
      simp only [step, hpc, afterPoll] at hstep
      obtain rfl := Option.some.inj hstep
      refine h.of_point rfl rfl rfl rfl rfl rfl ?_
      split_ifs
      · exact hwritten.congr rfl rfl
      · exact ⟨before, huploaded, haccepted, hreleased, heof, hattached, hdetached, ht⟩
  · cases polled with
    | false => simp [step, hpc] at hstep
    | true =>
      simp only [step, hpc] at hstep
      obtain rfl := Option.some.inj hstep
      refine h.of_point rfl rfl rfl rfl rfl rfl ?_
      rw [StreamInput.publishRelease]
      split_ifs with hoccupied hcancelled
      · exact ⟨before, huploaded, haccepted, hreleased, heof, hattached, hdetached, ht⟩
      · exact hwritten.congr rfl rfl
      · cases hneeded : u.input.notNeeded with
        | true =>
          refine .inr (.inr ⟨_, hle, ht, ?_, fun _ ↦ hneeded, by simp [StreamInput.ack]⟩)
          exact h.accounting.ack_eq true true
        | false =>
          rw [Bool.not_eq_true] at hcancelled
          have hbatch : u.input.batch = none := by
            simpa [StreamInput.occupied, hcancelled, hneeded] using hoccupied
          have hall := h.accounting.accepted_eq_released hbatch hcancelled hneeded
          have hr : u.released = before ++ [b] := hall.symm.trans haccepted
          refine .inr (.inl ⟨before.length, by simp [hr], ht, ?_, rfl, ?_⟩)
          · exact h.accounting.ack_eq false false
          · exact ⟨huploaded.trans hr.symm, hall, hattached, hdetached, heof⟩

/-- Where `finish_upload` leads from a look at its loop condition. -/
theorem afterFinish (h : Invariant cfg script u) (huploaded : u.uploaded = u.released)
    (haccepted : u.accepted = u.released) (ht : Trail u u.released.length)
    (hhistory : u'.toUploadHistory = u.toUploadHistory) (hinput : u'.input = u.input)
    (hpc : u'.handler = Upload.afterFinish u.input.finishWait) : AtPoint u' := by
  have ht' : Trail u' u'.released.length := by
    rw [Trail, hhistory]
    exact ht
  have hwritten : Written u' := ht'.written
  rw [AtPoint, hpc, StreamInput.finishWait]
  split_ifs with hwait hcancelled
  · exact ⟨by simp [hhistory, huploaded], by simp [hhistory, haccepted], ht'⟩
  · exact hwritten
  · refine .inr (.inr ⟨_, le_rfl, ht', ?_, fun hneeded ↦ ?_, fun hneeded ↦ ?_⟩)
    · rw [hhistory]
      exact h.accounting.ack_eq true u.input.notNeeded
    · rw [hinput]
      exact hneeded
    · have hended : u.input.consumerEof = true := by
        cases hc : u.input.consumerEof with
        | true => rfl
        | false =>
          have hopen : u.input.notNeeded = false := hneeded
          simp [hc, hopen, hcancelled] at hwait
      refine ⟨by rw [hinput, hended], by simp [hhistory, haccepted], ?_⟩
      simp [hhistory, haccepted, huploaded]

theorem finish (h : Invariant cfg script u) (hpc : u.handler = .finishing)
    (hstep : step cfg u .finish = some u') : Invariant cfg script u' := by
  have hpoint := h.point
  simp only [AtPoint, hpc] at hpoint
  obtain ⟨hs, ht⟩ := hpoint
  simp only [step, hpc] at hstep
  obtain rfl := Option.some.inj hstep
  -- the state right after the effect of the section, with the history already in place
  have hended : Invariant cfg script
      { u with
        input := u.input.endOfUpload, stoppedAtFinish := u.stopped,
        handler := .awaitingEof false } :=
    { accounting := { h.accounting with
        ended := fun hc ↦ ⟨rfl, (h.accounting.ended hc).2⟩ }
      point := ⟨hs.uploaded, hs.accepted, ht⟩
      script := h.script
      accepted := h.accepted }
  exact hended.of_point rfl rfl rfl rfl rfl rfl
    (hended.afterFinish hs.uploaded hs.accepted ht rfl rfl rfl)

theorem awaitEof (h : Invariant cfg script u) {polled : Bool}
    (hpc : u.handler = .awaitingEof polled)
    (hstep : step cfg u .poll = some u' ∨ step cfg u .wake = some u') :
    Invariant cfg script u' := by
  have hpoint := h.point
  simp only [AtPoint, hpc] at hpoint
  obtain ⟨huploaded, haccepted, ht⟩ := hpoint
  rcases hstep with hstep | hstep
  · cases polled with
    | true => simp [step, hpc] at hstep
    | false =>
      simp only [step, hpc, afterPoll] at hstep
      obtain rfl := Option.some.inj hstep
      refine h.of_point rfl rfl rfl rfl rfl rfl ?_
      split_ifs
      · exact ht.written.congr rfl rfl
      · exact ⟨huploaded, haccepted, ht⟩
  · cases polled with
    | false => simp [step, hpc] at hstep
    | true =>
      simp only [step, hpc] at hstep
      obtain rfl := Option.some.inj hstep
      exact h.of_point rfl rfl rfl rfl rfl rfl (h.afterFinish huploaded haccepted ht rfl rfl rfl)

/-- Replacing the input by an ended one, with the handler where it was or past its last frame. -/
theorem close (h : Invariant cfg script u) (hs : s = u.input ∨ s = u.input.markNotNeeded ∨
      ∃ error, s = u.input.cancel error)
      (hhistory : u'.toUploadHistory = (u.close s).toUploadHistory)
    (hinput : u'.input = s) (hpending : u'.pending = u.pending) (hpoint : AtPoint u') :
    Invariant cfg script u' where
  accounting := by
    rw [hhistory, hinput]
    exact h.accounting.close hs
  point := hpoint
  script := by
    rw [hhistory, hpending]
    exact h.script
  accepted := by
    rw [hhistory]
    exact h.accepted

theorem fail (h : Invariant cfg script u) {error : String} {status : ArrowError} {unwound : Bool}
    (hpc : u.handler = .failing error status unwound) (hstep : step cfg u .fail = some u') :
    Invariant cfg script u' := by
  have hpoint := h.point
  simp only [AtPoint, hpc] at hpoint
  simp only [step, hpc] at hstep
  obtain rfl := Option.some.inj hstep
  refine h.close (.inr (.inr ⟨error, rfl⟩)) rfl rfl rfl ?_
  have hwritten := (undisturbed_close_cancel error).writtenSoFar hpoint
  cases unwound <;> exact hwritten.congr rfl rfl

theorem detach (h : Invariant cfg script u) {status : Option ArrowError} {thrown : Option String}
    (hpc : u.handler = .detaching status thrown) (hstep : step cfg u .detach = some u') :
    Invariant cfg script u' := by
  have hpoint := h.point
  simp only [AtPoint, hpc] at hpoint
  have hwritten : Written { u with input := u.input.detach } := by
    rcases hpoint with hw | ⟨m, hm, ht | ⟨ack, hf, hw⟩⟩
    · exact .inl hw
    · exact .inr ⟨m, hm, .inl ht⟩
    · exact .inr ⟨m, hm, .inr ⟨ack, ⟨hf.1, hf.2, hf.3⟩, hw⟩⟩
  have hdetached : Accounting u.input.detach u.accepted u.released u.discarded :=
    { h.accounting with }
  cases status <;> cases thrown <;>
  · simp only [step, hpc] at hstep
    obtain rfl := Option.some.inj hstep
    exact ⟨hdetached, hwritten.congr rfl rfl, h.script, h.accepted⟩

/-- **Every step of an upload keeps the handshake intact.** -/
theorem step (h : Invariant cfg script u) (l : UploadStep) (hstep : step cfg u l = some u') :
    Invariant cfg script u' := by
  cases l with
  | attach =>
    cases hpc : u.handler with
    | attaching => exact h.attach hpc hstep
    | _ => simp [Upload.step, hpc] at hstep
  | writeAck failure =>
    cases hpc : u.handler with
    | acking ack last => exact h.writeAck hpc failure hstep
    | _ => simp [Upload.step, hpc] at hstep
  | read =>
    cases hpc : u.handler with
    | reading => exact h.read hpc hstep
    | _ => simp [Upload.step, hpc] at hstep
  | readCancelled =>
    cases hpc : u.handler with
    | reading =>
      have hpoint := h.point
      simp only [AtPoint, hpc] at hpoint
      simp only [Upload.step, hpc] at hstep
      split_ifs at hstep
      obtain rfl := Option.some.inj hstep
      have hs := hpoint.1
      exact h.of_point rfl rfl rfl rfl rfl rfl ⟨⟨hs.1, hs.2, hs.3, hs.4, hs.5⟩, hpoint.2⟩
    | _ => simp [Upload.step, hpc] at hstep
  | readError text =>
    cases hpc : u.handler with
    | reading =>
      have hpoint := h.point
      simp only [AtPoint, hpc] at hpoint
      simp only [Upload.step, hpc] at hstep
      obtain rfl := Option.some.inj hstep
      exact h.of_point rfl rfl rfl rfl rfl rfl (hpoint.2.written.congr rfl rfl)
    | _ => simp [Upload.step, hpc] at hstep
  | publish =>
    cases hpc : u.handler with
    | publishing b => exact h.publish hpc hstep
    | _ => simp [Upload.step, hpc] at hstep
  | poll =>
    cases hpc : u.handler with
    | awaitingSlot b polled => exact absurd h.point (by simp [AtPoint, hpc])
    | awaitingRelease b polled => exact h.awaitRelease hpc (.inl hstep)
    | awaitingEof polled => exact h.awaitEof hpc (.inl hstep)
    | _ => simp [Upload.step, hpc] at hstep
  | wake =>
    cases hpc : u.handler with
    | awaitingSlot b polled => exact absurd h.point (by simp [AtPoint, hpc])
    | awaitingRelease b polled => exact h.awaitRelease hpc (.inr hstep)
    | awaitingEof polled => exact h.awaitEof hpc (.inr hstep)
    | _ => simp [Upload.step, hpc] at hstep
  | finish =>
    cases hpc : u.handler with
    | finishing => exact h.finish hpc hstep
    | _ => simp [Upload.step, hpc] at hstep
  | fail =>
    cases hpc : u.handler with
    | failing error status unwound => exact h.fail hpc hstep
    | _ => simp [Upload.step, hpc] at hstep
  | detach =>
    cases hpc : u.handler with
    | detaching status thrown => exact h.detach hpc hstep
    | _ => simp [Upload.step, hpc] at hstep
  | cancelCall =>
    simp only [Upload.step] at hstep
    obtain rfl := Option.some.inj hstep
    have hundisturbed : Undisturbed u { u with stopped := true } :=
      ⟨rfl, rfl, rfl, rfl, rfl, rfl, rfl, id, id⟩
    exact h.of_point rfl rfl rfl rfl rfl rfl (hundisturbed.atPoint rfl h.point)
  | nextBatch =>
    simp only [Upload.step, Option.map_eq_some_iff] at hstep
    obtain ⟨⟨s, r⟩, hr, rfl⟩ := hstep
    exact
      { accounting := h.accounting.nextBatch hr
        point := (undisturbed_nextBatch hr).atPoint rfl h.point
        script := h.script
        accepted := h.accepted }
  | markConsumed sequence =>
    simp only [Upload.step] at hstep
    obtain rfl := Option.some.inj hstep
    exact
      { accounting := h.accounting.markConsumed sequence
        point := h.point.consume h.accounting sequence
        script := h.script
        accepted := h.accepted }
  | markNotNeeded =>
    simp only [Upload.step] at hstep
    obtain rfl := Option.some.inj hstep
    exact h.close (.inr (.inl rfl)) rfl rfl rfl
      (undisturbed_close_markNotNeeded.atPoint rfl h.point)
  | cancel error =>
    simp only [Upload.step] at hstep
    obtain rfl := Option.some.inj hstep
    exact h.close (.inr (.inr ⟨error, rfl⟩)) rfl rfl rfl
      ((undisturbed_close_cancel error).atPoint rfl h.point)

/-- The handshake is intact in every state an upload can reach. -/
theorem run {ls : List UploadStep} (hrun : (machine cfg).run (.init script) ls = some u) :
    Invariant cfg script u :=
  Machine.invariant init (fun _ l _ h hstep ↦ h.step l hstep) hrun

end Invariant

end MoSidecar.Upload
