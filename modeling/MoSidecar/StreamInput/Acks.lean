import MoSidecar.StreamInput.Handshake

/-!
# The acks of an upload

Every ack the client of an upload is sent, read against what the scan has released. The counters
behind an ack are 64-bit: the count of batches cannot wrap, because it is also the last sequence
that was accepted, but the sums of rows and of bytes can. A frame may hold up to `2 ^ 32 - 1` rows
in a few dozen bytes, so the row counter does wrap, in a run that is spelled out at the end.
-/

namespace MoSidecar.Upload

variable {cfg : UploadConfig} {script : List FlightStreamChunk} {ls : List UploadStep}
  {u u' : Upload} {bs : List NativeBatchView} {ack : UploadInputAck} {k m : ℕ}

/-- An ack counts exactly the given frames, the sums of rows and bytes modulo `2 ^ 64`. -/
structure Counts (ack : UploadInputAck) (bs : List NativeBatchView) : Prop where
  batches : ack.acknowledgedBatches.toNat = bs.length
  rows : ack.rows.toNat = rowSum bs % 2 ^ 64
  bytes : ack.bytes.toNat = byteSum bs % 2 ^ 64

theorem counts_ackOf (hlen : bs.length < 2 ^ 64) (complete notNeeded : Bool) :
    Counts (ackOf bs complete notNeeded) bs where
  batches := by
    rw [ackOf, UInt64.toNat_ofNat']
    exact Nat.mod_eq_of_lt hlen
  rows := UInt64.toNat_ofNat'
  bytes := UInt64.toNat_ofNat'

/-- While its sums fit, an ack counts frames exactly. -/
theorem Counts.exact (h : Counts ack bs) (hrows : rowSum bs < 2 ^ 64)
    (hbytes : byteSum bs < 2 ^ 64) :
    ack.rows.toNat = rowSum bs ∧ ack.bytes.toNat = byteSum bs :=
  ⟨h.rows.trans (Nat.mod_eq_of_lt hrows), h.bytes.trans (Nat.mod_eq_of_lt hbytes)⟩

/-- What the acks of an upload tell the truth about. -/
structure Honest (u : Upload) : Prop where
  /-- The frames that were given to `publish`, the released ones first. -/
  uploaded : u.released <+: u.uploaded
  /-- The counters describe the released frames at all times. -/
  counters : ∀ complete notNeeded, Counts (u.input.ack complete notNeeded) u.released
  /-- The first ack says only that the handler is attached. -/
  first : ∀ ack, u.written[0]? = some ack → ack = readyAck
  /-- The ack for a frame that is not the last one counts the frames up to this one. -/
  frame : ∀ k ack, u.written[k + 1]? = some ack → ack.complete = false →
    k < u.released.length ∧ ack.notNeeded = false ∧ ack.ready = false ∧
      Counts ack (u.released.take (k + 1))
  /-- A complete ack is the last one written. -/
  last : ∀ k ack, u.written[k]? = some ack → ack.complete = true → k + 1 = u.written.length
  /-- A complete ack counts all that was ever released. -/
  final : ∀ ack ∈ u.written, ack.complete = true → ack.ready = false ∧ Counts ack u.released
  /-- It denies that the input was not needed just if the scan came to the end of it. -/
  ended : ∀ ack ∈ u.written, ack.complete = true →
    (ack.notNeeded = false ↔ u.input.consumerEof = true ∧ u.released = u.uploaded)
  /-- Only a complete ack says that the input was not needed. -/
  notNeeded : ∀ ack ∈ u.written, ack.notNeeded = true → ack.complete = true
  /-- A discarded frame was never released, so no ack counts it. -/
  discarded : ∀ b ∈ u.discarded, b ∉ u.released

/-! ## From the handshake to the acks -/

theorem Accounting.length_lt {s : StreamInput} {accepted released discarded : List NativeBatchView}
    (h : Accounting s accepted released discarded) : released.length < 2 ^ 64 := by
  rw [← h.batches]
  exact s.acknowledgedBatches.toNat_lt

theorem Accounting.nodup {s : StreamInput} {accepted released discarded : List NativeBatchView}
    (h : Accounting s accepted released discarded) : accepted.Nodup := by
  refine List.pairwise_iff_getElem.mpr fun i j hi hj hij heq ↦ ?_
  have hseqi := h.sequences i _ (List.getElem?_eq_getElem hi)
  have hseqj := h.sequences j _ (List.getElem?_eq_getElem hj)
  rw [← heq, hseqi] at hseqj
  omega

theorem Accounting.notMem_released {s : StreamInput}
    {accepted released discarded : List NativeBatchView}
    (h : Accounting s accepted released discarded) {b : NativeBatchView} (hb : b ∈ discarded) :
    b ∉ released := by
  have hnodup := h.nodup
  rw [h.accepted_eq] at hnodup
  intro hb'
  exact (List.nodup_append.mp hnodup).2.2 b hb' b (List.mem_append_right _ hb) rfl

theorem length_frameAcks (bs : List NativeBatchView) (m : ℕ) : (frameAcks bs m).length = m := by
  simp [frameAcks]

theorem getElem?_frameAcks_eq_some :
    (frameAcks bs m)[k]? = some ack ↔ k < m ∧ ack = ackOf (bs.take (k + 1)) false false := by
  by_cases hk : k < m
  · simp [frameAcks, hk, eq_comm]
  · simp [frameAcks, hk]

/-- What the client was sent at any program point: nothing, or the ready ack, acks of the first
frames, and possibly a final ack. -/
theorem AtPoint.written (hu : AtPoint u) : Written u := by
  rw [AtPoint] at hu
  cases hpc : u.handler with
  | attaching =>
    rw [hpc] at hu
    exact .inl hu.2.2.2.2
  | acking ack last =>
    rw [hpc] at hu
    rcases hu with ⟨hw, -⟩ | ⟨m, hm, ht, -⟩ | ⟨m, hm, ht, -⟩
    · exact .inl hw
    · exact .inr ⟨m, by omega, .inl ht⟩
    · exact .inr ⟨m, hm, .inl ht⟩
  | reading | finishing =>
    rw [hpc] at hu
    exact hu.2.written
  | publishing b =>
    rw [hpc] at hu
    exact Trail.written hu.2.2.2.2.2
  | awaitingSlot b polled =>
    rw [hpc] at hu
    exact hu.elim
  | awaitingRelease b polled =>
    rw [hpc] at hu
    obtain ⟨before, -, -, hreleased, -, -, -, ht⟩ := hu
    refine .inr ⟨before.length, ?_, .inl ht⟩
    rcases hreleased with hr | hr <;> simp [hr]
  | awaitingEof polled =>
    rw [hpc] at hu
    exact hu.2.2.written
  | failing _ _ _ | detaching _ _ | returned _ =>
    rw [hpc] at hu
    exact hu

/-- The acks written so far as one list, the final ack as its last element. -/
theorem Written.exists_final (h : Written u) (hne : u.written ≠ []) :
    ∃ m ≤ u.released.length, ∃ final : Option UploadInputAck,
      u.written = readyAck :: (frameAcks u.released m ++ final.toList) ∧
        ∀ ack, final = some ack → Final u ack := by
  rcases h with hw | ⟨m, hm, ht | ⟨ack, hf, hw⟩⟩
  · exact absurd hw hne
  · exact ⟨m, hm, none, by simpa [Trail] using ht, by simp⟩
  · refine ⟨m, hm, some ack, by simpa using hw, fun ack' heq ↦ ?_⟩
    exact Option.some.inj heq ▸ hf

/-- An ack at a given place is the ready ack, the ack of a frame, or the final one. -/
theorem Written.getElem? (h : Written u) (hack : u.written[k]? = some ack) :
    (k = 0 ∧ ack = readyAck) ∨
      (∃ j, k = j + 1 ∧ j < u.released.length ∧
        ack = ackOf (u.released.take (j + 1)) false false) ∨
      (k ≠ 0 ∧ k + 1 = u.written.length ∧ Final u ack) := by
  obtain ⟨m, hm, final, hw, hfinal⟩ :=
    h.exists_final (by rintro hw; simp [hw] at hack)
  rw [hw] at hack ⊢
  cases k with
  | zero => exact .inl ⟨rfl, by simpa using hack.symm⟩
  | succ j =>
    rw [List.getElem?_cons_succ] at hack
    rcases Nat.lt_or_ge j m with hj | hj
    · rw [List.getElem?_append_left (by rwa [length_frameAcks]),
        getElem?_frameAcks_eq_some] at hack
      exact .inr (.inl ⟨j, rfl, by omega, hack.2⟩)
    · rw [List.getElem?_append_right (by rwa [length_frameAcks]), length_frameAcks] at hack
      cases hf : final with
      | none => simp [hf] at hack
      | some ack' =>
        rw [hf, Option.toList_some, List.getElem?_singleton] at hack
        split_ifs at hack with hzero
        obtain rfl : ack' = ack := Option.some.inj hack
        refine .inr (.inr ⟨by omega, ?_, hfinal _ hf⟩)
        simp only [List.length_cons, List.length_append, length_frameAcks, Option.toList_some,
          List.length_nil]
        omega

theorem Invariant.honest (h : Invariant cfg script u) : Honest u := by
  have hwritten := h.point.written
  have hlt := h.accounting.length_lt
  -- only the final ack says that it is complete
  have hmem : ∀ ack ∈ u.written, ack.complete = true → Final u ack := by
    intro ack hack hcomplete
    obtain ⟨k, hk⟩ := List.mem_iff_getElem?.mp hack
    rcases hwritten.getElem? hk with ⟨-, rfl⟩ | ⟨j, -, -, rfl⟩ | ⟨-, -, hf⟩
    · cases hcomplete
    · cases hcomplete
    · exact hf
  refine
    { uploaded := ?_, counters := ?_, first := ?_, frame := ?_, last := ?_, final := ?_, ended := ?_
      notNeeded := ?_, discarded := fun b hb ↦ h.accounting.notMem_released hb }
  · refine List.IsPrefix.trans ?_ h.accepted
    rw [h.accounting.accepted_eq]
    exact List.prefix_append _ _
  · intro complete notNeeded
    rw [h.accounting.ack_eq]
    exact counts_ackOf hlt _ _
  · intro ack hack
    rcases hwritten.getElem? hack with ⟨-, hready⟩ | ⟨j, hj, -⟩ | ⟨hne, -⟩
    · exact hready
    · omega
    · exact absurd rfl hne
  · intro k ack hack hcomplete
    rcases hwritten.getElem? hack with ⟨hk, -⟩ | ⟨j, hj, hlen, rfl⟩ | ⟨-, -, hf⟩
    · omega
    · obtain rfl : k = j := by omega
      refine ⟨hlen, rfl, rfl, counts_ackOf ?_ _ _⟩
      rw [List.length_take]
      omega
    · rw [hf.ack_eq] at hcomplete
      cases hcomplete
  · intro k ack hack hcomplete
    rcases hwritten.getElem? hack with ⟨-, rfl⟩ | ⟨j, -, -, rfl⟩ | ⟨-, hlast, -⟩
    · cases hcomplete
    · cases hcomplete
    · exact hlast
  · intro ack hack hcomplete
    rw [(hmem ack hack hcomplete).ack_eq]
    exact ⟨rfl, counts_ackOf hlt _ _⟩
  · intro ack hack hcomplete
    have hf := hmem ack hack hcomplete
    constructor
    · intro hneeded
      obtain ⟨heof, haccepted, huploaded⟩ := hf.ended hneeded
      exact ⟨heof, haccepted.symm.trans huploaded.symm⟩
    · rintro ⟨heof, -⟩
      cases hneeded : ack.notNeeded with
      | false => rfl
      | true =>
        have hopen := h.accounting.needed heof
        rw [hf.needed hneeded] at hopen
        cases hopen
  · intro ack hack hneeded
    obtain ⟨k, hk⟩ := List.mem_iff_getElem?.mp hack
    rcases hwritten.getElem? hk with ⟨-, rfl⟩ | ⟨j, -, -, rfl⟩ | ⟨-, -, hf⟩
    · cases hneeded
    · cases hneeded
    · rw [hf.ack_eq]
      rfl

/-- **The acks of every upload are honest**, whatever the scan, the execution and the client do
meanwhile. -/
theorem acks_honest (cfg : UploadConfig) (script : List FlightStreamChunk) (ls : List UploadStep)
    (u : Upload) (hrun : (machine cfg).run (.init script) ls = some u) : Honest u :=
  (Invariant.run hrun).honest

/-! ## A run in which the row counter wraps -/

/-- A batch of one constant column that is null in every row. -/
def nullBatch (rows : UInt64) : Bytes :=
  u64Bytes rows ++ [1, 0, 0, 0] ++ [34, 0, 0, 0]
    ++ ([1] ++ 10 :: List.replicate 15 0 ++ (u64Bytes rows).take 4 ++ List.replicate 13 0)
    ++ List.replicate 16 0

/-- Read the envelope of a frame and the row count of its batch, and take the columns as they
are. -/
def decodeRows (bytes : Bytes) : Except String NativeBatchView :=
  match parseNativeBatchFrame bytes with
  | .error e => .error e
  | .ok frame =>
    let rows := readU64 frame.payload 0
    if h : frame.sequence ≠ 0 ∧ 0 < rows.toNat ∧ rows.toNat < 2 ^ 32 then
      .ok ⟨frame.sequence, rows, frame.payload.length.toUInt64, h.1, h.2.1, h.2.2⟩
    else .error "invalid MO batch row count"

/-- An execution that accepts input frames of the largest size. -/
def nullConfig : UploadConfig where
  maxInputBatchBytes := kMaxStreamInputBatchBytes
  decode := decodeRows

/-- The message with the `n`-th such batch. -/
def nullChunk (rows : UInt64) (n : ℕ) : FlightStreamChunk where
  appMetadata := (serializeNativeBatchFrame n.toUInt64 (nullBatch rows)).toOption

/-- A stream of such batches, each with as many rows as a batch can have. -/
def nullScript (m : ℕ) : List FlightStreamChunk :=
  (List.range m).map fun i ↦ nullChunk 4294967295 (i + 1)

/-- A run that takes one frame and the end of the stream through the slot. -/
def oneFrameUpload : List UploadStep :=
  [.attach, .writeAck none, .read, .publish, .nextBatch, .markConsumed 1, .poll, .wake,
    .writeAck none, .read, .finish, .poll, .nextBatch, .wake, .writeAck none, .detach]

theorem acks_honest_oneFrameUpload :
    ∃ u, (machine nullConfig).run (.init (nullScript 1)) oneFrameUpload = some u ∧
      u.written.length = 3 ∧ Honest u := by
  have hlen : ((machine nullConfig).run (.init (nullScript 1)) oneFrameUpload).map
      (·.written.length) = some 3 := by decide +kernel
  obtain ⟨u, hrun, hwritten⟩ := Option.map_eq_some_iff.mp hlen
  exact ⟨u, hrun, hwritten, acks_honest nullConfig (nullScript 1) oneFrameUpload u hrun⟩

theorem dispatch_nullChunk {n : ℕ} (hpos : 0 < n) (hn : n < 2 ^ 64) :
    ∃ b, dispatch nullConfig (nullChunk 4294967295 n) = .publishing b ∧ b.sequence = n.toUInt64 ∧
      b.rows.toNat = 2 ^ 32 - 1 := by
  have hne : n.toUInt64 ≠ 0 := by
    intro h
    have h0 : n.toUInt64.toNat = 0 := by rw [h]; rfl
    rw [Nat.toUInt64_eq, UInt64.toNat_ofNat', Nat.mod_eq_of_lt hn] at h0
    omega
  have hbatch : nullBatch 4294967295 ≠ [] := by decide
  obtain ⟨bytes, hbytes, hlen, hparse⟩ := parseNativeBatchFrame_serialize hne hbatch (by decide)
  have hrows : readU64 (nullBatch 4294967295) 0 = 4294967295 := by decide
  have hlen64 : bytes.length.toUInt64 = 90 := by rw [hlen]; decide
  refine ⟨⟨n.toUInt64, 4294967295, (nullBatch 4294967295).length.toUInt64,
    hne, by decide, by decide⟩, ?_, rfl,
    rfl⟩
  have hmeta : (nullChunk 4294967295 n).appMetadata = some bytes := by rw [nullChunk, hbytes]; rfl
  have hdecode : nullConfig.decode bytes = .ok ⟨n.toUInt64, 4294967295,
      (nullBatch 4294967295).length.toUInt64, hne, by decide, by decide⟩ := by
    simp [nullConfig, decodeRows, hparse, hrows, hne]
  rw [dispatch, hmeta]
  simp only [hlen64, hdecode]
  rfl

/-- The handler is between two frames of an input that nobody has ended. -/
structure Between (u : Upload) (m : ℕ) (pending : List FlightStreamChunk) : Prop where
  handler : u.handler = .reading
  pending : u.pending = pending
  running : u.stopped = false
  cancelled : u.input.cancelled = false
  needed : u.input.notNeeded = false
  released : u.released.length = m

/-- One frame on its way through the slot. -/
def oneFrame (sequence : UInt64) : List UploadStep :=
  [.read, .publish, .nextBatch, .markConsumed sequence, .poll, .wake, .writeAck none]

/-- From one frame to the next, if the scan takes the frame as soon as it is there. -/
theorem Invariant.run_oneFrame (h : Invariant cfg script u) {rest : List FlightStreamChunk}
    {chunk : FlightStreamChunk} {b : NativeBatchView} (hu : Between u m (chunk :: rest))
    (hd : dispatch cfg chunk = .publishing b) (hseq : b.sequence.toNat = m + 1) :
    ∃ u', (machine cfg).run u (oneFrame b.sequence) = some u' ∧ Between u' (m + 1) rest ∧
      u'.released = u.released ++ [b] := by
  have hpoint := h.point
  simp only [AtPoint, hu.handler] at hpoint
  obtain ⟨hs, -⟩ := hpoint
  have hbatch := h.accounting.batch_eq_none hs.accepted
  have hnext : b.sequence = u.input.acknowledgedBatches + 1 := by
    have hlt := b.sequence.toNat_lt
    refine UInt64.toNat_inj.mp ?_
    rw [UInt64.toNat_add, h.accounting.batches, hu.released, UInt64.toNat_one, hseq]
    exact (Nat.mod_eq_of_lt (by omega)).symm
  -- the input with the frame in the slot, and with the frame released
  obtain ⟨s, hplaced⟩ : ∃ s, s = { u.input with batch := some b } := ⟨_, rfl⟩
  have hpublish : u.input.publish b = (s, .awaitingRelease) := by
    simp [StreamInput.publish, StreamInput.publishSlot, StreamInput.occupied, hs.attached,
      hs.detached, hs.writable, hnext, hbatch, hu.cancelled, hu.needed, hplaced]
  have hread : s.nextBatch = some (s, .ok (some b)) := by
    simp [StreamInput.nextBatch, StreamInput.ready, hplaced, hu.cancelled, hu.needed]
  have hreleased : s.released b.sequence = some b := by
    simp [StreamInput.released, hplaced]
  have hcancelled : s.cancelled = false := by simpa [hplaced] using hu.cancelled
  have hneeded : s.notNeeded = false := by simpa [hplaced] using hu.needed
  have hrelease : (s.markConsumed b.sequence).publishRelease =
      .returned (.ok ((s.markConsumed b.sequence).ack false false)) := by
    have hempty := StreamInput.markConsumed_batch_eq_none hreleased
    simp [StreamInput.publishRelease, StreamInput.occupied_eq_false hempty, hcancelled, hneeded]
  have hreading : (machine cfg).step u .read = some { u with
      pending := rest, handler := .publishing b, uploaded := u.uploaded ++ [b] } := by
    simp [machine, Upload.step, hu.handler, hu.pending, hd]
  refine ⟨{ u with
    input := s.markConsumed b.sequence, handler := .reading, pending := rest
    uploaded := u.uploaded ++ [b], accepted := u.accepted ++ [b], released := u.released ++ [b]
    written := u.written ++ [(s.markConsumed b.sequence).ack false false] }, ?_,
    ⟨rfl, rfl, hu.running, by simpa using hcancelled, by simpa using hneeded,
      by simp [hu.released]⟩,
    rfl⟩
  rw [oneFrame, Machine.run_cons, hreading]
  simp [Machine.run_cons, machine, Upload.step, hpublish, published, afterPublish, placed, hread,
    consume, hreleased, hu.running, afterPoll, hrelease, StreamInput.ack]

/-- Any number of the batches gets through. -/
theorem exists_run_nullScript (m : ℕ) (hm : m < 2 ^ 64) (rest : List FlightStreamChunk) :
    ∃ ls u, (machine nullConfig).run (.init (nullScript m ++ rest)) ls = some u ∧
      Between u m rest ∧ rowSum u.released = m * (2 ^ 32 - 1) := by
  induction m generalizing rest with
  | zero =>
    exact ⟨[.attach, .writeAck none], _, rfl, ⟨rfl, rfl, rfl, rfl, rfl, rfl⟩, (Nat.zero_mul _).symm⟩
  | succ m ih =>
    obtain ⟨ls, u, hrun, hu, hrows⟩ := ih (by omega) (nullChunk 4294967295 (m + 1) :: rest)
    obtain ⟨b, hd, hseq, hb⟩ := dispatch_nullChunk (n := m + 1) (by omega) hm
    have hseq' : b.sequence.toNat = m + 1 := by
      rw [hseq, Nat.toUInt64_eq, UInt64.toNat_ofNat']
      exact Nat.mod_eq_of_lt hm
    obtain ⟨u', hframe, hu', hreleased⟩ := (Invariant.run hrun).run_oneFrame hu hd hseq'
    refine ⟨ls ++ oneFrame b.sequence, u', ?_, hu', ?_⟩
    · have hscript : nullScript (m + 1) ++ rest =
          nullScript m ++ nullChunk 4294967295 (m + 1) :: rest := by
        rw [nullScript, List.range_succ, List.map_append, List.append_assoc]
        rfl
      rw [hscript]
      exact Machine.run_append_eq_some.mpr ⟨u, hrun, hframe⟩
    · rw [hreleased, rowSum_concat, hrows, hb, Nat.succ_mul]

/-- The row counter is not the sum of the released rows in every run: it wraps at `2 ^ 64`. -/
theorem rows_wrap :
    ∃ ls u, (machine nullConfig).run (.init (nullScript (2 ^ 32 + 2))) ls = some u ∧
      u.input.acknowledgedRows.toNat ≠ rowSum u.released := by
  obtain ⟨ls, u, hrun, -, hrows⟩ := exists_run_nullScript (2 ^ 32 + 2) (by decide) []
  rw [List.append_nil] at hrun
  refine ⟨ls, u, hrun, fun heq ↦ ?_⟩
  have hlt := u.input.acknowledgedRows.toNat_lt
  rw [heq, hrows] at hlt
  exact absurd hlt (by decide)

end MoSidecar.Upload
