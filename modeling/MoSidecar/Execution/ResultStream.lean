import MoSidecar.Execution.Lifecycle
import MoSidecar.Machine.Blocks

/-!
# The result stream

The worker cuts the result batches into numbered frames and hands them over one by one; the reader
of the result takes them out of the slot, and gets the status of the execution when the slot is
empty and the execution terminal. Cancellations may end the execution between any two sections, with
a frame in the slot or in the worker's hands.

As long as the execution is not terminal, the frames that were read, the one in the slot and the one
the worker holds cover the rows up to the place the worker has reached (`Position`). What was read
when the execution becomes terminal stays as it is from then on; and the status that becomes final
is OK only if the worker is the one to end it, at the end of the last batch.
-/

namespace MoSidecar

/-! ## What the reader gets -/

/-- How many rows a batch has; one whose callback throws has none. -/
def ExecutionConfig.rows (cfg : ExecutionConfig) (batch : ℕ) : ℕ :=
  match cfg.batches[batch]? with
  | some (.ok encoder) => encoder.rows
  | _ => 0

/-- All rows of all batches, as pairs of a batch and a row. -/
def ExecutionConfig.allRows (cfg : ExecutionConfig) : List (ℕ × ℕ) :=
  Blocks.upTo cfg.rows cfg.batches.length 0

/-- The rows of a range. -/
def RowRange.cells (r : RowRange) : List (ℕ × ℕ) := Blocks.segment r.batch r.offset r.rows

/-- The rows the frames encode, in order. -/
def coveredRows (frames : List ResultFrame) : List (ℕ × ℕ) := frames.flatMap (·.range.cells)

/-- The frame a call of `read_next` returned. -/
def ReadResult.frame? : ReadResult → Option ResultFrame
  | .frame f => some f
  | .ended _ => none

/-- The frames among the answers of `read_next`. -/
def framesOf (reads : List ReadResult) : List ResultFrame := reads.filterMap ReadResult.frame?

/-- A frame under its number: the encoding of some rows of a batch. -/
structure IsFrame (cfg : ExecutionConfig) (number : ℕ) (frame : ResultFrame) : Prop where
  number_lt : number < 2 ^ 64
  encoded : ∃ encoder, cfg.batches[frame.range.batch]? = some (.ok encoder) ∧
    FrameOf encoder number.toUInt64 frame

/-- The frames carry the numbers `1, 2, …`. -/
def Numbered (cfg : ExecutionConfig) (frames : List ResultFrame) : Prop :=
  ∀ i frame, frames[i]? = some frame → IsFrame cfg (i + 1) frame

section Frames

variable {cfg : ExecutionConfig} {frames : List ResultFrame} {frame : ResultFrame}

theorem coveredRows_concat :
    coveredRows (frames ++ [frame]) = coveredRows frames ++ frame.range.cells := by
  rw [coveredRows, List.flatMap_append, List.flatMap_singleton]
  rfl

theorem Numbered.nil : Numbered cfg [] := by
  intro i frame h
  rw [List.getElem?_nil] at h
  cases h

theorem Numbered.concat (h : Numbered cfg frames) (hframe : IsFrame cfg (frames.length + 1) frame) :
    Numbered cfg (frames ++ [frame]) := by
  intro i frame' hi
  rcases lt_trichotomy i frames.length with hlt | rfl | hgt
  · rw [List.getElem?_append_left hlt] at hi
    exact h i frame' hi
  · rw [List.getElem?_concat_length] at hi
    obtain rfl := Option.some.inj hi
    exact hframe
  · have hlen : (frames ++ [frame]).length ≤ i := by
      rw [List.length_append, List.length_singleton]
      exact hgt
    rw [List.getElem?_eq_none hlen] at hi
    cases hi

theorem framesOf_concat_frame (reads : List ReadResult) :
    framesOf (reads ++ [.frame frame]) = framesOf reads ++ [frame] := by
  simp [framesOf, ReadResult.frame?]

theorem framesOf_concat_ended (reads : List ReadResult) (status : Option ArrowError) :
    framesOf (reads ++ [.ended status]) = framesOf reads := by
  simp [framesOf, ReadResult.frame?]

theorem framesOf_map_frame (frames : List ResultFrame) : framesOf (frames.map .frame) = frames := by
  induction frames with
  | nil => rfl
  | cons f frames ih => exact congrArg (f :: ·) ih

theorem framesOf_eq_nil {reads : List ReadResult} {status : Option ArrowError}
    (h : ∀ r ∈ reads, r = .ended status) : framesOf reads = [] :=
  List.filterMap_eq_nil_iff.mpr fun r hr ↦ by rw [h r hr]; rfl

/-- Before the first answer without a frame, all frames have been read. -/
theorem framesOf_before {ends before after : List ReadResult} {status status' : Option ArrowError}
    (hends : ∀ r ∈ ends, r = .ended status')
    (h : before ++ .ended status :: after = frames.map .frame ++ ends) :
    framesOf before = frames := by
  rcases List.append_eq_append_iff.mp h with ⟨mid, hframes, htail⟩ | ⟨mid, hbefore, htail⟩
  · cases mid with
    | nil =>
      rw [List.append_nil] at hframes
      rw [← hframes, framesOf_map_frame]
    | cons r mid =>
      -- the answer would be one of the frames
      obtain ⟨rfl, -⟩ := List.cons.inj htail
      have hmem : ReadResult.ended status ∈ frames.map .frame :=
        hframes ▸ List.mem_append_right _ List.mem_cons_self
      obtain ⟨f, -, hf⟩ := List.mem_map.mp hmem
      cases hf
  · have hmid : framesOf mid = [] :=
      framesOf_eq_nil fun r hr ↦ hends r (htail ▸ List.mem_append_left _ hr)
    rw [hbefore, framesOf, List.filterMap_append, ← framesOf, ← framesOf, hmid, List.append_nil,
      framesOf_map_frame]

end Frames

/-! ## Where the worker stands -/

/-- The frames made so far cover the rows before a place in the batches. -/
structure Progress (cfg : ExecutionConfig) (frames : List ResultFrame) (sequence : UInt64)
    (batch offset : ℕ) : Prop where
  sequence : sequence.toNat = frames.length
  numbered : Numbered cfg frames
  covered : coveredRows frames = Blocks.upTo cfg.rows batch offset

section Places

variable {cfg : ExecutionConfig}

theorem rows_eq {batch : ℕ} {encoder : ResultEncoder}
    (h : cfg.batches[batch]? = some (.ok encoder)) : cfg.rows batch = encoder.rows := by
  rw [ExecutionConfig.rows, h]

/-- A place within a batch is a prefix of all rows. -/
theorem upTo_isPrefix_allRows {batch offset : ℕ} {encoder : ResultEncoder}
    (h : cfg.batches[batch]? = some (.ok encoder)) (hle : offset ≤ encoder.rows) :
    Blocks.upTo cfg.rows batch offset <+: cfg.allRows := by
  obtain ⟨hlt, -⟩ := List.getElem?_eq_some_iff.mp h
  exact Blocks.upTo_isPrefix hlt (by rwa [rows_eq h])

/-- The next frame continues the ones made so far. -/
theorem Progress.concat {frames : List ResultFrame} {sequence : UInt64} {batch offset : ℕ}
    {encoder : ResultEncoder} {frame : ResultFrame} (h : Progress cfg frames sequence batch offset)
    (hbatch : cfg.batches[batch]? = some (.ok encoder)) (hoffset : offset < encoder.rows)
    (hframe : nextFrame encoder cfg.maxBatchBytes (sequence + 1) batch offset = .ok frame) :
    frame.range.offset + frame.range.rows ≤ encoder.rows ∧
      Progress cfg (frames ++ [frame]) (sequence + 1) batch
        (frame.range.offset + frame.range.rows) := by
  obtain ⟨rfl, rfl, hspec⟩ := nextFrame_spec hoffset hframe
  refine ⟨hspec.range_le, ?_⟩
  -- the number that wraps around is refused by the serializer
  have hnumber : (sequence + 1).toNat = frames.length + 1 := by
    have hne : (sequence + 1).toNat ≠ 0 := fun hzero ↦
      hspec.sequence_ne_zero (UInt64.toNat_inj.mp hzero)
    have hlt := sequence.toNat_lt
    rw [UInt64.toNat_add, UInt64.toNat_one, h.sequence] at hne ⊢
    rw [h.sequence] at hlt
    omega
  constructor
  · rw [hnumber, List.length_append, List.length_singleton]
  · refine h.numbered.concat ⟨?_, encoder, hbatch, ?_⟩
    · rw [← hnumber]
      exact (sequence + 1).toNat_lt
    · rw [← hnumber, Nat.toUInt64_eq, UInt64.ofNat_toNat]
      exact hspec
  · rw [coveredRows_concat, h.covered]
    exact Blocks.upTo_append_segment

end Places

/-- The frames read and the frame in the slot, by the place of the worker of an execution that is
not terminal. -/
def Position (cfg : ExecutionConfig) (read : List ResultFrame) (slot : Option ResultFrame)
    (sequence : UInt64) (completed : Bool) : WorkerThread → Prop
  | .absent | .created => Progress cfg read sequence 0 0
  | .running (.batches next) => next ≤ cfg.batches.length ∧ Progress cfg read sequence next 0
  | .running (.consuming batch) => batch < cfg.batches.length ∧ Progress cfg read sequence batch 0
  | .running (.encoding batch encoder offset) =>
    cfg.batches[batch]? = some (.ok encoder) ∧ offset ≤ encoder.rows ∧
      Progress cfg read sequence batch offset
  | .running (.publishing batch encoder frame) =>
    cfg.batches[batch]? = some (.ok encoder) ∧
      frame.range.offset + frame.range.rows ≤ encoder.rows ∧
      Progress cfg (read ++ [frame]) sequence batch (frame.range.offset + frame.range.rows)
  | .running (.published batch encoder offset) =>
    cfg.batches[batch]? = some (.ok encoder) ∧ offset ≤ encoder.rows ∧
      Progress cfg (read ++ slot.toList) sequence batch offset
  | .running (.finishing status _) =>
    status = none → completed = true ∧ coveredRows read = cfg.allRows
  | .running .expiring | .running .stopped | .running .leaving | .exited | .joined => True

namespace EntryControl

variable {cfg : ExecutionConfig} {c c' : EntryControl}

/-- What the reader of the result has got. -/
structure Delivered (cfg : ExecutionConfig) (c : EntryControl) : Prop where
  numbered : Numbered cfg (framesOf c.reads)
  covered : coveredRows (framesOf c.reads) <+: cfg.allRows
  position : c.terminal = false →
    Position cfg (framesOf c.reads) c.frame c.sequence c.completed c.worker
  final : c.terminal = true → c.terminalStatus = none →
    c.completed = true ∧ coveredRows (framesOf c.reads) = cfg.allRows
  reads : ∃ ends, c.reads = (framesOf c.reads).map .frame ++ ends ∧
    ∀ r ∈ ends, c.terminal = true ∧ r = .ended c.terminalStatus

/-- A section in which the reader gets nothing and the execution does not become terminal. -/
theorem Delivered.moved (h : Delivered cfg c) (hreads : c'.reads = c.reads)
    (hterminal : c'.terminal = c.terminal) (hstatus : c'.terminalStatus = c.terminalStatus)
    (hcompleted : c.completed = true → c'.completed = true)
    (hposition : c.terminal = false →
      Position cfg (framesOf c.reads) c'.frame c'.sequence c'.completed c'.worker) :
    Delivered cfg c' where
  numbered := by
    rw [hreads]
    exact h.numbered
  covered := by
    rw [hreads]
    exact h.covered
  position ht := by
    rw [hterminal] at ht
    rw [hreads]
    exact hposition ht
  final ht hs := by
    rw [hterminal] at ht
    rw [hstatus] at hs
    rw [hreads]
    exact (h.final ht hs).imp_left hcompleted
  reads := by
    rw [hreads, hterminal, hstatus]
    exact h.reads

/-- Before the execution is terminal the reader has only got frames. -/
theorem Delivered.reads_eq (h : Delivered cfg c) (ht : c.terminal = false) :
    c.reads = (framesOf c.reads).map .frame := by
  obtain ⟨ends, hreads, hends⟩ := h.reads
  have hnone : ends = [] := List.eq_nil_iff_forall_not_mem.mpr fun r hr ↦ by
    simpa [ht] using (hends r hr).1
  rw [hnone, List.append_nil] at hreads
  exact hreads

/-- The transition to terminal. -/
theorem Delivered.ended (h : Delivered cfg c) (ht : c.terminal = false)
    (hreads : c'.reads = c.reads) (hterminal : c'.terminal = true)
    (hfinal : c'.terminalStatus = none →
      c'.completed = true ∧ coveredRows (framesOf c.reads) = cfg.allRows) : Delivered cfg c' where
  numbered := by
    rw [hreads]
    exact h.numbered
  covered := by
    rw [hreads]
    exact h.covered
  position ht' := by
    rw [hterminal] at ht'
    cases ht'
  final _ hs := by
    rw [hreads]
    exact hfinal hs
  reads := by
    refine ⟨[], ?_, nofun⟩
    rw [hreads, List.append_nil]
    exact h.reads_eq ht

/-! ## One section at a time -/

theorem claim_delivered (h : Delivered cfg c) : Delivered cfg c.claim := by
  rw [claim]
  split_ifs
  · exact h
  · exact h.moved rfl rfl rfl id h.position

theorem start_delivered (hs : Sound c) (h : Delivered cfg c) : Delivered cfg c.start := by
  rw [start]
  split_ifs with hno
  · exact h
  · refine h.moved rfl rfl rfl id fun ht ↦ ?_
    have hposition := h.position ht
    simp only [Bool.or_eq_true, Bool.not_eq_true', not_or, Bool.not_eq_false] at hno
    cases hw : c.worker with
    | absent =>
      rw [hw] at hposition
      exact hposition
    | joined => simpa [hw, ht] using hs.left (by rw [hw]; trivial)
    | _ => simp [hw, WorkerThread.joinable] at hno

/-- The reader takes the frame out of the slot, which is then the next one. -/
theorem readSlot_delivered (hs : Sound c) (h : Delivered cfg c) (expired : Bool) :
    Delivered cfg (c.readSlot expired).1 := by
  rw [readSlot]
  cases hf : c.frame with
  | some f =>
    obtain ⟨ht, batch, encoder, offset, hw⟩ := hs.frame (by simp [hf])
    have hposition := h.position ht
    rw [hw, hf] at hposition
    obtain ⟨hbatch, hoffset, hprogress⟩ := hposition
    have hreads : framesOf (c.reads ++ [.frame f]) = framesOf c.reads ++ [f] :=
      framesOf_concat_frame c.reads
    constructor
    · show Numbered cfg (framesOf (c.reads ++ [.frame f]))
      rw [hreads]
      exact hprogress.numbered
    · show coveredRows (framesOf (c.reads ++ [.frame f])) <+: cfg.allRows
      rw [hreads]
      exact hprogress.covered ▸ upTo_isPrefix_allRows hbatch hoffset
    · intro _
      show Position cfg (framesOf (c.reads ++ [.frame f])) none c.sequence c.completed c.worker
      rw [hreads, hw]
      refine ⟨hbatch, hoffset, ?_⟩
      rw [Option.toList_none, List.append_nil]
      exact hprogress
    · intro ht'
      rw [show c.terminal = true from ht'] at ht
      cases ht
    · refine ⟨[], ?_, by simp⟩
      show c.reads ++ [.frame f] = (framesOf (c.reads ++ [.frame f])).map .frame ++ []
      rw [hreads, List.map_append, ← h.reads_eq ht, List.append_nil]
      rfl
  | none =>
    by_cases ht : c.terminal = true
    · rw [if_pos ht]
      have hreads : framesOf (c.reads ++ [.ended c.terminalStatus]) = framesOf c.reads :=
        framesOf_concat_ended c.reads c.terminalStatus
      constructor
      · show Numbered cfg (framesOf (c.reads ++ [.ended c.terminalStatus]))
        rw [hreads]
        exact h.numbered
      · show coveredRows (framesOf (c.reads ++ [.ended c.terminalStatus])) <+: cfg.allRows
        rw [hreads]
        exact h.covered
      · intro ht'
        rw [show c.terminal = false from ht'] at ht
        cases ht
      · intro _ hstatus
        show _ ∧ coveredRows (framesOf (c.reads ++ [.ended c.terminalStatus])) = cfg.allRows
        rw [hreads]
        exact h.final ht hstatus
      · obtain ⟨ends, heq, hends⟩ := h.reads
        refine ⟨ends ++ [.ended c.terminalStatus], ?_, fun r hr ↦ ?_⟩
        · show c.reads ++ _ = (framesOf (c.reads ++ [.ended c.terminalStatus])).map .frame ++ _
          rw [hreads, ← List.append_assoc, ← heq]
        · rcases List.mem_append.mp hr with hr | hr
          · exact hends r hr
          · exact ⟨ht, List.mem_singleton.mp hr⟩
    · rw [if_neg ht]
      exact h

theorem terminate_delivered (h : Delivered cfg c) (cause : Cause) :
    Delivered cfg (c.terminate cause) := by
  rw [terminate]
  split_ifs with ht
  · exact h
  · exact h.ended (by simpa using ht) rfl rfl (by simp)

theorem finish_delivered (h : Delivered cfg c) {status : Option ArrowError}
    {outcome : ExecutionOutcome} (hw : c.worker = .running (.finishing status outcome)) :
    Delivered cfg (c.finish status) := by
  rw [finish]
  split_ifs with ht
  · exact h.moved rfl rfl rfl id fun ht' ↦ by simp [ht] at ht'
  · have ht' : c.terminal = false := by simpa using ht
    have hposition := h.position ht'
    rw [hw] at hposition
    exact h.ended ht' rfl rfl hposition

/-- **The worker** hands over the rows of the batches one after the other. -/
theorem runStep_delivered (hs : Sound c) (h : Delivered cfg c) {k : EntryAnswer} {point : RunPoint}
    {calls : List EntryCall} (hw : c.worker = .running point)
    (hrun : c.runStep cfg k point = some (c', calls)) : Delivered cfg c' := by
  have hposition := h.position
  rw [hw] at hposition
  cases section_of_runStep hrun with
  | called hnext => exact h.moved rfl rfl rfl id fun ht ↦ ⟨hnext, (hposition ht).2⟩
  | completed hnext =>
    refine h.moved rfl rfl rfl (fun _ ↦ rfl) fun ht _ ↦ ⟨rfl, ?_⟩
    rw [(hposition ht).2.covered, hnext]
    rfl
  | threw => exact h.moved rfl rfl rfl id fun _ ↦ by rintro ⟨⟩
  | expired | unpublished | untaken | left => exact h.moved rfl rfl rfl id fun _ ↦ trivial
  | opened hbatch =>
    exact h.moved rfl rfl rfl id fun ht ↦ ⟨hbatch, Nat.zero_le _, (hposition ht).2⟩
  | framed hoffset hframe =>
    refine h.moved rfl rfl rfl id fun ht ↦ ?_
    obtain ⟨hbatch, -, hprogress⟩ := hposition ht
    obtain ⟨hle, hnext⟩ := hprogress.concat hbatch hoffset hframe
    exact ⟨hbatch, hle, hnext⟩
  | @consumed batch offset encoder hoffset =>
    refine h.moved rfl rfl rfl id fun ht ↦ ?_
    obtain ⟨hbatch, hle, hprogress⟩ := hposition ht
    obtain ⟨hlt, -⟩ := List.getElem?_eq_some_iff.mp hbatch
    refine ⟨hlt, hprogress.sequence, hprogress.numbered, ?_⟩
    -- the end of a batch is the start of the next one
    rw [hprogress.covered, show offset = cfg.rows batch by rw [rows_eq hbatch]; omega,
      Blocks.upTo_size]
  | published => exact h.moved rfl rfl rfl id hposition
  | taken hempty =>
    refine h.moved rfl rfl rfl id fun ht ↦ ?_
    obtain ⟨hbatch, hle, hprogress⟩ := hposition ht
    rw [hempty, Option.toList_none, List.append_nil] at hprogress
    exact ⟨hbatch, hle, hprogress⟩
  | returned =>
    have ht : c.terminal = true := hs.stopped hw
    exact h.moved rfl rfl rfl id fun ht' ↦ by simp [ht] at ht'
  | finished => exact finish_delivered h hw

theorem Step.delivered (hs : Sound c) (h : Delivered cfg c) (hstep : Step cfg c c') :
    Delivered cfg c' := by
  cases hstep with
  | claim => exact claim_delivered h
  | start => exact start_delivered hs h
  | readSlot expired => exact readSlot_delivered hs h expired
  | terminate cause => exact terminate_delivered h cause
  | taken => exact h.moved rfl rfl rfl id fun _ ↦ trivial
  | quiesce | notify => exact h.moved rfl rfl rfl id h.position
  | join => exact h.moved rfl rfl rfl id fun _ ↦ trivial
  | enter hw =>
    refine h.moved rfl rfl rfl id fun ht ↦ ⟨Nat.zero_le _, ?_⟩
    have hposition := h.position ht
    rw [hw] at hposition
    exact hposition
  | run hw hrun => exact runStep_delivered hs h hw hrun

theorem Steps.delivered (hs : Sound c) (h : Delivered cfg c) (hsteps : Steps cfg c c') :
    Delivered cfg c' := by
  induction hsteps with
  | refl => exact h
  | tail hsteps hstep ih => exact hstep.delivered (Steps.spec hs hsteps).1 ih

/-! ## What it comes to -/

/-- What is delivered to the reader of a result, at any time. -/
structure ResultOnce (cfg : ExecutionConfig) (c : EntryControl) : Prop where
  numbered : Numbered cfg (framesOf c.reads)
  in_order : coveredRows (framesOf c.reads) <+: cfg.allRows
  once : (coveredRows (framesOf c.reads)).Nodup
  /-- A clean end of the stream: `run_batches` completed, nothing else ended the execution first,
  and the frames that were read before hold every row. -/
  eof : ∀ before after, c.reads = before ++ .ended none :: after →
    c.completed = true ∧ c.terminalStatus = none ∧ coveredRows (framesOf before) = cfg.allRows

/-- Where an answer without a frame stands, all frames have been read. -/
theorem Delivered.frames_before (h : Delivered cfg c) {before after : List ReadResult}
    {status : Option ArrowError} (hsplit : c.reads = before ++ .ended status :: after) :
    framesOf before = framesOf c.reads ∧ c.terminal = true ∧ status = c.terminalStatus := by
  obtain ⟨ends, hreads, hends⟩ := h.reads
  have hall : ∀ r ∈ ends, r = .ended c.terminalStatus := fun r hr ↦ (hends r hr).2
  have hsame : before ++ .ended status :: after = (framesOf c.reads).map .frame ++ ends :=
    hsplit.symm.trans hreads
  have hmem : ReadResult.ended status ∈ ends := by
    have hin : ReadResult.ended status ∈ (framesOf c.reads).map .frame ++ ends :=
      hsame ▸ List.mem_append_right _ List.mem_cons_self
    refine (List.mem_append.mp hin).resolve_left fun hframe ↦ ?_
    obtain ⟨f, -, hf⟩ := List.mem_map.mp hframe
    cases hf
  exact ⟨framesOf_before hall hsame, (hends _ hmem).1, ReadResult.ended.inj (hall _ hmem)⟩

theorem Delivered.resultOnce (h : Delivered cfg c) : ResultOnce cfg c where
  numbered := h.numbered
  in_order := h.covered
  once := Blocks.nodup_upTo.sublist h.covered.sublist
  eof before after hsplit := by
    obtain ⟨hbefore, hterminal, hstatus⟩ := h.frames_before hsplit
    obtain ⟨hcompleted, hall⟩ := h.final hterminal hstatus.symm
    exact ⟨hcompleted, hstatus.symm, hbefore ▸ hall⟩

end EntryControl

/-! ## Runs -/

namespace ExecutionEntry

open EntryControl

variable {ι : Type*} [DecidableEq ι] {cfg : ExecutionConfig}

theorem delivered_init (cfg : ExecutionConfig) : Delivered cfg {} where
  numbered := .nil
  covered := List.nil_prefix
  position _ := ⟨rfl, .nil, rfl⟩
  final := nofun
  reads := ⟨[], rfl, nofun⟩

/-- **The result stream is delivered exactly once, and a clean end is the end of the result.** For
every list of result batches and every size limit, and however the sections of the worker, the
reader and any cancellations interleave: the frames are numbered `1, 2, …`, they encode the rows of
all batches in order and without a gap, and OK without a frame is only returned after a frame for
every row, when `run_batches` has completed and nothing else has ended the execution. -/
theorem result_once (cfg : ExecutionConfig)
    (ms : List (Move (Option ι) EntryCall EntryAnswer (Bytes × InputTraffic)))
    (c : Threads ExecutionEntry (Option ι) EntryCall)
    (hrun : (program cfg ι).machine.run (init ι) ms = some c) :
    ResultOnce cfg c.shared.toEntryControl :=
  (Steps.delivered holds_init.1 (delivered_init cfg) (run_control holds_init hrun)).resultOnce

/-- A result of two rows, each of which fills a frame. -/
def twoRows : ExecutionConfig where
  maxBatchBytes := 1
  inputRefs := []
  batches := [.ok ⟨2, fun _ rows ↦ .ok rows, fun _ rows ↦ .ok (List.replicate rows 7)⟩]

/-- The worker hands over two frames, the reader takes them and asks once more. -/
def readTwoRows : List (Move (Option Unit) EntryCall EntryAnswer (Bytes × InputTraffic)) :=
  [.call (some ()) .claim, .exec (some ()) {}, .call (some ()) .start, .exec (some ()) {},
    .call none .run, .exec none {}, .exec none {}, .exec none {}, .exec none {},
    .call (some ()) .readNext, .exec (some ()) {}, .exec none {}, .exec none {}, .exec none {},
    .call (some ()) .readNext, .exec (some ()) {}, .exec none {}, .exec none {},
    .exec none { batches := .returns }, .exec none {}, .call (some ()) .readNext,
    .exec (some ()) {}]

theorem result_once_twoRows :
    ∃ c, (program twoRows Unit).machine.run (init Unit) readTwoRows = some c ∧
      coveredRows (framesOf c.shared.reads) = [(0, 0), (0, 1)] ∧
        .ended none ∈ c.shared.reads ∧ ResultOnce twoRows c.shared.toEntryControl := by
  have hend : ((program twoRows Unit).machine.run (init Unit) readTwoRows).map
      (fun c ↦ (coveredRows (framesOf c.shared.reads), c.shared.reads.getLast?))
        = some ([(0, 0), (0, 1)], some (.ended none)) := by
    decide +kernel
  obtain ⟨c, hrun, hfields⟩ := Option.map_eq_some_iff.mp hend
  obtain ⟨hrows, hlast⟩ := Prod.mk.inj hfields
  exact ⟨c, hrun, hrows, List.mem_of_getLast? hlast, result_once twoRows readTwoRows c hrun⟩

end ExecutionEntry

end MoSidecar
