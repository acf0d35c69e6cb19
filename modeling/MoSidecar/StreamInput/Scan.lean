import MoSidecar.StreamInput.Truncation

/-!
# The scan of a stream input

`scan_stream` is called again and again by the engine, each call filling one chunk. Between calls it
keeps the batch it is reading and the offset of the next row; it holds no lock while it fills a
chunk. A call is three steps here: the release of a finished batch, `next_batch`, and the filling.

The rows the scan emits are compared with the rows of the uploaded frames as lists of pairs of a
batch and a row number.
-/

namespace MoSidecar

/-- What the scan of a stream is configured with besides the upload: `STANDARD_VECTOR_SIZE`. -/
structure ScanConfig extends UploadConfig where
  vectorSize : UInt64
  vectorSize_pos : 0 < vectorSize.toNat

/-- `stream_global_state`. -/
structure StreamGlobalState where
  batch : Option NativeBatchView := none
  offset : UInt64 := 0

/-- The program points of a call of `scan_stream`. -/
inductive ScanPoint where
  /-- Between two calls. -/
  | idle
  /-- Before `next_batch`. -/
  | fetching
  /-- Before the chunk is filled. -/
  | filling
  deriving DecidableEq

/-- A chunk the scan has emitted: some rows of a batch. -/
structure Chunk where
  batch : NativeBatchView
  offset : UInt64
  count : UInt64

/-- The rows of a chunk, in order. -/
def Chunk.rows (c : Chunk) : List (NativeBatchView × ℕ) :=
  (List.range c.count.toNat).map fun i ↦ (c.batch, c.offset.toNat + i)

/-- An upload and the scan that reads it. -/
structure Scan where
  upload : Upload
  state : StreamGlobalState := {}
  point : ScanPoint := .idle
  /-- The chunks emitted so far. -/
  chunks : List Chunk := []
  /-- The batches `mark_consumed` was called for. -/
  marked : List NativeBatchView := []

/-- Who does what next. -/
inductive ScanStep where
  /-- A call of `scan_stream` begins. -/
  | enter
  | nextBatch
  /-- The chunk is filled, unless `fill_column` throws. -/
  | fill (thrown : Bool)
  /-- A step of the handler, the client or the execution. -/
  | other (l : UploadStep)
  deriving DecidableEq

/-- The steps that are the scan's own. -/
def UploadStep.isScan : UploadStep → Bool
  | .nextBatch | .markConsumed _ => true
  | _ => false

namespace Scan

variable (cfg : ScanConfig)

def init (script : List FlightStreamChunk) : Scan where
  upload := .init script

/-- One step of an upload and its scan. -/
def step (s : Scan) : ScanStep → Option Scan
  | .enter =>
    if s.point = .idle then
      match s.state.batch with
      | some b =>
        if s.state.offset = b.rows then
          some { s with
            upload := s.upload.consume b.sequence, state := {}, point := .fetching
            marked := s.marked ++ [b] }
        else some { s with point := .filling }
      | none => some { s with point := .fetching }
    else none
  | .nextBatch =>
    if s.point = .fetching then
      s.upload.input.nextBatch.map fun r ↦
        let upload := { s.upload with input := r.1 }
        match r.2 with
        | .ok (some b) =>
          { s with
            upload := upload, state := { s.state with batch := some b }, point := .filling }
        | .ok none | .error _ => { s with upload := upload, point := .idle }
    else none
  | .fill thrown =>
    if s.point = .filling then
      s.state.batch.map fun b ↦
        if thrown then { s with point := .idle }
        else
          let count := min cfg.vectorSize (b.rows - s.state.offset)
          { s with
            state := { s.state with offset := s.state.offset + count }, point := .idle
            chunks := s.chunks ++ [⟨b, s.state.offset, count⟩] }
    else none
  | .other l =>
    if l.isScan then none
    else (Upload.step cfg.toUploadConfig s.upload l).map fun u ↦ { s with upload := u }

/-- The interleavings of an upload and its scan. -/
def machine : Machine Scan ScanStep := ⟨step cfg⟩

/-! ## Rows -/

/-- The rows of a batch, in order. -/
def rowsOf (b : NativeBatchView) : List (NativeBatchView × ℕ) :=
  (List.range b.rows.toNat).map (b, ·)

/-- All rows emitted so far, in the order of their emission. -/
def emitted (s : Scan) : List (NativeBatchView × ℕ) := s.chunks.flatMap Chunk.rows

/-- The rows of the current batch that have been emitted. -/
def current (state : StreamGlobalState) : List (NativeBatchView × ℕ) :=
  match state.batch with
  | none => []
  | some b => (List.range state.offset.toNat).map (b, ·)

end Scan

namespace Upload

variable {cfg : UploadConfig} {script : List FlightStreamChunk} {u u' : Upload} {l : UploadStep}

/-- What a step of anybody but the scan means to the scan: either the slot keeps its frame unless
the stream has ended, or the handler places the next frame into the empty slot. -/
structure Outside (u u' : Upload) : Prop where
  released : u'.released = u.released
  consumerEof : u'.input.consumerEof = u.input.consumerEof
  closed : Closed u.input → Closed u'.input
  slot : (u'.accepted = u.accepted ∧ (Closed u'.input ∨ u'.input.batch = u.input.batch)) ∨
    (u.input.batch = none ∧ u.input.producerEof = false ∧ ∃ b, u'.accepted = u.accepted ++ [b])

/-- A step that changes none of what the scan sees. -/
theorem Outside.of_eq (hreleased : u'.released = u.released) (haccepted : u'.accepted = u.accepted)
    (heof : u'.input.consumerEof = u.input.consumerEof)
    (hcancelled : u'.input.cancelled = u.input.cancelled)
    (hneeded : u'.input.notNeeded = u.input.notNeeded)
    (hbatch : u'.input.batch = u.input.batch) : Outside u u' where
  released := hreleased
  consumerEof := heof
  closed h := by rwa [Closed, hcancelled, hneeded]
  slot := .inl ⟨haccepted, .inr hbatch⟩

theorem outside_close_markNotNeeded : Outside u (u.close u.input.markNotNeeded) := by
  rcases StreamInput.markNotNeeded_cases (s := u.input) with heq | ⟨heq, -⟩
  all_goals rw [close, heq]
  · exact .of_eq rfl rfl rfl rfl rfl rfl
  · exact ⟨rfl, rfl, fun _ ↦ .inr rfl, .inl ⟨rfl, .inl (.inr rfl)⟩⟩

theorem outside_close_cancel (error : String) (pc : DoPut) :
    Outside u { u.close (u.input.cancel error) with handler := pc } := by
  rcases StreamInput.cancel_cases (s := u.input) error with heq | ⟨heq, -⟩
  all_goals rw [close, heq]
  · exact .of_eq rfl rfl rfl rfl rfl rfl
  · exact ⟨rfl, rfl, fun _ ↦ .inl rfl, .inl ⟨rfl, .inl (.inl rfl)⟩⟩

theorem outside_publish (hinv : Invariant cfg script u) {b : NativeBatchView}
    (hpc : u.handler = .publishing b) : Outside u (u.published b (u.input.publish b)) := by
  have hpoint := hinv.point
  simp only [AtPoint, hpc] at hpoint
  obtain ⟨-, haccepted, heof, hattached, hdetached, -⟩ := hpoint
  have hbatch := hinv.accounting.batch_eq_none haccepted
  rw [StreamInput.publish, StreamInput.publishSlot_of_batch_none hbatch]
  split_ifs
  · exact .of_eq rfl (by simp [published, placed]) rfl rfl rfl rfl
  · exact .of_eq rfl (by simp [published, placed]) rfl rfl rfl rfl
  · exact .of_eq rfl (by simp [published, placed]) rfl rfl rfl rfl
  · exact .of_eq rfl (by simp [published, placed]) rfl rfl rfl rfl
  · exact ⟨rfl, rfl, id, .inr ⟨hbatch, heof, b, rfl⟩⟩

theorem outside_of_step (hinv : Invariant cfg script u) (hl : l.isScan = false)
    (hstep : step cfg u l = some u') : Outside u u' := by
  revert hstep
  fun_cases step cfg u l <;> intro hstep
  case case1 hpc s hattach =>
    cases hstep
    obtain ⟨-, -, rfl⟩ := StreamInput.attach_eq_ok.mp hattach
    exact .of_eq rfl rfl rfl rfl rfl rfl
  all_goals
    first
    | (cases hstep; exact .of_eq rfl rfl rfl rfl rfl rfl)
    | (cases hstep; exact outside_close_markNotNeeded)
    | (cases hstep; exact outside_close_cancel _ _)
    | (cases hstep; exact outside_publish hinv ‹_›)
    | (cases hstep; done)
    | (cases hl; done)
    | exact absurd hinv.point (by simp [AtPoint, *])

end Upload

namespace Scan

variable {cfg : ScanConfig} {script : List FlightStreamChunk} {ls : List ScanStep} {s s' : Scan}

/-! ## The invariant of the scan -/

/-- What relates the scan to the slot and to the history of the upload. -/
structure Invariant (cfg : ScanConfig) (script : List FlightStreamChunk) (s : Scan) : Prop where
  upload : Upload.Invariant cfg.toUploadConfig script s.upload
  /-- All rows of the marked batches were emitted, and those of the current one up to the offset. -/
  emitted_eq : s.emitted = s.marked.flatMap rowsOf ++ current s.state
  /-- The scan has seen the accepted frames, one after the other. -/
  seen : s.marked ++ s.state.batch.toList <+: s.upload.accepted
  /-- On an open input the scan holds the slot's batch, or has released what it had. -/
  open_slot : ¬Upload.Closed s.upload.input → s.marked = s.upload.released ∧
    (s.state.batch = none ∨ s.state.batch = s.upload.input.batch)
  /-- At the end of the input it has seen all there is. -/
  ended : s.upload.input.consumerEof = true → s.state.batch = none ∧
    s.marked = s.upload.accepted
  fetching : s.point = .fetching → s.state.batch = none
  offset : s.state.batch = none → s.state.offset = 0
  filling : s.point = .filling → ∃ b, s.state.batch = some b ∧ s.state.offset.toNat < b.rows.toNat
  offset_le : ∀ b, s.state.batch = some b → s.state.offset.toNat ≤ b.rows.toNat
  nonempty : ∀ c ∈ s.chunks, 0 < c.count.toNat

theorem current_of_batch_none {state : StreamGlobalState} (h : state.batch = none) :
    current state = [] := by
  rw [current, h]

theorem current_of_batch_some {state : StreamGlobalState} {b : NativeBatchView}
    (h : state.batch = some b) :
    current state = (List.range state.offset.toNat).map (b, ·) := by
  rw [current, h]

/-- Filling a chunk moves the emitted rows of a batch on by the rows of the chunk. -/
theorem range_append_rows (b : NativeBatchView) (offset count : UInt64)
    (h : (offset + count).toNat = offset.toNat + count.toNat) :
    (List.range (offset + count).toNat).map (b, ·)
      = (List.range offset.toNat).map (b, ·) ++ (Chunk.mk b offset count).rows := by
  rw [h, List.range_add, List.map_append, List.map_map, Chunk.rows]
  rfl

/-- A chunk is never empty and never reaches beyond its batch. -/
theorem count_spec (cfg : ScanConfig) {b : NativeBatchView} {offset : UInt64}
    (h : offset.toNat < b.rows.toNat) :
    0 < (min cfg.vectorSize (b.rows - offset)).toNat ∧
      offset.toNat + (min cfg.vectorSize (b.rows - offset)).toNat ≤ b.rows.toNat ∧
      (offset + min cfg.vectorSize (b.rows - offset)).toNat
        = offset.toNat + (min cfg.vectorSize (b.rows - offset)).toNat := by
  have hrows := b.rows_lt
  have hsub : (b.rows - offset).toNat = b.rows.toNat - offset.toNat :=
    UInt64.toNat_sub_of_le _ _ (UInt64.le_iff_toNat_le.mpr h.le)
  have hmin : (min cfg.vectorSize (b.rows - offset)).toNat
      = min cfg.vectorSize.toNat (b.rows - offset).toNat := by
    have hdef : min cfg.vectorSize (b.rows - offset)
        = if cfg.vectorSize ≤ b.rows - offset then cfg.vectorSize else b.rows - offset := rfl
    rw [hdef, Nat.min_def]
    split_ifs with h1 h2 h2
    · rfl
    · exact absurd (UInt64.le_iff_toNat_le.mp h1) h2
    · exact absurd (UInt64.le_iff_toNat_le.mpr h2) h1
    · rfl
  have hpos := cfg.vectorSize_pos
  rw [UInt64.toNat_add, hmin, hsub]
  refine ⟨?_, ?_, ?_⟩ <;> omega

namespace Invariant

theorem init : Invariant cfg script (Scan.init script) where
  upload := Upload.Invariant.init
  emitted_eq := rfl
  seen := List.nil_prefix
  open_slot _ := ⟨rfl, .inl rfl⟩
  ended := nofun
  fetching := nofun
  offset _ := rfl
  filling := nofun
  offset_le := nofun
  nonempty := nofun

/-- Releasing a batch that was read to its end. -/
theorem enter (h : Invariant cfg script s) (hstep : step cfg s .enter = some s') :
    Invariant cfg script s' := by
  simp only [step] at hstep
  split_ifs at hstep with hidle
  cases hbatch : s.state.batch with
  | none =>
    simp only [hbatch] at hstep
    obtain rfl := Option.some.inj hstep
    exact { h with fetching := fun _ ↦ hbatch, filling := by simp }
  | some b =>
    simp only [hbatch] at hstep
    split_ifs at hstep with hdone
    · obtain rfl := Option.some.inj hstep
      have hseen := h.seen
      rw [hbatch] at hseen
      refine
        { upload := h.upload.step (.markConsumed b.sequence) rfl
          emitted_eq := ?_
          seen := by simpa [Upload.consume] using hseen
          open_slot := fun hopen ↦ ?_
          ended := fun heof ↦ ?_
          fetching := fun _ ↦ rfl
          offset := fun _ ↦ rfl
          filling := by simp
          offset_le := by simp
          nonempty := h.nonempty }
      · have hcurrent : current s.state = rowsOf b := by
          rw [current_of_batch_some hbatch, hdone, rowsOf]
        rw [List.flatMap_append, List.flatMap_singleton, current_of_batch_none rfl,
          List.append_nil, ← hcurrent]
        exact h.emitted_eq
      · have hopen' : ¬Upload.Closed s.upload.input := fun hc ↦
          hopen (hc.markConsumed b.sequence)
        obtain ⟨hmarked, hslot⟩ := h.open_slot hopen'
        have hb : s.upload.input.batch = some b := by
          rw [hbatch] at hslot
          exact (hslot.resolve_left (by simp)).symm
        have hreleased : s.upload.input.released b.sequence = some b :=
          StreamInput.released_eq_some.mpr ⟨hb, rfl⟩
        exact ⟨by simp [Upload.consume, hmarked, hreleased], .inl rfl⟩
      · have heof' : s.upload.input.consumerEof = true := by simpa [Upload.consume] using heof
        exact absurd (h.ended heof').1 (by simp [hbatch])
    · obtain rfl := Option.some.inj hstep
      have hle := h.offset_le b hbatch
      have hne : s.state.offset.toNat ≠ b.rows.toNat := fun heq ↦ hdone (UInt64.toNat_inj.mp heq)
      exact { h with
        fetching := by simp
        filling := fun _ ↦ ⟨b, hbatch, Nat.lt_of_le_of_ne hle hne⟩ }

/-- The answer of `next_batch`. -/
theorem nextBatch (h : Invariant cfg script s) (hstep : step cfg s .nextBatch = some s') :
    Invariant cfg script s' := by
  simp only [step] at hstep
  split_ifs at hstep with hfetching
  obtain ⟨⟨input, r⟩, hr, rfl⟩ := Option.map_eq_some_iff.mp hstep
  have hbatch := h.fetching hfetching
  have hupload : Upload.Invariant cfg.toUploadConfig script { s.upload with input := input } :=
    h.upload.step .nextBatch (by simp [Upload.step, hr])
  have hclosed : Upload.Closed s.upload.input → Upload.Closed input := fun hc ↦ hc.nextBatch hr
  -- the scan leaves with nothing: a null pointer or an exception
  have hnothing : Invariant cfg script
      { s with upload := { s.upload with input := input }, point := .idle } := by
    refine { h with
      upload := hupload
      open_slot := fun hopen ↦ ?_
      ended := fun heof ↦ ?_
      fetching := by simp
      filling := by simp }
    · exact ⟨(h.open_slot fun hc ↦ hopen (hclosed hc)).1, .inl hbatch⟩
    · rcases StreamInput.nextBatch_cases hr with rfl | ⟨rfl, -, -, hslot, hcancelled, hneeded⟩
      · exact h.ended heof
      · have hopen : ¬Upload.Closed s.upload.input := by simp [Upload.Closed, hcancelled, hneeded]
        refine ⟨hbatch, (h.open_slot hopen).1.trans ?_⟩
        exact (h.upload.accounting.accepted_eq_released hslot hcancelled hneeded).symm
  rcases r with error | _ | b
  · exact hnothing
  · exact hnothing
  · obtain ⟨rfl, hslot, hcancelled, hneeded⟩ := StreamInput.nextBatch_batch hr
    have hopen : ¬Upload.Closed s.upload.input := by simp [Upload.Closed, hcancelled, hneeded]
    have hmarked := (h.open_slot hopen).1
    have hzero := h.offset hbatch
    have haccepted : s.upload.accepted = s.marked ++ [b] := by
      rw [h.upload.accounting.accepted_eq, hslot, h.upload.accounting.kept hcancelled hneeded,
        hmarked]
      simp
    refine
      { upload := hupload
        emitted_eq := ?_
        seen := by simp [haccepted]
        open_slot := fun _ ↦ ⟨hmarked, .inr hslot.symm⟩
        ended := fun heof ↦ absurd (h.upload.accounting.ended heof).2 (by simp [hslot])
        fetching := by simp
        offset := by simp
        filling := fun _ ↦ ⟨b, rfl, by simpa [hzero] using b.rows_pos⟩
        offset_le := fun b' _ ↦ by simp [hzero]
        nonempty := h.nonempty }
    have hemitted := h.emitted_eq
    rw [current_of_batch_none hbatch] at hemitted
    rw [current_of_batch_some rfl]
    simpa [hzero, emitted] using hemitted

/-- Filling a chunk. -/
theorem fill (h : Invariant cfg script s) {thrown : Bool}
    (hstep : step cfg s (.fill thrown) = some s') : Invariant cfg script s' := by
  have hfilling : s.point = .filling := by
    by_contra hne
    simp [step, hne] at hstep
  obtain ⟨b, hbatch, hlt⟩ := h.filling hfilling
  simp only [step, hfilling, if_true, hbatch, Option.map_some] at hstep
  cases thrown with
  | true =>
    obtain rfl := Option.some.inj hstep
    exact { h with fetching := nofun, filling := nofun }
  | false =>
    obtain rfl := Option.some.inj hstep
    obtain ⟨hpos, hle, hadd⟩ := count_spec cfg hlt
    refine { h with
      emitted_eq := ?_
      seen := by simpa [hbatch] using h.seen
      open_slot := by simpa [hbatch] using h.open_slot
      ended := by simpa [hbatch] using h.ended
      fetching := nofun
      offset := nofun
      filling := nofun
      offset_le := fun b' hb' ↦ ?_
      nonempty := fun c hc ↦ ?_ }
    · have hemitted := h.emitted_eq
      rw [current_of_batch_some hbatch] at hemitted
      rw [current_of_batch_some (b := b) rfl]
      simp only [Bool.false_eq_true, if_false]
      rw [range_append_rows _ _ _ hadd, ← List.append_assoc, ← hemitted]
      simp [emitted]
    · obtain rfl : b = b' := Option.some.inj hb'
      simpa [hadd] using hle
    · rcases List.mem_append.mp hc with hc | hc
      · exact h.nonempty c hc
      · obtain rfl := List.mem_singleton.mp hc
        exact hpos

/-- A step of anybody else. -/
theorem other (h : Invariant cfg script s) {l : UploadStep}
    (hstep : step cfg s (.other l) = some s') : Invariant cfg script s' := by
  simp only [step] at hstep
  split_ifs at hstep with hl
  obtain ⟨u, hu, rfl⟩ := Option.map_eq_some_iff.mp hstep
  have hout := Upload.outside_of_step h.upload (by simpa using hl) hu
  refine { h with
    upload := h.upload.step l hu
    seen := ?_
    open_slot := fun hopen ↦ ?_
    ended := fun heof ↦ ?_ }
  · refine h.seen.trans ?_
    rcases hout.slot with ⟨haccepted, -⟩ | ⟨-, -, b, haccepted⟩ <;> simp [haccepted]
  · have hopen' : ¬Upload.Closed s.upload.input := fun hc ↦ hopen (hout.closed hc)
    obtain ⟨hmarked, hslot⟩ := h.open_slot hopen'
    refine ⟨hmarked.trans hout.released.symm, ?_⟩
    rcases hout.slot with ⟨-, hkept⟩ | ⟨hempty, -⟩
    · rw [hkept.resolve_left hopen]
      exact hslot
    · exact .inl (hslot.elim id fun heq ↦ heq.trans hempty)
  · have heof' : s.upload.input.consumerEof = true := hout.consumerEof ▸ heof
    obtain ⟨hbatch, hmarked⟩ := h.ended heof'
    refine ⟨hbatch, hmarked.trans ?_⟩
    rcases hout.slot with ⟨haccepted, -⟩ | ⟨-, hopen, -⟩
    · exact haccepted.symm
    · -- nothing is accepted after the end of the input
      simp [(h.upload.accounting.ended heof').1] at hopen

theorem step (h : Invariant cfg script s) (l : ScanStep) (hstep : step cfg s l = some s') :
    Invariant cfg script s' := by
  cases l with
  | enter => exact h.enter hstep
  | nextBatch => exact h.nextBatch hstep
  | fill thrown => exact h.fill hstep
  | other l => exact h.other hstep

theorem run (hrun : (machine cfg).run (.init script) ls = some s) : Invariant cfg script s :=
  Machine.invariant init (fun _ l _ h hstep ↦ h.step l hstep) hrun

end Invariant

/-! ## Exactly once, in order -/

/-- What the scan of an upload delivers. -/
structure ExactlyOnce (cfg : ScanConfig) (script : List FlightStreamChunk) (s : Scan) : Prop where
  /-- The emitted rows are the rows of the uploaded frames, in order, up to some row. -/
  in_order : s.emitted <+: (Upload.frames cfg.toUploadConfig script).flatMap rowsOf
  once : s.emitted.Nodup
  nonempty : ∀ c ∈ s.chunks, 0 < c.count.toNat
  /-- A batch is marked as consumed when all of its rows were emitted, and not before. -/
  marked : ∀ b ∈ s.marked, ∀ row ∈ rowsOf b, row ∈ s.emitted
  /-- At the end of the input all rows of all accepted frames have been emitted. -/
  complete : s.upload.input.consumerEof = true →
    s.emitted = s.upload.accepted.flatMap rowsOf

theorem current_isPrefix {state : StreamGlobalState}
    (h : ∀ b, state.batch = some b → state.offset.toNat ≤ b.rows.toNat) :
    current state <+: state.batch.toList.flatMap rowsOf := by
  cases hbatch : state.batch with
  | none => simp [current_of_batch_none hbatch]
  | some b =>
    obtain ⟨k, hk⟩ := Nat.exists_eq_add_of_le (h b hbatch)
    rw [current_of_batch_some hbatch, Option.toList_some, List.flatMap_singleton, rowsOf, hk,
      List.range_add, List.map_append]
    exact List.prefix_append _ _

theorem nodup_rows {bs : List NativeBatchView} (h : bs.Nodup) : (bs.flatMap rowsOf).Nodup := by
  refine List.nodup_flatMap.mpr ⟨fun b _ ↦ ?_, h.imp fun {b b'} hne row hb hb' ↦ ?_⟩
  · exact List.nodup_range.map fun i j hij ↦ (Prod.mk.inj hij).2
  · obtain ⟨i, -, rfl⟩ := List.mem_map.mp hb
    obtain ⟨j, -, heq⟩ := List.mem_map.mp hb'
    exact hne (Prod.mk.inj heq).1.symm

theorem Invariant.emitted_isPrefix (h : Invariant cfg script s) :
    s.emitted <+: s.upload.accepted.flatMap rowsOf := by
  refine List.IsPrefix.trans ?_ (h.seen.flatMap rowsOf)
  rw [h.emitted_eq, List.flatMap_append]
  exact (List.prefix_append_right_inj _).mpr (current_isPrefix h.offset_le)

theorem Invariant.exactlyOnce (h : Invariant cfg script s) : ExactlyOnce cfg script s where
  in_order := by
    refine h.emitted_isPrefix.trans (List.IsPrefix.flatMap (h.upload.accepted.trans ?_) rowsOf)
    rw [h.upload.script]
    exact List.prefix_append _ _
  once := (nodup_rows h.upload.accounting.nodup).sublist h.emitted_isPrefix.sublist
  nonempty := h.nonempty
  marked b hb row hrow := by
    rw [h.emitted_eq]
    exact List.mem_append_left _ (List.mem_flatMap.mpr ⟨b, hb, hrow⟩)
  complete heof := by
    obtain ⟨hbatch, hmarked⟩ := h.ended heof
    rw [h.emitted_eq, current_of_batch_none hbatch, List.append_nil, hmarked]

/-- **The scan delivers an upload exactly once and in order**, for every upload, every vector size
and every interleaving with the handler, the client and the execution. -/
theorem exactly_once (cfg : ScanConfig) (script : List FlightStreamChunk) (ls : List ScanStep)
    (s : Scan) (hrun : (machine cfg).run (.init script) ls = some s) :
    ExactlyOnce cfg script s :=
  (Invariant.run hrun).exactlyOnce

/-- Chunks of two rows. -/
def pairs : ScanConfig where
  toUploadConfig := Upload.nullConfig
  vectorSize := 2
  vectorSize_pos := by decide

/-- A batch of three rows, scanned to the end of the input. -/
def threeRows : List ScanStep :=
  [.other .attach, .other (.writeAck none), .other .read, .enter, .other .publish, .nextBatch,
    .fill false, .enter, .fill false, .enter, .other .poll, .other .wake, .other (.writeAck none),
    .other .read, .other .finish, .nextBatch]

theorem exactly_once_threeRows :
    ∃ s, (machine pairs).run (.init [Upload.nullChunk 3 1]) threeRows = some s ∧
      s.upload.input.consumerEof = true ∧ s.chunks.length = 2 ∧
        ExactlyOnce pairs [Upload.nullChunk 3 1] s := by
  have hend : ((machine pairs).run (.init [Upload.nullChunk 3 1]) threeRows).map
      (fun s ↦ (s.upload.input.consumerEof, s.chunks.length)) = some (true, 2) := by
    decide +kernel
  obtain ⟨s, hrun, hfields⟩ := Option.map_eq_some_iff.mp hend
  obtain ⟨heof, hlen⟩ := Prod.mk.inj hfields
  exact ⟨s, hrun, heof, hlen, exactly_once pairs [Upload.nullChunk 3 1] threeRows s hrun⟩

end Scan

end MoSidecar
