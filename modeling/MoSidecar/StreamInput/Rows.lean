import MoSidecar.Machine.Blocks
import MoSidecar.Native.Batches
import MoSidecar.Native.Rows
import MoSidecar.StreamInput.Scan

/-!
# The rows of a stream input

What the slot and the scan keep of a batch is its number and how many rows it has. Here the batches
have columns: a frame is decoded to one, and the chunks of the scan are filled from it, column by
column. Then the engine gets the rows that the client has uploaded, in order and each once, where
`fill_column` keeps the values: where no decimal is too narrow, and no date too early.
-/

namespace MoSidecar

/-- `what()`. -/
def Thrown.what : Thrown → String
  | .substrait _ what | .invalidArgument what | .exception what => what
  | .unknown => ""

/-- The batch, as far as the slot reads it. -/
structure DecodedBatch.Looks (b : DecodedBatch) (v : NativeBatchView) : Prop where
  sequence : v.sequence = b.sequence
  rows : v.rows.toNat = b.rows
  payloadBytes : v.payloadBytes = b.payloadBytes.toUInt64

section Decoding

variable {tae : TaeTypes} {schema : NamedStruct} {bytes : Bytes} {b : DecodedBatch}

/-- A batch that is decoded has a number and rows. -/
theorem of_decodeFrame (h : decodeFrame tae schema bytes = .ok b) :
    b.sequence ≠ 0 ∧ 0 < b.rows ∧ b.rows < 2 ^ 32 := by
  obtain ⟨hne, payload, -, hview⟩ := carries_of_decodeFrame h
  obtain ⟨hpos, hlt, -⟩ := of_nativeBatchView hview
  exact ⟨hne, hpos, hlt⟩

theorem toNat_rows (hlt : b.rows < 2 ^ 32) : b.rows.toUInt64.toNat = b.rows := by
  rw [Nat.toUInt64_eq, UInt64.toNat_ofNat', Nat.mod_eq_of_lt (by omega)]

/-- What the slot keeps of a batch. -/
def DecodedBatch.view (b : DecodedBatch) (h : b.sequence ≠ 0 ∧ 0 < b.rows ∧ b.rows < 2 ^ 32) :
    NativeBatchView where
  sequence := b.sequence
  rows := b.rows.toUInt64
  payloadBytes := b.payloadBytes.toUInt64
  sequence_ne_zero := h.1
  rows_pos := by
    rw [toNat_rows h.2.2]
    exact h.2.1
  rows_lt := by
    rw [toNat_rows h.2.2]
    exact h.2.2

/-- `parse_native_batch_frame` followed by the constructor of `native_batch_view`. -/
def decodeView (tae : TaeTypes) (schema : NamedStruct) (bytes : Bytes) :
    Except String NativeBatchView :=
  match h : decodeFrame tae schema bytes with
  | .error e => .error e.what
  | .ok b => .ok (b.view (of_decodeFrame h))

theorem exists_batch_of_decodeView {v : NativeBatchView}
    (h : decodeView tae schema bytes = .ok v) :
    ∃ b : DecodedBatch, decodeFrame tae schema bytes = .ok b ∧ b.Looks v := by
  unfold decodeView at h
  split at h
  · cases h
  · rename_i b hb
    obtain rfl := Except.ok.inj h
    exact ⟨b, hb, rfl, toNat_rows (of_decodeFrame hb).2.2, rfl⟩

end Decoding

/-! ## Chunks -/

/-- The loop of `scan_stream` over the columns of a batch. -/
def fillChunk (tae : TaeTypes) (b : DecodedBatch) (count offset : ℕ) :
    Except Fault (List FilledVector) :=
  b.columns.mapM fun c ↦ fillColumn tae c count offset

/-- A row of a chunk, for vectors of the given types. A constant vector has one row. -/
def outputRow (types : List LogicalType) (vectors : List FilledVector) (row : ℕ) : Row :=
  List.zipWith (fun t v ↦ v.valueAt (t.physicalWidth.getD 0) (if v.constant then 0 else row))
    types vectors

def outputRows (types : List LogicalType) (vectors : List FilledVector) (count : ℕ) : List Row :=
  (List.range count).map (outputRow types vectors)

section Chunks

variable {tae : TaeTypes} {schema : NamedStruct} {bytes : Bytes} {b : DecodedBatch}
  {names : List Bytes} {types : List LogicalType} {columns : List NativeColumnView}
  {vectors : List FilledVector} {count offset row : ℕ}

/-- A vector that is filled has the column's values. -/
theorem valueAt_of_preserved {c : NativeColumnView} {t : LogicalType} {v : FilledVector}
    (h : c.Preserved tae t count offset) (hfill : fillColumn tae c count offset = .ok v)
    (hrow : row < count) :
    v.valueAt (t.physicalWidth.getD 0) (if v.constant then 0 else row)
      = c.valueAt tae (c.sourceRow offset row) := by
  obtain ⟨width, hwidth, v', hfill', hholds⟩ := h
  obtain rfl := Except.ok.inj (hfill.symm.trans hfill')
  have hvalue := hholds.valueAt_eq
  rw [hwidth, Option.getD_some, hholds.constant_eq]
  cases hconstant : c.isConstant with
  | true =>
    have hsource : c.sourceRow offset row = c.sourceRow offset 0 := by
      rw [NativeColumnView.sourceRow, NativeColumnView.sourceRow, if_pos hconstant,
        if_pos hconstant]
    rw [if_pos rfl, hsource]
    apply hvalue
    rw [NativeColumnView.outputRows, if_pos hconstant]
    exact Nat.one_pos
  | false =>
    rw [if_neg Bool.false_ne_true]
    apply hvalue
    rw [NativeColumnView.outputRows, hconstant, if_neg Bool.false_ne_true]
    exact hrow

/-- Where each copy is right, the chunk is filled, and its rows are those of the columns. -/
theorem exists_vectors
    (h : List.Forall₂ (fun t c ↦ c.Preserved tae t count offset) types columns) :
    ∃ vectors, columns.mapM (fun c ↦ fillColumn tae c count offset) = .ok vectors ∧
      ∀ row < count, outputRow types vectors row
        = columns.map fun c ↦ c.valueAt tae (c.sourceRow offset row) := by
  induction h with
  | nil => exact ⟨[], rfl, fun _ _ ↦ rfl⟩
  | @cons t c types columns hc _ ih =>
    obtain ⟨vectors, hvectors, hrows⟩ := ih
    obtain ⟨-, -, v, hfill, -⟩ := id hc
    refine ⟨v :: vectors, ?_, fun row hrow ↦ ?_⟩
    · rw [List.mapM_cons, hfill, ok_bind_eq, hvectors, ok_bind_eq]
      rfl
    · have htail := hrows row hrow
      rw [outputRow] at htail ⊢
      rw [List.zipWith_cons_cons, List.map_cons, htail, valueAt_of_preserved hc hfill hrow]

/-- The columns of an accepted batch, with their types. -/
theorem forall₂_columns (hschema : streamInput schema = .ok (names, types))
    (hdecode : decodeFrame tae schema bytes = .ok b) :
    List.Forall₂ (fun t c ↦ ∃ expected ∈ schema.types.getD [], logicalType expected = .ok t ∧
      c.Valid tae b.rows expected ∧ ∃ nulls, IsNullBitmap b.rows nulls c.nullCount c.nullWords)
      types b.columns := by
  obtain ⟨-, payload, -, hview⟩ := carries_of_decodeFrame hdecode
  obtain ⟨-, hlt, vectors, hvectors, hcolumns⟩ := of_nativeBatchView hview
  obtain ⟨⟨⟩, -, hrest⟩ := bind_eq_ok.mp hschema
  obtain ⟨types', htypes, hrest'⟩ := bind_eq_ok.mp hrest
  obtain ⟨-, rfl⟩ := Prod.mk.inj (Except.ok.inj hrest')
  have hpairs := mapM_eq_ok.mp htypes
  rw [hcolumns, List.forall₂_map_right_iff]
  refine List.forall₂_iff_get.mpr ⟨hpairs.length_eq.symm.trans hvectors.length_eq, ?_⟩
  intro i hi hi'
  have hi'' : i < (schema.types.getD []).length := hpairs.length_eq ▸ hi
  obtain ⟨-, hparsed⟩ := (List.forall₂_iff_get.mp hvectors).2 i hi'' hi'
  obtain ⟨hvalid, typeBytes, nulls, sorted, hencodes⟩ := (parseColumn_eq_ok hlt).mp hparsed
  exact ⟨_, List.getElem_mem hi'', (List.forall₂_iff_get.mp hpairs).2 i hi'' hi, hvalid, nulls,
    hencodes.nulls_eq⟩

/-- No date of the batch is too early for DuckDB. -/
def DecodedBatch.DatesFit (tae : TaeTypes) (b : DecodedBatch) : Prop :=
  ∀ c ∈ b.columns, c.DatesFit tae b.rows 0

theorem sameWidth_of_true {expected : SubstraitType} (h : expected.SameWidth True) (copies : Prop) :
    expected.SameWidth copies := by
  cases expected with
  | decimal => exact ⟨h.1, fun _ ↦ h.2 trivial⟩
  | _ => trivial

/-- The dates of some rows are among those of all. -/
theorem datesFit_of_le {c : NativeColumnView} {rows : ℕ} (h : c.DatesFit tae rows 0)
    (hrange : offset + count ≤ rows) : c.DatesFit tae count offset := by
  intro hdate row hrow z hz
  cases hconstant : c.isConstant with
  | true =>
    apply h hdate 0
    · rw [NativeColumnView.outputRows, if_pos hconstant]
      exact Nat.one_pos
    · rw [NativeColumnView.sourceRow, if_pos hconstant] at hz ⊢
      exact hz
  | false =>
    rw [NativeColumnView.outputRows, hconstant, if_neg Bool.false_ne_true] at hrow
    apply h hdate (offset + row)
    · rw [NativeColumnView.outputRows, hconstant, if_neg Bool.false_ne_true]
      omega
    · rw [NativeColumnView.sourceRow, hconstant, if_neg Bool.false_ne_true] at hz ⊢
      rw [Nat.zero_add]
      exact hz

/-- **A chunk has the rows of the batch** from the offset on. -/
theorem exists_fillChunk (hschema : streamInput schema = .ok (names, types))
    (hwidths : ∀ expected ∈ schema.types.getD [], expected.SameWidth True)
    (hdecode : decodeFrame tae schema bytes = .ok b) (hdates : b.DatesFit tae)
    (hrange : offset + count ≤ b.rows) :
    ∃ vectors, fillChunk tae b count offset = .ok vectors ∧
      outputRows types vectors count = ((b.allRows tae).drop offset).take count := by
  obtain ⟨-, hpos, hlt⟩ := of_decodeFrame hdecode
  have hpreserved : List.Forall₂ (fun t c ↦ c.Preserved tae t count offset) types b.columns := by
    have hall : List.Forall₂ (fun c t ↦ c ∈ b.columns ∧
        ∃ expected ∈ schema.types.getD [], logicalType expected = .ok t ∧
          c.Valid tae b.rows expected ∧ ∃ nulls, IsNullBitmap b.rows nulls c.nullCount c.nullWords)
        b.columns types :=
      (List.forall₂_and_left b.columns types).mpr
        ⟨fun _ ↦ id, (forall₂_columns hschema hdecode).flip⟩
    apply (hall.imp _).flip
    rintro c t ⟨hc, expected, hexpected, ht, hvalid, nulls, hnulls⟩
    exact (NativeColumnView.preserved_iff hvalid hnulls hpos hlt hrange ht).mpr
      ⟨sameWidth_of_true (hwidths expected hexpected) _, datesFit_of_le (hdates c hc) hrange⟩
  obtain ⟨vectors, hfill, hrows⟩ := exists_vectors hpreserved
  refine ⟨vectors, hfill, List.ext_getElem ?_ ?_⟩
  · simp only [outputRows, DecodedBatch.allRows, List.length_map, List.length_range,
      List.length_take, List.length_drop]
    omega
  · intro i hi _
    have hi' : i < count := by
      rw [outputRows, List.length_map, List.length_range] at hi
      exact hi
    have hsource (c : NativeColumnView) : c.sourceRow 0 (offset + i) = c.sourceRow offset i := by
      rw [NativeColumnView.sourceRow, NativeColumnView.sourceRow, Nat.zero_add]
    simp only [outputRows, DecodedBatch.allRows, DecodedBatch.rowAt, List.getElem_map,
      List.getElem_range, List.getElem_take, List.getElem_drop, hsource]
    exact hrows i hi'

end Chunks

/-! ## Uploads -/

/-- The batches of a script that reach `publish`, if nothing stops the handler before. -/
def Upload.batches (cfg : UploadConfig) (tae : TaeTypes) (schema : NamedStruct)
    (script : List FlightStreamChunk) : List DecodedBatch :=
  script.filterMap fun chunk ↦
    match Upload.dispatch cfg chunk with
    | .publishing _ => chunk.appMetadata.bind fun bytes ↦ (decodeFrame tae schema bytes).toOption
    | _ => none

namespace Upload

variable {cfg : UploadConfig} {tae : TaeTypes} {schema : NamedStruct} {chunk : FlightStreamChunk}
  {v : NativeBatchView} {b : DecodedBatch}

theorem decode_of_dispatch (h : dispatch cfg chunk = .publishing v) :
    ∃ bytes, chunk.appMetadata = some bytes ∧ cfg.decode bytes = .ok v := by
  rw [dispatch] at h
  cases hmetadata : chunk.appMetadata with
  | none =>
    simp only [hmetadata] at h
    split_ifs at h
  | some bytes =>
    simp only [hmetadata] at h
    split_ifs at h
    cases hdecode : cfg.decode bytes with
    | error what =>
      rw [hdecode] at h
      cases h
    | ok v' =>
      rw [hdecode] at h
      exact ⟨bytes, rfl, DoPut.publishing.inj h ▸ hdecode⟩

/-- The frames of a script are its batches. -/
theorem forall₂_batches (hdecode : cfg.decode = decodeView tae schema)
    (script : List FlightStreamChunk) :
    List.Forall₂ (fun v b ↦ b.Looks v) (frames cfg script) (batches cfg tae schema script) := by
  induction script with
  | nil => exact .nil
  | cons chunk script ih =>
    by_cases hpublishing : ∃ v, dispatch cfg chunk = .publishing v
    · obtain ⟨v, hv⟩ := hpublishing
      obtain ⟨bytes, hmetadata, hbytes⟩ := decode_of_dispatch hv
      rw [hdecode] at hbytes
      obtain ⟨b, hb, hlooks⟩ := exists_batch_of_decodeView hbytes
      have hcons : batches cfg tae schema (chunk :: script)
          = b :: batches cfg tae schema script := by
        simp [batches, hv, hmetadata, hb, Except.toOption]
      rw [frames_cons_of_publishing hv, hcons]
      exact .cons hlooks ih
    · have hnot : ∀ v, dispatch cfg chunk ≠ .publishing v := fun v hv ↦ hpublishing ⟨v, hv⟩
      have hcons : batches cfg tae schema (chunk :: script) = batches cfg tae schema script := by
        rw [batches, List.filterMap_cons_none, ← batches]
        split
        · rename_i v hv
          exact absurd hv (hnot v)
        · rfl
      rw [frames_cons_of_ne_publishing hnot, hcons]
      exact ih

/-- A batch of a script was decoded from one of its messages. -/
theorem decodeFrame_of_mem_batches {script : List FlightStreamChunk}
    (h : b ∈ batches cfg tae schema script) :
    ∃ chunk ∈ script, ∃ bytes, chunk.appMetadata = some bytes ∧
      decodeFrame tae schema bytes = .ok b := by
  obtain ⟨chunk, hchunk, h⟩ := List.mem_filterMap.mp h
  split at h
  · obtain ⟨bytes, hbytes, h⟩ := Option.bind_eq_some_iff.mp h
    refine ⟨chunk, hchunk, bytes, hbytes, ?_⟩
    cases hdecode : decodeFrame tae schema bytes with
    | error e =>
      rw [hdecode] at h
      cases h
    | ok b' =>
      rw [hdecode] at h
      exact congrArg _ (Option.some.inj h)
  · cases h

end Upload

/-! ## What the engine gets -/

namespace Scan

variable {cfg : ScanConfig} {tae : TaeTypes} {schema : NamedStruct} {names : List Bytes}
  {types : List LogicalType} {script : List FlightStreamChunk} {s : Scan}
  {batches : List DecodedBatch} {v : NativeBatchView} {b : DecodedBatch}

/-- What the chunks of the scan are filled with, for the batches that were accepted. -/
structure Materialized (cfg : ScanConfig) (tae : TaeTypes) (schema : NamedStruct)
    (types : List LogicalType) (script : List FlightStreamChunk) (s : Scan)
    (batches : List DecodedBatch) (output : List (List Row)) : Prop where
  accepted : List.Forall₂ (fun v b ↦ b.Looks v) s.upload.accepted batches
  uploaded : batches <+: Upload.batches cfg.toUploadConfig tae schema script
  filled : List.Forall₂ (fun chunk rows ↦ ∃ b ∈ batches, b.Looks chunk.batch ∧ ∃ vectors,
    fillChunk tae b chunk.count.toNat chunk.offset.toNat = .ok vectors ∧
      rows = outputRows types vectors chunk.count.toNat) s.chunks output
  /-- The rows are those of the batches, in order, up to some row. -/
  in_order : output.flatten <+: batches.flatMap (·.allRows tae)
  /-- At the end of the input there are all of them. -/
  complete : s.upload.input.consumerEof = true →
    output.flatten = batches.flatMap (·.allRows tae)

/-- The place of a row among the batches. -/
def place (row : NativeBatchView × ℕ) : ℕ × ℕ := (row.1.sequence.toNat - 1, row.2)

/-- What stands at the places of some rows. -/
theorem filterMap_place {rows : List (NativeBatchView × ℕ)} {block : List Row}
    {blocks : List (List Row)} {n k l : ℕ} (hrows : rows.map place = Blocks.segment n k l)
    (hblock : blocks[n]? = some block) :
    rows.filterMap (Blocks.entry blocks ∘ place) = (block.drop k).take l := by
  rw [← Blocks.filterMap_segment hblock, ← hrows, List.filterMap_map]

theorem map_place_chunk (chunk : Chunk) : chunk.rows.map place = Blocks.segment
    (chunk.batch.sequence.toNat - 1) chunk.offset.toNat chunk.count.toNat := by
  rw [Chunk.rows, List.map_map]
  rfl

theorem map_place_rowsOf (v : NativeBatchView) :
    (rowsOf v).map place = Blocks.segment (v.sequence.toNat - 1) 0 v.rows.toNat := by
  rw [rowsOf, List.map_map, Blocks.segment]
  apply List.map_congr_left
  intro i _
  rw [Nat.zero_add]
  rfl

/-- A chunk is of a batch that was accepted, and within it. -/
theorem Invariant.of_mem_chunks (h : Invariant cfg script s) {chunk : Chunk}
    (hchunk : chunk ∈ s.chunks) :
    chunk.batch ∈ s.upload.accepted ∧
      chunk.offset.toNat + chunk.count.toNat ≤ chunk.batch.rows.toNat := by
  have hpos := h.nonempty chunk hchunk
  have hlast : (chunk.batch, chunk.offset.toNat + (chunk.count.toNat - 1)) ∈ chunk.rows :=
    List.mem_map.mpr ⟨chunk.count.toNat - 1, List.mem_range.mpr (by omega), rfl⟩
  have hemitted := h.emitted_isPrefix.subset (List.mem_flatMap.mpr ⟨chunk, hchunk, hlast⟩)
  obtain ⟨v, hv, hrow⟩ := List.mem_flatMap.mp hemitted
  obtain ⟨row, hrow, heq⟩ := List.mem_map.mp hrow
  obtain ⟨rfl, rfl⟩ := Prod.mk.inj heq
  have hlt := List.mem_range.mp hrow
  exact ⟨hv, by omega⟩

/-- The rows of an accepted batch stand at the places of its number. -/
theorem getElem?_allRows (haccepted : List.Forall₂ (fun v b ↦ b.Looks v) s.upload.accepted batches)
    (hsequences : ∀ i v, s.upload.accepted[i]? = some v → v.sequence.toNat = i + 1)
    (hv : v ∈ s.upload.accepted) : ∃ b ∈ batches, b.Looks v ∧
      (batches.map (·.allRows tae))[v.sequence.toNat - 1]? = some (b.allRows tae) := by
  obtain ⟨i, hi, rfl⟩ := List.getElem_of_mem hv
  obtain ⟨hlength, hget⟩ := List.forall₂_iff_get.mp haccepted
  have hi' : i < batches.length := hlength ▸ hi
  refine ⟨batches[i], List.getElem_mem hi', hget i hi hi', ?_⟩
  rw [hsequences i _ (List.getElem?_eq_getElem hi), Nat.add_sub_cancel, List.getElem?_map,
    List.getElem?_eq_getElem hi']
  rfl

/-- The rows of all accepted batches. -/
theorem filterMap_accepted (tae : TaeTypes)
    (haccepted : List.Forall₂ (fun v b ↦ b.Looks v) s.upload.accepted batches)
    (hsequences : ∀ i v, s.upload.accepted[i]? = some v → v.sequence.toNat = i + 1) :
    (s.upload.accepted.flatMap rowsOf).filterMap
      (Blocks.entry (batches.map (·.allRows tae)) ∘ place) = batches.flatMap (·.allRows tae) := by
  rw [List.filterMap_flatMap]
  apply flatMap_eq_of_forall₂
  obtain ⟨hlength, hget⟩ := List.forall₂_iff_get.mp haccepted
  refine List.forall₂_iff_get.mpr ⟨hlength, fun i hi hi' ↦ ?_⟩
  have hblock : (batches.map (·.allRows tae))[s.upload.accepted[i].sequence.toNat - 1]?
      = some (batches[i].allRows tae) := by
    rw [hsequences i _ (List.getElem?_eq_getElem hi), Nat.add_sub_cancel, List.getElem?_map,
      List.getElem?_eq_getElem hi']
    rfl
  have hrows : s.upload.accepted[i].rows.toNat = (batches[i].allRows tae).length := by
    rw [DecodedBatch.allRows, List.length_map, List.length_range]
    exact (hget i hi hi').rows
  rw [List.get_eq_getElem, List.get_eq_getElem, filterMap_place (map_place_rowsOf _) hblock,
    List.drop_zero, hrows, List.take_length]

/-- Something for each element of a list. -/
theorem exists_forall₂ {α β : Type} {P : α → β → Prop} {xs : List α}
    (h : ∀ x ∈ xs, ∃ y, P x y) : ∃ ys, List.Forall₂ P xs ys := by
  induction xs with
  | nil => exact ⟨[], .nil⟩
  | cons x xs ih =>
    obtain ⟨y, hy⟩ := h x List.mem_cons_self
    obtain ⟨ys, hys⟩ := ih fun x' hx' ↦ h x' (List.mem_cons_of_mem _ hx')
    exact ⟨y :: ys, .cons hy hys⟩

theorem Invariant.materialized (h : Invariant cfg script s)
    (hdecode : cfg.decode = decodeView tae schema)
    (hschema : streamInput schema = .ok (names, types))
    (hwidths : ∀ expected ∈ schema.types.getD [], expected.SameWidth True)
    (hdates : ∀ chunk ∈ script, ∀ bytes, chunk.appMetadata = some bytes →
      ∀ b, decodeFrame tae schema bytes = .ok b → b.DatesFit tae) :
    ∃ batches output, Materialized cfg tae schema types script s batches output := by
  have hprefix : s.upload.accepted <+: Upload.frames cfg.toUploadConfig script := by
    refine h.upload.accepted.trans ?_
    rw [h.upload.script]
    exact List.prefix_append _ _
  obtain ⟨batches, huploaded, haccepted⟩ : ∃ batches,
      batches <+: Upload.batches cfg.toUploadConfig tae schema script ∧
        List.Forall₂ (fun v b ↦ DecodedBatch.Looks b v) s.upload.accepted batches := by
    have hframes := Upload.forall₂_batches hdecode script
    have htake := List.forall₂_take s.upload.accepted.length hframes
    rw [← List.prefix_iff_eq_take.mp hprefix] at htake
    exact ⟨_, List.take_prefix _ _, htake⟩
  have hsequences := h.upload.accounting.sequences
  have hfilled : ∀ chunk ∈ s.chunks, ∃ rows,
      (∃ b ∈ batches, b.Looks chunk.batch ∧ ∃ vectors,
        fillChunk tae b chunk.count.toNat chunk.offset.toNat = .ok vectors ∧
          rows = outputRows types vectors chunk.count.toNat) ∧
        chunk.rows.filterMap (Blocks.entry (batches.map (·.allRows tae)) ∘ place) = rows := by
    intro chunk hchunk
    obtain ⟨hmem, hrange⟩ := h.of_mem_chunks hchunk
    obtain ⟨b, hb, hlooks, hblock⟩ := getElem?_allRows haccepted hsequences hmem
    obtain ⟨message, hmessage, bytes, hbytes, hframe⟩ :=
      Upload.decodeFrame_of_mem_batches (huploaded.subset hb)
    rw [hlooks.rows] at hrange
    obtain ⟨vectors, hfill, hrows⟩ := exists_fillChunk hschema hwidths hframe
      (hdates message hmessage bytes hbytes b hframe) hrange
    refine ⟨_, ⟨b, hb, hlooks, vectors, hfill, rfl⟩, ?_⟩
    rw [hrows, filterMap_place (map_place_chunk chunk) hblock]
  obtain ⟨output, houtput⟩ := exists_forall₂ hfilled
  have hemitted : s.emitted.filterMap (Blocks.entry (batches.map (·.allRows tae)) ∘ place)
      = output.flatten := by
    rw [emitted, List.filterMap_flatMap, ← List.flatMap_id]
    exact flatMap_eq_of_forall₂ (houtput.imp fun _ _ h ↦ h.2)
  have hall := filterMap_accepted tae haccepted hsequences
  refine ⟨batches, output, haccepted, huploaded, houtput.imp fun _ _ h ↦ h.1, ?_, fun heof ↦ ?_⟩
  · rw [← hemitted, ← hall]
    exact h.emitted_isPrefix.filterMap _
  · rw [← hemitted, ← hall, h.exactlyOnce.complete heof]

/-- **The engine gets what the client has uploaded.** For every schema without narrow decimals and
every upload without dates that are too early: however the handler, the client, the scan and the
execution interleave, and whatever the size of a chunk, the chunks are filled with the rows of the
accepted frames, in order and each once, and with all of them at the end of the input. -/
theorem rows_materialized (cfg : ScanConfig) (tae : TaeTypes) (schema : NamedStruct)
    (names : List Bytes) (types : List LogicalType) (script : List FlightStreamChunk)
    (ls : List ScanStep) (s : Scan) (hdecode : cfg.decode = decodeView tae schema)
    (hschema : streamInput schema = .ok (names, types))
    (hwidths : ∀ expected ∈ schema.types.getD [], expected.SameWidth True)
    (hdates : ∀ chunk ∈ script, ∀ bytes, chunk.appMetadata = some bytes →
      ∀ b, decodeFrame tae schema bytes = .ok b → b.DatesFit tae)
    (hrun : (machine cfg).run (.init script) ls = some s) :
    ∃ batches output, Materialized cfg tae schema types script s batches output :=
  (Invariant.run hrun).materialized hdecode hschema hwidths hdates

/-- A schema of one column of integers. -/
def integerSchema : NamedStruct := ⟨[[]], some [.i64]⟩

/-- A frame with the integers 1, 2 and 3. -/
def threeIntegers : Bytes :=
  (serializeNativeBatchFrame 1 (batchBytes TaeTypes.documented 3
    [({ oid := 23 }, ⟨[1, 2, 3].flatMap (LittleEndian.bytes 8), [], []⟩)])).toOption.getD []

def integerPairs : ScanConfig where
  maxInputBatchBytes := 4096
  decode := decodeView TaeTypes.documented integerSchema
  vectorSize := 2
  vectorSize_pos := Nat.two_pos

/-- The batch of that frame. -/
def integerBatch : DecodedBatch where
  sequence := 1
  rows := 3
  payloadBytes := 90
  columns := [{
    encoded := vectorBytes TaeTypes.documented 3
      ({ oid := 23 }, ⟨[1, 2, 3].flatMap (LittleEndian.bytes 8), [], []⟩)
    vectorClass := kMoVectorFlat
    type := NativeResultColumn.moType TaeTypes.documented { oid := 23 }
    logicalRows := 3
    data := [1, 2, 3].flatMap (LittleEndian.bytes 8)
    area := []
    sorted := false
    nullCount := 0
    nullWords := [] }]

theorem rows_materialized_threeIntegers :
    ∃ s batches output, (machine integerPairs).run (.init [⟨false, some threeIntegers⟩]) threeRows
        = some s ∧ s.upload.input.consumerEof = true ∧ s.chunks.length = 2 ∧
      Materialized integerPairs TaeTypes.documented integerSchema [.bigint]
        [⟨false, some threeIntegers⟩] s batches output := by
  have hend : ((machine integerPairs).run (.init [⟨false, some threeIntegers⟩]) threeRows).map
      (fun s ↦ (s.upload.input.consumerEof, s.chunks.length)) = some (true, 2) := by
    decide +kernel
  obtain ⟨s, hrun, hfields⟩ := Option.map_eq_some_iff.mp hend
  obtain ⟨heof, hlength⟩ := Prod.mk.inj hfields
  have hframe : decodeFrame TaeTypes.documented integerSchema threeIntegers = .ok integerBatch := by
    decide +kernel
  obtain ⟨batches, output, h⟩ := rows_materialized integerPairs TaeTypes.documented integerSchema
    [[]] [.bigint] [⟨false, some threeIntegers⟩] threeRows s rfl rfl
    (List.forall_mem_singleton.mpr trivial) (fun chunk hchunk bytes hbytes b hb ↦ by
      obtain rfl := List.mem_singleton.mp hchunk
      obtain rfl := Option.some.inj hbytes
      obtain rfl := Except.ok.inj (hframe.symm.trans hb)
      exact List.forall_mem_singleton.mpr fun hdate ↦ absurd hdate (by decide)) hrun
  exact ⟨s, batches, output, hrun, heof, hlength, h⟩

end Scan

end MoSidecar
