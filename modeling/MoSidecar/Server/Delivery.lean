import MoSidecar.Native.Rows
import MoSidecar.Native.Splitting
import MoSidecar.Server.Streams

/-!
# What a client makes of a result

The worker encodes ranges of the result's tables, the frames go through the slot, and the client
decodes what it reads. That the frames are read once and in order is a fact about threads, and that
a frame carries its rows is one about bytes. Together they are about the result as a whole: the
client gets the rows of the tables, and all of them when the stream ends cleanly.
-/

namespace MoSidecar

/-- The rows of a table. One that cannot be read has none. -/
def tableRows : Except Thrown HostEncoder → List Row
  | .ok e => e.allRows
  | .error _ => []

/-- What a client has read, decoded. -/
structure ReadBack (tae : TaeTypes) (schema : NamedStruct)
    (tables : List (Except Thrown HostEncoder)) (c : EntryControl) (batches : List DecodedBatch) :
    Prop where
  carries : List.Forall₂ (fun frame b ↦ Carries tae schema frame.bytes b) (framesOf c.reads) batches
  numbered : ∀ i b, batches[i]? = some b → b.sequence.toNat = i + 1
  /-- The rows are those of the tables, in order, up to some row. -/
  in_order : batches.flatMap (·.allRows tae) <+: tables.flatMap tableRows
  /-- After a clean end there are all of them. -/
  complete : ∀ before after, c.reads = before ++ .ended none :: after →
    batches.flatMap (·.allRows tae) = tables.flatMap tableRows

section

variable {tae : TaeTypes} {schema : NamedStruct} {tables : List (Except Thrown HostEncoder)}
  {decimalOfDouble : NativeResultColumn → Bytes → Except Thrown ℤ} {cfg : ExecutionConfig}
  {c : EntryControl} {frame : ResultFrame} {number : ℕ}

/-- The batches of an execution are tables. -/
def ExecutionConfig.Encodes (tae : TaeTypes)
    (decimalOfDouble : NativeResultColumn → Bytes → Except Thrown ℤ)
    (tables : List (Except Thrown HostEncoder)) (cfg : ExecutionConfig) : Prop :=
  cfg.batches = tables.map (Except.map (·.toResultEncoder tae decimalOfDouble))

theorem ExecutionConfig.Encodes.getElem? {batch : ℕ}
    (h : cfg.Encodes tae decimalOfDouble tables) : cfg.batches[batch]?
      = tables[batch]?.map (Except.map (·.toResultEncoder tae decimalOfDouble)) := by
  rw [h, List.getElem?_map]

theorem ExecutionConfig.Encodes.rows_eq {batch : ℕ} {table : Except Thrown HostEncoder}
    (h : cfg.Encodes tae decimalOfDouble tables) (htable : tables[batch]? = some table) :
    cfg.rows batch = (tableRows table).length := by
  rw [ExecutionConfig.rows, h.getElem?, htable]
  cases table with
  | error what => rfl
  | ok e =>
    rw [tableRows, HostEncoder.allRows, List.length_map, List.length_range]
    rfl

/-- The places of the result hold the rows of the tables. -/
theorem ExecutionConfig.Encodes.filterMap_allRows (h : cfg.Encodes tae decimalOfDouble tables) :
    cfg.allRows.filterMap (Blocks.entry (tables.map tableRows)) = tables.flatMap tableRows := by
  have hlength : cfg.batches.length = (tables.map tableRows).length := by
    rw [h, List.length_map, List.length_map]
  rw [ExecutionConfig.allRows, hlength, List.flatMap_def]
  apply Blocks.filterMap_upTo
  intro n block hblock
  rw [List.getElem?_map] at hblock
  obtain ⟨table, htable, rfl⟩ := Option.map_eq_some_iff.mp hblock
  exact h.rows_eq htable

/-- A frame carries what stands at the places of its range. -/
theorem ExecutionConfig.Encodes.exists_carries (h : cfg.Encodes tae decimalOfDouble tables)
    (hreadable : ∀ e, .ok e ∈ tables → e.ReadableAs tae schema)
    (hframe : IsFrame cfg number frame) :
    ∃ b, Carries tae schema frame.bytes b ∧ b.sequence.toNat = number ∧
      b.allRows tae = frame.range.cells.filterMap (Blocks.entry (tables.map tableRows)) := by
  obtain ⟨encoder, hencoder, -, hrange, -, payload, hencode, hserialize⟩ := hframe.encoded
  rw [h.getElem?] at hencoder
  obtain ⟨table, htable, hmap⟩ := Option.map_eq_some_iff.mp hencoder
  obtain ⟨e, rfl, rfl⟩ := map_eq_ok.mp hmap
  obtain ⟨b, hcarries, hsequence, hrows⟩ :=
    HostEncoder.exists_carries (hreadable e (List.mem_of_getElem? htable)) hencode hserialize
  refine ⟨b, hcarries, ?_, ?_⟩
  · rw [hsequence, Nat.toUInt64_eq, UInt64.toNat_ofNat', Nat.mod_eq_of_lt hframe.number_lt]
  · have hblock : (tables.map tableRows)[frame.range.batch]? = some e.allRows := by
      rw [List.getElem?_map, htable]
      rfl
    have hle : frame.range.offset + frame.range.rows ≤ e.rowCount := hrange
    rw [hrows, RowRange.cells, Blocks.filterMap_segment hblock]
    apply List.ext_getElem
    · simp only [HostEncoder.allRows, List.length_map, List.length_range, List.length_take,
        List.length_drop]
      omega
    · intro i _ _
      simp [HostEncoder.allRows]

/-- At a clean end all rows have been read. -/
theorem EntryControl.ResultOnce.coveredRows_eq (h : EntryControl.ResultOnce cfg c)
    {before after : List ReadResult} (hsplit : c.reads = before ++ .ended none :: after) :
    coveredRows (framesOf c.reads) = cfg.allRows := by
  obtain ⟨-, -, hcovered⟩ := h.eof before after hsplit
  have hprefix : coveredRows (framesOf before) <+: coveredRows (framesOf c.reads) := by
    rw [hsplit, framesOf, framesOf, List.filterMap_append, coveredRows, coveredRows,
      List.flatMap_append]
    exact List.prefix_append _ _
  rw [hcovered] at hprefix
  exact h.in_order.eq_of_length_le hprefix.length_le

/-- The frames that were read carry the rows of their ranges. -/
theorem ExecutionConfig.Encodes.exists_readBack (h : cfg.Encodes tae decimalOfDouble tables)
    (hreadable : ∀ e, .ok e ∈ tables → e.ReadableAs tae schema)
    (hresult : EntryControl.ResultOnce cfg c) :
    ∃ batches, ReadBack tae schema tables c batches := by
  have hframes : ∀ i < (framesOf c.reads).length, ∃ b, ∀ frame,
      (framesOf c.reads)[i]? = some frame →
        Carries tae schema frame.bytes b ∧ b.sequence.toNat = i + 1 ∧
          b.allRows tae = frame.range.cells.filterMap (Blocks.entry (tables.map tableRows)) := by
    intro i hi
    have hframe := List.getElem?_eq_getElem hi
    obtain ⟨b, hb⟩ := h.exists_carries hreadable (hresult.numbered i _ hframe)
    refine ⟨b, fun frame hsome ↦ ?_⟩
    obtain rfl := Option.some.inj (hframe.symm.trans hsome)
    exact hb
  obtain ⟨batches, hlength, hbatches⟩ := exists_list hframes
  have hall : List.Forall₂ (fun frame b ↦ Carries tae schema frame.bytes b ∧
      b.allRows tae = frame.range.cells.filterMap (Blocks.entry (tables.map tableRows)))
      (framesOf c.reads) batches := by
    refine List.forall₂_iff_get.mpr ⟨hlength.symm, fun i hi hi' ↦ ?_⟩
    obtain ⟨hcarries, -, hrows⟩ := hbatches i hi' _ (List.getElem?_eq_getElem hi)
    exact ⟨hcarries, hrows⟩
  have hrows : batches.flatMap (·.allRows tae)
      = (coveredRows (framesOf c.reads)).filterMap (Blocks.entry (tables.map tableRows)) := by
    rw [coveredRows, List.filterMap_flatMap]
    exact flatMap_eq_of_forall₂ ((hall.imp fun _ _ h ↦ h.2).flip)
  refine ⟨batches, hall.imp fun _ _ h ↦ h.1, fun i b hb ↦ ?_, ?_, fun before after hsplit ↦ ?_⟩
  · obtain ⟨hi, rfl⟩ := List.getElem?_eq_some_iff.mp hb
    exact (hbatches i hi _ (List.getElem?_eq_getElem (hlength ▸ hi))).2.1
  · rw [hrows, ← h.filterMap_allRows]
    exact hresult.in_order.filterMap _
  · rw [hrows, hresult.coveredRows_eq hsplit, h.filterMap_allRows]

end

namespace SidecarServer

variable {ι : Type*} [Fintype ι] [DecidableEq ι]

/-- **The client gets the result.** Where the batches of an execution are tables in host memory that
the client can read: however the handlers, the worker, the reaper and a shutdown interleave, and
wherever the tables are cut into frames, the frames that were read carry the numbers `1, 2, …` and
decode to the rows of the tables, in order and each once; and to all of them after a clean end. -/
theorem result_read_back (cfg : SidecarConfig) (tae : TaeTypes)
    (decimalOfDouble : NativeResultColumn → Bytes → Except Thrown ℤ) (T : Bytes)
    (tables : List (Except Thrown HostEncoder)) (schema : NamedStruct)
    (hencodes : (cfg.executions T).Encodes tae decimalOfDouble tables)
    (hreadable : ∀ e, .ok e ∈ tables → e.ReadableAs tae schema)
    (ms : List (Move ι ServerCall ServerAnswer (Bytes × Bytes × InputTraffic)))
    (c : Threads SidecarServer ι ServerCall)
    (hrun : (program cfg ι).machine.run (init cfg ι) ms = some c) :
    ∃ batches, ReadBack tae schema tables (c.shared.entry T).toEntryControl batches :=
  hencodes.exists_readBack hreadable ((run_served hrun).2.delivered T).resultOnce

/-- A query whose result is a table of two rows. -/
def oneTable : SidecarConfig :=
  { TicketRegistry.oneTicket with
    executions := fun _ ↦
      { maxBatchBytes := 110
        inputRefs := [[1]]
        batches := [.ok (HostEncoder.negativeDecimal.toResultEncoder TaeTypes.documented
          fun _ _ ↦ .ok 0)] } }

/-- A client reads it to the end, in two frames. -/
def readOneTable :
    List (Move (Option Bool) ServerCall ServerAnswer (Bytes × Bytes × InputTraffic)) :=
  List.append deliverOneStream [.call (some true) (.registry (.doGet [7])), .exec (some true) {},
    .exec (some true) {}, .exec (some true) {}, .exec (some true) {},
    .call none (.entry [7] true .run), .exec none {}, .exec none {},
    .exec none {}, .exec none {}, .exec (some true) { more := true }, .exec (some true) {},
    .exec none {}, .exec none {}, .exec none {}, .exec (some true) { more := true },
    .exec (some true) {}, .exec none {}, .exec none {},
    .exec none { entry := { batches := .returns } }, .exec none {},
    .exec (some true) { more := true }, .exec (some true) {}]

theorem result_read_back_readOneTable :
    ∃ c batches, (program oneTable (Option Bool)).machine.run (init oneTable (Option Bool))
        readOneTable = some c ∧
      ReadBack TaeTypes.documented ⟨[[]], some [.decimal 9 2]⟩ [.ok HostEncoder.negativeDecimal]
        (c.shared.entry [7]).toEntryControl batches ∧
      batches.flatMap (·.allRows TaeTypes.documented) = [[some (.number (-5))], [none]] := by
  have hend : ((program oneTable (Option Bool)).machine.run (init oneTable (Option Bool))
      readOneTable).map (fun c ↦ (c.shared.entry [7]).reads.drop 2) = some [.ended none] := by
    decide +kernel
  obtain ⟨c, hrun, hreads⟩ := Option.map_eq_some_iff.mp hend
  have hreadable : ∀ e, (.ok e : Except Thrown HostEncoder) ∈ [.ok HostEncoder.negativeDecimal] →
      e.ReadableAs TaeTypes.documented ⟨[[]], some [.decimal 9 2]⟩ := by
    intro e he
    obtain rfl := Except.ok.inj (List.mem_singleton.mp he)
    refine ⟨.cons (by decide) .nil, rfl, List.forall_mem_singleton.mpr fun hdecimal ↦ ?_⟩
    cases hdecimal.2
  obtain ⟨batches, hback⟩ := result_read_back oneTable TaeTypes.documented (fun _ _ ↦ .ok 0) [7]
    [.ok HostEncoder.negativeDecimal] ⟨[[]], some [.decimal 9 2]⟩ rfl hreadable readOneTable c hrun
  refine ⟨c, batches, hrun, hback, ?_⟩
  rw [hback.complete _ [] (hreads ▸ (List.take_append_drop 2 _).symm)]
  decide +kernel

end SidecarServer

end MoSidecar
