import MoSidecar.Native.RoundTrip
import MoSidecar.Protocol.Frames

/-!
# Rows in frames

A frame is what an encoder makes of some rows of a table, and what the other side gets rows from.
Here both are lists of values, one for each column, so that what is sent and what is received can be
compared across frames: `Carries` says what batch is in a frame, and `exists_carries` that a frame
of an encoder carries the rows it was made of.
-/

namespace MoSidecar

/-- A row: the value of each column, or nothing where it is null. -/
abbrev Row := List (Option Value)

/-- A row of a batch. A constant column has one value for all of them. -/
def DecodedBatch.rowAt (tae : TaeTypes) (b : DecodedBatch) (row : ℕ) : Row :=
  b.columns.map fun c ↦ c.valueAt tae (c.sourceRow 0 row)

def DecodedBatch.allRows (tae : TaeTypes) (b : DecodedBatch) : List Row :=
  (List.range b.rows).map (b.rowAt tae)

/-- A row of a table. -/
def HostEncoder.rowAt (e : HostEncoder) (row : ℕ) : Row :=
  e.pairs.map fun p ↦ p.1.valueAt e.allocation row

def HostEncoder.allRows (e : HostEncoder) : List Row := (List.range e.rowCount).map e.rowAt

/-- Lists that are put together of the same pieces. -/
theorem flatMap_eq_of_forall₂ {α β γ : Type} {f : α → List γ} {g : β → List γ} {as : List α}
    {bs : List β} (h : List.Forall₂ (fun a b ↦ f a = g b) as bs) : as.flatMap f = bs.flatMap g := by
  induction h with
  | nil => rfl
  | cons hab _ ih => rw [List.flatMap_cons, List.flatMap_cons, hab, ih]

/-! ## The batch in a frame -/

/-- The batch that is in a frame. -/
def Carries (tae : TaeTypes) (schema : NamedStruct) (frame : Bytes) (b : DecodedBatch) : Prop :=
  ∃ payload, serializeNativeBatchFrame b.sequence payload = .ok frame ∧
    nativeBatchView tae ⟨b.sequence, payload⟩ schema = .ok b

/-- `publish`, up to where it takes the mutex. -/
def decodeFrame (tae : TaeTypes) (schema : NamedStruct) (frame : Bytes) :
    Except Thrown DecodedBatch :=
  match parseNativeBatchFrame frame with
  | .error what => .error (.invalidArgument what)
  | .ok envelope => nativeBatchView tae envelope schema

variable {tae : TaeTypes} {schema : NamedStruct} {envelope : NativeBatchFrame} {b : DecodedBatch}
  {frame : Bytes}

/-- A batch has the number of its frame. -/
theorem sequence_of_nativeBatchView (h : nativeBatchView tae envelope schema = .ok b) :
    b.sequence = envelope.sequence := by
  rw [nativeBatchView, bind_eq_ok] at h
  obtain ⟨⟨signedRows, input⟩, -, h⟩ := h
  obtain ⟨⟨⟩, -, h⟩ := bind_eq_ok.mp h
  obtain ⟨⟨⟩, -, h⟩ := bind_eq_ok.mp h
  obtain ⟨⟨vectorCount, input⟩, -, h⟩ := bind_eq_ok.mp h
  obtain ⟨⟨⟩, -, h⟩ := bind_eq_ok.mp h
  obtain ⟨⟨columns, input⟩, -, h⟩ := bind_eq_ok.mp h
  obtain ⟨⟨attributeCount, input⟩, -, h⟩ := bind_eq_ok.mp h
  obtain ⟨⟨⟩, -, h⟩ := bind_eq_ok.mp h
  obtain ⟨input, -, h⟩ := bind_eq_ok.mp h
  obtain ⟨⟨⟩, -, h⟩ := bind_eq_ok.mp h
  rw [← Except.ok.inj h]

/-- A frame that is decoded is not numbered zero, and carries what it is decoded to. -/
theorem carries_of_decodeFrame (h : decodeFrame tae schema frame = .ok b) :
    b.sequence ≠ 0 ∧ Carries tae schema frame b := by
  rw [decodeFrame] at h
  cases hparse : parseNativeBatchFrame frame with
  | error what =>
    rw [hparse] at h
    cases h
  | ok envelope =>
    rw [hparse] at h
    have hsequence := sequence_of_nativeBatchView h
    obtain ⟨hne, -, -, hserialize⟩ := eq_of_parseNativeBatchFrame hparse
    refine ⟨hsequence ▸ hne, envelope.payload, hsequence ▸ hserialize, ?_⟩
    rw [hsequence]
    exact h

/-! ## The rows of an encoder -/

namespace HostEncoder

variable {decimalOfDouble : NativeResultColumn → Bytes → Except Thrown ℤ} {e : HostEncoder}
  {rowOffset rowCount : ℕ}

/-- A client can read a table if the types it expects are those of the schema, and no decimal is
made of doubles. -/
structure ReadableAs (tae : TaeTypes) (schema : NamedStruct) (e : HostEncoder) : Prop where
  matches_eq : List.Forall₂ (fun expected column ↦
    substraitMatchesMo expected (NativeResultColumn.moType tae column) = true)
    (schema.types.getD []) e.schema.columns
  names : schema.names.length = (schema.types.getD []).length
  noDecimalOfDouble : e.NoDecimalOfDouble

/-- A vector that is written is a flat one, so that its rows are its own. -/
theorem valueAt_sourceRow_viewOf {q : (ColumnMetadata × NativeResultColumn) × List Cell} {i : ℕ}
    (h : ReadsColumn tae decimalOfDouble e.allocation rowOffset rowCount q.1 q.2)
    (huint : q.1.2.is .uint32 = false)
    (hdouble : ¬((q.1.2.is .decimal64 ∨ q.1.2.is .decimal128) ∧ q.1.1.typeId = .float64))
    (hi : i < rowCount) :
    (viewOf tae rowCount q).valueAt tae ((viewOf tae rowCount q).sourceRow 0 i)
      = q.1.1.valueAt e.allocation (rowOffset + i) := by
  have hi' : i < q.2.length := h.length_eq.symm ▸ hi
  have hsource : (viewOf tae rowCount q).sourceRow 0 i = i := Nat.zero_add i
  rw [hsource, viewOf_valueAt h hi']
  exact value_of_readCell h.readable.matches_eq huint hdouble (h.readCell_eq i hi')

/-- The batch that a payload is decoded to has the rows it was made of. -/
theorem exists_batch_of_encode (hread : e.ReadableAs tae schema)
    (hencode : e.encode tae decimalOfDouble rowOffset rowCount = .ok envelope.payload) :
    ∃ b, nativeBatchView tae envelope schema = .ok b ∧
      b.allRows tae = (List.range rowCount).map fun i ↦ e.rowAt (rowOffset + i) := by
  obtain ⟨⟨hpos, hrange⟩, columns, ⟨hpairs, hreads⟩, hfits, hpayload⟩ := encode_eq_ok.mp hencode
  have hlt := e.rowCount_lt
  have hcells : columns.map (fun q ↦ q.1.2) = e.schema.columns := by
    rw [← map_snd_pairs, ← hpairs, List.map_map]
    rfl
  have hlength : (schema.types.getD []).length = columns.length := by
    rw [hread.matches_eq.length_eq, ← hcells, List.length_map]
  have hcolumns : columns.length ≤ kMaxNativeResultColumns := by
    rw [← hlength, hread.matches_eq.length_eq]
    exact e.columns_le
  have htypes : List.Forall₂ (fun q expected ↦
      substraitMatchesMo expected (NativeResultColumn.moType tae q.1.2) = true) columns
        (schema.types.getD []) := by
    have hmatches := hread.matches_eq
    rw [← hcells, List.forall₂_map_right_iff] at hmatches
    exact hmatches.flip
  have hall : ∀ q ∈ columns,
      ReadsColumn tae decimalOfDouble e.allocation rowOffset rowCount q.1 q.2 ∧
        VectorFits tae rowCount (layoutOf tae q) := fun q hq ↦ ⟨hreads q hq, hfits q hq⟩
  have hboth := (List.forall₂_and_left columns _).mpr ⟨hall, htypes⟩
  have hparsed : ParsedColumns tae rowCount (schema.types.getD []) (columns.map fun q ↦
      (vectorBytes tae rowCount (layoutOf tae q), viewOf tae rowCount q)) := by
    rw [ParsedColumns, List.forall₂_map_right_iff]
    apply (hboth.imp _).flip
    intro q expected h
    exact ⟨h.1.2.vector_lt, (parseColumn_eq_ok h.1.2.rows_lt).mpr
      ⟨valid_viewOf h.1.1 h.1.2 h.2, _, _, _, encodes_viewOf h.1.1 h.1.2⟩⟩
  have huint : ∀ q ∈ columns, q.1.2.is .uint32 = false := by
    have hnot : List.Forall₂ (fun q _ ↦ q.1.2.is .uint32 = false ∧ True) columns
        (schema.types.getD []) :=
      hboth.imp fun q expected h ↦ ⟨is_uint32_of_matches h.1.1.readable.matches_eq h.2, trivial⟩
    exact ((List.forall₂_and_left columns _).mp hnot).1
  refine ⟨_, nativeBatchView_eq_ok_of_vectors hpos (by omega) hread.names rfl
    (by rw [kMaxNativeResultColumns] at hcolumns; omega) hparsed ?_, ?_⟩
  · rw [hpayload, batchBytes, List.length_map, hlength, List.map_map, List.map_map]
    rfl
  · apply List.map_congr_left
    intro i hi
    have hi := List.mem_range.mp hi
    rw [DecodedBatch.rowAt, rowAt, ← hpairs, List.map_map, List.map_map, List.map_map]
    apply List.map_congr_left
    intro q hq
    have hmem : q.1 ∈ e.pairs := hpairs ▸ List.mem_map_of_mem hq
    exact valueAt_sourceRow_viewOf (hreads q hq) (huint q hq) (hread.noDecimalOfDouble q.1 hmem) hi

/-- A frame of an encoder carries the rows it was made of. -/
theorem exists_carries {sequence : UInt64} {payload : Bytes} (hread : e.ReadableAs tae schema)
    (hencode : e.encode tae decimalOfDouble rowOffset rowCount = .ok payload)
    (hframe : serializeNativeBatchFrame sequence payload = .ok frame) :
    ∃ b, Carries tae schema frame b ∧ b.sequence = sequence ∧
      b.allRows tae = (List.range rowCount).map fun i ↦ e.rowAt (rowOffset + i) := by
  let envelope : NativeBatchFrame := ⟨sequence, payload⟩
  have hpayload : e.encode tae decimalOfDouble rowOffset rowCount = .ok envelope.payload := hencode
  obtain ⟨b, hview, hrows⟩ := exists_batch_of_encode hread hpayload
  have hsequence : b.sequence = sequence := sequence_of_nativeBatchView hview
  refine ⟨b, ⟨payload, ?_, ?_⟩, hsequence, hrows⟩
  · rw [hsequence]
    exact hframe
  · rw [hsequence]
    exact hview

end HostEncoder

end MoSidecar
