import MoSidecar.Layout.Chunks
import MoSidecar.Native.HostTable

/-!
# Columns of cells

What an encoder writes for a column depends on its rows one by one, but for one thing: the
descriptor of a long string holds the length of the area so far. A `Cell` is what is written for a
row, and `layoutColumn` puts the cells of a column together. Both encoders come down to it: they
read a cell for each row, and the column is the layout of the cells.

The layout is also where a decoder finds its way back: element `i` of the data is the piece of cell
`i`, and the descriptor of a long string points at that string in the area.
-/

namespace MoSidecar

open LittleEndian Bitmap Chunks

/-- What is written for a row. -/
inductive Cell where
  | null
  | text (s : Bytes)
  | element (bs : Bytes)
  deriving DecidableEq

namespace Cell

def isNull : Cell → Bool
  | null => true
  | text _ | element _ => false

/-- The bytes of a cell in the area. -/
def area : Cell → Bytes
  | text s => if s.length ≤ kVarlenaInlineMax then [] else s
  | null | element _ => []

/-- The bytes of a cell in the data, where the area has `offset` bytes before it. -/
def piece (width offset : ℕ) : Cell → Bytes
  | null => List.replicate width 0
  | text s => if s.length ≤ kVarlenaInlineMax then Varlena.inline s else Varlena.big offset s.length
  | element bs => bs

/-- A cell of a column whose elements have `width` bytes. -/
def Fits (width : ℕ) : Cell → Prop
  | null => True
  | text _ => width = kVarlenaSize
  | element bs => bs.length = width

end Cell

/-- The area of some cells. -/
def cellArea (cells : List Cell) : Bytes := cells.flatMap Cell.area

/-- The data of some cells, behind an area of `offset` bytes. -/
def cellData (width : ℕ) : ℕ → List Cell → Bytes
  | _, [] => []
  | offset, cell :: cells =>
    cell.piece width offset ++ cellData width (offset + cell.area.length) cells

/-- A column, from its cells. -/
def layoutColumn (width : ℕ) (cells : List Cell) : EncodedColumn where
  data := cellData width 0 cells
  area := cellArea cells
  nulls := encodeNulls (cells.map Cell.isNull)

variable {width offset i n : ℕ} {cell : Cell} {cells cells' : List Cell} {s : Bytes}

/-! ## Lengths -/

theorem Varlena.length_inline (h : s.length ≤ kVarlenaInlineMax) :
    (Varlena.inline s).length = kVarlenaSize := by
  rw [inline, List.length_cons, List.length_append, List.length_replicate, kVarlenaSize]
  rw [kVarlenaInlineMax] at h ⊢
  omega

theorem Varlena.length_big (offset length : ℕ) :
    (Varlena.big offset length).length = kVarlenaSize := by
  rw [big, List.length_append, List.length_append, List.length_append, length_bytes, length_bytes,
    length_bytes, List.length_replicate]
  rfl

theorem Cell.length_piece (h : cell.Fits width) (offset : ℕ) :
    (cell.piece width offset).length = width := by
  cases cell with
  | null => exact List.length_replicate
  | element bs => exact h
  | text s =>
    have hwidth : width = kVarlenaSize := h
    rw [piece, hwidth]
    split_ifs with hinline
    · exact Varlena.length_inline hinline
    · exact Varlena.length_big offset s.length

theorem cellArea_append (cells cells' : List Cell) :
    cellArea (cells ++ cells') = cellArea cells ++ cellArea cells' := List.flatMap_append

theorem cellData_append (width offset : ℕ) (cells cells' : List Cell) :
    cellData width offset (cells ++ cells') = cellData width offset cells
      ++ cellData width (offset + (cellArea cells).length) cells' := by
  induction cells generalizing offset with
  | nil => rfl
  | cons cell cells ih =>
    have hlength : (cellArea (cell :: cells)).length =
        cell.area.length + (cellArea cells).length := by
      rw [cellArea, List.flatMap_cons, List.length_append]
      rfl
    rw [List.cons_append, cellData, cellData, ih, hlength, List.append_assoc, Nat.add_assoc]

/-- One more cell. -/
theorem cellArea_concat (cells : List Cell) (cell : Cell) :
    cellArea (cells ++ [cell]) = cellArea cells ++ cell.area := by
  rw [cellArea_append, cellArea, cellArea, List.flatMap_singleton]

theorem cellData_concat (width : ℕ) (cells : List Cell) (cell : Cell) :
    cellData width 0 (cells ++ [cell])
      = cellData width 0 cells ++ cell.piece width (cellArea cells).length := by
  rw [cellData_append, Nat.zero_add, cellData, cellData, List.append_nil]

theorem length_cellArea_lt (h : (cellArea (cells ++ [cell])).length < n) :
    (cellArea cells).length < n := by
  rw [cellArea_concat, List.length_append] at h
  omega

theorem length_cellData (h : ∀ cell ∈ cells, cell.Fits width) (offset : ℕ) :
    (cellData width offset cells).length = cells.length * width := by
  induction cells generalizing offset with
  | nil => rw [cellData, List.length_nil, List.length_nil, Nat.zero_mul]
  | cons cell cells ih =>
    rw [cellData, List.length_append, Cell.length_piece (h cell List.mem_cons_self),
      ih fun c hc ↦ h c (List.mem_cons_of_mem cell hc), List.length_cons, Nat.succ_mul,
        Nat.add_comm]

/-- Without strings, the data are the pieces one after another. -/
theorem cellData_of_area_nil (h : ∀ cell ∈ cells, cell.area = []) (width offset : ℕ) :
    cellData width offset cells = (cells.map (Cell.piece width offset)).flatten := by
  induction cells with
  | nil => rfl
  | cons cell cells ih =>
    rw [cellData, h cell List.mem_cons_self, List.length_nil, Nat.add_zero,
      ih fun c hc ↦ h c (List.mem_cons_of_mem cell hc), List.map_cons, List.flatten_cons]

theorem cellArea_of_area_nil (h : ∀ cell ∈ cells, cell.area = []) : cellArea cells = [] :=
  List.flatMap_eq_nil_iff.mpr h

theorem take_cons_drop (hi : i < cells.length) :
    cells.take i ++ (cells[i] :: cells.drop (i + 1)) = cells := by
  rw [← List.drop_eq_getElem_cons hi, List.take_append_drop]

/-- Element `i` of the data is the piece of cell `i`. -/
theorem chunk_cellData (h : ∀ cell ∈ cells, cell.Fits width) (hi : i < cells.length) :
    chunk width (cellData width 0 cells) i
      = cells[i].piece width (cellArea (cells.take i)).length := by
  have hbefore : (cellData width 0 (cells.take i)).length = i * width := by
    rw [length_cellData (fun c hc ↦ h c (List.mem_of_mem_take hc)), List.length_take,
      Nat.min_eq_left (Nat.le_of_lt hi)]
  have hpiece := Cell.length_piece (h cells[i] (List.getElem_mem hi))
    (0 + (cellArea (cells.take i)).length)
  have hdata : cellData width 0 cells = cellData width 0 (cells.take i)
      ++ (cells[i].piece width (0 + (cellArea (cells.take i)).length)
        ++ cellData width (0 + (cellArea (cells.take i)).length + cells[i].area.length)
          (cells.drop (i + 1))) := by
    rw [← cellData, ← cellData_append, take_cons_drop hi]
  rw [chunk, hdata, List.drop_left' hbefore, List.take_left' hpiece, Nat.zero_add]

theorem cellArea_split (hi : i < cells.length) : cellArea cells
    = cellArea (cells.take i) ++ (cells[i].area ++ cellArea (cells.drop (i + 1))) := by
  have happend := cellArea_append (cells.take i) (cells[i] :: cells.drop (i + 1))
  rw [take_cons_drop hi] at happend
  rw [happend, cellArea, cellArea, cellArea, List.flatMap_cons]

/-- The string of a cell is in the area, where the area before it ends. -/
theorem slice_cellArea (hi : i < cells.length) :
    slice (cellArea cells) (cellArea (cells.take i)).length cells[i].area.length =
      cells[i].area := by
  rw [cellArea_split hi, slice_append rfl rfl]

/-- The area of all cells is at least that of the first ones and of one more. -/
theorem cellArea_take_le (hi : i < cells.length) :
    (cellArea (cells.take i)).length + cells[i].area.length ≤ (cellArea cells).length := by
  rw [cellArea_split hi, List.length_append, List.length_append]
  omega

theorem length_flatMap_bytes (words : List ℕ) :
    (words.flatMap (bytes 8)).length = words.length * 8 := by
  rw [List.flatMap, length_flatten fun piece hpiece ↦ ?_, List.length_map]
  obtain ⟨word, -, rfl⟩ := List.mem_map.mp hpiece
  exact length_bytes 8 word

/-- A null bitmap takes a header and a word for each 64 rows, where there is a null. -/
theorem length_encodeNulls (nulls : List Bool) :
    (encodeNulls nulls).length = if nulls.any id then 24 + (nulls.length + 63) / 64 * 8 else 0 := by
  have hany : nulls.any id = true ↔ ¬nulls.count true = 0 := by
    rw [List.any_eq_true, List.count_eq_zero, not_not]
    simp
  rw [encodeNulls]
  simp only [hany, ite_not]
  split_ifs
  · rfl
  · rw [List.length_append, List.length_append, List.length_append, length_bytes, length_bytes,
      length_bytes, length_flatMap_bytes, length_pack]
    omega

end MoSidecar
