import Mathlib

/-!
# Positions in a sequence of blocks

A sequence of blocks of given sizes is read element by element, block after block. A reader that has
finished the first `n` blocks and `k` elements of the next one has seen the list `Blocks.upTo`, in
which an element is a pair of its block and its place there. Reading a segment of the current block
appends the segment, and the end of a block is the start of the next one.
-/

namespace Blocks

variable {size : ℕ → ℕ} {n m k l : ℕ}

/-- The elements of a segment of a block. -/
def segment (n k l : ℕ) : List (ℕ × ℕ) := (List.range l).map fun i ↦ (n, k + i)

/-- What was read when `n` blocks and `k` elements of the next one were. -/
def upTo (size : ℕ → ℕ) (n k : ℕ) : List (ℕ × ℕ) :=
  (List.range n).flatMap (fun b ↦ segment b 0 (size b)) ++ segment n 0 k

@[simp] theorem segment_zero : segment n k 0 = [] := rfl

@[simp] theorem upTo_zero : upTo size 0 0 = [] := rfl

theorem segment_append : segment n k l ++ segment n (k + l) m = segment n k (l + m) := by
  rw [segment, segment, segment, List.range_add, List.map_append, List.map_map]
  congr 2
  funext i
  exact Prod.ext rfl (Nat.add_assoc k l i)

/-- Reading a segment. -/
theorem upTo_append_segment : upTo size n k ++ segment n k l = upTo size n (k + l) := by
  have hsegment := segment_append (n := n) (k := 0) (l := k) (m := l)
  rw [Nat.zero_add] at hsegment
  rw [upTo, List.append_assoc, hsegment, upTo]

/-- The end of a block is the start of the next one. -/
theorem upTo_size : upTo size n (size n) = upTo size (n + 1) 0 := by
  simp [upTo, List.range_succ]

theorem upTo_isPrefix_succ (hk : k ≤ size n) : upTo size n k <+: upTo size (n + 1) 0 := by
  refine ⟨segment n k (size n - k), ?_⟩
  rw [upTo_append_segment, Nat.add_sub_cancel' hk, upTo_size]

theorem upTo_isPrefix_of_le (h : n ≤ m) : upTo size n 0 <+: upTo size m 0 := by
  induction m, h using Nat.le_induction with
  | base => exact List.prefix_rfl
  | succ m _ ih => exact ih.trans (upTo_isPrefix_succ (Nat.zero_le _))

/-- Within the first `m` blocks, what was read is a prefix of all there is. -/
theorem upTo_isPrefix (hn : n < m) (hk : k ≤ size n) : upTo size n k <+: upTo size m 0 :=
  (upTo_isPrefix_succ hk).trans (upTo_isPrefix_of_le hn)

theorem nodup_segment : (segment n k l).Nodup :=
  List.nodup_range.map fun i j hij ↦ by simpa using hij

/-- Nothing is read twice. -/
theorem nodup_upTo : (upTo size n 0).Nodup := by
  rw [upTo, segment_zero, List.append_nil]
  refine List.nodup_flatMap.mpr ⟨fun b _ ↦ nodup_segment, ?_⟩
  refine List.nodup_range.imp fun {b b'} hne ↦ ?_
  intro x hx hx'
  obtain ⟨i, -, rfl⟩ := List.mem_map.mp hx
  obtain ⟨j, -, heq⟩ := List.mem_map.mp hx'
  exact hne (Prod.mk.inj heq).1.symm

/-! ### Blocks that are lists -/

section Entries

variable {α : Type*} {blocks : List (List α)}

/-- What stands at a place. -/
def entry (blocks : List (List α)) (place : ℕ × ℕ) : Option α :=
  blocks[place.1]?.bind (·[place.2]?)

/-- What stands in a segment of a block. -/
theorem filterMap_segment {block : List α} (hblock : blocks[n]? = some block) :
    (segment n k l).filterMap (entry blocks) = (block.drop k).take l := by
  induction l with
  | zero => rw [segment_zero, List.filterMap_nil, List.take_zero]
  | succ l ih =>
    have hentry : entry blocks (n, k + l) = (block.drop k)[l]? := by
      rw [entry, hblock, List.getElem?_drop]
      rfl
    rw [← segment_append, List.filterMap_append, ih, List.take_add_one, ← hentry]
    rfl

/-- All blocks are read. -/
theorem filterMap_upTo (h : ∀ n block, blocks[n]? = some block → size n = block.length) :
    (upTo size blocks.length 0).filterMap (entry blocks) = blocks.flatten := by
  have hblocks : (List.range blocks.length).map
      (fun n ↦ (segment n 0 (size n)).filterMap (entry blocks)) = blocks := by
    refine List.ext_getElem (by rw [List.length_map, List.length_range]) fun n _ hn ↦ ?_
    have hblock : blocks[n]? = some blocks[n] := List.getElem?_eq_getElem hn
    rw [List.getElem_map, List.getElem_range, filterMap_segment hblock, h n _ hblock,
      List.drop_zero, List.take_length]
  rw [upTo, segment_zero, List.append_nil, List.filterMap_flatMap, List.flatMap_def, hblocks]

end Entries

end Blocks
