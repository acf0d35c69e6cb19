import Mathlib

/-!
# Lists in pieces of one length

A buffer of elements of one width is the concatenation of its elements, and element `i` is what
stands from `i * w` on. Both ways of saying this are here, over lists of anything.
-/

namespace Chunks

variable {α : Type} {w n k i : ℕ} {xs : List α} {pieces : List (List α)}

/-- Piece `i` of a list in pieces of length `w`. -/
def chunk (w : ℕ) (xs : List α) (i : ℕ) : List α := (xs.drop (i * w)).take w

theorem length_flatten (h : ∀ piece ∈ pieces, piece.length = w) :
    pieces.flatten.length = pieces.length * w := by
  induction pieces with
  | nil => rw [List.flatten_nil, List.length_nil, List.length_nil, Nat.zero_mul]
  | cons piece pieces ih =>
    have htail := ih fun p hp ↦ h p (List.mem_cons_of_mem piece hp)
    rw [List.flatten_cons, List.length_append, htail, h piece List.mem_cons_self, List.length_cons,
      Nat.succ_mul, Nat.add_comm]

theorem chunk_flatten (h : ∀ piece ∈ pieces, piece.length = w) (hi : i < pieces.length) :
    chunk w pieces.flatten i = pieces[i] := by
  induction pieces generalizing i with
  | nil => exact absurd hi (Nat.not_lt_zero i)
  | cons piece pieces ih =>
    have hpiece := h piece List.mem_cons_self
    cases i with
    | zero =>
      rw [chunk, Nat.zero_mul, List.drop_zero, List.flatten_cons, List.take_left' hpiece]
      rfl
    | succ i =>
      have hskip : (piece :: pieces).flatten.drop ((i + 1) * w) = pieces.flatten.drop (i * w) := by
        have hadd : (i + 1) * w = piece.length + i * w := by
          rw [Nat.succ_mul, hpiece, Nat.add_comm]
        rw [List.flatten_cons, hadd, ← List.drop_drop, List.drop_left' rfl]
      rw [chunk, hskip]
      exact ih (fun p hp ↦ h p (List.mem_cons_of_mem piece hp)) (Nat.lt_of_succ_lt_succ hi)

/-- The pieces of a run of pieces. -/
theorem chunk_run (hi : i < n) :
    chunk w ((xs.drop (k * w)).take (n * w)) i = chunk w xs (k + i) := by
  have hle : w ≤ n * w - i * w := by
    rw [← Nat.sub_mul]
    exact Nat.le_mul_of_pos_left w (Nat.sub_pos_of_lt hi)
  rw [chunk, chunk, List.drop_take, List.take_take, Nat.min_eq_left hle, List.drop_drop,
    Nat.add_mul]

end Chunks
