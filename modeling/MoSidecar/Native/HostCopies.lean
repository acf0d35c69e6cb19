import MoSidecar.Native.HostReading
import MoSidecar.Native.Scan

/-!
# The copy from host memory

`copyHostBytes` is the copy as the encoder sees it. This is the loop below it, round by round: which
block a round takes bytes from, where in the block, and what it leaves of the offset and of the
size. A block that is not there, bytes outside of a block or a sum that does not fit into a word is
a `Fault`, and the loop has a number of rounds, after which there is no answer. That there always is
one, and which, is `copy_exact`.
-/

namespace MoSidecar

/-- The variables of the loop of `copy_host_bytes`, with the bytes that are written so far. -/
structure CopyState where
  offset : ℕ
  size : ℕ
  output : Bytes
  deriving DecidableEq

/-- What `std::memcpy` reads of a block. -/
def HostAllocation.peekBlock (a : HostAllocation) (block inBlock count : ℕ) : Except Fault Bytes :=
  match a.blocks[block]? with
  | some bytes => peek bytes inBlock count
  | none => .error .outside

/-- One round of the loop of `copy_host_bytes`. -/
def copyRound (a : HostAllocation) (s : CopyState) : Except Fault CopyState := do
  let block := s.offset / a.blockSize
  let inBlock := s.offset % a.blockSize
  let count := min s.size (a.blockSize - inBlock)
  let bytes ← a.peekBlock block inBlock count
  let offset ← word (s.offset + count)
  .ok ⟨offset, s.size - count, s.output ++ bytes⟩

/-- The loop, for at most the given number of rounds; nothing if these are not enough. -/
def copyRounds (a : HostAllocation) : ℕ → CopyState → Option (Except Fault CopyState)
  | 0, s => if s.size = 0 then some (.ok s) else none
  | rounds + 1, s =>
    if s.size = 0 then some (.ok s)
    else
      match copyRound a s with
      | .ok s => copyRounds a rounds s
      | .error fault => some (.error fault)

/-- `copy_host_bytes`, for at most the given number of rounds of its loop. The pointer to the
allocation may be null. -/
def copyHostBytesIn (rounds : ℕ) (allocation : Option HostAllocation) (offset size : ℕ) :
    Option (Except Fault Bytes) :=
  match allocation with
  | none => some (.error (.thrown (.invalidArgument "native result host buffer range is invalid")))
  | some a =>
    if offset > a.sizeBytes ∨ size > a.sizeBytes - offset then
      some (.error (.thrown (.invalidArgument "native result host buffer range is invalid")))
    else (copyRounds a rounds ⟨offset, size, []⟩).map fun result ↦ result.map CopyState.output

variable {a : HostAllocation} {s : CopyState} {offset size rounds count : ℕ} {output : Bytes}

/-! ## One round -/

/-- Bytes of a block are bytes of the memory. -/
theorem peekBlock_eq (hoffset : offset < a.memory.length)
    (hcount : offset % a.blockSize + count ≤ a.blockSize) :
    a.peekBlock (offset / a.blockSize) (offset % a.blockSize) count
      = .ok (slice a.memory offset count) := by
  have hblock : offset / a.blockSize < a.blocks.length := by
    rw [HostAllocation.memory, Chunks.length_flatten a.length_of_mem] at hoffset
    exact Nat.div_lt_of_lt_mul (Nat.mul_comm _ _ ▸ hoffset)
  have hlength := a.length_of_mem _ (List.getElem_mem hblock)
  rw [HostAllocation.peekBlock, List.getElem?_eq_getElem hblock]
  simp only
  rw [peek_of_le (by omega), ← HostAllocation.slice_block hoffset hcount,
    List.getD_eq_getElem _ _ hblock]

/-- A round copies up to the end of its block, and at least a byte. -/
theorem copyRound_eq (hsize : a.sizeBytes < 2 ^ 64) (hpos : s.size ≠ 0)
    (hrange : s.offset + s.size ≤ a.sizeBytes) :
    ∃ count, 0 < count ∧ count ≤ s.size ∧ copyRound a s = .ok
      ⟨s.offset + count, s.size - count, s.output ++ slice a.memory s.offset count⟩ := by
  have hmemory := a.sizeBytes_le_length
  have hmod := Nat.mod_lt s.offset a.blockSize_pos
  have hle := Nat.min_le_left s.size (a.blockSize - s.offset % a.blockSize)
  have hblock := Nat.min_le_right s.size (a.blockSize - s.offset % a.blockSize)
  refine ⟨min s.size (a.blockSize - s.offset % a.blockSize), by omega, hle, ?_⟩
  rw [copyRound, peekBlock_eq (by omega) (by omega), ok_bind_eq, word_of_lt (by omega), ok_bind_eq]

/-! ## All rounds -/

/-- The loop ends, and has copied the bytes behind the offset. -/
theorem copyRounds_eq (hsize : a.sizeBytes < 2 ^ 64) (hrounds : size ≤ rounds)
    (hrange : offset + size ≤ a.sizeBytes) : copyRounds a rounds ⟨offset, size, output⟩
      = some (.ok ⟨offset + size, 0, output ++ slice a.memory offset size⟩) := by
  induction rounds generalizing offset size output with
  | zero =>
    obtain rfl := Nat.le_zero.mp hrounds
    rw [copyRounds, if_pos rfl, Nat.add_zero, slice, List.take_zero, List.append_nil]
  | succ rounds ih =>
    rw [copyRounds]
    split_ifs with hzero
    · obtain rfl : size = 0 := hzero
      rw [Nat.add_zero, slice, List.take_zero, List.append_nil]
    · obtain ⟨count, hpos, hle, hround⟩ :=
        copyRound_eq (s := ⟨offset, size, output⟩) hsize hzero hrange
      have hle : count ≤ size := hle
      rw [hround]
      simp only
      rw [ih (by omega) (by omega), Nat.add_assoc, Nat.add_sub_cancel' hle, List.append_assoc,
        ← slice_add, Nat.add_sub_cancel' hle]

/-- What the encoder calls is what the loop does. -/
theorem copyHostBytesIn_eq (hsize : a.sizeBytes < 2 ^ 64) (hrounds : size ≤ rounds) :
    copyHostBytesIn rounds (some a) offset size
      = some ((copyHostBytes a offset size).mapError .thrown) := by
  rw [copyHostBytesIn, copyHostBytes, throwIf]
  split_ifs with hrange
  · rfl
  · have hmemory := a.sizeBytes_le_length
    rw [copyRounds_eq hsize hrounds (by omega), ok_bind_eq,
      HostAllocation.copyBlocks_eq (Nat.le_refl size) (by omega)]
    rfl

/-- **A copy from blocks is a slice of the memory.** The loop ends after at most as many rounds as
there are bytes to copy; the copy succeeds exactly if all of them are within the allocation; then it
has written the bytes of the concatenated blocks, and else it throws. No read is outside of a block
and no sum wraps. -/
theorem copy_exact (hsize : a.sizeBytes < 2 ^ 64) (offset size : ℕ) :
    ∃ result, (∀ rounds, size ≤ rounds →
      copyHostBytesIn rounds (some a) offset size = some result) ∧
      ((∃ bs, result = .ok bs) ↔ offset + size ≤ a.sizeBytes) ∧
      (∀ bs, result = .ok bs → bs.length = size ∧ bs = (a.blocks.flatten.drop offset).take size) ∧
      ∀ fault, result = .error fault → fault
        = .thrown (.invalidArgument "native result host buffer range is invalid") := by
  refine ⟨_, fun rounds hrounds ↦ copyHostBytesIn_eq hsize hrounds, ?_⟩
  cases hcopy : copyHostBytes a offset size with
  | ok bs =>
    obtain ⟨hrange, hbs⟩ := HostAllocation.copyHostBytes_eq_ok.mp hcopy
    refine ⟨iff_of_true ⟨bs, rfl⟩ hrange, fun bs' h ↦ ?_, fun fault h ↦ nomatch h⟩
    obtain rfl := Except.ok.inj h
    exact ⟨HostAllocation.length_of_copyHostBytes hcopy, hbs⟩
  | error e =>
    have hnot : ¬offset + size ≤ a.sizeBytes := fun hrange ↦ by
      rw [HostAllocation.copyHostBytes_eq_ok.mpr ⟨hrange, rfl⟩] at hcopy
      cases hcopy
    refine ⟨iff_of_false (fun h ↦ nomatch h.choose_spec) hnot, fun bs h ↦ (nomatch h),
      fun fault h ↦ ?_⟩
    rw [copyHostBytes, throwIf, if_pos (by omega)] at hcopy
    obtain rfl := Except.error.inj h
    rw [← Except.error.inj hcopy]

/-- Three blocks of two bytes, of which five are in use, and a copy of three that takes a byte of
the first and both of the second. -/
theorem copy_exact_straddling : ∃ a : HostAllocation,
    a.blocks = [[1, 2], [3, 4], [5, 6]] ∧ a.sizeBytes = 5 ∧
      copyHostBytesIn 3 (some a) 1 3 = some (.ok [2, 3, 4]) := by
  let a : HostAllocation := {
    blockSize := 2
    sizeBytes := 5
    blocks := [[1, 2], [3, 4], [5, 6]]
    blockSize_pos := by decide
    length_of_mem := by decide
    sizeBytes_le := by decide }
  have hsize : a.sizeBytes < 2 ^ 64 := by decide
  obtain ⟨result, hrounds, hok, hbs, -⟩ := copy_exact hsize 1 3
  obtain ⟨bs, rfl⟩ := hok.mpr (by decide)
  obtain rfl : bs = [2, 3, 4] := (hbs bs rfl).2
  exact ⟨a, rfl, rfl, hrounds 3 (Nat.le_refl 3)⟩

end MoSidecar
