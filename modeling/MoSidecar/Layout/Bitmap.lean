import Mathlib

/-!
# Bitmaps

A set of small numbers as a list of 64-bit words: `r` is in it if bit `r % 64` of word `r / 64` is
set. What is counted word by word is counted number by number (`total_eq`), and setting the bits of
a list of booleans one after another, over words that start as zero, makes the list's own bitmap
(`bit_pack`).
-/

namespace Bitmap

/-- Membership in a bitmap. -/
def bit (words : List ℕ) (r : ℕ) : Bool := (words.getD (r / 64) 0).testBit (r % 64)

/-- The set bits of a word. -/
def popcount (word : ℕ) : ℕ := (List.range 64).countP word.testBit

/-- The set bits of all words. -/
def total (words : List ℕ) : ℕ := (words.map popcount).sum

/-- Put a number in. -/
def set (words : List ℕ) (r : ℕ) : List ℕ := words.modify (r / 64) (· ||| 1 <<< (r % 64))

/-- The bitmap of the places where a list of booleans is true. -/
def pack (bs : List Bool) : List ℕ :=
  (List.range bs.length).foldl (fun words r ↦ if bs.getD r false then set words r else words)
    (List.replicate ((bs.length + 63) / 64) 0)

variable {words : List ℕ} {bs : List Bool} {n r q : ℕ}

/-! ## Counting -/

theorem bit_cons_of_lt (word : ℕ) (words : List ℕ) (hr : r < 64) :
    bit (word :: words) r = word.testBit r := by
  rw [bit, Nat.div_eq_of_lt hr, Nat.mod_eq_of_lt hr, List.getD_cons_zero]

theorem bit_cons_add (word : ℕ) (words : List ℕ) (r : ℕ) :
    bit (word :: words) (64 + r) = bit words r := by
  have hdiv : (64 + r) / 64 = r / 64 + 1 := by omega
  rw [bit, bit, hdiv, Nat.add_mod_left, List.getD_cons_succ]

theorem total_eq (words : List ℕ) :
    total words = (List.range (64 * words.length)).countP (bit words) := by
  induction words with
  | nil => rfl
  | cons word words ih =>
    have hlength : 64 * (word :: words).length = 64 + 64 * words.length := by
      rw [List.length_cons]
      omega
    have hfirst : (List.range 64).countP (bit (word :: words)) = popcount word :=
      List.countP_congr fun r hr ↦ by rw [bit_cons_of_lt word words (List.mem_range.mp hr)]
    have hrest : (List.range (64 * words.length)).countP (bit (word :: words) ∘ (64 + ·))
        = (List.range (64 * words.length)).countP (bit words) :=
      List.countP_congr fun r _ ↦ by rw [Function.comp_apply, bit_cons_add]
    rw [hlength, List.range_add, List.countP_append, List.countP_map, hfirst, hrest, ← ih]
    rfl

/-- Numbers above all that are in do not count. -/
theorem countP_range_of_bounded {p : ℕ → Bool} {m : ℕ} (hle : n ≤ m)
    (h : ∀ r, n ≤ r → r < m → p r = false) :
    (List.range m).countP p = (List.range n).countP p := by
  obtain ⟨k, rfl⟩ := Nat.exists_eq_add_of_le hle
  have hzero : (List.range k).countP (p ∘ (n + ·)) = 0 := by
    rw [List.countP_eq_zero]
    intro r hr
    rw [List.mem_range] at hr
    rw [Function.comp_apply, h (n + r) (by omega) (by omega)]
    exact nofun
  rw [List.range_add, List.countP_append, List.countP_map, hzero, Nat.add_zero]

/-- If only numbers below `n` are in, and there are words for them, their count is the total. -/
theorem total_eq_of_bounded (hle : n ≤ 64 * words.length)
    (h : ∀ r, r < 64 * words.length → bit words r = true → r < n) :
    total words = (List.range n).countP (bit words) := by
  rw [total_eq]
  refine countP_range_of_bounded hle fun r hr hlt ↦ ?_
  by_contra hbit
  rw [Bool.not_eq_false] at hbit
  exact absurd (h r hlt hbit) (Nat.not_lt.mpr hr)

/-! ## Setting bits -/

@[simp] theorem length_set (words : List ℕ) (r : ℕ) : (set words r).length = words.length :=
  List.length_modify _ _ _

theorem bit_set (hr : r / 64 < words.length) :
    bit (set words r) q = (decide (q = r) || bit words q) := by
  have hget : (set words r).getD (q / 64) 0 = if r / 64 = q / 64
      then words.getD (q / 64) 0 ||| 1 <<< (r % 64) else words.getD (q / 64) 0 := by
    rw [set, List.getD_eq_getElem?_getD, List.getElem?_modify]
    split_ifs with hword
    · rw [← hword, List.getD_eq_getElem?_getD, List.getElem?_eq_getElem hr]
      rfl
    · rw [List.getD_eq_getElem?_getD]
      simp
  rw [bit, bit, hget]
  split_ifs with hword
  · rw [Nat.testBit_or, Nat.shiftLeft_eq, Nat.one_mul, Nat.testBit_two_pow, Bool.or_comm]
    congr 1
    refine decide_eq_decide.mpr ⟨fun h ↦ by omega, fun h ↦ by rw [h]⟩
  · have hne : q ≠ r := fun h ↦ hword (by rw [h])
    rw [decide_eq_false hne, Bool.false_or]

theorem length_pack_rounds (bs : List Bool) (k : ℕ) :
    ((List.range k).foldl (fun words r ↦ if bs.getD r false then set words r else words)
      (List.replicate ((bs.length + 63) / 64) 0)).length = (bs.length + 63) / 64 := by
  induction k with
  | zero => exact List.length_replicate
  | succ k ih =>
    rw [List.range_succ, List.foldl_append, List.foldl_cons, List.foldl_nil]
    split_ifs
    · rw [length_set, ih]
    · exact ih

@[simp] theorem length_pack (bs : List Bool) : (pack bs).length = (bs.length + 63) / 64 :=
  length_pack_rounds bs _

/-- After `k` rounds the first `k` booleans are in. -/
theorem bit_pack_rounds {k : ℕ} (hk : k ≤ bs.length) (q : ℕ) :
    bit ((List.range k).foldl (fun words r ↦ if bs.getD r false then set words r else words)
      (List.replicate ((bs.length + 63) / 64) 0)) q = (decide (q < k) && bs.getD q false) := by
  induction k with
  | zero =>
    have hzero : (List.replicate ((bs.length + 63) / 64) 0).getD (q / 64) 0 = 0 := by
      rw [List.getD_eq_getElem?_getD, List.getElem?_replicate]
      split_ifs <;> rfl
    rw [List.range_zero, List.foldl_nil, bit, hzero, Nat.zero_testBit]
    simp
  | succ k ih =>
    have hlength := length_pack_rounds bs k
    rw [List.range_succ, List.foldl_append, List.foldl_cons, List.foldl_nil]
    have hstep : (decide (q < k + 1) && bs.getD q false)
        = (decide (q = k) && bs.getD q false || decide (q < k) && bs.getD q false) := by
      rw [← Bool.and_or_distrib_right, ← Bool.decide_or]
      congr 1
      exact decide_eq_decide.mpr (by omega)
    rw [hstep]
    split_ifs with hk'
    · rw [bit_set (by omega), ih (by omega)]
      by_cases hq : q = k
      · rw [hq, decide_eq_true rfl, hk']
        simp
      · rw [decide_eq_false hq]
        simp
    · rw [ih (by omega)]
      by_cases hq : q = k
      · rw [Bool.not_eq_true] at hk'
        rw [hq, hk']
        simp
      · rw [decide_eq_false hq]
        simp

/-- What is in the bitmap of a list is where the list is true. -/
theorem bit_pack (bs : List Bool) (q : ℕ) : bit (pack bs) q = bs.getD q false := by
  rw [pack, bit_pack_rounds (Nat.le_refl _)]
  by_cases hq : q < bs.length
  · rw [decide_eq_true hq, Bool.true_and]
  · rw [decide_eq_false hq, List.getD_eq_default _ _ (Nat.le_of_not_lt hq)]
    rfl

/-- Its words are words. -/
theorem pack_lt (bs : List Bool) : ∀ word ∈ pack bs, word < 2 ^ 64 := by
  have hset {words : List ℕ} (h : ∀ word ∈ words, word < 2 ^ 64) (r : ℕ) :
      ∀ word ∈ set words r, word < 2 ^ 64 := by
    intro word hword
    obtain ⟨k, hk⟩ := List.mem_iff_getElem?.mp hword
    rw [set, List.getElem?_modify] at hk
    cases hget : words[k]? with
    | none => simp [hget] at hk
    | some old =>
      have hold := h old (List.mem_of_getElem? hget)
      rw [hget] at hk
      have hbit : 1 <<< (r % 64) < 2 ^ 64 := by
        rw [Nat.shiftLeft_eq, Nat.one_mul]
        exact Nat.pow_lt_pow_right (by decide) (Nat.mod_lt _ (by decide))
      split_ifs at hk
      · obtain rfl := Option.some.inj hk
        exact Nat.or_lt_two_pow hold hbit
      · obtain rfl := Option.some.inj hk
        exact hold
  have hrounds (k : ℕ) : ∀ word ∈ (List.range k).foldl
      (fun words r ↦ if bs.getD r false then set words r else words)
      (List.replicate ((bs.length + 63) / 64) 0), word < 2 ^ 64 := by
    induction k with
    | zero =>
      intro word hword
      rw [List.eq_of_mem_replicate hword]
      exact Nat.two_pow_pos 64
    | succ k ih =>
      rw [List.range_succ, List.foldl_append, List.foldl_cons, List.foldl_nil]
      split_ifs
      · exact hset ih k
      · exact ih
  exact hrounds _

/-- As many bits are set as the list has places that are true. -/
theorem total_pack (bs : List Bool) : total (pack bs) = bs.count true := by
  have hbounded : ∀ r, r < 64 * (pack bs).length → bit (pack bs) r = true → r < bs.length := by
    intro r _ hbit
    by_contra hr
    rw [bit_pack, List.getD_eq_default _ _ (Nat.le_of_not_lt hr)] at hbit
    cases hbit
  rw [total_eq_of_bounded (by rw [length_pack]; omega) hbounded]
  have hmap : bs = (List.range bs.length).map (fun r ↦ bs.getD r false) := by
    refine List.ext_getElem (by simp) fun r hr _ ↦ ?_
    rw [List.getElem_map, List.getElem_range, List.getD_eq_getElem _ _ hr]
  rw [List.count, hmap, List.countP_map, List.length_map, List.length_range, ← hmap]
  exact List.countP_congr fun r _ ↦ by
    rw [bit_pack, Function.comp_apply]
    simp

end Bitmap
