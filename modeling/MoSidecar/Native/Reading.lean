import MoSidecar.Native.Vector

/-!
# What the decoder accepts

Each part of the decoder is said to accept exactly the bytes of what it answers. For a vector that
is `parseColumn_eq_ok`: its bytes are the bytes of its parts, and the parts are `Valid`, which is
what the checks amount to.
-/

namespace MoSidecar

open LittleEndian Bitmap

variable {α β : Type} {input rest bs : Bytes} {size n rows count : ℕ} {z : ℤ}

theorem map_eq_ok {ε α β : Type} {x : Except ε α} {f : α → β} {b : β} :
    x.map f = .ok b ↔ ∃ a, x = .ok a ∧ f a = b := by
  cases x with
  | error e => simp [Except.map]
  | ok a => simp [Except.map]

theorem throwIf_eq_ok {bad : Prop} [Decidable bad] {what : String} {u : Unit} :
    throwIf bad what = .ok u ↔ ¬bad := by
  rw [throwIf]
  split_ifs with hbad
  · simp [hbad]
  · simp [hbad]

/-! ## The cursor -/

theorem cursorRead_eq_ok {value : Bytes} :
    cursorRead size input = .ok (value, rest) ↔ value.length = size ∧ input = value ++ rest := by
  rw [cursorRead]
  constructor
  · intro h
    split_ifs at h with hsize
    obtain ⟨rfl, rfl⟩ := Prod.mk.inj (Except.ok.inj h)
    exact ⟨List.length_take_of_le (Nat.le_of_not_lt hsize), (List.take_append_drop size input).symm⟩
  · rintro ⟨rfl, rfl⟩
    rw [if_neg (by rw [List.length_append]; omega), List.take_left, List.drop_left]

theorem cursorU32_eq_ok :
    cursorU32 input = .ok (n, rest) ↔ n < 2 ^ 32 ∧ input = bytes 4 n ++ rest := by
  rw [cursorU32, bind_eq_ok]
  constructor
  · rintro ⟨⟨read, rest'⟩, hread, h⟩
    obtain ⟨hlength, rfl⟩ := cursorRead_eq_ok.mp hread
    obtain ⟨rfl, rfl⟩ := Prod.mk.inj (Except.ok.inj h)
    have hlt := value_lt read
    rw [hlength] at hlt
    exact ⟨hlt, by rw [bytes_value_of_length hlength]⟩
  · rintro ⟨hlt, rfl⟩
    refine ⟨(bytes 4 n, rest), cursorRead_eq_ok.mpr ⟨length_bytes 4 n, rfl⟩, ?_⟩
    simp only
    rw [value_bytes_of_lt hlt]

theorem signed_eq_iff {w : ℕ} (hbs : bs.length = w) (hw : 0 < w) :
    signed bs = z ↔ (-2 ^ (8 * w) ≤ z * 2 ∧ z * 2 < 2 ^ (8 * w)) ∧ bs = signedBytes w z := by
  constructor
  · rintro rfl
    exact ⟨signed_bounds hbs hw, (signedBytes_signed hbs).symm⟩
  · rintro ⟨⟨hle, hlt⟩, rfl⟩
    exact signed_signedBytes hle hlt

/-- A number of `w` bytes in two's complement. -/
theorem cursorRead_signed_eq_ok {w : ℕ} (hw : 0 < w) :
    (cursorRead w input >>= fun read ↦ Except.ok (signed read.1, read.2)) = .ok (z, rest) ↔
      (-2 ^ (8 * w) ≤ z * 2 ∧ z * 2 < 2 ^ (8 * w)) ∧ input = signedBytes w z ++ rest := by
  rw [bind_eq_ok]
  constructor
  · rintro ⟨⟨read, rest'⟩, hread, h⟩
    obtain ⟨hlength, rfl⟩ := cursorRead_eq_ok.mp hread
    obtain ⟨rfl, rfl⟩ := Prod.mk.inj (Except.ok.inj h)
    obtain ⟨hbounds, hbytes⟩ := (signed_eq_iff hlength hw).mp rfl
    exact ⟨hbounds, by rw [← hbytes]⟩
  · rintro ⟨⟨hle, hlt⟩, rfl⟩
    refine ⟨(signedBytes w z, rest), cursorRead_eq_ok.mpr ⟨length_signedBytes w z, rfl⟩, ?_⟩
    simp only
    rw [signed_signedBytes hle hlt]

theorem cursorI32_eq_ok : cursorI32 input = .ok (z, rest) ↔
    (-2 ^ 31 ≤ z ∧ z < 2 ^ 31) ∧ input = signedBytes 4 z ++ rest := by
  refine (cursorRead_signed_eq_ok (w := 4) (by decide)).trans (and_congr_left' ?_)
  omega

/-- The bytes of a section: its length and what it holds. -/
def sectionBytes (s : Bytes) : Bytes := bytes 4 s.length ++ s

theorem cursorSection_eq_ok {s : Bytes} :
    cursorSection input = .ok (s, rest) ↔ s.length < 2 ^ 32 ∧ input = sectionBytes s ++ rest := by
  rw [cursorSection, bind_eq_ok]
  constructor
  · rintro ⟨⟨size, rest'⟩, hsize, h⟩
    obtain ⟨hlt, rfl⟩ := cursorU32_eq_ok.mp hsize
    obtain ⟨rfl, rfl⟩ := cursorRead_eq_ok.mp h
    exact ⟨hlt, by rw [sectionBytes, List.append_assoc]⟩
  · rintro ⟨hlt, rfl⟩
    refine ⟨(s.length, s ++ rest), cursorU32_eq_ok.mpr ⟨hlt, ?_⟩, cursorRead_eq_ok.mpr ⟨rfl, rfl⟩⟩
    rw [sectionBytes, List.append_assoc]

theorem cursorI64_eq_ok : cursorI64 input = .ok (z, rest) ↔
    (-2 ^ 63 ≤ z ∧ z < 2 ^ 63) ∧ input = signedBytes 8 z ++ rest := by
  refine (cursorRead_signed_eq_ok (w := 8) (by decide)).trans (and_congr_left' ?_)
  omega

/-! ## Null bitmaps -/

variable {nulls nullWords : Bytes} {actual : ℕ}

theorem loadU64_lt (bs : Bytes) (offset : ℕ) : loadU64 bs offset < 2 ^ 64 := by
  have hlt := value_lt (slice bs offset 8)
  have hlength : (slice bs offset 8).length ≤ 8 := List.length_take_le _ _
  exact Nat.lt_of_lt_of_le hlt (Nat.pow_le_pow_right (by decide) (by omega))

theorem length_wordsOf (bs : Bytes) : (wordsOf bs).length = bs.length / 8 := by
  rw [wordsOf, List.length_map, List.length_range]

theorem bit_wordsOf {r : ℕ} (hr : r < 64 * (bs.length / 8)) :
    bit (wordsOf bs) r = (loadU64 bs (8 * (r / 64))).testBit (r % 64) := by
  have hword : r / 64 < (wordsOf bs).length := by
    rw [length_wordsOf]
    omega
  rw [bit, List.getD_eq_getElem _ _ hword]
  simp only [wordsOf, List.getElem_map, List.getElem_range]

theorem allowedMask_eq (rows i : ℕ) : allowedMask rows i = 2 ^ min 64 (rows - 64 * i) - 1 := by
  have hremaining : (if 64 * i < rows then rows - 64 * i else 0) = rows - 64 * i := by
    split_ifs <;> omega
  rw [allowedMask, hremaining]
  split_ifs with hfull hnone
  · rw [Nat.min_eq_left hfull]
  · rw [hnone]
    rfl
  · rw [Nat.min_eq_right (by omega)]

/-- A word passes the mask if its bits are rows of the batch. -/
theorem masked_eq_zero {word : ℕ} (hword : word < 2 ^ 64) (rows i : ℕ) :
    word &&& (2 ^ 64 - 1 - allowedMask rows i) = 0 ↔
      ∀ j < 64, word.testBit j = true → 64 * i + j < rows := by
  have hmask (j : ℕ) : (2 ^ 64 - 1 - allowedMask rows i).testBit j
      = (decide (j < 64) && !decide (j < min 64 (rows - 64 * i))) := by
    have hle : 2 ^ min 64 (rows - 64 * i) ≤ 2 ^ 64 :=
      Nat.pow_le_pow_right (by decide) (Nat.min_le_left _ _)
    have hpos := Nat.two_pow_pos (min 64 (rows - 64 * i))
    rw [allowedMask_eq, Nat.sub_sub, Nat.add_comm 1,
      Nat.testBit_two_pow_sub_succ (by omega), Nat.testBit_two_pow_sub_one]
  constructor
  · intro h j hj hbit
    have hzero : (word &&& (2 ^ 64 - 1 - allowedMask rows i)).testBit j = false := by
      rw [h, Nat.zero_testBit]
    rw [Nat.testBit_and, hbit, hmask, decide_eq_true hj] at hzero
    simp only [Bool.true_and, Bool.not_eq_false', decide_eq_true_eq] at hzero
    omega
  · intro h
    refine Nat.eq_of_testBit_eq fun j ↦ ?_
    rw [Nat.testBit_and, hmask, Nat.zero_testBit]
    cases hbit : word.testBit j with
    | false => rfl
    | true =>
      have hj : j < 64 := by
        by_contra hj
        have hlt : word < 2 ^ j :=
          Nat.lt_of_lt_of_le hword (Nat.pow_le_pow_right (by decide) (Nat.le_of_not_lt hj))
        rw [Nat.testBit_lt_two_pow hlt] at hbit
        cases hbit
      have hrow := h j hj hbit
      have hmin : j < min 64 (rows - 64 * i) := by omega
      rw [decide_eq_true hj, decide_eq_true hmin]
      rfl

theorem countWords_eq_ok {k : ℕ} : (List.range k).foldlM (countWord nullWords rows) 0 = .ok actual ↔
    actual = ((List.range k).map fun i ↦ popcount (loadU64 nullWords (8 * i))).sum ∧
      ∀ i < k, ∀ j < 64, (loadU64 nullWords (8 * i)).testBit j = true → 64 * i + j < rows := by
  induction k generalizing actual with
  | zero =>
    rw [List.range_zero, List.foldlM_nil, List.map_nil, List.sum_nil]
    constructor
    · intro h
      exact ⟨(Except.ok.inj h).symm, fun i hi ↦ absurd hi (Nat.not_lt_zero i)⟩
    · rintro ⟨rfl, -⟩
      rfl
  | succ k ih =>
    rw [List.range_succ, List.foldlM_append, bind_eq_ok, List.map_append, List.sum_append]
    simp only [List.foldlM_cons, List.foldlM_nil, bind_pure, List.map_singleton,
      List.sum_singleton, countWord, ne_eq, ite_not]
    have hmask := masked_eq_zero (loadU64_lt nullWords (8 * k)) rows k
    constructor
    · rintro ⟨before, hbefore, h⟩
      obtain ⟨rfl, hrows⟩ := ih.mp hbefore
      split_ifs at h with hzero
      refine ⟨(Except.ok.inj h).symm, fun i hi ↦ ?_⟩
      rcases Nat.lt_succ_iff_lt_or_eq.mp hi with hi | rfl
      · exact hrows i hi
      · exact hmask.mp hzero
    · rintro ⟨rfl, hrows⟩
      refine ⟨_, ih.mpr ⟨rfl, fun i hi ↦ hrows i (by omega)⟩, ?_⟩
      rw [if_pos (hmask.mpr (hrows k (by omega)))]

/-- What a null bitmap says, and its bytes: none, or a header and the words. -/
structure IsNullBitmap (rows : ℕ) (nulls : Bytes) (count : ℕ) (nullWords : Bytes) : Prop where
  bytes_eq : (nulls = [] ∧ nullWords = []) ∨
    ∃ bitLength, nulls = bytes 8 count ++ (bytes 8 bitLength ++ (bytes 8 nullWords.length
      ++ nullWords)) ∧ rows ≤ bitLength ∧ bitLength < 2 ^ 32 ∧
        nullWords.length = 8 * ((bitLength + 63) / 64)
  count_eq : count = total (wordsOf nullWords)
  rows_lt : ∀ r, r < 8 * nullWords.length → bit (wordsOf nullWords) r = true → r < rows

theorem mul_wordsOf (nullWords : Bytes) (h : nullWords.length % 8 = 0) :
    64 * (wordsOf nullWords).length = 8 * nullWords.length := by
  rw [length_wordsOf]
  omega

theorem total_wordsOf (nullWords : Bytes) : total (wordsOf nullWords)
    = ((List.range (nullWords.length / 8)).map fun i ↦
        popcount (loadU64 nullWords (8 * i))).sum := by
  rw [total, wordsOf, List.map_map]
  rfl

theorem bits_lt_iff (h : nullWords.length % 8 = 0) :
    (∀ i < nullWords.length / 8, ∀ j < 64, (loadU64 nullWords (8 * i)).testBit j = true →
      64 * i + j < rows) ↔
      ∀ r, r < 8 * nullWords.length → bit (wordsOf nullWords) r = true → r < rows := by
  constructor
  · intro hwords r hr hbit
    rw [bit_wordsOf (by omega)] at hbit
    have hrow := hwords (r / 64) (by omega) (r % 64) (Nat.mod_lt _ (by decide)) hbit
    omega
  · intro hrows i hi j hj hbit
    refine hrows (64 * i + j) (by omega) ?_
    have hdiv : (64 * i + j) / 64 = i := by omega
    have hmod : (64 * i + j) % 64 = j := by omega
    rw [bit_wordsOf (by omega), hdiv, hmod]
    exact hbit

/-- Not more rows are null than there are. -/
theorem IsNullBitmap.count_le (h : IsNullBitmap rows nulls count nullWords) : count ≤ rows := by
  rcases h.bytes_eq with ⟨-, hwords⟩ | ⟨bitLength, -, hrows, -, hlength⟩
  · rw [h.count_eq, hwords]
    exact Nat.zero_le rows
  · have hwords := mul_wordsOf nullWords (by omega)
    rw [h.count_eq, total_eq_of_bounded (n := rows) (by omega) (by rw [hwords]; exact h.rows_lt)]
    exact Nat.le_trans List.countP_le_length (Nat.le_of_eq List.length_range)

theorem slice_append {before rest : Bytes} (hbefore : before.length = n) (hbs : bs.length = size) :
    slice (before ++ (bs ++ rest)) n size = bs := by
  rw [slice, List.drop_left' hbefore, List.take_left' hbs]

/-- The header of a null bitmap, field by field. -/
theorem header_eq (nulls : Bytes) :
    nulls = slice nulls 0 8 ++ (slice nulls 8 8 ++ (slice nulls 16 8
      ++ nulls.drop kMoBitmapHeaderBytes)) := by
  have hthird : slice nulls 16 8 ++ nulls.drop kMoBitmapHeaderBytes = nulls.drop 16 := by
    have hdrop : nulls.drop kMoBitmapHeaderBytes = (nulls.drop 16).drop 8 := by
      rw [List.drop_drop]
      rfl
    rw [hdrop]
    exact List.take_append_drop 8 _
  have hsecond : slice nulls 8 8 ++ nulls.drop 16 = nulls.drop 8 := by
    have hdrop : nulls.drop 16 = (nulls.drop 8).drop 8 := by
      rw [List.drop_drop]
    rw [hdrop]
    exact List.take_append_drop 8 _
  rw [hthird, hsecond]
  exact (List.take_append_drop 8 nulls).symm

theorem parseNulls_eq_ok (hrows : rows < 2 ^ 32) :
    parseNulls nulls rows = .ok (count, nullWords) ↔ IsNullBitmap rows nulls count nullWords := by
  rw [parseNulls]
  constructor
  · intro h
    split_ifs at h with hempty hshort
    · obtain ⟨rfl, rfl⟩ := Prod.mk.inj (Except.ok.inj h)
      exact ⟨.inl ⟨List.isEmpty_iff.mp hempty, rfl⟩, rfl, fun r hr ↦ absurd hr (Nat.not_lt_zero r)⟩
    · simp only at h
      split_ifs at h with hheader
      obtain ⟨actual, hactual, h⟩ := bind_eq_ok.mp h
      simp only [not_or, Int.not_lt, Nat.not_lt, not_not, gt_iff_lt] at hheader hshort
      obtain ⟨hcount, hle, hbits, hmax, hbytes, hmod, hwords⟩ := hheader
      split_ifs at h with hsame
      obtain ⟨rfl, rfl⟩ := Prod.mk.inj (Except.ok.inj h)
      obtain ⟨rfl, hbelow⟩ := countWords_eq_ok.mp hactual
      rw [not_not] at hsame
      have hlength : (nulls.drop kMoBitmapHeaderBytes).length = loadU64 nulls 16 := by
        rw [List.length_drop, hbytes]
      -- the header is three words: the count, the length in bits and the length in bytes
      have hfield (offset : ℕ) (hoffset : offset + 8 ≤ kMoBitmapHeaderBytes) :
          (slice nulls offset 8).length = 8 := by
        rw [slice, List.length_take, List.length_drop]
        omega
      refine ⟨.inr ⟨loadU64 nulls 8, ?_, hbits, by omega, by omega⟩, ?_, ?_⟩
      · rw [bytes_toNat_signed (hfield 0 (by decide)) (by decide) hcount, hlength, loadU64, loadU64,
          bytes_value_of_length (hfield 8 (by decide)),
          bytes_value_of_length (hfield 16 (by decide))]
        exact header_eq nulls
      · rw [← hsame, total_wordsOf]
      · exact (bits_lt_iff (by omega)).mp hbelow
  · intro h
    rcases h.bytes_eq with ⟨rfl, rfl⟩ | ⟨bitLength, hnulls, hbits, hmax, hlength⟩
    · rw [if_pos List.isEmpty_nil, h.count_eq]
      rfl
    · have hcount := h.count_le
      have hlen8 (m : ℕ) : (bytes 8 m).length = 8 := length_bytes 8 m
      have htotal : nulls.length = kMoBitmapHeaderBytes + nullWords.length := by
        rw [hnulls, List.length_append, List.length_append, List.length_append, hlen8, hlen8, hlen8,
          kMoBitmapHeaderBytes]
        omega
      have hfirst : signed (slice nulls 0 8) = count := by
        have hslice : slice nulls 0 8 = bytes 8 count := by
          rw [hnulls, slice, List.drop_zero, List.take_left' (hlen8 _)]
        rw [hslice, ← signedBytes_natCast 8 (by omega)]
        exact signed_signedBytes (by omega) (by omega)
      have hsecond : loadU64 nulls 8 = bitLength := by
        rw [loadU64, hnulls, slice_append (hlen8 _) (hlen8 _), value_bytes_of_lt (by omega)]
      have hthird : loadU64 nulls 16 = nullWords.length := by
        rw [loadU64, hnulls, ← List.append_assoc,
          slice_append (by rw [List.length_append, hlen8, hlen8]) (hlen8 _),
          value_bytes_of_lt (by omega)]
      have hdrop : nulls.drop kMoBitmapHeaderBytes = nullWords := by
        rw [hnulls, ← List.append_assoc, ← List.append_assoc]
        refine List.drop_left' ?_
        rw [List.length_append, List.length_append, hlen8, hlen8, hlen8]
        rfl
      have hne : ¬nulls.isEmpty = true := by
        rw [List.isEmpty_iff, ← List.length_eq_zero_iff, htotal, kMoBitmapHeaderBytes]
        omega
      have hheader : kMoBitmapHeaderBytes = 24 := rfl
      rw [if_neg hne, if_neg (by omega)]
      simp only [hfirst, hsecond, hthird, hdrop, Int.toNat_natCast]
      rw [if_neg (by omega), bind_eq_ok]
      refine ⟨count, countWords_eq_ok.mpr ⟨?_, (bits_lt_iff (by omega)).mpr h.rows_lt⟩, ?_⟩
      · rw [h.count_eq, total_wordsOf]
      · rw [if_neg (not_not.mpr rfl)]

/-! ## Vectors -/

theorem forM_eq_ok {f : α → Except Thrown Unit} {xs : List α} :
    xs.forM f = .ok () ↔ ∀ x ∈ xs, f x = .ok () := by
  induction xs with
  | nil =>
    constructor
    · exact fun _ x hx ↦ absurd hx List.not_mem_nil
    · exact fun _ ↦ rfl
  | cons x xs ih =>
    have hcons : (x :: xs).forM f = f x >>= fun _ ↦ xs.forM f := rfl
    rw [hcons, bind_eq_ok, List.forall_mem_cons]
    constructor
    · rintro ⟨⟨⟩, hx, hxs⟩
      exact ⟨hx, ih.mp hxs⟩
    · rintro ⟨hx, hxs⟩
      exact ⟨(), hx, ih.mpr hxs⟩

theorem mapM_eq_ok {ε : Type} {f : α → Except ε β} {xs : List α} {ys : List β} :
    xs.mapM f = .ok ys ↔ List.Forall₂ (fun x y ↦ f x = .ok y) xs ys := by
  induction xs generalizing ys with
  | nil =>
    constructor
    · intro h
      obtain rfl := Except.ok.inj h
      exact .nil
    · rintro ⟨⟩
      rfl
  | cons x xs ih =>
    rw [List.mapM_cons, bind_eq_ok]
    constructor
    · rintro ⟨y, hy, h⟩
      obtain ⟨ys', hys, h⟩ := bind_eq_ok.mp h
      obtain rfl := Except.ok.inj h
      exact .cons hy (ih.mp hys)
    · rintro ⟨⟩
      rename_i y ys' hy hys
      exact ⟨y, hy, bind_eq_ok.mpr ⟨ys', ih.mpr hys, rfl⟩⟩

theorem mapM_map_eq_ok {γ : Type} {f : α → Except Thrown β} {g : β → γ} {xs : List α}
    {zs : List γ} : (xs.mapM fun x ↦ (f x).map g) = .ok zs ↔
      ∃ ys, xs.mapM f = .ok ys ∧ ys.map g = zs := by
  induction xs generalizing zs with
  | nil =>
    constructor
    · intro h
      exact ⟨[], rfl, Except.ok.inj h⟩
    · rintro ⟨ys, hys, rfl⟩
      obtain rfl := Except.ok.inj hys
      rfl
  | cons x xs ih =>
    rw [List.mapM_cons, List.mapM_cons, bind_eq_ok]
    constructor
    · rintro ⟨z, hz, h⟩
      obtain ⟨y, hy, rfl⟩ := map_eq_ok.mp hz
      obtain ⟨zs', hzs, h⟩ := bind_eq_ok.mp h
      obtain ⟨ys, hys, rfl⟩ := ih.mp hzs
      exact ⟨y :: ys, bind_eq_ok.mpr ⟨y, hy, bind_eq_ok.mpr ⟨ys, hys, rfl⟩⟩, Except.ok.inj h⟩
    · rintro ⟨ys, hys, rfl⟩
      obtain ⟨y, hy, h⟩ := bind_eq_ok.mp hys
      obtain ⟨ys', hys', h⟩ := bind_eq_ok.mp h
      obtain rfl := Except.ok.inj h
      exact ⟨g y, map_eq_ok.mpr ⟨y, hy, rfl⟩,
        bind_eq_ok.mpr ⟨ys'.map g, ih.mpr ⟨ys', hys', rfl⟩, rfl⟩⟩

theorem mapM_range_eq_ok {f : ℕ → Except Thrown β} {ys : List β} :
    (List.range n).mapM f = .ok ys ↔ ys.length = n ∧ ∀ i (h : i < ys.length), f i = .ok ys[i] := by
  have hrange : (List.range n).length = n := List.length_range
  rw [mapM_eq_ok, List.forall₂_iff_get]
  constructor
  · rintro ⟨hlength, hget⟩
    refine ⟨hlength.symm.trans hrange, fun i hi ↦ ?_⟩
    have hi' := hget i (by omega) hi
    simp only [List.get_eq_getElem, List.getElem_range] at hi'
    exact hi'
  · rintro ⟨hlength, hget⟩
    refine ⟨hrange.trans hlength.symm, fun i hi hi' ↦ ?_⟩
    simp only [List.get_eq_getElem, List.getElem_range]
    exact hget i hi'

/-- A loop that puts what it reads behind what it has: `state` is what it has made of some elements,
and `Fits` is what it checks as it goes on. -/
theorem foldlM_range_eq_ok {ε σ : Type} {f : σ → ℕ → Except ε σ} {read : ℕ → Except ε α}
    (state : List α → σ) (Fits : List α → Prop) (hnil : Fits [])
    (hinit : ∀ xs x, Fits (xs ++ [x]) → Fits xs)
    (hround : ∀ xs out, Fits xs → (f (state xs) xs.length = .ok out ↔
      ∃ x, read xs.length = .ok x ∧ Fits (xs ++ [x]) ∧ out = state (xs ++ [x])))
    {k : ℕ} {out : σ} : (List.range k).foldlM f (state []) = .ok out ↔
      ∃ xs, xs.length = k ∧ (∀ i (h : i < xs.length), read i = .ok xs[i]) ∧ Fits xs ∧
        out = state xs := by
  induction k generalizing out with
  | zero =>
    constructor
    · intro h
      exact ⟨[], rfl, fun i hi ↦ absurd hi (Nat.not_lt_zero i), hnil, (Except.ok.inj h).symm⟩
    · rintro ⟨xs, hlength, -, -, rfl⟩
      rw [List.length_eq_zero_iff.mp hlength]
      rfl
  | succ k ih =>
    rw [List.range_succ, List.foldlM_append, bind_eq_ok]
    simp only [List.foldlM_cons, List.foldlM_nil, bind_pure]
    constructor
    · rintro ⟨before, hbefore, h⟩
      obtain ⟨xs, rfl, hread, hfits, rfl⟩ := ih.mp hbefore
      obtain ⟨x, hx, hfits', rfl⟩ := (hround xs out hfits).mp h
      refine ⟨xs ++ [x], List.length_append, fun i hi ↦ ?_, hfits', rfl⟩
      rcases Nat.lt_or_ge i xs.length with hlt | hge
      · rw [List.getElem_append_left hlt]
        exact hread i hlt
      · rw [List.length_append, List.length_singleton] at hi
        obtain rfl : i = xs.length := by omega
        rw [List.getElem_concat_length rfl]
        exact hx
    · rintro ⟨xs', hlength, hread, hfits, rfl⟩
      rcases List.eq_nil_or_concat' xs' with rfl | ⟨xs, x, rfl⟩
      · cases hlength
      rw [List.length_append, List.length_singleton] at hlength
      obtain rfl : xs.length = k := by omega
      have hlast := hread xs.length (by rw [List.length_append, List.length_singleton]; omega)
      rw [List.getElem_concat_length rfl] at hlast
      refine ⟨state xs, ih.mpr ⟨xs, rfl, fun i hi ↦ ?_, hinit xs x hfits, rfl⟩,
        (hround xs _ (hinit xs x hfits)).mpr ⟨x, hlast, hfits, rfl⟩⟩
      have hi' := hread i (by rw [List.length_append]; omega)
      rw [List.getElem_append_left hi] at hi'
      exact hi'

namespace NativeColumnView

/-- `MOTypeFixedSize` of the vector's type. -/
def fixedSize (tae : TaeTypes) (c : NativeColumnView) : ℤ := tae.moTypeFixedSize c.type.oid.toNat

/-- What the checks on a vector amount to. -/
structure Valid (tae : TaeTypes) (rows : ℕ) (expected : SubstraitType) (c : NativeColumnView) :
    Prop where
  vectorClass_eq : c.vectorClass = kMoVectorFlat ∨ c.vectorClass = kMoVectorConstant
  type_matches : substraitMatchesMo expected c.type = true
  logicalRows_eq : c.logicalRows = rows
  data_lt : c.data.length < 2 ^ 32
  area_lt : c.area.length < 2 ^ 32
  data_length : c.data.length = if c.vectorClass = kMoVectorConstant
    then if c.data.isEmpty then 0 else tae.moTypeSize c.type.oid.toNat
    else rows * tae.moTypeSize c.type.oid.toNat
  area_eq_nil : 0 ≤ c.fixedSize tae → c.area = []
  varlenas : c.fixedSize tae < 0 →
    c.data.length = physicalRows c.vectorClass c.data rows * kVarlenaSize ∧
      ∀ row < physicalRows c.vectorClass c.data rows, checkVarlena c.data c.area row = .ok ()

/-- What is not kept of a vector: its bitmap's header and the byte that says it is sorted. -/
structure Encodes (c : NativeColumnView) (rows : ℕ) (bs typeBytes nulls : Bytes) (sorted : UInt8) :
    Prop where
  encoded_eq : c.encoded = bs
  type_eq : c.type = MoType.load typeBytes
  typeBytes_length : typeBytes.length = kMoTypeBytes
  nulls_lt : nulls.length < 2 ^ 32
  nulls_eq : IsNullBitmap rows nulls c.nullCount c.nullWords
  sorted_le : sorted.toNat ≤ 1
  sorted_eq : c.sorted = decide (sorted.toNat ≠ 0)
  bytes_eq : bs = [c.vectorClass] ++ (typeBytes ++ (bytes 4 rows ++ (sectionBytes c.data
    ++ (sectionBytes c.area ++ (sectionBytes nulls ++ [sorted])))))

end NativeColumnView

variable {tae : TaeTypes} {expected : SubstraitType} {c : NativeColumnView}

theorem checkLengths_eq_ok {cls : UInt8} {oid : ℕ} {data area : Bytes} :
    checkLengths tae cls oid rows data area = .ok () ↔
      data.length = (if cls = kMoVectorConstant then if data.isEmpty then 0 else tae.moTypeSize oid
        else rows * tae.moTypeSize oid) ∧ (0 ≤ tae.moTypeFixedSize oid → area = []) := by
  have harea : (!area.isEmpty) = true ↔ area ≠ [] := by
    rw [Bool.not_eq_true', ← Bool.not_eq_true, List.isEmpty_iff]
  rw [checkLengths, throwIf_eq_ok, harea, not_or, not_not, not_and, not_not]
  exact and_congr_left fun _ ↦ eq_comm

theorem checkVarlenas_eq_ok {cls : UInt8} {oid : ℕ} {data area : Bytes} :
    checkVarlenas tae cls oid rows data area = .ok () ↔ (tae.moTypeFixedSize oid < 0 →
      data.length = physicalRows cls data rows * kVarlenaSize ∧
        ∀ row < physicalRows cls data rows, checkVarlena data area row = .ok ()) := by
  rw [checkVarlenas]
  split_ifs with hvarlena
  · rw [imp_iff_right hvarlena, bind_eq_ok]
    simp only [throwIf_eq_ok, not_not, forM_eq_ok, List.mem_range, exists_const]
  · simp [hvarlena]

theorem parseColumn_eq_ok (hrows : rows < 2 ^ 32) : parseColumn tae bs rows expected = .ok c ↔
    c.Valid tae rows expected ∧ ∃ typeBytes nulls sorted,
      c.Encodes rows bs typeBytes nulls sorted := by
  rw [parseColumn, bind_eq_ok]
  constructor
  · rintro ⟨⟨vectorClass, input⟩, hclass, h⟩
    obtain ⟨hone, rfl⟩ := cursorRead_eq_ok.mp hclass
    obtain ⟨cls, rfl⟩ := List.length_eq_one_iff.mp hone
    obtain ⟨⟨⟩, hkind, h⟩ := bind_eq_ok.mp h
    obtain ⟨⟨typeBytes, input⟩, htype, h⟩ := bind_eq_ok.mp h
    obtain ⟨htypeLength, rfl⟩ := cursorRead_eq_ok.mp htype
    obtain ⟨⟨⟩, hmatches, h⟩ := bind_eq_ok.mp h
    obtain ⟨⟨logicalRows, input⟩, hlogical, h⟩ := bind_eq_ok.mp h
    obtain ⟨-, rfl⟩ := cursorU32_eq_ok.mp hlogical
    obtain ⟨⟨⟩, hsame, h⟩ := bind_eq_ok.mp h
    obtain ⟨⟨data, input⟩, hdata, h⟩ := bind_eq_ok.mp h
    obtain ⟨hdataLt, rfl⟩ := cursorSection_eq_ok.mp hdata
    obtain ⟨⟨area, input⟩, harea, h⟩ := bind_eq_ok.mp h
    obtain ⟨hareaLt, rfl⟩ := cursorSection_eq_ok.mp harea
    obtain ⟨⟨nulls, input⟩, hnulls, h⟩ := bind_eq_ok.mp h
    obtain ⟨hnullsLt, rfl⟩ := cursorSection_eq_ok.mp hnulls
    obtain ⟨⟨sorted, input⟩, hsorted, h⟩ := bind_eq_ok.mp h
    obtain ⟨hone', rfl⟩ := cursorRead_eq_ok.mp hsorted
    obtain ⟨byte, rfl⟩ := List.length_eq_one_iff.mp hone'
    obtain ⟨⟨⟩, hend, h⟩ := bind_eq_ok.mp h
    obtain ⟨⟨⟩, hlengths, h⟩ := bind_eq_ok.mp h
    obtain ⟨⟨nullCount, nullWords⟩, hparse, h⟩ := bind_eq_ok.mp h
    obtain ⟨⟨⟩, hvarlenas, h⟩ := bind_eq_ok.mp h
    obtain rfl := Except.ok.inj h
    -- every piece has been read; what is left are the checks, in the order of the source
    rw [throwIf_eq_ok, not_and_or, not_not, not_not] at hkind
    rw [throwIf_eq_ok, Bool.not_eq_true', Bool.not_eq_false] at hmatches
    obtain rfl := not_not.mp (throwIf_eq_ok.mp hsame)
    rw [throwIf_eq_ok, not_or, Bool.not_eq_true', Bool.not_eq_false, List.isEmpty_iff,
      Nat.not_lt] at hend
    obtain ⟨rfl, hsortedLe⟩ := hend
    obtain ⟨hdataLength, hareaNil⟩ := checkLengths_eq_ok.mp hlengths
    refine ⟨⟨hkind, hmatches, rfl, hdataLt, hareaLt, hdataLength, hareaNil,
      checkVarlenas_eq_ok.mp hvarlenas⟩, typeBytes, nulls, byte, ⟨rfl, rfl, htypeLength, hnullsLt,
        (parseNulls_eq_ok hrows).mp hparse, hsortedLe, rfl, ?_⟩⟩
    rw [List.append_nil]
    rfl
  · rintro ⟨hvalid, typeBytes, nulls, sorted, henc⟩
    rw [henc.bytes_eq]
    refine ⟨([c.vectorClass], _), cursorRead_eq_ok.mpr ⟨rfl, rfl⟩, ?_⟩
    refine bind_eq_ok.mpr ⟨(), throwIf_eq_ok.mpr ?_, ?_⟩
    · rw [not_and_or, not_not, not_not]
      exact hvalid.vectorClass_eq
    refine bind_eq_ok.mpr ⟨(typeBytes, _), cursorRead_eq_ok.mpr ⟨henc.typeBytes_length, rfl⟩, ?_⟩
    refine bind_eq_ok.mpr ⟨(), throwIf_eq_ok.mpr ?_, ?_⟩
    · rw [Bool.not_eq_true', Bool.not_eq_false, ← henc.type_eq]
      exact hvalid.type_matches
    refine bind_eq_ok.mpr ⟨(rows, _), cursorU32_eq_ok.mpr ⟨hrows, rfl⟩, ?_⟩
    refine bind_eq_ok.mpr ⟨(), throwIf_eq_ok.mpr (not_not.mpr rfl), ?_⟩
    refine bind_eq_ok.mpr ⟨(c.data, _), cursorSection_eq_ok.mpr ⟨hvalid.data_lt, rfl⟩, ?_⟩
    refine bind_eq_ok.mpr ⟨(c.area, _), cursorSection_eq_ok.mpr ⟨hvalid.area_lt, rfl⟩, ?_⟩
    refine bind_eq_ok.mpr ⟨(nulls, _), cursorSection_eq_ok.mpr ⟨henc.nulls_lt, rfl⟩, ?_⟩
    refine bind_eq_ok.mpr ⟨([sorted], []), cursorRead_eq_ok.mpr ⟨rfl, by rw [List.append_nil]⟩, ?_⟩
    refine bind_eq_ok.mpr ⟨(), throwIf_eq_ok.mpr ?_, ?_⟩
    · rw [not_or, Nat.not_lt]
      exact ⟨nofun, henc.sorted_le⟩
    simp only [List.getD_cons_zero, ← henc.type_eq]
    refine bind_eq_ok.mpr ⟨(), checkLengths_eq_ok.mpr ⟨hvalid.data_length, hvalid.area_eq_nil⟩, ?_⟩
    refine bind_eq_ok.mpr ⟨(c.nullCount, c.nullWords),
      (parseNulls_eq_ok hrows).mpr henc.nulls_eq, ?_⟩
    refine bind_eq_ok.mpr ⟨(), checkVarlenas_eq_ok.mpr hvalid.varlenas, ?_⟩
    rw [← henc.bytes_eq, ← henc.encoded_eq, ← henc.sorted_eq, ← hvalid.logicalRows_eq]

/-! ## Batches -/

variable {types : List SubstraitType} {columns : List NativeColumnView} {b : DecodedBatch}
  {schema : NamedStruct} {envelope : NativeBatchFrame}

/-- The vectors of a batch with their columns, one for each type. -/
def ParsedColumns (tae : TaeTypes) (rows : ℕ) (types : List SubstraitType)
    (vectors : List (Bytes × NativeColumnView)) : Prop :=
  List.Forall₂ (fun expected v ↦ v.1.length < 2 ^ 32 ∧ parseColumn tae v.1 rows expected = .ok v.2)
    types vectors

theorem parseColumns_eq_ok : parseColumns tae rows types input = .ok (columns, rest) ↔
    ∃ vectors, ParsedColumns tae rows types vectors ∧ columns = vectors.map Prod.snd ∧
      input = (vectors.map Prod.fst).flatMap sectionBytes ++ rest := by
  induction types generalizing input columns with
  | nil =>
    constructor
    · intro h
      obtain ⟨rfl, rfl⟩ := Prod.mk.inj (Except.ok.inj h)
      exact ⟨[], .nil, rfl, rfl⟩
    · rintro ⟨vectors, hvectors, rfl, rfl⟩
      cases hvectors
      rfl
  | cons expected types ih =>
    rw [parseColumns, bind_eq_ok]
    constructor
    · rintro ⟨⟨vector, input'⟩, hvector, h⟩
      obtain ⟨hlt, rfl⟩ := cursorSection_eq_ok.mp hvector
      obtain ⟨column, hcolumn, h⟩ := bind_eq_ok.mp h
      obtain ⟨⟨columns', rest'⟩, hcolumns, h⟩ := bind_eq_ok.mp h
      obtain ⟨rfl, rfl⟩ := Prod.mk.inj (Except.ok.inj h)
      obtain ⟨vectors, hvectors, rfl, rfl⟩ := ih.mp hcolumns
      refine ⟨(vector, column) :: vectors, .cons ⟨hlt, hcolumn⟩ hvectors, rfl, ?_⟩
      rw [List.map_cons, List.flatMap_cons, List.append_assoc]
    · rintro ⟨vectors, hvectors, rfl, rfl⟩
      cases hvectors with
      | @cons _ v _ vectors hv hvectors =>
        refine ⟨(v.1, (vectors.map Prod.fst).flatMap sectionBytes ++ rest),
          cursorSection_eq_ok.mpr ⟨hv.1, ?_⟩, ?_⟩
        · rw [List.map_cons, List.flatMap_cons, List.append_assoc]
        · refine bind_eq_ok.mpr ⟨v.2, hv.2, bind_eq_ok.mpr ⟨(vectors.map Prod.snd, rest), ?_, rfl⟩⟩
          exact ih.mpr ⟨vectors, hvectors, rfl, rfl⟩

theorem checkMetadata_eq_ok : checkMetadata input = .ok () ↔ input = List.replicate 12 0 := by
  have hzero : signedBytes 4 0 = List.replicate 4 0 := by decide
  constructor
  · intro h
    rw [checkMetadata] at h
    obtain ⟨⟨extra, afterExtra⟩, hextra, hrest⟩ := bind_eq_ok.mp h
    obtain ⟨-, rfl⟩ := cursorI32_eq_ok.mp hextra
    obtain ⟨⟨⟩, hextraZero, hrest'⟩ := bind_eq_ok.mp hrest
    obtain ⟨⟨recursive, afterRecursive⟩, hrecursive, hrest''⟩ := bind_eq_ok.mp hrest'
    obtain ⟨-, rfl⟩ := cursorI32_eq_ok.mp hrecursive
    obtain ⟨⟨⟩, hrecursiveZero, hrest'''⟩ := bind_eq_ok.mp hrest''
    obtain ⟨⟨shuffle, afterShuffle⟩, hshuffle, hend⟩ := bind_eq_ok.mp hrest'''
    obtain ⟨-, rfl⟩ := cursorI32_eq_ok.mp hshuffle
    rw [throwIf_eq_ok, not_not] at hextraZero hrecursiveZero
    rw [throwIf_eq_ok, not_or, not_not, Bool.not_eq_true', Bool.not_eq_false,
      List.isEmpty_iff] at hend
    rw [hextraZero, hrecursiveZero, hend.1, hend.2, hzero]
    rfl
  · rintro rfl
    rw [checkMetadata, bind_eq_ok]
    refine ⟨(0, List.replicate 8 0), cursorI32_eq_ok.mpr ⟨by decide, by decide⟩, ?_⟩
    refine bind_eq_ok.mpr ⟨(), throwIf_eq_ok.mpr (by simp), ?_⟩
    refine bind_eq_ok.mpr ⟨(0, List.replicate 4 0), cursorI32_eq_ok.mpr ⟨by decide, by decide⟩, ?_⟩
    refine bind_eq_ok.mpr ⟨(), throwIf_eq_ok.mpr (by simp), ?_⟩
    refine bind_eq_ok.mpr ⟨(0, []), cursorI32_eq_ok.mpr ⟨by decide, by decide⟩, ?_⟩
    exact throwIf_eq_ok.mpr (by simp)

/-- What the constructor accepts without attributes. -/
theorem nativeBatchView_eq_ok_of_vectors {vectors : List (Bytes × NativeColumnView)}
    (hpos : 0 < rows) (hlt : rows < 2 ^ 32) (hnames : schema.names.length = types.length)
    (htypes : schema.types.getD [] = types) (hcount : types.length < 2 ^ 31)
    (hvectors : ParsedColumns tae rows types vectors)
    (hpayload : envelope.payload = signedBytes 8 rows ++ (signedBytes 4 types.length
      ++ ((vectors.map Prod.fst).flatMap sectionBytes ++ List.replicate 16 0))) :
    nativeBatchView tae envelope schema =
      .ok ⟨envelope.sequence, rows, envelope.payload.length, vectors.map Prod.snd⟩ := by
  have hzero : List.replicate 16 (0 : UInt8) = signedBytes 4 0 ++ List.replicate 12 0 := by decide
  rw [nativeBatchView, bind_eq_ok, htypes]
  refine ⟨(rows, _), cursorI64_eq_ok.mpr ⟨by omega, hpayload⟩, ?_⟩
  refine bind_eq_ok.mpr ⟨(), throwIf_eq_ok.mpr (by omega), ?_⟩
  refine bind_eq_ok.mpr ⟨(), throwIf_eq_ok.mpr (by omega), ?_⟩
  refine bind_eq_ok.mpr ⟨(types.length, _), cursorI32_eq_ok.mpr ⟨by omega, rfl⟩, ?_⟩
  refine bind_eq_ok.mpr ⟨(), throwIf_eq_ok.mpr (by rw [hnames]; omega), ?_⟩
  simp only [Int.toNat_natCast]
  refine bind_eq_ok.mpr ⟨(vectors.map Prod.snd, _), parseColumns_eq_ok.mpr
    ⟨vectors, hvectors, rfl, rfl⟩, ?_⟩
  refine bind_eq_ok.mpr ⟨(0, _), cursorI32_eq_ok.mpr ⟨by decide, hzero⟩, ?_⟩
  refine bind_eq_ok.mpr ⟨(), throwIf_eq_ok.mpr (by simp), ?_⟩
  refine bind_eq_ok.mpr ⟨List.replicate 12 0, rfl, ?_⟩
  exact bind_eq_ok.mpr ⟨(), checkMetadata_eq_ok.mpr rfl, rfl⟩

/-- The rows of an accepted batch, and its columns. -/
theorem of_nativeBatchView (h : nativeBatchView tae envelope schema = .ok b) :
    0 < b.rows ∧ b.rows < 2 ^ 32 ∧ ∃ vectors,
      ParsedColumns tae b.rows (schema.types.getD []) vectors ∧
        b.columns = vectors.map Prod.snd := by
  rw [nativeBatchView, bind_eq_ok] at h
  obtain ⟨⟨signedRows, input⟩, -, h⟩ := h
  obtain ⟨⟨⟩, hrange, h⟩ := bind_eq_ok.mp h
  obtain ⟨⟨⟩, hnonzero, h⟩ := bind_eq_ok.mp h
  obtain ⟨⟨vectorCount, input⟩, -, h⟩ := bind_eq_ok.mp h
  obtain ⟨⟨⟩, -, h⟩ := bind_eq_ok.mp h
  obtain ⟨⟨columns, input⟩, hcolumns, h⟩ := bind_eq_ok.mp h
  obtain ⟨⟨attributeCount, input⟩, -, h⟩ := bind_eq_ok.mp h
  obtain ⟨⟨⟩, -, h⟩ := bind_eq_ok.mp h
  obtain ⟨input, -, h⟩ := bind_eq_ok.mp h
  obtain ⟨⟨⟩, -, h⟩ := bind_eq_ok.mp h
  obtain rfl := Except.ok.inj h
  obtain ⟨vectors, hvectors, rfl, -⟩ := parseColumns_eq_ok.mp hcolumns
  rw [throwIf_eq_ok] at hrange hnonzero
  exact ⟨by simp only; omega, by simp only; omega, vectors, hvectors, rfl⟩

/-- A column of an accepted batch is valid, for the type that the schema has in its place. -/
theorem valid_of_getElem? {i : ℕ} (h : nativeBatchView tae envelope schema = .ok b)
    (hc : b.columns[i]? = some c) :
    ∃ expected, (schema.types.getD [])[i]? = some expected ∧ c.Valid tae b.rows expected ∧
      ∃ bs typeBytes nulls sorted, c.Encodes b.rows bs typeBytes nulls sorted := by
  obtain ⟨-, hrows, vectors, hvectors, hcolumns⟩ := of_nativeBatchView h
  have hlength := hvectors.length_eq
  rw [hcolumns, List.getElem?_map, Option.map_eq_some_iff] at hc
  obtain ⟨v, hv, rfl⟩ := hc
  obtain ⟨hi, rfl⟩ := List.getElem?_eq_some_iff.mp hv
  have hparsed := (List.forall₂_iff_get.mp hvectors).2 i (by omega) hi
  obtain ⟨hvalid, hencodes⟩ := (parseColumn_eq_ok hrows).mp hparsed.2
  exact ⟨_, List.getElem?_eq_getElem (by omega), hvalid, _, hencodes⟩

/-- Every column of an accepted batch is valid. -/
theorem valid_of_mem (h : nativeBatchView tae envelope schema = .ok b) (hc : c ∈ b.columns) :
    ∃ expected ∈ schema.types.getD [], c.Valid tae b.rows expected ∧
      ∃ bs typeBytes nulls sorted, c.Encodes b.rows bs typeBytes nulls sorted := by
  obtain ⟨i, hi⟩ := List.mem_iff_getElem?.mp hc
  obtain ⟨expected, hexpected, hvalid⟩ := valid_of_getElem? h hi
  exact ⟨expected, List.mem_of_getElem? hexpected, hvalid⟩

end MoSidecar
