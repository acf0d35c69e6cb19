import MoSidecar.Protobuf.Fields
import MoSidecar.Protocol.Wire

/-!
# What the readers read

The readers of `protocol.cpp` against the wire format: a number is read exactly where a word of the
format stands, a byte string exactly where a counted string within its bound stands, and a tag is
taken exactly when its number, in 32 bits, is a field not marked yet.
-/

namespace MoSidecar

open Protobuf

theorem exists_eq_ok {ε α : Type} {x : Except ε α} (h : x.isOk = true) : ∃ a, x = .ok a := by
  cases x with
  | error e => cases h
  | ok a => exact ⟨a, rfl⟩

/-! ## Numbers -/

/-- What one more byte adds to the bits read so far. -/
theorem toNat_or_shiftLeft {value shift : UInt64} (byte : UInt8) {k : ℕ} (hshift : shift.toNat = k)
    (hk : k < 64) (hvalue : value.toNat < 2 ^ k) (hfits : 2 ^ k * (byte.toNat % 128) < 2 ^ 64) :
    (value ||| ((byte &&& 0x7f).toUInt64 <<< shift)).toNat
      = value.toNat + 2 ^ k * (byte.toNat % 128) := by
  have hbyte : (byte &&& 0x7f).toUInt64.toNat = byte.toNat % 128 := by
    rw [UInt8.toNat_toUInt64, UInt8.toNat_and]
    exact Nat.and_two_pow_sub_one_eq_mod byte.toNat 7
  rw [UInt64.toNat_or, UInt64.toNat_shiftLeft, hbyte, hshift, Nat.mod_eq_of_lt hk,
    Nat.shiftLeft_eq, Nat.mul_comm, Nat.mod_eq_of_lt hfits, Nat.or_comm,
    ← Nat.two_pow_add_eq_or_of_lt hvalue, Nat.add_comm]

theorem and_0x80_eq_zero {byte : UInt8} : byte &&& 0x80 = 0 ↔ byte.toNat < 128 := by
  have hbyte := byte.toNat_lt
  rw [← UInt8.toNat_inj, UInt8.toNat_and, show (0x80 : UInt8).toNat = 2 ^ 7 from rfl,
    Nat.and_two_pow, Nat.testBit_eq_decide_div_mod_eq, UInt8.toNat_zero]
  by_cases h : byte.toNat < 128
  · simp [h, Nat.div_eq_of_lt h]
  · have htop : byte.toNat / 128 % 2 = 1 := by omega
    simp [h, htop]

/-- A byte read into its place fits, unless it is the tenth and more than one bit. -/
theorem group_fits {k : ℕ} (hk : k ≤ 9) {byte : UInt8} (hlast : k = 9 → byte.toNat ≤ 1) :
    2 ^ (7 * k) * (byte.toNat % 128) < 2 ^ 64 := by
  rcases Nat.lt_succ_iff_lt_or_eq.mp (Nat.lt_succ_of_le hk) with hk | rfl
  · have hpow : 2 ^ (7 * k) ≤ 2 ^ 56 := Nat.pow_le_pow_right (by decide) (by omega)
    have hmod : byte.toNat % 128 ≤ 127 := by omega
    exact Nat.lt_of_le_of_lt (Nat.mul_le_mul hpow hmod) (by decide)
  · have := hlast rfl
    omega

/-- The loop reads what a word continues with: `k` groups are read already. -/
theorem varintLoop_eq_ok {left k : ℕ} (hk : k + left = 10) {shift value v : UInt64}
    (hshift : shift.toNat = 7 * k) (hvalue : value.toNat < 2 ^ (7 * k)) {input rest : Bytes} :
    varintLoop left shift value input = .ok (v, rest) ↔
      ∃ bs n, Varint bs n ∧ bs.length ≤ left ∧ v.toNat = value.toNat + 2 ^ (7 * k) * n ∧
        input = bs ++ rest := by
  -- on the bytes that may still be read; `value` holds the `k` groups that were
  induction left generalizing k shift value input with
  | zero =>
    constructor
    · intro h
      simp [varintLoop] at h
    · rintro ⟨bs, n, hbs, hlength, -, -⟩
      exact absurd (List.length_eq_zero_iff.mp (Nat.le_zero.mp hlength)) hbs.ne_nil
  | succ left ih =>
    cases input with
    | nil =>
      constructor
      · intro h
        simp [varintLoop] at h
      · rintro ⟨bs, n, hbs, -, -, hinput⟩
        exact absurd (List.append_eq_nil_iff.mp hinput.symm).1 hbs.ne_nil
    | cons byte tail =>
      have hninth : shift = 63 ↔ k = 9 := by
        rw [← UInt64.toNat_inj, hshift, show (63 : UInt64).toNat = 63 from rfl]
        omega
      have hone : byte > 1 ↔ 1 < byte.toNat := by
        rw [gt_iff_lt, UInt8.lt_iff_toNat_lt, UInt8.toNat_one]
      have hbyte := byte.toNat_lt
      rw [varintLoop]
      split_ifs with hover hend
      · -- The tenth byte holds one bit: with more, the value would not fit.
        obtain rfl := hninth.mp hover.1
        have hbig := hone.mp hover.2
        constructor
        · intro h
          cases h
        · rintro ⟨bs, n, hbs, hlength, hv, hinput⟩
          have hlt := v.toNat_lt
          cases hbs with
          | last hb =>
            obtain ⟨rfl, -⟩ := List.cons.inj hinput
            omega
          | more hb hbs =>
            have := List.length_pos_iff.mpr hbs.ne_nil
            rw [List.length_cons] at hlength
            omega
      · rw [and_0x80_eq_zero] at hend
        -- the last group: its high bit is clear
        have hgroup := toNat_or_shiftLeft byte hshift (by omega) hvalue
          (group_fits (by omega) fun h ↦ by
            by_contra hbig
            exact hover ⟨hninth.mpr h, hone.mpr (by omega)⟩)
        rw [Nat.mod_eq_of_lt hend] at hgroup
        constructor
        · intro h
          obtain ⟨rfl, rfl⟩ := Prod.mk.inj (Except.ok.inj h)
          exact ⟨[byte], byte.toNat, .last hend, Nat.le_add_left 1 left, hgroup, rfl⟩
        · rintro ⟨bs, n, hbs, -, hv, hinput⟩
          cases hbs with
          | last hb =>
            obtain ⟨rfl, rfl⟩ := List.cons.inj hinput
            rw [UInt64.toNat_inj.mp (hgroup.trans hv.symm)]
          | more hb hbs =>
            obtain ⟨rfl, -⟩ := List.cons.inj hinput
            omega
      · rw [and_0x80_eq_zero] at hend
        -- a group before the last: what follows is read by the induction hypothesis
        have hk9 : k ≠ 9 := fun h ↦ hover ⟨hninth.mpr h, hone.mpr (by omega)⟩
        have hgroup := toNat_or_shiftLeft byte hshift (by omega) hvalue
          (group_fits (by omega) fun h ↦ absurd h hk9)
        have hpow : 2 ^ (7 * (k + 1)) = 2 ^ (7 * k) * 128 := by rw [Nat.mul_succ, Nat.pow_add]
        have hmod : byte.toNat % 128 = byte.toNat - 128 := by omega
        rw [hmod] at hgroup
        have hnext : (shift + 7).toNat = 7 * (k + 1) := by
          rw [UInt64.toNat_add, hshift, show (7 : UInt64).toNat = 7 from rfl]
          omega
        have hbound : 2 ^ (7 * k) * (byte.toNat - 128) ≤ 2 ^ (7 * k) * 127 :=
          Nat.mul_le_mul_left _ (by omega)
        rw [ih (by omega) hnext (by omega), hgroup]
        constructor
        · rintro ⟨bs, n, hbs, hlength, hv, rfl⟩
          refine ⟨byte :: bs, _, .more (by omega) hbs, Nat.succ_le_succ hlength, ?_, rfl⟩
          rw [hv, hpow, Nat.mul_add, Nat.mul_assoc, Nat.add_assoc]
        · rintro ⟨bs, n, hbs, hlength, hv, hinput⟩
          cases hbs with
          | last hb =>
            obtain ⟨rfl, -⟩ := List.cons.inj hinput
            omega
          | @more b bs n hb hbs =>
            obtain ⟨rfl, rfl⟩ := List.cons.inj hinput
            refine ⟨bs, n, hbs, Nat.le_of_succ_le_succ hlength, ?_, rfl⟩
            rw [hv, hpow, Nat.mul_add, Nat.mul_assoc, Nat.add_assoc]

/-- A number is read exactly where a word stands. -/
theorem varint_eq_ok {input rest : Bytes} {v : UInt64} :
    varint input = .ok (v, rest) ↔ ∃ bs, Word bs v ∧ input = bs ++ rest := by
  rw [varint, varintLoop_eq_ok (k := 0) rfl rfl (by decide)]
  constructor
  · rintro ⟨bs, n, hbs, hlength, hv, hinput⟩
    obtain rfl : v.toNat = n := by simpa using hv
    exact ⟨bs, ⟨hbs, hlength⟩, hinput⟩
  · rintro ⟨bs, hbs, hinput⟩
    exact ⟨bs, v.toNat, hbs.varint, hbs.length_le, by simp, hinput⟩

theorem wireBytes_eq_ok {maximum : ℕ} {input value rest : Bytes} :
    wireBytes maximum input = .ok (value, rest) ↔
      ∃ bs, (Payload.bytes value).Encodes bs ∧ value.length ≤ maximum ∧ input = bs ++ rest := by
  rw [wireBytes, bind_eq_ok]
  constructor
  · rintro ⟨⟨v, tail⟩, hv, h⟩
    obtain ⟨bs, hword, rfl⟩ := varint_eq_ok.mp hv
    simp only at h
    split_ifs at h with hlength
    obtain ⟨rfl, rfl⟩ := Prod.mk.inj (Except.ok.inj h)
    have htake : (tail.take v.toNat).length = v.toNat := by
      rw [List.length_take]
      omega
    refine ⟨bs ++ tail.take v.toNat, .bytes hword htake.symm, by omega, ?_⟩
    rw [List.append_assoc, List.take_append_drop]
  · rintro ⟨bs, hencodes, hmaximum, rfl⟩
    cases hencodes with
    | @bytes ws _ v hword hlength =>
      refine ⟨(v, value ++ rest), varint_eq_ok.mpr ⟨ws, hword, List.append_assoc _ _ _⟩, ?_⟩
      simp only
      rw [if_neg, List.take_left' hlength.symm, List.drop_left' hlength.symm]
      rw [List.length_append]
      omega

/-! ## Tags -/

/-- The field number `expect_field` sees: the low 32 bits of the number in the tag. -/
def fieldKey (r : Record) : ℕ := r.field % 2 ^ 32

theorem toNat_shiftRight_three (tag : UInt64) : (tag >>> 3).toNat = tag.toNat / 8 := by
  rw [UInt64.toNat_shiftRight]
  exact Nat.shiftRight_eq_div_pow tag.toNat 3

theorem fieldKey_eq (r : Record) : (r.tag >>> 3).toUInt32.toNat = fieldKey r := by
  rw [UInt64.toNat_toUInt32, toNat_shiftRight_three, fieldKey, Record.field]

theorem wireType_eq (r : Record) : (r.tag &&& 7).toUInt32.toNat = r.wireType := by
  have hand : (r.tag &&& 7).toNat = r.tag.toNat % 8 := by
    rw [UInt64.toNat_and]
    exact Nat.and_two_pow_sub_one_eq_mod r.tag.toNat 3
  rw [UInt64.toNat_toUInt32, hand, Record.wireType]
  omega

theorem expectField_eq_ok {r : Record} {maximum : UInt32} (hmaximum : maximum.toNat ≤ 64)
    {seen seen' : UInt64} :
    expectField r.tag maximum seen = .ok seen' ↔
      1 ≤ fieldKey r ∧ fieldKey r ≤ maximum.toNat ∧ ¬Marked seen (fieldKey r) ∧
        seen' = markField seen (fieldKey r) := by
  have hzero : (r.tag >>> 3).toUInt32 = 0 ↔ fieldKey r = 0 := by
    rw [← UInt32.toNat_inj, fieldKey_eq, UInt32.toNat_zero]
  have hgt : (r.tag >>> 3).toUInt32 > maximum ↔ maximum.toNat < fieldKey r := by
    rw [gt_iff_lt, UInt32.lt_iff_toNat_lt, fieldKey_eq]
  simp only [expectField]
  split_ifs with hunknown hseen
  · rw [hzero, hgt] at hunknown
    constructor
    · intro h
      cases h
    · rintro ⟨hpos, hle, -⟩
      omega
  all_goals
    rw [hzero, hgt, not_or, Nat.not_lt] at hunknown
    have hpos : 1 ≤ fieldKey r := Nat.one_le_iff_ne_zero.mpr hunknown.1
    have hmask : ((r.tag >>> 3).toUInt32 - 1).toUInt64 = (fieldKey r - 1).toUInt64 := by
      have hone : (1 : UInt32) ≤ (r.tag >>> 3).toUInt32 := by
        rw [UInt32.le_iff_toNat_le, fieldKey_eq]
        exact hpos
      rw [← UInt64.toNat_inj, UInt32.toNat_toUInt64, UInt32.toNat_sub_of_le _ _ hone, fieldKey_eq,
        Nat.toUInt64_eq, UInt64.toNat_ofNat', UInt32.toNat_one]
      omega
    have hmarked := and_mask_ne_zero seen (Nat.le_trans hunknown.2 hmaximum) hpos
    rw [hmask, hmarked] at hseen
  · constructor
    · intro h
      cases h
    · rintro ⟨-, -, hnew, -⟩
      exact absurd hseen hnew
  · rw [hmask, ← markField, Except.ok.injEq]
    constructor
    · rintro rfl
      exact ⟨hpos, hunknown.2, hseen, rfl⟩
    · rintro ⟨-, -, -, rfl⟩
      rfl

end MoSidecar
