import Mathlib

/-!
# Little-endian bytes

Numbers in a fixed number of bytes, the least significant first: `value` of some bytes, and the
`bytes` of a number. Each undoes the other, on as many bytes as there are. Signed numbers are the
representatives of the same residues around zero.
-/

namespace LittleEndian

/-- The number of some bytes. -/
def value (bs : List UInt8) : ℕ := Nat.ofDigits 256 (bs.map UInt8.toNat)

/-- The lowest `w` bytes of a number. -/
def bytes : ℕ → ℕ → List UInt8
  | 0, _ => []
  | w + 1, n => UInt8.ofNat n :: bytes w (n / 256)

/-- The number of some bytes in two's complement. -/
def signed (bs : List UInt8) : ℤ := (value bs : ℤ).bmod (2 ^ (8 * bs.length))

/-- The lowest `w` bytes of a number in two's complement. -/
def signedBytes (w : ℕ) (z : ℤ) : List UInt8 := bytes w (z % 2 ^ (8 * w)).toNat

variable {bs cs : List UInt8} {w n : ℕ} {z : ℤ}

@[simp] theorem value_nil : value [] = 0 := rfl

@[simp] theorem value_cons (b : UInt8) (bs : List UInt8) :
    value (b :: bs) = b.toNat + 256 * value bs := by
  rw [value, List.map_cons, Nat.ofDigits_cons]
  rfl

@[simp] theorem bytes_zero (n : ℕ) : bytes 0 n = [] := rfl

theorem bytes_succ (w n : ℕ) : bytes (w + 1) n = UInt8.ofNat n :: bytes w (n / 256) := rfl

@[simp] theorem length_bytes (w n : ℕ) : (bytes w n).length = w := by
  induction w generalizing n with
  | zero => rfl
  | succ w ih => rw [bytes_succ, List.length_cons, ih]

@[simp] theorem length_signedBytes (w : ℕ) (z : ℤ) : (signedBytes w z).length = w :=
  length_bytes _ _

theorem pow_256 (w : ℕ) : 256 ^ w = 2 ^ (8 * w) := by
  rw [Nat.pow_mul]

theorem value_lt (bs : List UInt8) : value bs < 2 ^ (8 * bs.length) := by
  rw [← pow_256]
  induction bs with
  | nil => exact Nat.one_pos
  | cons b bs ih =>
    have hb := b.toNat_lt
    rw [value_cons, List.length_cons, Nat.pow_succ]
    omega

theorem value_bytes (w n : ℕ) : value (bytes w n) = n % 2 ^ (8 * w) := by
  rw [← pow_256]
  induction w generalizing n with
  | zero => rw [bytes_zero, value_nil, Nat.pow_zero, Nat.mod_one]
  | succ w ih =>
    rw [bytes_succ, value_cons, ih, UInt8.toNat_ofNat']
    exact (Nat.pow_succ' ▸ Nat.mod_mul).symm

theorem value_bytes_of_lt (h : n < 2 ^ (8 * w)) : value (bytes w n) = n := by
  rw [value_bytes, Nat.mod_eq_of_lt h]

/-- The bytes of the number of some bytes are those bytes. -/
theorem bytes_value (bs : List UInt8) : bytes bs.length (value bs) = bs := by
  induction bs with
  | nil => rfl
  | cons b bs ih =>
    have hb := b.toNat_lt
    have hlow : UInt8.ofNat (b.toNat + 256 * value bs) = b := by
      rw [← UInt8.toNat_inj, UInt8.toNat_ofNat']
      omega
    have hhigh : (b.toNat + 256 * value bs) / 256 = value bs := by omega
    rw [List.length_cons, value_cons, bytes_succ, hlow, hhigh, ih]

theorem bytes_value_of_length (h : bs.length = w) : bytes w (value bs) = bs := by
  rw [← h]
  exact bytes_value bs

/-! ## Two's complement -/

theorem signed_signedBytes (hle : -2 ^ (8 * w) ≤ z * 2) (hlt : z * 2 < 2 ^ (8 * w)) :
    signed (signedBytes w z) = z := by
  have hpos : (0 : ℤ) < 2 ^ (8 * w) := Int.pow_pos (by decide)
  have hnonneg : 0 ≤ z % 2 ^ (8 * w) := Int.emod_nonneg _ (Int.ne_of_gt hpos)
  have hresidue : (((z % 2 ^ (8 * w)).toNat : ℕ) : ℤ) = z % 2 ^ (8 * w) :=
    Int.toNat_of_nonneg hnonneg
  have hfits : (z % 2 ^ (8 * w)).toNat < 2 ^ (8 * w) := by
    have hmod := Int.emod_lt_of_pos z hpos
    rw [← hresidue] at hmod
    exact_mod_cast hmod
  have hcast : ((2 ^ (8 * w) : ℕ) : ℤ) = 2 ^ (8 * w) := by
    push_cast
    rfl
  rw [signed, signedBytes, length_bytes, value_bytes_of_lt hfits, hresidue, ← hcast,
    Int.emod_bmod]
  refine Int.bmod_eq_of_le_mul_two ?_ ?_
  · rw [hcast]
    exact hle
  · rw [hcast]
    exact hlt

/-- A signed number lies around zero, as the sizes of its bytes allow. -/
theorem signed_bounds (h : bs.length = w) (hw : 0 < w) :
    -2 ^ (8 * w) ≤ signed bs * 2 ∧ signed bs * 2 < 2 ^ (8 * w) := by
  obtain ⟨k, hk⟩ : ∃ k : ℕ, 2 ^ (8 * w) = 2 * k := by
    obtain ⟨v, rfl⟩ := Nat.exists_eq_add_of_lt hw
    exact ⟨2 ^ (8 * (0 + v + 1) - 1), by rw [← Nat.pow_succ']; congr 1⟩
  have hcast : (2 ^ (8 * w) : ℤ) = 2 * k := by
    exact_mod_cast hk
  have hpos : 0 < 2 * k := by
    rw [← hk]
    exact Nat.two_pow_pos _
  have hlow := Int.le_bmod (x := value bs) hpos
  have hhigh := Int.bmod_lt (x := value bs) hpos
  rw [signed, h, hk, hcast]
  omega

/-- The bytes of the signed number of some bytes are those bytes. -/
theorem signedBytes_signed (h : bs.length = w) : signedBytes w (signed bs) = bs := by
  have hlt := value_lt bs
  rw [h] at hlt
  have hcast : ((2 ^ (8 * w) : ℕ) : ℤ) = 2 ^ (8 * w) := by
    push_cast
    rfl
  have hvalue : (signed bs % 2 ^ (8 * w)).toNat = value bs := by
    rw [signed, h, ← hcast, Int.bmod_emod, Int.emod_eq_of_lt (Int.natCast_nonneg _),
      Int.toNat_natCast]
    exact_mod_cast hlt
  rw [signedBytes, hvalue]
  exact bytes_value_of_length h

/-- Bytes of a signed number that is not negative are the bytes of that number. -/
theorem bytes_toNat_signed (h : bs.length = w) (hw : 0 < w) (hnonneg : 0 ≤ signed bs) :
    bytes w (signed bs).toNat = bs := by
  have hlt := (signed_bounds h hw).2
  have hmod : signed bs % 2 ^ (8 * w) = signed bs := Int.emod_eq_of_lt hnonneg (by omega)
  have hbytes := signedBytes_signed h
  rw [signedBytes, hmod] at hbytes
  exact hbytes

theorem signedBytes_natCast (w : ℕ) {n : ℕ} (h : n < 2 ^ (8 * w)) :
    signedBytes w n = bytes w n := by
  have hmod : (n : ℤ) % 2 ^ (8 * w) = n :=
    Int.emod_eq_of_lt (Int.natCast_nonneg n) (by exact_mod_cast h)
  rw [signedBytes, hmod, Int.toNat_natCast]

end LittleEndian
