import MoSidecar.Protocol.Reader

/-!
# Frames are written in one way

`parse_native_batch_frame` looks at every byte of a header, so it accepts just what
`serialize_native_batch_frame` writes. Bytes of a number are compared bit by bit.
-/

namespace MoSidecar

/-- The rounds of `read_u64` collect the bits of the bytes read so far. -/
theorem testBit_readU64_rounds (bytes : Bytes) (offset : ℕ) {n : ℕ} (hn : n ≤ 8) (j : ℕ) :
    ((List.range n).foldl (fun value i ↦ value |||
      (bytes.getD (offset + i) 0).toUInt64 <<< (8 * i).toUInt64) 0).toNat.testBit j
      = (decide (j < 8 * n) && (bytes.getD (offset + j / 8) 0).toNat.testBit (j % 8)) := by
  induction n with
  | zero => simp
  | succ n ih =>
    have hshift : (8 * n).toUInt64.toNat % 64 = 8 * n := by
      rw [Nat.toUInt64_eq, UInt64.toNat_ofNat']
      omega
    rw [List.range_succ, List.foldl_append, List.foldl_cons, List.foldl_nil, UInt64.toNat_or,
      Nat.testBit_or, ih (by omega), UInt64.toNat_shiftLeft, hshift, UInt8.toNat_toUInt64,
      Nat.testBit_mod_two_pow, Nat.testBit_shiftLeft]
    have hhigh : ∀ k, 8 ≤ k → (bytes.getD (offset + n) 0).toNat.testBit k = false := fun k hk ↦
      Nat.testBit_lt_two_pow (Nat.lt_of_lt_of_le (UInt8.toNat_lt _)
        (Nat.pow_le_pow_right (by decide) hk))
    by_cases hlow : j < 8 * n
    · simp [hlow, show ¬8 * n ≤ j by omega, show j < 8 * (n + 1) by omega]
    · by_cases hj : j < 8 * (n + 1)
      · simp [hlow, hj, show 8 * n ≤ j by omega, show j < 64 by omega, show j / 8 = n by omega,
          show j - 8 * n = j % 8 by omega]
      · rw [hhigh (j - 8 * n) (by omega)]
        simp [hlow, hj]

theorem testBit_readU64 (bytes : Bytes) (offset : ℕ) {j : ℕ} (hj : j < 64) :
    (readU64 bytes offset).toNat.testBit j
      = (bytes.getD (offset + j / 8) 0).toNat.testBit (j % 8) := by
  rw [readU64, testBit_readU64_rounds bytes offset le_rfl]
  simp [hj]

/-- The bytes of the number read are those it was read from. -/
theorem u64Bytes_readU64 (bytes : Bytes) (offset : ℕ) :
    u64Bytes (readU64 bytes offset) = (List.range 8).map fun i ↦ bytes.getD (offset + i) 0 := by
  rw [u64Bytes]
  refine List.map_congr_left fun i hi ↦ ?_
  have hi := List.mem_range.mp hi
  have hshift : (8 * i).toUInt64.toNat % 64 = 8 * i := by
    rw [Nat.toUInt64_eq, UInt64.toNat_ofNat']
    omega
  refine UInt8.toNat_inj.mp (Nat.eq_of_testBit_eq fun j ↦ ?_)
  rw [UInt64.toNat_toUInt8, UInt64.toNat_shiftRight, hshift, Nat.testBit_mod_two_pow,
    Nat.testBit_shiftRight]
  by_cases hj : j < 8
  · rw [testBit_readU64 bytes offset (by omega), show (8 * i + j) / 8 = i by omega,
      show (8 * i + j) % 8 = j by omega]
    simp [hj]
  · have hhigh : (bytes.getD (offset + i) 0).toNat.testBit j = false :=
      Nat.testBit_lt_two_pow (Nat.lt_of_lt_of_le (UInt8.toNat_lt _)
        (Nat.pow_le_pow_right (by decide) (Nat.le_of_not_lt hj)))
    rw [hhigh]
    simp [hj]

theorem toNat_readU16 (bytes : Bytes) (offset : ℕ) :
    (readU16 bytes offset).toNat
      = (bytes.getD offset 0).toNat + 256 * (bytes.getD (offset + 1) 0).toNat := by
  have hlow := (bytes.getD offset 0).toNat_lt
  have hhigh := (bytes.getD (offset + 1) 0).toNat_lt
  rw [readU16, UInt16.toNat_or, UInt16.toNat_shiftLeft, UInt8.toNat_toUInt16,
    UInt8.toNat_toUInt16, show (8 : UInt16).toNat % 16 = 8 from rfl, Nat.shiftLeft_eq,
    Nat.mod_eq_of_lt (by omega), Nat.mul_comm, Nat.or_comm,
    ← Nat.two_pow_add_eq_or_of_lt (i := 8) hlow, Nat.add_comm]

/-- The bytes from an offset on, the first of them one by one. -/
theorem drop_eq_map_range {bytes : Bytes} {offset n : ℕ} (h : offset + n ≤ bytes.length) :
    bytes.drop offset
      = (List.range n).map (fun i ↦ bytes.getD (offset + i) 0) ++ bytes.drop (offset + n) := by
  induction n with
  | zero => rfl
  | succ n ih =>
    have hlt : offset + n < bytes.length := by omega
    rw [ih (by omega), List.range_succ, List.map_append, List.append_assoc,
      List.drop_eq_getElem_cons hlt, List.map_singleton, List.singleton_append,
      List.getD_eq_getElem _ _ hlt]
    rfl

/-- What an accepted frame looks like. -/
theorem eq_of_parseNativeBatchFrame {bytes : Bytes} {frame : NativeBatchFrame}
    (h : parseNativeBatchFrame bytes = .ok frame) :
    frame.sequence ≠ 0 ∧ frame.payload ≠ [] ∧
      frame.payload.length ≤ kMaxStreamInputBatchBytes.toNat ∧
        serializeNativeBatchFrame frame.sequence frame.payload = .ok bytes := by
  unfold parseNativeBatchFrame at h
  simp only at h
  split_ifs at h with hmagic hversion hlength
  obtain rfl := Except.ok.inj h
  rw [not_or, Nat.not_lt, not_not, kNativeBatchFrameHeaderBytes] at hmagic
  rw [not_or, not_not, not_not, toNat_readU16, ← UInt16.toNat_inj, toNat_readU16] at hversion
  rw [not_or, not_or, not_or, not_not, gt_iff_lt, UInt64.lt_iff_toNat_lt, Nat.not_lt,
    kNativeBatchFrameHeaderBytes] at hlength
  obtain ⟨hlong, hmagic⟩ := hmagic
  obtain ⟨hsequence, hne, hmaximum, hsize⟩ := hlength
  have hdrop : (bytes.drop 24).length = (readU64 bytes 16).toNat := by
    rw [List.length_drop, hsize]
  have hpos : (readU64 bytes 16).toNat ≠ 0 := fun h ↦ hne (UInt64.toNat_inj.mp h)
  have hpayload : bytes.drop 24 ≠ [] := fun hnil ↦ hpos (by rw [← hdrop, hnil]; rfl)
  have hcount : (bytes.drop 24).length.toUInt64 = readU64 bytes 16 := by
    rw [hdrop, Nat.toUInt64_eq, UInt64.ofNat_toNat]
  -- The four bytes of the version and the flags, each one known.
  have hversionBytes : (List.range 4).map (fun i ↦ bytes.getD (4 + i) 0)
      = [kNativeBatchCodecVersion.toUInt8, (kNativeBatchCodecVersion >>> 8).toUInt8, 0, 0] := by
    rw [show kNativeBatchCodecVersion.toNat = 1 from rfl, UInt16.toNat_zero,
      show 4 + 1 = 5 from rfl, show 6 + 1 = 7 from rfl] at hversion
    obtain ⟨hversion, hflags⟩ := hversion
    have h4 : bytes.getD 4 0 = 1 := UInt8.toNat_inj.mp (by rw [UInt8.toNat_one]; omega)
    have h5 : bytes.getD 5 0 = 0 := UInt8.toNat_inj.mp (by rw [UInt8.toNat_zero]; omega)
    have h6 : bytes.getD 6 0 = 0 := UInt8.toNat_inj.mp (by rw [UInt8.toNat_zero]; omega)
    have h7 : bytes.getD 7 0 = 0 := UInt8.toNat_inj.mp (by rw [UInt8.toNat_zero]; omega)
    calc (List.range 4).map (fun i ↦ bytes.getD (4 + i) 0)
        = [bytes.getD 4 0, bytes.getD 5 0, bytes.getD 6 0, bytes.getD 7 0] := rfl
      _ = _ := by
        rw [h4, h5, h6, h7]
        rfl
  have hbytes : bytes.take 4 ++ (List.range 4).map (fun i ↦ bytes.getD (4 + i) 0)
      ++ (List.range 8).map (fun i ↦ bytes.getD (8 + i) 0)
      ++ (List.range 8).map (fun i ↦ bytes.getD (16 + i) 0) ++ bytes.drop 24 = bytes := by
    rw [List.append_assoc, ← drop_eq_map_range (by omega), List.append_assoc,
      ← drop_eq_map_range (by omega), List.append_assoc, ← drop_eq_map_range (by omega),
      List.take_append_drop]
  refine ⟨hsequence, hpayload, hdrop ▸ hmaximum, ?_⟩
  rw [serializeNativeBatchFrame, if_neg]
  · rw [kNativeBatchFrameHeaderBytes, hcount, u64Bytes_readU64, u64Bytes_readU64, ← hversionBytes,
      ← hmagic, hbytes]
  · rw [not_or, List.isEmpty_iff]
    exact ⟨hsequence, hpayload⟩

/-- The parser accepts a byte string as a frame exactly when the serializer writes it for that
sequence and payload, both within their bounds. -/
theorem parse_iff_serialize (bytes : Bytes) (sequence : UInt64) (payload : Bytes) :
    parseNativeBatchFrame bytes = .ok ⟨sequence, payload⟩ ↔
      1 ≤ sequence.toNat ∧ 1 ≤ payload.length ∧
        payload.length ≤ kMaxStreamInputBatchBytes.toNat ∧
          serializeNativeBatchFrame sequence payload = .ok bytes := by
  have hsequence : sequence ≠ 0 ↔ 1 ≤ sequence.toNat := by
    rw [Ne, ← UInt64.toNat_inj, UInt64.toNat_zero, Nat.one_le_iff_ne_zero]
  have hpayload : payload ≠ [] ↔ 1 ≤ payload.length := by
    rw [Ne, ← List.length_eq_zero_iff, Nat.one_le_iff_ne_zero]
  rw [← hsequence, ← hpayload]
  constructor
  · intro h
    exact eq_of_parseNativeBatchFrame h
  · rintro ⟨hne, hpay, hmaximum, hserialize⟩
    obtain ⟨bytes', hserialize', -, hparse⟩ := parseNativeBatchFrame_serialize hne hpay hmaximum
    obtain rfl := Except.ok.inj (hserialize.symm.trans hserialize')
    exact hparse

end MoSidecar
