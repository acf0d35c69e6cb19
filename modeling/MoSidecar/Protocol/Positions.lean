import MoSidecar.Protocol.Serialization

/-!
# The position of the reader

`Wire` models a reader as what is left of the input, which leaves its position out. Here it is as in
the source: the input and a position in it, from which bytes are taken one at a time. The two agree
(`varintRounds_eq`), so that what is known of the one is known of the other, and the position says
the rest: how far a number reaches, and that no byte outside of the input is read.
-/

namespace MoSidecar

open Protobuf

/-- `wire_reader`. -/
structure WireReader where
  input : Bytes
  position : ℕ
  position_le : position ≤ input.length

namespace WireReader

/-- What is left to read. -/
def rest (r : WireReader) : Bytes := r.input.drop r.position

/-- `done`. -/
def done (r : WireReader) : Bool := r.position == r.input.length

/-- `input_[position_++]`, if there is such a byte. -/
def next? (r : WireReader) : Option (UInt8 × WireReader) :=
  if h : r.position < r.input.length then some (r.input[r.position], ⟨r.input, r.position + 1, h⟩)
  else none

/-- The loop of `varint`, with the reader it leaves; nothing if a byte is read that is not there. -/
def varintRounds : ℕ → UInt64 → UInt64 → WireReader → Option (Except String UInt64 × WireReader)
  | 0, _, _, r => some (.error "overflowing protobuf varint", r)
  | left + 1, shift, value, r =>
    if r.done then some (.error "truncated protobuf varint", r)
    else do
      let (byte, r) ← r.next?
      if shift = 63 ∧ byte > 1 then some (.error "overflowing protobuf varint", r)
      else
        let value := value ||| ((byte &&& 0x7f).toUInt64 <<< shift)
        if byte &&& 0x80 = 0 then some (.ok value, r)
        else varintRounds left (shift + 7) value r

/-- `varint`. -/
def varint (r : WireReader) : Option (Except String UInt64 × WireReader) := varintRounds 10 0 0 r

variable {r r' : WireReader} {left : ℕ} {shift value v : UInt64} {result : Except String UInt64}

theorem length_rest (r : WireReader) : r.rest.length = r.input.length - r.position :=
  List.length_drop

theorem done_iff : r.done = true ↔ r.rest = [] := by
  have hle := r.position_le
  rw [done, beq_iff_eq, ← List.length_eq_zero_iff, length_rest]
  omega

theorem next?_eq_some {byte : UInt8} {tail : Bytes} (h : r.rest = byte :: tail) :
    ∃ r', r.next? = some (byte, r') ∧ r'.input = r.input ∧ r'.position = r.position + 1 ∧
      r'.rest = tail := by
  have hlt : r.position < r.input.length := by
    have hlength := r.length_rest
    rw [h, List.length_cons] at hlength
    omega
  have hcons : r.input[r.position] :: r.input.drop (r.position + 1) = byte :: tail := by
    rw [← List.drop_eq_getElem_cons hlt]
    exact h
  obtain ⟨hbyte, htail⟩ := List.cons.inj hcons
  exact ⟨⟨r.input, r.position + 1, hlt⟩, by rw [next?, dif_pos hlt, hbyte], rfl, rfl, htail⟩

/-- **The loop reads what is left of the input**, a byte a round, and answers what the reader
without a position answers. -/
theorem varintRounds_eq : ∃ result r', varintRounds left shift value r = some (result, r') ∧
    r'.input = r.input ∧ r.position ≤ r'.position ∧ r'.position ≤ r.position + left ∧
    varintLoop left shift value r.rest = result.map (·, r'.rest) := by
  induction left generalizing shift value r with
  | zero => exact ⟨_, r, rfl, rfl, le_rfl, le_rfl, rfl⟩
  | succ left ih =>
    rw [varintRounds]
    cases hrest : r.rest with
    | nil =>
      rw [if_pos (done_iff.mpr hrest)]
      exact ⟨_, r, rfl, rfl, le_rfl, Nat.le_add_right _ _, rfl⟩
    | cons byte tail =>
      have hdone : ¬r.done = true := by
        rw [done_iff, hrest]
        exact List.cons_ne_nil byte tail
      obtain ⟨r', hnext, hinput, hposition, htail⟩ := next?_eq_some hrest
      rw [if_neg hdone, hnext, varintLoop, Option.bind_eq_bind, Option.bind_some]
      simp only
      split_ifs with hover hlast
      · exact ⟨_, r', rfl, hinput, by omega, by omega, rfl⟩
      · exact ⟨_, r', rfl, hinput, by omega, by omega, by rw [← htail]; rfl⟩
      · obtain ⟨result, r'', hrounds, hinput', hle, hle', hloop⟩ :=
          @ih r' (shift + 7) (value ||| ((byte &&& 0x7f).toUInt64 <<< shift))
        rw [htail] at hloop
        exact ⟨result, r'', hrounds, hinput'.trans hinput, by omega, by omega, hloop⟩

theorem varint_eq : ∃ result r', r.varint = some (result, r') ∧ r'.input = r.input ∧
    r.position ≤ r'.position ∧ r'.position ≤ r.position + 10 ∧
    MoSidecar.varint r.rest = result.map (·, r'.rest) := varintRounds_eq

/-- What is left of the same input says where the reader is. -/
theorem position_eq {bs : Bytes} (hinput : r'.input = r.input) (h : r.rest = bs ++ r'.rest) :
    r'.position = r.position + bs.length := by
  have hlength := congrArg List.length h
  have hle := r.position_le
  have hle' := r'.position_le
  rw [List.length_append, length_rest, length_rest, hinput] at hlength
  rw [hinput] at hle'
  omega

/-- A reader that has read some of its input. -/
def behind (before rest : Bytes) : WireReader where
  input := before ++ rest
  position := before.length
  position_le := by
    rw [List.length_append]
    exact Nat.le_add_right _ _

theorem rest_behind (before rest : Bytes) : (behind before rest).rest = rest :=
  List.drop_left' rfl

theorem eq_of_position_eq (hinput : r.input = r'.input) (hposition : r.position = r'.position) :
    r = r' := by
  cases r
  cases r'
  rw [WireReader.mk.injEq]
  exact ⟨hinput, hposition⟩

theorem map_rest_eq_ok {tail : Bytes} :
    result.map (·, r'.rest) = .ok (v, tail) ↔ result = .ok v ∧ r'.rest = tail := by
  cases result with
  | error e => exact iff_of_false nofun nofun
  | ok w => rw [Except.map, Except.ok.injEq, Except.ok.injEq, Prod.mk.injEq]

/-- **Numbers are read as they stand.** From every position a reader stops within ten bytes, without
a read outside of the input; it answers a value exactly if the groups of that value stand there, in
at most ten bytes, and is then behind them. And where a number was written, it is read, up to what
follows it. -/
theorem varint_correct :
    (∀ r : WireReader, ∃ result r', r.varint = some (result, r') ∧ r'.input = r.input ∧
      r.position ≤ r'.position ∧ r'.position ≤ r.position + 10 ∧
      (∀ v, result = .ok v ↔ ∃ bs, bs <+: r.rest ∧ bs.length ≤ 10 ∧ Varint bs v.toNat) ∧
      ∀ v bs, result = .ok v → bs <+: r.rest → Varint bs v.toNat →
        r'.position = r.position + bs.length) ∧
    ∀ (before suffix : Bytes) (v : UInt64),
      (behind before (appendVarint [] v.toNat ++ suffix)).varint
        = some (.ok v, behind (before ++ appendVarint [] v.toNat) suffix) := by
  constructor
  · intro r
    obtain ⟨result, r', hvarint, hinput, hle, hle', heq⟩ := r.varint_eq
    have hok (v : UInt64) : result = .ok v ↔ ∃ bs, Word bs v ∧ r.rest = bs ++ r'.rest := by
      rw [← varint_eq_ok, heq, map_rest_eq_ok, and_iff_left rfl]
    refine ⟨result, r', hvarint, hinput, hle, hle', fun v ↦ ?_, fun v bs hv hbs hgroups ↦ ?_⟩
    · rw [hok]
      constructor
      · rintro ⟨bs, hword, hrest⟩
        exact ⟨bs, ⟨r'.rest, hrest.symm⟩, hword.length_le, hword.varint⟩
      · rintro ⟨bs, ⟨tail, hrest⟩, hlength, hgroups⟩
        -- The reader without a position reads this number, and it reads one thing only.
        have hread := varint_eq_ok.mpr ⟨bs, ⟨hgroups, hlength⟩, hrest.symm⟩
        rw [heq] at hread
        obtain ⟨-, rfl⟩ := map_rest_eq_ok.mp hread
        exact ⟨bs, ⟨hgroups, hlength⟩, hrest.symm⟩
    · obtain ⟨cs, hword, hrest⟩ := (hok v).mp hv
      obtain ⟨tail, htail⟩ := hbs
      obtain ⟨rfl, -, -⟩ := hgroups.append_inj hword.varint (htail.trans hrest)
      exact position_eq hinput hrest
  · intro before suffix v
    have hgroups : appendVarint [] v.toNat = groups v.toNat := by
      rw [appendVarint_eq, List.nil_append]
    obtain ⟨result, r', hvarint, hinput, -, -, heq⟩ :=
      (behind before (appendVarint [] v.toNat ++ suffix)).varint_eq
    have hread : MoSidecar.varint (groups v.toNat ++ suffix) = .ok (v, suffix) :=
      varint_eq_ok.mpr ⟨groups v.toNat, word_groups v, rfl⟩
    rw [rest_behind, hgroups, hread] at heq
    obtain ⟨rfl, hrest⟩ := map_rest_eq_ok.mp heq.symm
    have hposition : r'.position = before.length + (appendVarint [] v.toNat).length := by
      rw [hgroups]
      exact position_eq (r := behind before (appendVarint [] v.toNat ++ suffix)) hinput
        (by rw [rest_behind, hgroups, hrest])
    rw [hvarint]
    refine congrArg some (congrArg (Prod.mk _) (eq_of_position_eq ?_ ?_))
    · rw [hinput]
      exact (List.append_assoc before _ suffix).symm
    · rw [hposition]
      exact List.length_append.symm

/-- The largest number, in ten bytes, with a byte before it and one behind it. -/
theorem varint_correct_max :
    (behind [7] (appendVarint [] (2 ^ 64 - 1 : UInt64).toNat ++ [9])).varint
    = some (.ok (2 ^ 64 - 1), behind ([7] ++ appendVarint [] (2 ^ 64 - 1 : UInt64).toNat) [9]) :=
  varint_correct.2 [7] [9] _

end WireReader

end MoSidecar
