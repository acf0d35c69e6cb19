import Mathlib

/-!
# Protobuf records

What a message is on the wire, apart from any program that reads one: groups of seven bits for a
number, a tag and a payload for a record, records one after another for a message. A byte string is
a message in one way only (`Splits.functional`), so that a property of its records is a property of
the bytes.

A reader takes the input to what it has not read. `readRounds` repeats a reader of one record until
nothing is left, and `readRounds_eq_ok` says what its runs are: the records of the input, each taken
by what the reader does with one.
-/

namespace Protobuf

/-! ## Numbers -/

/-- A number in groups of seven bits, the least significant first: every byte but the last has its
top bit set. -/
inductive Varint : List UInt8 → ℕ → Prop
  | last {b : UInt8} (hb : b.toNat < 128) : Varint [b] b.toNat
  | more {b : UInt8} {bs : List UInt8} {n : ℕ} (hb : 128 ≤ b.toNat) (h : Varint bs n) :
      Varint (b :: bs) (b.toNat - 128 + 128 * n)

theorem Varint.ne_nil {bs : List UInt8} {n : ℕ} (h : Varint bs n) : bs ≠ [] := by
  cases h <;> exact List.cons_ne_nil _ _

/-- Where a number ends is read off its bytes. -/
theorem Varint.append_inj {bs cs rest rest' : List UInt8} {n m : ℕ} (h : Varint bs n)
    (h' : Varint cs m) (heq : bs ++ rest = cs ++ rest') : bs = cs ∧ n = m ∧ rest = rest' := by
  induction h generalizing cs m with
  | last hb =>
    cases h' with
    | last hb' =>
      obtain ⟨rfl, rfl⟩ := List.cons.inj heq
      exact ⟨rfl, rfl, rfl⟩
    | more hb' h' =>
      obtain ⟨rfl, -⟩ := List.cons.inj heq
      omega
  | more hb h ih =>
    cases h' with
    | last hb' =>
      obtain ⟨rfl, -⟩ := List.cons.inj heq
      omega
    | more hb' h' =>
      obtain ⟨rfl, htail⟩ := List.cons.inj heq
      obtain ⟨rfl, rfl, rfl⟩ := ih h' htail
      exact ⟨rfl, rfl, rfl⟩

/-- A 64-bit value in at most the ten groups it can need. -/
structure Word (bs : List UInt8) (v : UInt64) : Prop where
  varint : Varint bs v.toNat
  length_le : bs.length ≤ 10

theorem Word.append_inj {bs cs rest rest' : List UInt8} {v w : UInt64} (h : Word bs v)
    (h' : Word cs w) (heq : bs ++ rest = cs ++ rest') : bs = cs ∧ v = w ∧ rest = rest' := by
  obtain ⟨rfl, hv, rfl⟩ := h.varint.append_inj h'.varint heq
  exact ⟨rfl, UInt64.toNat_inj.mp hv, rfl⟩

/-! ## Records -/

/-- What a record carries: a number, or a counted byte string. -/
inductive Payload where
  | varint (value : UInt64)
  | bytes (contents : List UInt8)
  deriving DecidableEq

namespace Payload

/-- The wire type that announces a payload. -/
def wireType : Payload → ℕ
  | varint _ => 0
  | bytes _ => 2

/-- The number carried; none is zero. -/
def value : Payload → UInt64
  | varint v => v
  | bytes _ => 0

/-- The byte string carried; none is empty. -/
def contents : Payload → List UInt8
  | varint _ => []
  | bytes b => b

/-- The number, or the length of the byte string: what a range bounds. -/
def size : Payload → ℕ
  | varint v => v.toNat
  | bytes b => b.length

inductive Encodes : Payload → List UInt8 → Prop
  | varint {bs : List UInt8} {v : UInt64} (h : Word bs v) : Encodes (.varint v) bs
  | bytes {bs b : List UInt8} {v : UInt64} (h : Word bs v) (hlength : v.toNat = b.length) :
      Encodes (.bytes b) (bs ++ b)

theorem eq_varint {p : Payload} (h : p.wireType = 0) : p = .varint p.value := by
  cases p with
  | varint v => rfl
  | bytes b => cases h

theorem eq_bytes {p : Payload} (h : p.wireType = 2) : p = .bytes p.contents := by
  cases p with
  | varint v => cases h
  | bytes b => rfl

theorem length_contents_le_size (p : Payload) : p.contents.length ≤ p.size := by
  cases p with
  | varint v => exact Nat.zero_le _
  | bytes b => exact Nat.le_refl _

theorem Encodes.length_contents_le {p : Payload} {bs : List UInt8} (h : p.Encodes bs) :
    p.contents.length ≤ bs.length := by
  cases h with
  | varint _ => exact Nat.zero_le _
  | bytes _ _ =>
    rw [contents, List.length_append]
    exact Nat.le_add_left _ _

theorem Encodes.append_inj {p q : Payload} {bs cs rest rest' : List UInt8} (h : p.Encodes bs)
    (h' : q.Encodes cs) (hwire : p.wireType = q.wireType) (heq : bs ++ rest = cs ++ rest') :
    bs = cs ∧ p = q ∧ rest = rest' := by
  cases h with
  | varint h =>
    cases h' with
    | varint h' =>
      obtain ⟨rfl, rfl, rfl⟩ := h.append_inj h' heq
      exact ⟨rfl, rfl, rfl⟩
    | bytes h' hlength => cases hwire
  | bytes h hlength =>
    cases h' with
    | varint h' => cases hwire
    | bytes h' hlength' =>
      rw [List.append_assoc, List.append_assoc] at heq
      obtain ⟨rfl, rfl, htail⟩ := h.append_inj h' heq
      obtain ⟨rfl, rfl⟩ := List.append_inj htail (hlength.symm.trans hlength')
      exact ⟨rfl, rfl, rfl⟩

end Payload

/-- A tag and what it announces. -/
structure Record where
  tag : UInt64
  payload : Payload
  deriving DecidableEq

namespace Record

/-- The field number: all the bits of the tag above the wire type. -/
def field (r : Record) : ℕ := r.tag.toNat / 8

def wireType (r : Record) : ℕ := r.tag.toNat % 8

structure Encodes (r : Record) (bs : List UInt8) : Prop where
  wireType_eq : r.wireType = r.payload.wireType
  eq_append : ∃ ts ps, Word ts r.tag ∧ r.payload.Encodes ps ∧ bs = ts ++ ps

theorem Encodes.ne_nil {r : Record} {bs : List UInt8} (h : r.Encodes bs) : bs ≠ [] := by
  obtain ⟨ts, ps, htag, -, rfl⟩ := h.eq_append
  exact List.append_ne_nil_of_left_ne_nil htag.varint.ne_nil ps

theorem Encodes.append_inj {r s : Record} {bs cs rest rest' : List UInt8} (h : r.Encodes bs)
    (h' : s.Encodes cs) (heq : bs ++ rest = cs ++ rest') : r = s ∧ rest = rest' := by
  obtain ⟨ts, ps, htag, hpayload, rfl⟩ := h.eq_append
  obtain ⟨ts', ps', htag', hpayload', rfl⟩ := h'.eq_append
  rw [List.append_assoc, List.append_assoc] at heq
  obtain ⟨rfl, htags, htail⟩ := htag.append_inj htag' heq
  have hwire : r.payload.wireType = s.payload.wireType := by
    rw [← h.wireType_eq, ← h'.wireType_eq, wireType, wireType, htags]
  obtain ⟨-, hpayloads, hrest⟩ := hpayload.append_inj hpayload' hwire htail
  cases r
  cases s
  exact ⟨congrArg₂ Record.mk htags hpayloads, hrest⟩

end Record

/-! ## Messages -/

/-- A byte string as records one after another. -/
inductive Splits : List UInt8 → List Record → Prop
  | nil : Splits [] []
  | cons {r : Record} {bs rest : List UInt8} {rs : List Record} (h : r.Encodes bs)
      (hrest : Splits rest rs) : Splits (bs ++ rest) (r :: rs)

/-- A byte string splits into records in one way only. -/
theorem Splits.functional {bs : List UInt8} {rs rs' : List Record} (h : Splits bs rs)
    (h' : Splits bs rs') : rs = rs' := by
  induction h generalizing rs' with
  | nil =>
    generalize hnil : ([] : List UInt8) = input at h'
    cases h' with
    | nil => rfl
    | cons h' hrest' =>
      exact absurd (List.append_eq_nil_iff.mp hnil.symm).1 h'.ne_nil
  | @cons r bs rest rs hr hrest ih =>
    generalize hinput : bs ++ rest = input at h'
    cases h' with
    | nil => exact absurd (List.append_eq_nil_iff.mp hinput).1 hr.ne_nil
    | cons hs hrest' =>
      obtain ⟨rfl, rfl⟩ := hr.append_inj hs hinput
      rw [ih hrest']

theorem Splits.singleton_iff {bs : List UInt8} {r : Record} : Splits bs [r] ↔ r.Encodes bs := by
  constructor
  · intro h
    cases h with
    | @cons _ bs rest _ hr hrest =>
      cases hrest
      rw [List.append_nil]
      exact hr
  · intro h
    have hsplits := Splits.cons h .nil
    rw [List.append_nil] at hsplits
    exact hsplits

theorem Splits.cons_iff {bs : List UInt8} {r : Record} {rs : List Record} :
    Splits bs (r :: rs) ↔ ∃ cs rest, r.Encodes cs ∧ Splits rest rs ∧ bs = cs ++ rest := by
  constructor
  · intro h
    cases h with
    | @cons _ cs rest _ hr hrest => exact ⟨cs, rest, hr, hrest, rfl⟩
  · rintro ⟨cs, rest, hr, hrest, rfl⟩
    exact .cons hr hrest

theorem Splits.wireType_eq {bs : List UInt8} {rs : List Record} (h : Splits bs rs) :
    ∀ r ∈ rs, r.wireType = r.payload.wireType := by
  induction h with
  | nil => exact List.forall_mem_nil _
  | cons hr _ ih => exact List.forall_mem_cons.mpr ⟨hr.wireType_eq, ih⟩

/-- What a record carries is no longer than the message. -/
theorem Splits.length_contents_le {bs : List UInt8} {rs : List Record} (h : Splits bs rs) :
    ∀ r ∈ rs, r.payload.contents.length ≤ bs.length := by
  induction h with
  | nil => exact List.forall_mem_nil _
  | @cons r bs rest rs hr _ ih =>
    rw [List.forall_mem_cons]
    constructor
    · obtain ⟨ts, ps, -, hp, rfl⟩ := hr.eq_append
      have hle := hp.length_contents_le
      rw [List.length_append, List.length_append]
      omega
    · intro r' hr'
      have := ih r' hr'
      rw [List.length_append]
      omega

/-- The first tag of a message is the number its bytes begin with. -/
theorem Splits.head_tag {ts rest : List UInt8} {rs : List Record} {v : UInt64} (hv : Word ts v)
    (h : Splits (ts ++ rest) rs) : ∃ r ∈ rs, r.tag = v := by
  generalize hinput : ts ++ rest = input at h
  cases h with
  | nil => exact absurd (List.append_eq_nil_iff.mp hinput).1 hv.varint.ne_nil
  | @cons r bs _ rs hr hrest =>
    obtain ⟨ts', ps, htag, -, rfl⟩ := hr.eq_append
    rw [List.append_assoc] at hinput
    obtain ⟨-, rfl, -⟩ := hv.append_inj htag hinput
    exact ⟨r, List.mem_cons_self, rfl⟩

/-! ## Reading a message -/

section Reading

variable {ε σ : Type}

/-- A reader of one record, repeated while input is left, for at most the given number of rounds;
`unread` answers for input that is left over. -/
def readRounds (round : List UInt8 → σ → Except ε (List UInt8 × σ)) (unread : ε) :
    ℕ → List UInt8 → σ → Except ε σ
  | _, [], s => .ok s
  | 0, _ :: _, _ => .error unread
  | rounds + 1, input@(_ :: _), s => do
    let (rest, s) ← round input s
    readRounds round unread rounds rest s

/-- The records of a message, each taken by a step. -/
inductive Runs (step : Record → σ → σ → Prop) : List Record → σ → σ → Prop
  | nil {s : σ} : Runs step [] s s
  | cons {r : Record} {rs : List Record} {s t u : σ} (h : step r s t) (hrest : Runs step rs t u) :
      Runs step (r :: rs) s u

/-- A reader of one record that takes the records of `step`. -/
def ReadsBy (round : List UInt8 → σ → Except ε (List UInt8 × σ))
    (step : Record → σ → σ → Prop) : Prop :=
  ∀ input s rest t, round input s = .ok (rest, t) ↔
    ∃ bs r, r.Encodes bs ∧ input = bs ++ rest ∧ step r s t

theorem readRounds_nil (round : List UInt8 → σ → Except ε (List UInt8 × σ)) (unread : ε)
    (rounds : ℕ) (s : σ) : readRounds round unread rounds [] s = .ok s := by
  cases rounds <;> rfl

theorem exists_runs_nil {step : Record → σ → σ → Prop} {s t : σ} :
    (∃ rs, Splits [] rs ∧ Runs step rs s t) ↔ s = t := by
  constructor
  · rintro ⟨rs, hsplits, hruns⟩
    obtain rfl := Splits.nil.functional hsplits
    cases hruns
    rfl
  · rintro rfl
    exact ⟨[], .nil, .nil⟩

/-- As many rounds as there are bytes are enough: what is read are the records of the input. -/
theorem readRounds_eq_ok {round : List UInt8 → σ → Except ε (List UInt8 × σ)} {unread : ε}
    {step : Record → σ → σ → Prop} (hround : ReadsBy round step) {rounds : ℕ}
    {input : List UInt8} (hrounds : input.length ≤ rounds) {s t : σ} :
    readRounds round unread rounds input s = .ok t ↔
      ∃ rs, Splits input rs ∧ Runs step rs s t := by
  induction rounds generalizing input s with
  | zero =>
    obtain rfl := List.length_eq_zero_iff.mp (Nat.le_zero.mp hrounds)
    rw [readRounds_nil, exists_runs_nil, Except.ok.injEq]
  | succ rounds ih =>
    cases input with
    | nil => rw [readRounds_nil, exists_runs_nil, Except.ok.injEq]
    | cons byte tail =>
      have hshorter {bs rest : List UInt8} {r : Record} (hr : r.Encodes bs)
          (hinput : byte :: tail = bs ++ rest) : rest.length ≤ rounds := by
        have hlength := congrArg List.length hinput
        have hpos := List.length_pos_iff.mpr hr.ne_nil
        simp only [List.length_cons, List.length_append] at hlength hrounds
        omega
      rw [readRounds]
      constructor
      · intro h
        cases hout : round (byte :: tail) s with
        | error e => simp [hout, bind, Except.bind] at h
        | ok out =>
          obtain ⟨rest, s'⟩ := out
          obtain ⟨bs, r, hr, hinput, hstep⟩ := (hround _ _ _ _).mp hout
          simp only [hout, bind, Except.bind] at h
          obtain ⟨rs, hsplits, hruns⟩ := (ih (hshorter hr hinput)).mp h
          rw [hinput]
          exact ⟨r :: rs, .cons hr hsplits, .cons hstep hruns⟩
      · rintro ⟨rs, hsplits, hruns⟩
        generalize hinput : byte :: tail = input at hsplits
        cases hsplits with
        | nil => cases hinput
        | @cons r bs rest rs hr hrest =>
          cases hruns with
          | @cons _ _ _ s' _ hstep hruns =>
            have hout : round (bs ++ rest) s = .ok (rest, s') :=
              (hround _ _ _ _).mpr ⟨bs, r, hr, rfl, hstep⟩
            simp only [hout, bind, Except.bind]
            exact (ih (hshorter hr hinput)).mpr ⟨rs, hrest, hruns⟩

end Reading

end Protobuf
