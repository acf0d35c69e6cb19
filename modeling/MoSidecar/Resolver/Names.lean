import MoSidecar.Config.Endpoint

/-!
# The names of relations

A resolved read is a view that is local to its connection. Its name is a prefix that says what kind
of read it is and 16 random bytes in hexadecimal, and it is put between quotes, as it is, into the
statement that drops the view.

Two things have to hold of such names: that they are as different as the random bytes are, and that
the statement names the view, whatever the bytes.
-/

namespace MoSidecar

/-! ## Hexadecimal -/

/-- `digits` of `hex`. -/
def hexDigits : Bytes := ascii "0123456789abcdef"

def hexDigit (n : ℕ) : UInt8 := hexDigits.getD n 0

/-- `hex`. -/
def hex (bytes : Bytes) : Bytes :=
  bytes.flatMap fun value : UInt8 ↦
    [hexDigit (value >>> 4).toNat, hexDigit (value &&& 0xf).toNat]

theorem hex_cons (value : UInt8) (bytes : Bytes) :
    hex (value :: bytes)
      = hexDigit (value >>> 4).toNat :: hexDigit (value &&& 0xf).toNat :: hex bytes :=
  rfl

theorem toNat_high (value : UInt8) : (value >>> 4).toNat = value.toNat / 16 := by
  rw [UInt8.toNat_shiftRight, Nat.shiftRight_eq_div_pow]
  rfl

theorem toNat_low (value : UInt8) : (value &&& 0xf).toNat = value.toNat % 16 := by
  rw [UInt8.toNat_and]
  exact Nat.and_two_pow_sub_one_eq_mod value.toNat 4

theorem hexDigit_inj {m n : ℕ} (hm : m < 16) (hn : n < 16) (h : hexDigit m = hexDigit n) :
    m = n := by
  have hall : ∀ m n : Fin 16, hexDigit m = hexDigit n → m = n := by decide
  exact Fin.mk.inj (hall ⟨m, hm⟩ ⟨n, hn⟩ h)

theorem hex_injective : Function.Injective hex := by
  intro a b h
  induction a generalizing b with
  | nil =>
    cases b with
    | nil => rfl
    | cons => cases h
  | cons v a ih =>
    cases b with
    | nil => cases h
    | cons w b =>
      rw [hex_cons, hex_cons] at h
      obtain ⟨hhigh, htail⟩ := List.cons.inj h
      obtain ⟨hlow, hrest⟩ := List.cons.inj htail
      rw [toNat_high, toNat_high] at hhigh
      rw [toNat_low, toNat_low] at hlow
      have hv := v.toNat_lt
      have hw := w.toNat_lt
      have hhalf := hexDigit_inj (by omega) (by omega) hhigh
      have hrem := hexDigit_inj (by omega) (by omega) hlow
      have hvw : v = w := UInt8.toNat_inj.mp (by omega)
      rw [hvw, ih hrest]

theorem length_hex (bytes : Bytes) : (hex bytes).length = 2 * bytes.length := by
  induction bytes with
  | nil => rfl
  | cons v bytes ih =>
    rw [hex_cons, List.length_cons, List.length_cons, ih, List.length_cons]
    omega

theorem mem_hexDigits_of_mem_hex {c : UInt8} {bytes : Bytes} (h : c ∈ hex bytes) :
    c ∈ hexDigits := by
  have hdigit : ∀ n < 16, hexDigit n ∈ hexDigits := by decide
  obtain ⟨v, -, hc⟩ := List.mem_flatMap.mp h
  have hv := v.toNat_lt
  rcases List.mem_cons.mp hc with rfl | hc
  · exact hdigit _ (by rw [toNat_high]; omega)
  · obtain rfl := List.mem_singleton.mp hc
    exact hdigit _ (by rw [toNat_low]; omega)

/-! ## Names -/

/-- What is read. -/
inductive ReadKind where
  | tae
  | stream
  deriving DecidableEq

/-- What a name of this kind begins with. -/
def ReadKind.leading : ReadKind → Bytes
  | .tae => ascii "__mo_tae_"
  | .stream => ascii "__mo_stream_"

/-- `random_relation_name`, with 16 bytes from `RAND_bytes`. -/
def randomRelationName (kind : ReadKind) (random : Bytes) : Bytes := kind.leading ++ hex random

/-- Names are as different as what they are made of. -/
theorem randomRelationName_inj {kind kind' : ReadKind} {random random' : Bytes}
    (hlength : random.length = random'.length)
    (h : randomRelationName kind random = randomRelationName kind' random') :
    kind = kind' ∧ random = random' := by
  have hkind : kind = kind' := by
    have hlengths := congrArg List.length h
    rw [randomRelationName, randomRelationName, List.length_append, List.length_append, length_hex,
      length_hex, hlength, Nat.add_right_cancel_iff] at hlengths
    cases kind <;> cases kind' <;> first | rfl | exact absurd hlengths (by decide)
  subst hkind
  exact ⟨rfl, hex_injective (List.append_cancel_left h)⟩

/-! ## The statement that drops a view -/

/-- The double quote. -/
def quote : UInt8 := 0x22

theorem quote_not_mem_randomRelationName (kind : ReadKind) (random : Bytes) :
    quote ∉ randomRelationName kind random := by
  intro h
  rcases List.mem_append.mp h with h | h
  · exact absurd h (by cases kind <;> decide)
  · exact absurd (mem_hexDigits_of_mem_hex h) (by decide)

/-- The statement of the destructors of resolved reads. -/
def dropStatement (relationName : Bytes) : Bytes :=
  ascii "DROP VIEW IF EXISTS " ++ quote :: (relationName ++ [quote])

/-- A quoted identifier of SQL past its first quote, and what stands behind it. Two quotes in a row
stand for one. -/
def quotedIdentifier : Bytes → Option (Bytes × Bytes)
  | [] => none
  | [c] => if c = quote then some ([], []) else none
  | c :: d :: rest =>
    if c = quote then
      if d = quote then (quotedIdentifier rest).map fun r ↦ (quote :: r.1, r.2)
      else some ([], d :: rest)
    else (quotedIdentifier (d :: rest)).map fun r ↦ (c :: r.1, r.2)

/-- The view that a statement drops. -/
def droppedView (statement : Bytes) : Option Bytes :=
  if (ascii "DROP VIEW IF EXISTS ").isPrefixOf statement then
    match statement.drop (ascii "DROP VIEW IF EXISTS ").length with
    | [] => none
    | c :: rest =>
      if c = quote then
        match quotedIdentifier rest with
        | some (name, []) => some name
        | _ => none
      else none
  else none

theorem quotedIdentifier_append {name : Bytes} (h : quote ∉ name) :
    quotedIdentifier (name ++ [quote]) = some (name, []) := by
  induction name with
  | nil => rfl
  | cons c name ih =>
    rw [List.mem_cons, not_or] at h
    have hrest := ih h.2
    obtain ⟨d, rest, hcons⟩ : ∃ d rest, name ++ [quote] = d :: rest := by
      cases name with
      | nil => exact ⟨_, _, rfl⟩
      | cons d name => exact ⟨_, _, rfl⟩
    rw [List.cons_append, hcons, quotedIdentifier, if_neg (Ne.symm h.1), ← hcons, hrest]
    rfl

/-- **The statement names the view**, since a name has no quotes. -/
theorem droppedView_dropStatement {name : Bytes} (h : quote ∉ name) :
    droppedView (dropStatement name) = some name := by
  have hdrop : (dropStatement name).drop (ascii "DROP VIEW IF EXISTS ").length
      = quote :: (name ++ [quote]) := List.drop_left
  have hleading : (ascii "DROP VIEW IF EXISTS ").isPrefixOf (dropStatement name) = true :=
    List.isPrefixOf_iff_prefix.mpr (List.prefix_append _ _)
  simp only [droppedView, hleading, if_true, hdrop, quotedIdentifier_append h]

end MoSidecar
