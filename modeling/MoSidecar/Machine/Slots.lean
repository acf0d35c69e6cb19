import Mathlib

/-!
# A table of slots

Requests are told apart by keys. The key of a request has a slot from the time that the request is
taken on until it is forgotten. At first the slot has only the fingerprint of the request; later it
has the ticket as well under which what was made of the request can be had. A slot can be marked as
called off, and the table can be closed to new requests.

What a slot has it keeps: a key that is forgotten and taken on again has a slot of its own, with a
serial of its own.
-/

open Function (update)

/-- The slot of a request with a fingerprint. -/
structure Slot (φ τ : Type*) where
  serial : ℕ
  fingerprint : φ
  ticket : Option τ := none
  cancelled : Bool := false

/-- What a slot may turn into. -/
structure Slot.Onward {φ τ : Type*} (x x' : Slot φ τ) : Prop where
  serial : x'.serial = x.serial
  fingerprint : x'.fingerprint = x.fingerprint
  ticket : ∀ t, x.ticket = some t → x'.ticket = some t
  cancelled : x.cancelled = true → x'.cancelled = true

namespace Slot.Onward

variable {φ τ : Type*} {x x' x'' : Slot φ τ}

theorem refl (x : Slot φ τ) : x.Onward x :=
  ⟨rfl, rfl, fun _ ↦ id, id⟩

theorem trans (h : x.Onward x') (h' : x'.Onward x'') : x.Onward x'' where
  serial := h'.serial.trans h.serial
  fingerprint := h'.fingerprint.trans h.fingerprint
  ticket t ht := h'.ticket t (h.ticket t ht)
  cancelled hx := h'.cancelled (h.cancelled hx)

end Slot.Onward

/-- A table with room for `max` slots. -/
@[ext]
structure SlotTable (κ φ τ : Type*) (max : ℕ) where
  slot : κ → Option (Slot φ τ)
  /-- The keys that have a slot. -/
  keys : Finset κ
  /-- The serial of the next slot. -/
  next : ℕ
  closed : Bool
  mem_keys : ∀ k, k ∈ keys ↔ (slot k).isSome
  bound : keys.card ≤ max
  older : ∀ k x, slot k = some x → x.serial < next
  /-- A ticket is that of one key. -/
  distinct : ∀ k k' x x' t, slot k = some x → slot k' = some x' → x.ticket = some t →
    x'.ticket = some t → k = k'

/-- What a table has to say to a request. -/
inductive SlotAnswer (τ : Type*) where
  | closed
  | fresh
  /-- The key is that of another request. -/
  | conflict
  | pending
  | over
  | found (ticket : τ)

namespace SlotTable

variable {κ φ τ : Type*} [DecidableEq κ] {max : ℕ} {a b c : SlotTable κ φ τ max} {k : κ}
  {x : Slot φ τ}

/-- A table without slots. -/
def empty (κ φ τ : Type*) (max : ℕ) : SlotTable κ φ τ max where
  slot _ := none
  keys := ∅
  next := 0
  closed := false
  mem_keys k := by simp
  bound := by simp
  older _ _ h := by cases h
  distinct _ _ _ _ _ h := by cases h

/-- What becomes of a table. -/
inductive Next (a b : SlotTable κ φ τ max) : Prop
  | reserve {k : κ} {p : φ} (hopen : a.closed = false) (hfree : a.slot k = none)
    (hslot : b.slot = update a.slot k (some { serial := a.next, fingerprint := p }))
    (hnext : b.next = a.next + 1) (hclosed : b.closed = a.closed)
  | cancel {k : κ} {x : Slot φ τ} (hx : a.slot k = some x)
    (hslot : b.slot = update a.slot k (some { x with cancelled := true }))
    (hnext : b.next = a.next) (hclosed : b.closed = a.closed)
  | publish {k : κ} {x : Slot φ τ} {t : τ} (hopen : a.closed = false) (hx : a.slot k = some x)
    (hpending : x.ticket = none) (hslot : b.slot = update a.slot k (some { x with ticket := t }))
    (hnext : b.next = a.next) (hclosed : b.closed = a.closed)
  | vacate {k : κ} {x : Slot φ τ} (hx : a.slot k = some x) (hslot : b.slot = update a.slot k none)
    (hnext : b.next = a.next) (hclosed : b.closed = a.closed)
  | close (hslot : b.slot = a.slot) (hnext : b.next = a.next) (hclosed : b.closed = true)

/-- Any number of changes. -/
abbrev Steps : SlotTable κ φ τ max → SlotTable κ φ τ max → Prop := Relation.ReflTransGen Next

/-- A slot that is there after a change at one key is the new one, or was there before. -/
theorem slot_update {k' : κ} {o : Option (Slot φ τ)} (hslot : b.slot = update a.slot k' o)
    {x' : Slot φ τ} (hx' : b.slot k = some x') : k = k' ∧ o = some x' ∨ a.slot k = some x' := by
  rw [hslot] at hx'
  by_cases hk : k = k'
  · subst hk
    rw [Function.update_self] at hx'
    exact .inl ⟨rfl, hx'⟩
  · rw [Function.update_of_ne hk] at hx'
    exact .inr hx'

/-- A slot that is there after a change was there before it, or is the new one of a table that is
open. -/
theorem Next.slot_cases (h : Next a b) {x' : Slot φ τ} (hx' : b.slot k = some x') :
    (∃ x, a.slot k = some x ∧ x.Onward x') ∨ a.closed = false ∧ x'.serial = a.next := by
  have hkept : a.slot k = some x' → ∃ x, a.slot k = some x ∧ x.Onward x' :=
    fun h ↦ ⟨x', h, .refl x'⟩
  cases h with
  | reserve hopen hfree hslot =>
    rcases slot_update hslot hx' with ⟨rfl, heq⟩ | hold
    · obtain rfl := Option.some.inj heq
      exact .inr ⟨hopen, rfl⟩
    · exact .inl (hkept hold)
  | @cancel k' x hx hslot =>
    rcases slot_update hslot hx' with ⟨rfl, heq⟩ | hold
    · obtain rfl := Option.some.inj heq
      exact .inl ⟨x, hx, rfl, rfl, fun _ ↦ id, fun _ ↦ rfl⟩
    · exact .inl (hkept hold)
  | @publish k' x t hopen hx hpending hslot =>
    rcases slot_update hslot hx' with ⟨rfl, heq⟩ | hold
    · obtain rfl := Option.some.inj heq
      refine .inl ⟨x, hx, rfl, rfl, fun t' ht' ↦ ?_, id⟩
      rw [hpending] at ht'
      cases ht'
    · exact .inl (hkept hold)
  | vacate hx hslot =>
    rcases slot_update hslot hx' with ⟨-, heq⟩ | hold
    · cases heq
    · exact .inl (hkept hold)
  | close hslot =>
    rw [hslot] at hx'
    exact .inl (hkept hx')

theorem Next.next_le (h : Next a b) : a.next ≤ b.next := by
  cases h with
  | reserve _ _ _ hnext => exact hnext ▸ Nat.le_succ _
  | cancel _ _ hnext | publish _ _ _ _ hnext | vacate _ _ hnext | close _ hnext =>
    exact Nat.le_of_eq hnext.symm

theorem Next.closed_of_closed (h : Next a b) (hclosed : a.closed = true) : b.closed = true := by
  cases h with
  | reserve _ _ _ _ hkept | cancel _ _ _ hkept | publish _ _ _ _ _ hkept | vacate _ _ _ hkept =>
    exact hkept.trans hclosed
  | close _ _ hclosed => exact hclosed

theorem Steps.next_le (h : Steps a b) : a.next ≤ b.next := by
  induction h with
  | refl => exact Nat.le_refl _
  | tail _ hnext ih => exact Nat.le_trans ih hnext.next_le

/-- **Slots are not resurrected.** A slot with an old serial was there all the time, and has kept
what it had. -/
theorem Steps.onward (h : Steps a b) {x' : Slot φ τ} (hx' : b.slot k = some x')
    (hold : x'.serial < a.next) : ∃ x, a.slot k = some x ∧ x.Onward x' := by
  induction h generalizing x' with
  | refl => exact ⟨x', hx', .refl x'⟩
  | tail hsteps hnext ih =>
    rcases hnext.slot_cases hx' with ⟨x, hx, honward⟩ | ⟨-, hserial⟩
    · obtain ⟨x₀, hx₀, honward₀⟩ := ih hx (honward.serial ▸ hold)
      exact ⟨x₀, hx₀, honward₀.trans honward⟩
    · have hle := Steps.next_le hsteps
      omega

/-- **A closed table takes nothing on.** All its slots were there when it was closed. -/
theorem Steps.closed (h : Steps a b) (hclosed : a.closed = true) : b.closed = true ∧
    ∀ k x', b.slot k = some x' → ∃ x, a.slot k = some x ∧ x.Onward x' := by
  induction h with
  | refl => exact ⟨hclosed, fun k x' hx' ↦ ⟨x', hx', .refl x'⟩⟩
  | tail _ hnext ih =>
    refine ⟨hnext.closed_of_closed ih.1, fun k x' hx' ↦ ?_⟩
    rcases hnext.slot_cases hx' with ⟨x, hx, honward⟩ | ⟨hopen, -⟩
    · obtain ⟨x₀, hx₀, honward₀⟩ := ih.2 k x hx
      exact ⟨x₀, hx₀, honward₀.trans honward⟩
    · rw [ih.1] at hopen
      cases hopen

/-- What a table answers to a request with a key and a fingerprint. -/
def answer [DecidableEq φ] (a : SlotTable κ φ τ max) (k : κ) (p : φ) : SlotAnswer τ :=
  if a.closed then .closed
  else
    match a.slot k with
    | none => .fresh
    | some x =>
      if x.fingerprint ≠ p then .conflict
      else
        match x.ticket with
        | none => .pending
        | some t => if x.cancelled then .over else .found t

end SlotTable
