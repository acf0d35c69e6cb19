import Mathlib

/-!
# Objects with shared pointers

An object is constructed together with a first pointer to it. Pointers are copied and given up;
whoever gives up the last one destroys the object. The object knows only its use count: that this is
the number of its pointers, and that the object is there exactly as long as there is a pointer to it
or its destruction is under way, are invariants of what is done with it.

The number of pointers is whatever a program counts as such; so are the constructions and the
destructions that are under way.
-/

/-- How a shared object stands: `uses` is its use count, `alive` whether it is there, and `known`
whether it was ever to be constructed. -/
structure Shared (uses pointers constructing destroying : ℕ) (alive known : Prop) : Prop where
  counted : uses = pointers
  alive_iff : alive ↔ 0 < uses + destroying
  /-- The object is being constructed, or there, or being destroyed. -/
  once : constructing + destroying + min uses 1 ≤ 1
  fresh : ¬known → constructing + destroying + uses = 0

namespace Shared

variable {u p c d : ℕ} {alive known : Prop}

/-- An object that nobody knows of. -/
theorem unknown (halive : ¬alive) : Shared 0 0 0 0 alive known :=
  ⟨rfl, iff_of_false halive (Nat.lt_irrefl 0), Nat.zero_le 1, fun _ ↦ rfl⟩

/-- What is known stays known. -/
theorem learn {known' : Prop} (h : Shared u p c d alive known) (hknown : known → known') :
    Shared u p c d alive known' :=
  ⟨h.counted, h.alive_iff, h.once, fun hno ↦ h.fresh fun hk ↦ hno (hknown hk)⟩

/-- The same, in other words. -/
theorem congr {u' p' c' d' : ℕ} {alive' : Prop} (h : Shared u p c d alive known) (hu : u' = u)
    (hp : p' = p) (hc : c' = c) (hd : d' = d) (halive : alive' ↔ alive) :
    Shared u' p' c' d' alive' known := by
  subst hu hp hc hd
  exact ⟨h.counted, halive.trans h.alive_iff, h.once, h.fresh⟩

/-- A new object is to be constructed. -/
theorem announce {known' : Prop} (h : Shared u p c d alive known) (hnew : ¬known)
    (hknown : known') : Shared u p (c + 1) d alive known' := by
  have hnone := h.fresh hnew
  refine ⟨h.counted, h.alive_iff, ?_, fun hno ↦ absurd hknown hno⟩
  omega

/-- The construction fails. -/
theorem abandon (h : Shared u p (c + 1) d alive known) : Shared u p c d alive known := by
  have honce := h.once
  refine ⟨h.counted, h.alive_iff, by omega, fun hno ↦ ?_⟩
  have hnone := h.fresh hno
  omega

/-- An object that is to be constructed is not there. -/
theorem not_alive_of_constructing (h : Shared u p (c + 1) d alive known) : ¬alive := by
  rw [h.alive_iff]
  have honce := h.once
  omega

/-- The object is constructed, with a first pointer to it. -/
theorem construct {alive' : Prop} (h : Shared u p (c + 1) d alive known) (halive : alive') :
    Shared (u + 1) (p + 1) c d alive' known := by
  have honce := h.once
  refine ⟨congrArg (· + 1) h.counted, iff_of_true halive (by omega), by omega, fun hno ↦ ?_⟩
  have hnone := h.fresh hno
  omega

/-- A pointer to the object is there. -/
theorem pos (h : Shared u (p + 1) c d alive known) : 0 < u := by
  rw [h.counted]
  exact Nat.succ_pos p

/-- Some pointers are copied. -/
theorem copies (h : Shared u p c d alive known) (n : ℕ) (hsome : 0 < n → 0 < u) :
    Shared (u + n) (p + n) c d alive known := by
  have honce := h.once
  refine ⟨congrArg (· + n) h.counted, h.alive_iff.trans ?_, by omega, fun hno ↦ ?_⟩
  · omega
  · have hnone := h.fresh hno
    omega

/-- A pointer is copied. -/
theorem copy (h : Shared u p c d alive known) (hsome : 0 < u) :
    Shared (u + 1) (p + 1) c d alive known :=
  h.copies 1 fun _ ↦ hsome

/-- A pointer is given up, and the destruction begins if it was the last one. -/
theorem giveUp (h : Shared u (p + 1) c d alive known) :
    Shared (u - 1) p c (d + if u = 1 then 1 else 0) alive known := by
  have hcounted := h.counted
  have honce := h.once
  refine ⟨by omega, h.alive_iff.trans ?_, ?_, fun hno ↦ ?_⟩
  · split_ifs <;> omega
  · split_ifs <;> omega
  · have hnone := h.fresh hno
    omega

/-- The destruction comes to its end. -/
theorem destroyed {alive' : Prop} (h : Shared u p c (d + 1) alive known) (halive : ¬alive') :
    Shared u p c d alive' known := by
  have honce := h.once
  refine ⟨h.counted, iff_of_false halive (by omega), by omega, fun hno ↦ ?_⟩
  have hnone := h.fresh hno
  omega

/-- **The object is gone** exactly if nobody has a pointer to it or is destroying it. -/
theorem not_alive_iff (h : Shared u p c d alive known) : ¬alive ↔ p = 0 ∧ d = 0 := by
  rw [h.alive_iff, h.counted]
  omega

end Shared
