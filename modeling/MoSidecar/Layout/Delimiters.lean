import Mathlib

/-!
# Lists with delimiters

Where a text is cut at a delimiter, it matters which occurrence is meant. `find` and `rfind` are the
positions of the first and of the last one, and for each there is a lemma that says how the text
falls apart there.
-/

namespace Delimiters

variable {α : Type} [BEq α] {c : α} {s : List α} {n : ℕ}

/-- The position of the first occurrence. -/
def find (c : α) (s : List α) : Option ℕ := s.idxOf? c

/-- The position of the last occurrence. -/
def rfind (c : α) (s : List α) : Option ℕ := (find c s.reverse).map (s.length - 1 - ·)

variable [LawfulBEq α]

theorem find_eq_none : find c s = none ↔ c ∉ s := List.idxOf?_eq_none_iff

theorem find_eq_some : find c s = some n ↔
    ∃ before after, s = before ++ c :: after ∧ c ∉ before ∧ before.length = n := by
  induction s generalizing n with
  | nil =>
    constructor
    · intro h
      cases h
    · rintro ⟨before, after, h, -⟩
      exact absurd h.symm (List.append_ne_nil_of_right_ne_nil before (List.cons_ne_nil c after))
  | cons x s ih =>
    rw [find, List.idxOf?_cons]
    split_ifs with hx
    · obtain rfl := eq_of_beq hx
      constructor
      · rintro ⟨⟩
        exact ⟨[], s, rfl, List.not_mem_nil, rfl⟩
      · rintro ⟨before, after, h, hnot, rfl⟩
        cases before with
        | nil => rfl
        | cons y before =>
          obtain ⟨rfl, -⟩ := List.cons.inj h
          exact absurd List.mem_cons_self hnot
    · have hne : x ≠ c := fun h ↦ hx (beq_iff_eq.mpr h)
      rw [Option.map_eq_some_iff]
      constructor
      · rintro ⟨k, hk, rfl⟩
        obtain ⟨before, after, rfl, hnot, rfl⟩ := ih.mp hk
        exact ⟨x :: before, after, rfl, List.not_mem_cons_of_ne_of_not_mem hne.symm hnot, rfl⟩
      · rintro ⟨before, after, h, hnot, rfl⟩
        cases before with
        | nil => exact absurd (List.cons.inj h).1 hne
        | cons y before =>
          obtain ⟨rfl, rfl⟩ := List.cons.inj h
          have hbefore : c ∉ before := fun h ↦ hnot (List.mem_cons_of_mem x h)
          exact ⟨before.length, ih.mpr ⟨before, after, rfl, hbefore, rfl⟩, rfl⟩

theorem rfind_eq_none : rfind c s = none ↔ c ∉ s := by
  rw [rfind, Option.map_eq_none_iff, find_eq_none, List.mem_reverse]

theorem rfind_eq_some : rfind c s = some n ↔
    ∃ before after, s = before ++ c :: after ∧ c ∉ after ∧ before.length = n := by
  rw [rfind, Option.map_eq_some_iff]
  constructor
  · rintro ⟨k, hk, rfl⟩
    obtain ⟨after, before, hs, hnot, rfl⟩ := find_eq_some.mp hk
    obtain rfl : s = before.reverse ++ c :: after.reverse := by
      rw [← List.reverse_reverse s, hs]
      simp
    refine ⟨before.reverse, after.reverse, rfl, mt List.mem_reverse.mp hnot, ?_⟩
    rw [List.length_append, List.length_cons, List.length_reverse, List.length_reverse]
    omega
  · rintro ⟨before, after, rfl, hnot, rfl⟩
    refine ⟨after.length, find_eq_some.mpr ⟨after.reverse, before.reverse, by simp,
      mt List.mem_reverse.mp hnot, List.length_reverse⟩, ?_⟩
    rw [List.length_append, List.length_cons]
    omega

variable {before before' after after' : List α}

/-- There is one way to cut a text at its first delimiter. -/
theorem eq_of_first (hnot : c ∉ before) (hnot' : c ∉ before')
    (h : before ++ c :: after = before' ++ c :: after') : before = before' ∧ after = after' := by
  have hfind := find_eq_some.mpr ⟨before, after, rfl, hnot, rfl⟩
  rw [h, find_eq_some.mpr ⟨before', after', rfl, hnot', rfl⟩] at hfind
  obtain ⟨hbefore, hafter⟩ := List.append_inj h (Option.some.inj hfind).symm
  exact ⟨hbefore, (List.cons.inj hafter).2⟩

/-- There is one way to cut it at the last. -/
theorem eq_of_last (hnot : c ∉ after) (hnot' : c ∉ after')
    (h : before ++ c :: after = before' ++ c :: after') : before = before' ∧ after = after' := by
  have hfind := rfind_eq_some.mpr ⟨before, after, rfl, hnot, rfl⟩
  rw [h, rfind_eq_some.mpr ⟨before', after', rfl, hnot', rfl⟩] at hfind
  obtain ⟨hbefore, hafter⟩ := List.append_inj h (Option.some.inj hfind).symm
  exact ⟨hbefore, (List.cons.inj hafter).2⟩

end Delimiters
