import MoSidecar.Machine.Threads

/-!
# Things in somebody's hands

A call makes a thing, does several sections of work on it, and in the end destroys it again or puts
it into the shared state, where a later call takes it over and destroys it. Files, names and locks
are such things. What has to be shown is always the same: each of them is in one place at a time,
and none is in no place at all.

`Custody` says of a program's frames which thing they have, and of its shared states which things
they have and what is true of a thing in each place. `Custody.Kept` is the invariant, in the form a
`Ledger` wants: the frames are counted. What is proved here is what the sections do to it. A section
works on one thing, and the others stay where they are (`Custody.Alike`); so it is enough to look at
that thing, before (`Kept.of_held`, `Kept.of_owner`) and after (`Kept.exec`, `Kept.call`).
-/

namespace Program

variable {σ τ φ κ α R K T : Type*}

/-- Who has a thing of type `R`: a frame, in some manner of type `K`, an owner of type `T` in the
shared state, or nobody, because it is not there or because it was left behind. -/
structure Custody (σ φ R K T : Type*) where
  /-- The thing that a frame has. -/
  holds : φ → Option (R × K)
  owners : σ → List T
  /-- The thing that an owner has. -/
  has : T → Option R
  /-- What is true of a thing that is not there. -/
  Free : σ → R → Prop
  Held : σ → R → K → Prop
  Owned : σ → R → T → Prop
  Lost : σ → R → Prop

namespace Custody

variable [DecidableEq R] [DecidableEq K] (C : Custody σ φ R K T) {s s' : σ} {r : R} {k : K} {f : φ}
  {new : List φ}

/-- The weight of a frame that has the thing in this manner. -/
def weight (b : R × K) (f : φ) : ℕ := if C.holds f = some b then 1 else 0

/-- The owners of a thing. -/
def ownersOf (s : σ) (r : R) : List T := (C.owners s).filter fun t ↦ C.has t = some r

/-- Where a thing is, with the number of frames that have it in each manner. -/
inductive Place (s : σ) (r : R) (n : K → ℕ) : Prop
  | free (h : C.Free s r) (hn : ∀ k, n k = 0) (howners : C.ownersOf s r = [])
  | held (k : K) (h : C.Held s r k) (hn : ∀ k', n k' = if k' = k then 1 else 0)
    (howners : C.ownersOf s r = [])
  | owned (t : T) (h : C.Owned s r t) (hn : ∀ k, n k = 0) (howners : C.ownersOf s r = [t])
  | lost (h : C.Lost s r) (hn : ∀ k, n k = 0) (howners : C.ownersOf s r = [])

/-- **Each thing is in one place.** -/
def Kept (s : σ) (n : R × K → ℕ) : Prop := ∀ r, C.Place s r fun k ↦ n (r, k)

/-- A thing that is left alone. -/
structure Alike (s s' : σ) (r : R) : Prop where
  free : C.Free s r → C.Free s' r
  held : ∀ k, C.Held s r k → C.Held s' r k
  owned : ∀ t, C.Owned s r t → C.Owned s' r t
  lost : C.Lost s r → C.Lost s' r
  owners : C.ownersOf s' r = C.ownersOf s r

variable {C} {n : R × K → ℕ}

omit [DecidableEq K] in
theorem Alike.refl (s : σ) (r : R) : C.Alike s s r := ⟨id, fun _ ↦ id, fun _ ↦ id, id, rfl⟩

theorem Alike.place (h : C.Alike s s' r) {n : K → ℕ} (hr : C.Place s r n) : C.Place s' r n := by
  cases hr with
  | free hfree hn howners => exact .free (h.free hfree) hn (h.owners.trans howners)
  | held k hheld hn howners => exact .held k (h.held k hheld) hn (h.owners.trans howners)
  | owned t howned hn howners => exact .owned t (h.owned t howned) hn (h.owners.trans howners)
  | lost hlost hn howners => exact .lost (h.lost hlost) hn (h.owners.trans howners)

/-! ## Weights -/

theorem weight_of_none (hf : C.holds f = none) (b : R × K) : C.weight b f = 0 := by
  rw [weight, if_neg (by rw [hf]; exact nofun)]

theorem weight_of_some (hf : C.holds f = some (r, k)) (b : R × K) :
    C.weight b f = if b = (r, k) then 1 else 0 := by
  rw [weight, hf]
  exact if_congr (by rw [Option.some_inj, eq_comm]) rfl rfl

theorem sum_weight_of_none (hnew : ∀ g ∈ new, C.holds g = none) (b : R × K) :
    (new.map (C.weight b)).sum = 0 := by
  refine List.sum_eq_zero fun m hm ↦ ?_
  obtain ⟨g, hg, rfl⟩ := List.mem_map.mp hm
  exact weight_of_none (hnew g hg) b

/-- Frames that have no other thing do not count for one. -/
theorem sum_weight_of_ne {r' : R} (hnew : ∀ g ∈ new, ∀ b, C.holds g = some b → b.1 = r)
    (hr : r' ≠ r) (k : K) : (new.map (C.weight (r', k))).sum = 0 := by
  refine List.sum_eq_zero fun m hm ↦ ?_
  obtain ⟨g, hg, rfl⟩ := List.mem_map.mp hm
  rw [weight, if_neg fun h ↦ hr (hnew g hg _ h)]

/-! ## Owners -/

omit [DecidableEq K] in
/-- A thing is given to an owner. -/
theorem ownersOf_cons {t : T} (h : C.owners s' = t :: C.owners s) (r : R) :
    C.ownersOf s' r = if C.has t = some r then t :: C.ownersOf s r else C.ownersOf s r := by
  rw [ownersOf, h, List.filter_cons]
  exact if_congr decide_eq_true_iff rfl rfl

omit [DecidableEq K] in
/-- A thing is taken from an owner. -/
theorem ownersOf_erase [DecidableEq T] {t : T} (h : C.owners s' = (C.owners s).erase t) (r : R) :
    C.ownersOf s' r = (C.ownersOf s r).erase t := by
  rw [ownersOf, h, ownersOf, List.erase_filter]

omit [DecidableEq K] in
theorem ownersOf_erase_of_ne [DecidableEq T] {t : T} (h : C.owners s' = (C.owners s).erase t)
    (hr : C.has t ≠ some r) : C.ownersOf s' r = C.ownersOf s r := by
  rw [ownersOf_erase h, List.erase_of_not_mem]
  exact fun hmem ↦ hr (of_decide_eq_true (List.mem_filter.mp hmem).2)

/-! ## Before -/

/-- A thing that a frame has is nowhere else. -/
theorem Kept.of_held (h : C.Kept s fun b ↦ n b + C.weight b f) (hf : C.holds f = some (r, k)) :
    C.Held s r k ∧ (∀ k', n (r, k') = 0) ∧ C.ownersOf s r = [] := by
  have hweight : ∀ k', C.weight (r, k') f = if k' = k then 1 else 0 := fun k' ↦ by
    rw [weight_of_some hf]
    exact if_congr (by rw [Prod.mk_inj, and_iff_right rfl]) rfl rfl
  have hself : C.weight (r, k) f = 1 := (hweight k).trans (if_pos rfl)
  have hpos : n (r, k) + C.weight (r, k) f ≠ 0 := by
    rw [hself]
    exact Nat.succ_ne_zero _
  cases h r with
  | free _ hn | owned _ _ hn | lost _ hn => exact absurd (hn k) hpos
  | held k₀ hheld hn howners =>
    have hk : k = k₀ := by
      by_contra hne
      exact hpos ((hn k).trans (if_neg hne))
    subst hk
    refine ⟨hheld, fun k' ↦ ?_, howners⟩
    have hcount : n (r, k') + C.weight (r, k') f = if k' = k then 1 else 0 := hn k'
    rw [hweight k'] at hcount
    omega

/-- A thing that has an owner is nowhere else. -/
theorem Kept.of_owner (h : C.Kept s n) {t : T} (ht : t ∈ C.owners s) (hr : C.has t = some r) :
    C.Owned s r t ∧ (∀ k, n (r, k) = 0) ∧ C.ownersOf s r = [t] := by
  have hmem : t ∈ C.ownersOf s r := List.mem_filter.mpr ⟨ht, decide_eq_true hr⟩
  cases h r with
  | free _ _ howners | held _ _ _ howners | lost _ _ howners =>
    rw [howners] at hmem
    cases hmem
  | owned t' howned hn howners =>
    rw [howners] at hmem
    obtain rfl := List.mem_singleton.mp hmem
    exact ⟨howned, hn, howners⟩

/-! ## After -/

/-- **One thing at a time**: a section that leaves all others alone. -/
theorem Kept.exec (h : C.Kept s fun b ↦ n b + C.weight b f)
    (hf : ∀ b, C.holds f = some b → b.1 = r) (hnew : ∀ g ∈ new, ∀ b, C.holds g = some b → b.1 = r)
    (hothers : ∀ r', r' ≠ r → C.Alike s s' r')
    (hr : C.Place s' r fun k ↦ n (r, k) + (new.map (C.weight (r, k))).sum) :
    C.Kept s' fun b ↦ n b + (new.map (C.weight b)).sum := by
  intro r'
  by_cases heq : r' = r
  · rw [heq]
    exact hr
  · have hplace := (hothers r' heq).place (h r')
    have hsame : ∀ k, n (r', k) + C.weight (r', k) f =
        n (r', k) + (new.map (C.weight (r', k))).sum := fun k ↦ by
      rw [sum_weight_of_ne hnew heq k, weight, if_neg fun hk ↦ heq (hf _ hk)]
    simpa only [hsame] using hplace

/-- A section that works on no thing. -/
theorem Kept.exec_none (h : C.Kept s fun b ↦ n b + C.weight b f) (hf : C.holds f = none)
    (hnew : ∀ g ∈ new, C.holds g = none) (hall : ∀ r, C.Alike s s' r) :
    C.Kept s' fun b ↦ n b + (new.map (C.weight b)).sum := by
  intro r
  have hplace := (hall r).place (h r)
  simpa only [weight_of_none hf, sum_weight_of_none hnew] using hplace

theorem Kept.call_none (h : C.Kept s n) (hf : C.holds f = none) (hall : ∀ r, C.Alike s s' r) :
    C.Kept s' fun b ↦ n b + C.weight b f := by
  intro r
  simpa only [weight_of_none hf, Nat.add_zero] using (hall r).place (h r)

/-- A call that takes a thing over. -/
theorem Kept.call (h : C.Kept s n) (hf : C.holds f = some (r, k))
    (hothers : ∀ r', r' ≠ r → C.Alike s s' r') (hnone : ∀ k, n (r, k) = 0) (hheld : C.Held s' r k)
    (howners : C.ownersOf s' r = []) : C.Kept s' fun b ↦ n b + C.weight b f := by
  intro r'
  by_cases heq : r' = r
  · subst heq
    refine .held k hheld (fun k' ↦ ?_) howners
    show n (r', k') + C.weight (r', k') f = _
    rw [hnone, weight_of_some hf, Nat.zero_add]
    exact if_congr (by rw [Prod.mk_inj, and_iff_right rfl]) rfl rfl
  · have hplace := (hothers r' heq).place (h r')
    have hzero : ∀ k', C.weight (r', k') f = 0 := fun k' ↦ by
      rw [weight_of_some hf, if_neg fun hk ↦ heq (Prod.mk.inj hk).1]
    simpa only [hzero, Nat.add_zero] using hplace

/-- A frame that has the thing is left, with no other. -/
theorem Place.of_one {g : φ} (hnone : ∀ k, n (r, k) = 0) (hg : C.holds g = some (r, k))
    (hheld : C.Held s r k) (howners : C.ownersOf s r = []) :
    C.Place s r fun k ↦ n (r, k) + ([g].map (C.weight (r, k))).sum := by
  refine .held k hheld (fun k' ↦ ?_) howners
  rw [hnone, List.map_singleton, List.sum_singleton, weight_of_some hg, Nat.zero_add]
  exact if_congr (by rw [Prod.mk_inj, and_iff_right rfl]) rfl rfl

/-! ## Everywhere -/

section Everywhere

variable [Fintype τ] {c : Threads σ τ φ}

/-- Whether a frame has the thing. -/
def having (C : Custody σ φ R K T) (r : R) (f : φ) : ℕ :=
  if (C.holds f).map Prod.fst = some r then 1 else 0

/-- In all stacks and in the shared state there is one at most who has a thing. -/
theorem Kept.one (h : C.Kept c.shared fun b ↦ Program.weight (C.weight b) c) (r : R) :
    (C.ownersOf c.shared r).length + Program.weight (C.having r) c ≤ 1 := by
  have hnone : (∀ k, Program.weight (C.weight (r, k)) c = 0) →
      Program.weight (C.having r) c = 0 := fun hn ↦ by
    refine Program.weight_eq_zero fun t f hf ↦ ?_
    rw [having, if_neg]
    intro hr
    obtain ⟨⟨r', k⟩, hk, rfl⟩ := Option.map_eq_some_iff.mp hr
    have hzero := Program.weight_eq_zero_iff.mp (hn k) t f hf
    rw [weight_of_some hk, if_pos rfl] at hzero
    cases hzero
  cases h r with
  | free _ hn howners | lost _ hn howners =>
    rw [howners, hnone hn, List.length_nil]
    exact Nat.zero_le _
  | owned t _ hn howners => rw [howners, hnone hn, List.length_singleton]
  | held k _ hn howners =>
    have hcount : ∀ k', Program.weight (C.weight (r, k')) c = if k' = k then 1 else 0 := hn
    have hsame : Program.weight (C.having r) c = Program.weight (C.weight (r, k)) c := by
      refine Program.weight_congr fun t f hf ↦ ?_
      cases hholds : C.holds f with
      | none => rw [weight_of_none hholds, having, if_neg (by rw [hholds]; exact nofun)]
      | some b =>
        obtain ⟨r', k'⟩ := b
        rw [weight_of_some hholds, having, hholds, Option.map_some]
        by_cases hr : r' = r
        · subst hr
          have hle := Program.le_weight (w := C.weight (r', k')) hf
          rw [weight_of_some hholds, if_pos rfl, hcount k'] at hle
          have hk : k' = k := by
            by_contra hne
            rw [if_neg hne] at hle
            cases hle
          rw [hk, if_pos rfl, if_pos rfl]
        · rw [if_neg fun heq ↦ hr (Option.some.inj heq),
            if_neg fun heq ↦ hr (Prod.mk.inj heq).1.symm]
    rw [howners, hsame, hcount k, if_pos rfl, List.length_nil]

/-- A thing that is there, and was not left behind, has an owner or is in the hands of a frame. -/
theorem Kept.somewhere (h : C.Kept c.shared fun b ↦ Program.weight (C.weight b) c)
    (hfree : ¬C.Free c.shared r) : C.Lost c.shared r ∨
      (∃ t ∈ C.owners c.shared, C.has t = some r ∧ C.Owned c.shared r t) ∨
        ∃ t, ∃ f ∈ c.calls t, ∃ k, C.holds f = some (r, k) ∧ C.Held c.shared r k := by
  cases h r with
  | free hf => exact absurd hf hfree
  | lost hlost => exact .inl hlost
  | owned t howned _ howners =>
    have hmem : t ∈ C.ownersOf c.shared r := howners ▸ List.mem_singleton_self t
    obtain ⟨ht, hr⟩ := List.mem_filter.mp hmem
    exact .inr (.inl ⟨t, ht, of_decide_eq_true hr, howned⟩)
  | held k hheld hn =>
    refine .inr (.inr ?_)
    have hne : Program.weight (C.weight (r, k)) c ≠ 0 :=
      ((hn k).trans (if_pos rfl)).trans_ne Nat.one_ne_zero
    by_contra hno
    refine hne (Program.weight_eq_zero fun t f hf ↦ ?_)
    rw [weight, if_neg fun hk ↦ hno ⟨t, f, hf, k, hk, hheld⟩]

end Everywhere

end Custody

end Program
