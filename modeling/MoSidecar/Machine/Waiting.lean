import MoSidecar.Machine.Parts

/-!
# Threads that sleep

A thread that waits on a condition variable sleeps until somebody calls `notify_all`, or until it
wakes for a reason of its own: a timeout, or none at all. A program says nothing of that — the
section behind a wait is simply not enabled before it may run. `Waits` adds the sleeping to a
program: which sections put their thread to sleep, what a sleeper waits for, and where
`notify_all` is called. A call of `notify_all` is a step of its own, so it may be late: what a
sleeper waits for can come true long before anybody tells it.

## Lost wake-ups

A wake-up is lost when a thread sleeps although what it waits for has come true, and nobody is
going to notify it. `Waits.Covers` is the obligation of the sections that excludes this: one that
makes somebody's wait pointless notifies, or leaves a frame that owes a notification; and a frame
that owes one does not go without paying or handing the debt on. It is a debt in the sense of
`Program.Debt`, and `Waits.no_lost_wakeup` is the rule.
-/

open Function (update)

namespace Program

variable {σ τ φ κ α : Type*} {P : Program σ τ φ κ α}

/-! ## The order of a stack -/

/-- A relation between the frames of a stack, the upper one first, that every section keeps: it
holds among the frames that are left, and what stands above a frame may do so in the place of the
one that was run. -/
structure Stacked (P : Program σ τ φ κ α) (R : φ → φ → Prop) : Prop where
  among : ∀ {s t f k s' new}, P.exec s t f k = some (s', new) → new.Pairwise R
  above : ∀ {s t f k s' new g b}, P.exec s t f k = some (s', new) → g ∈ new → R f b → R g b

theorem Stacked.step [DecidableEq τ] {R : φ → φ → Prop} (hP : Stacked P R) {c c' : Threads σ τ φ}
    {m : Move τ φ κ α} (h : ∀ t, (c.calls t).Pairwise R) (hm : P.machine.step c m = some c') :
    ∀ t, (c'.calls t).Pairwise R := by
  have hupdate : ∀ {t : τ} {fs : List φ}, fs.Pairwise R →
      ∀ u, (update c.calls t fs u).Pairwise R := by
    intro t fs hfs u
    by_cases hu : u = t
    · subst hu
      rwa [Function.update_self]
    · rw [Function.update_of_ne hu]
      exact h u
  cases m with
  | call t f =>
    obtain ⟨-, s, -, rfl⟩ := step_call_eq_some.mp hm
    exact hupdate (List.pairwise_singleton _ f)
  | exec t k =>
    obtain ⟨f, rest, s, new, hstack, hs, rfl⟩ := step_exec_eq_some.mp hm
    have hold := h t
    rw [hstack] at hold
    refine hupdate (List.pairwise_append.mpr ⟨hP.among hs, hold.of_cons, fun g hg b hb ↦ ?_⟩)
    exact hP.above hs hg (List.rel_of_pairwise_cons hold hb)
  | ambient a =>
    obtain ⟨s, -, rfl⟩ := step_ambient_eq_some.mp hm
    exact h

/-- **The rule of stacks.** -/
theorem Stacked.run [DecidableEq τ] {R : φ → φ → Prop} (hP : Stacked P R) {c c' : Threads σ τ φ}
    {ms : List (Move τ φ κ α)} (hidle : ∀ t, c.calls t = [])
    (hrun : P.machine.run c ms = some c') : ∀ t, (c'.calls t).Pairwise R := by
  refine Machine.invariant (I := fun c ↦ ∀ t, (c.calls t).Pairwise R) (fun t ↦ ?_)
    (fun _ _ _ h hm ↦ hP.step h hm) hrun
  rw [hidle t]
  exact .nil

/-! ## Sleeping -/

/-- The waits of a program. -/
structure Waits (P : Program σ τ φ κ α) where
  /-- The frame in which the next section of a frame falls asleep, if it does. -/
  sleeps : σ → τ → φ → Option φ
  /-- Whether that which a frame waits for is there. -/
  ready : σ → τ → φ → Bool
  /-- Whether a section calls `notify_all` at its end. -/
  notifies : σ → τ → φ → κ → Bool
  /-- Whether `notify_all` is called right before a frame. -/
  announces : φ → Bool
  /-- Whether a step of the surroundings calls `notify_all`. -/
  rouses : σ → α → Bool
  /-- Nobody falls asleep without a reason. -/
  not_ready : ∀ {s t f g}, sleeps s t f = some g → ready s t g = false
  /-- A section that falls asleep waits where it is, or has done no more than to go there. -/
  stays : ∀ {s t f g}, sleeps s t f = some g → g = f ∨ ∃ k, P.exec s t f k = some (s, [g])

/-- The frames of a program whose threads sleep. -/
inductive Notifying (φ : Type*) where
  | frame (f : φ)
  /-- A call of `notify_all`. -/
  | notify
  deriving DecidableEq

/-- The frame of the program. -/
def Notifying.frame? : Notifying φ → Option φ
  | .frame f => some f
  | .notify => none

namespace Waits

/-- A program's shared state, and the frames in which threads sleep. -/
structure State (σ τ φ : Type*) where
  shared : σ
  asleep : τ → Option φ := fun _ ↦ none

variable (W : Waits P) {s s' : State σ τ φ} {t : τ} {f g : φ} {k : κ}

/-- A frame, after the call of `notify_all` that stands before it. -/
def announced (f : φ) : List (Notifying φ) :=
  if W.announces f then [.notify, .frame f] else [.frame f]

/-- The frames that a section leaves. -/
def leaves (notifies : Bool) (new : List φ) : List (Notifying φ) :=
  (if notifies then [.notify] else []) ++ new.flatMap W.announced

theorem filterMap_leaves (notifies : Bool) (fs : List φ) :
    (W.leaves notifies fs).filterMap Notifying.frame? = fs := by
  have hannounced : (fs.flatMap W.announced).filterMap Notifying.frame? = fs := by
    induction fs with
    | nil => rfl
    | cons f fs ih =>
      rw [List.flatMap_cons, List.filterMap_append, ih, announced]
      split_ifs <;> rfl
  rw [leaves, List.filterMap_append, hannounced]
  split_ifs <;> rfl

theorem notify_mem_leaves (fs : List φ) : .notify ∈ W.leaves true fs := List.mem_cons_self

theorem mem_leaves_of_mem {notifies : Bool} {fs : List φ} {n : Notifying φ} (hf : f ∈ fs)
    (hn : n ∈ W.announced f) : n ∈ W.leaves notifies fs :=
  List.mem_append_right _ (List.mem_flatMap.mpr ⟨f, hf, hn⟩)

variable [DecidableEq τ]

/-- The next section of a frame, of a thread that is awake. -/
def exec (s : State σ τ φ) (t : τ) (f : φ) (k : κ) :
    Option (State σ τ φ × List (Notifying φ)) :=
  match W.sleeps s.shared t f with
  | some g => some ({ s with asleep := update s.asleep t (some g) }, [.frame g])
  | none =>
    (P.exec s.shared t f k).map fun r ↦
      ({ s with shared := r.1 }, W.leaves (W.notifies s.shared t f k) r.2)

/-- The program with its sleepers. Its surroundings may wake a thread at any time. -/
def program : Program (State σ τ φ) τ (Notifying φ) κ (α ⊕ τ) where
  call s t
    | .frame f => (P.call s.shared t f).map fun s' ↦ { s with shared := s' }
    | .notify => none
  exec s t f k :=
    match f with
    | .frame f => if (s.asleep t).isSome then none else W.exec s t f k
    | .notify => some ({ s with asleep := fun _ ↦ none }, [])
  ambient s
    | .inl a => (P.ambient s.shared a).map fun s' ↦
      { shared := s', asleep := if W.rouses s.shared a then fun _ ↦ none else s.asleep }
    | .inr t => some { s with asleep := update s.asleep t none }

variable {W} {new : List (Notifying φ)}

/-- A thread falls asleep, or runs a section of the program. -/
theorem exec_cases (h : W.exec s t f k = some (s', new)) :
    (∃ g, W.sleeps s.shared t f = some g ∧
      s' = { s with asleep := update s.asleep t (some g) } ∧ new = [.frame g]) ∨
    ∃ r, W.sleeps s.shared t f = none ∧ P.exec s.shared t f k = some r ∧
      s' = { s with shared := r.1 } ∧ new = W.leaves (W.notifies s.shared t f k) r.2 := by
  rw [exec] at h
  cases hsleeps : W.sleeps s.shared t f with
  | some g =>
    rw [hsleeps] at h
    obtain ⟨rfl, rfl⟩ := Prod.mk.inj (Option.some.inj h)
    exact .inl ⟨g, rfl, rfl, rfl⟩
  | none =>
    rw [hsleeps] at h
    obtain ⟨r, hr, heq⟩ := Option.map_eq_some_iff.mp h
    obtain ⟨rfl, rfl⟩ := Prod.mk.inj heq
    exact .inr ⟨r, rfl, hr, rfl, rfl⟩

/-- Only a thread that is awake runs a frame. -/
theorem program_exec_frame (h : W.program.exec s t (.frame f) k = some (s', new)) :
    s.asleep t = none ∧ W.exec s t f k = some (s', new) := by
  simp only [program] at h
  split_ifs at h with hasleep
  exact ⟨Option.not_isSome_iff_eq_none.mp hasleep, h⟩

/-- The program is a part of itself with its sleepers, so what was proved of it holds on. -/
theorem part (W : Waits P) : Part W.program P State.shared Notifying.frame? where
  call {s t f s'} hcall := by
    cases f with
    | frame f =>
      obtain ⟨s'', hs'', rfl⟩ := Option.map_eq_some_iff.mp hcall
      exact .enter hs''
    | notify => cases hcall
  exec {s t f k s' new} hexec := by
    cases f with
    | frame f =>
      rcases exec_cases (program_exec_frame hexec).2 with ⟨g, hg, rfl, rfl⟩ | ⟨r, -, hr, rfl, rfl⟩
      · rcases W.stays hg with rfl | ⟨k', hk'⟩
        · exact .refl
        · exact .single hk'
      · rw [filterMap_leaves]
        exact .single hr
    | notify =>
      obtain ⟨rfl, rfl⟩ := Prod.mk.inj (Option.some.inj hexec)
      exact .refl
  ambient {s a s'} hambient := by
    cases a with
    | inl a =>
      obtain ⟨s'', hs'', rfl⟩ := Option.map_eq_some_iff.mp hambient
      exact Moves.refl.ambient hs''
    | inr t =>
      obtain rfl := Option.some.inj hambient
      exact .refl

/-- The threads without their sleep. -/
def plain (c : Threads (State σ τ φ) τ (Notifying φ)) : Threads σ τ φ where
  shared := c.shared.shared
  calls t := (c.calls t).filterMap Notifying.frame?

theorem plain_update (s : State σ τ φ) (calls : τ → List (Notifying φ)) (t : τ)
    (fs : List (Notifying φ)) : plain ⟨s, update calls t fs⟩
      = ⟨s.shared, update (plain ⟨s, calls⟩).calls t (fs.filterMap Notifying.frame?)⟩ := by
  simp only [plain, Threads.mk.injEq, true_and]
  funext u
  by_cases hu : u = t
  · subst hu
    rw [Function.update_self, Function.update_self]
  · rw [Function.update_of_ne hu, Function.update_of_ne hu]

/-- A step is one of the program, or none. -/
theorem reaches_of_step {c c' : Threads (State σ τ φ) τ (Notifying φ)}
    {m : Move τ (Notifying φ) κ (α ⊕ τ)} (hm : W.program.machine.step c m = some c') :
    P.machine.Reaches (plain c) (plain c') := by
  cases m with
  | call t f =>
    obtain ⟨hidle, s, hs, rfl⟩ := step_call_eq_some.mp hm
    cases f with
    | frame f =>
      obtain ⟨s', hs', rfl⟩ := Option.map_eq_some_iff.mp hs
      refine .tail (.refl _) (l := .call t f) (step_call_eq_some.mpr ⟨?_, s', hs', ?_⟩)
      · simp [plain, hidle]
      · exact plain_update _ _ t _
    | notify => cases hs
  | exec t k =>
    obtain ⟨f, rest, s, new, hstack, hs, rfl⟩ := step_exec_eq_some.mp hm
    -- what the program does to this stack, in no section or in one
    have hsame : s.shared = c.shared.shared →
        (new ++ rest).filterMap Notifying.frame? = (c.calls t).filterMap Notifying.frame? →
        P.machine.Reaches (plain c) (plain ⟨s, update c.calls t (new ++ rest)⟩) := by
      intro hshared hcalls
      have hsame : plain ⟨s, update c.calls t (new ++ rest)⟩ = plain c := by
        rw [plain_update, hshared, hcalls]
        exact congrArg (Threads.mk c.shared.shared) (Function.update_eq_self t (plain c).calls)
      rw [hsame]
      exact .refl _
    have hone : ∀ {g k' new'}, f = .frame g →
        P.exec c.shared.shared t g k' = some (s.shared, new') →
        new.filterMap Notifying.frame? = new' →
        P.machine.Reaches (plain c) (plain ⟨s, update c.calls t (new ++ rest)⟩) := by
      rintro g k' new' rfl hexec hnew
      refine .tail (.refl _) (l := .exec t k') (step_exec_eq_some.mpr
        ⟨g, rest.filterMap Notifying.frame?, s.shared, new', ?_, hexec, ?_⟩)
      · simp [plain, hstack, Notifying.frame?]
      · rw [plain_update, List.filterMap_append, hnew]
        rfl
    cases f with
    | notify =>
      obtain ⟨rfl, rfl⟩ := Prod.mk.inj (Option.some.inj hs)
      refine hsame rfl ?_
      rw [hstack, List.filterMap_cons_none rfl]
      rfl
    | frame f =>
      rcases exec_cases (program_exec_frame hs).2 with ⟨g, hg, rfl, rfl⟩ | ⟨r, -, hr, rfl, rfl⟩
      · rcases W.stays hg with rfl | ⟨k', hk'⟩
        · exact hsame rfl (by simp [hstack])
        · exact hone rfl hk' rfl
      · exact hone rfl hr (W.filterMap_leaves _ _)
  | ambient a =>
    obtain ⟨s, hs, rfl⟩ := step_ambient_eq_some.mp hm
    cases a with
    | inl a =>
      obtain ⟨s', hs', rfl⟩ := Option.map_eq_some_iff.mp hs
      exact .tail (.refl _) (l := .ambient a) (step_ambient_eq_some.mpr ⟨s', hs', rfl⟩)
    | inr t =>
      obtain rfl := Option.some.inj hs
      exact .refl _

/-- **Sleeping adds nothing.** What threads that sleep arrive at, threads that do not can. -/
theorem reaches_plain {c c' : Threads (State σ τ φ) τ (Notifying φ)}
    {ms : List (Move τ (Notifying φ) κ (α ⊕ τ))} (hrun : W.program.machine.run c ms = some c') :
    P.machine.Reaches (plain c) (plain c') := by
  refine Machine.invariant (I := fun d ↦ P.machine.Reaches (plain c) (plain d)) (.refl _)
    (fun _ _ _ h hm ↦ ?_) hrun
  obtain ⟨ls, hls⟩ := h
  obtain ⟨ls', hls'⟩ := reaches_of_step hm
  exact ⟨ls ++ ls', Machine.run_append_eq_some.mpr ⟨_, hls, hls'⟩⟩

/-! ## Where sleepers stand -/

/-- A sleeper stands in the frame in which it fell asleep. -/
def Placed (W : Waits P) (c : Threads (State σ τ φ) τ (Notifying φ)) : Prop :=
  ∀ t f, c.shared.asleep t = some f →
    (∃ s g, W.sleeps s t g = some f) ∧ ∃ rest, c.calls t = .frame f :: rest

theorem Placed.step {c c' : Threads (State σ τ φ) τ (Notifying φ)}
    {m : Move τ (Notifying φ) κ (α ⊕ τ)} (h : W.Placed c)
    (hm : W.program.machine.step c m = some c') : W.Placed c' := by
  cases m with
  | call t f =>
    obtain ⟨hidle, s, hs, rfl⟩ := step_call_eq_some.mp hm
    cases f with
    | frame f =>
      obtain ⟨s', -, rfl⟩ := Option.map_eq_some_iff.mp hs
      intro u g hg
      obtain ⟨hfell, rest, hrest⟩ := h u g hg
      have hu : u ≠ t := by
        rintro rfl
        rw [hidle] at hrest
        cases hrest
      exact ⟨hfell, rest, (Function.update_of_ne hu ..).trans hrest⟩
    | notify => cases hs
  | exec t k =>
    obtain ⟨f, rest, s, new, hstack, hs, rfl⟩ := step_exec_eq_some.mp hm
    cases f with
    | notify =>
      obtain ⟨rfl, rfl⟩ := Prod.mk.inj (Option.some.inj hs)
      rintro u g ⟨⟩
    | frame f =>
      obtain ⟨hawake, hexec⟩ := program_exec_frame hs
      -- the frames of the other threads stay where they are
      have hother : ∀ u g, u ≠ t → c.shared.asleep u = some g → (∃ s f, W.sleeps s u f = some g) ∧
          ∃ below, update c.calls t (new ++ rest) u = .frame g :: below := by
        intro u g hu hg
        rw [Function.update_of_ne hu]
        exact h u g hg
      rcases exec_cases hexec with ⟨g, hfalls, rfl, rfl⟩ | ⟨r, -, -, rfl, rfl⟩
      · intro u g' hg'
        by_cases hu : u = t
        · subst hu
          obtain rfl : g = g' := by simpa using hg'
          exact ⟨⟨_, _, hfalls⟩, rest, by simp⟩
        · exact hother u g' hu ((Function.update_of_ne hu ..).symm.trans hg')
      · intro u g' hg'
        refine hother u g' ?_ hg'
        rintro rfl
        cases hawake.symm.trans hg'
  | ambient a =>
    obtain ⟨s, hs, rfl⟩ := step_ambient_eq_some.mp hm
    cases a with
    | inl a =>
      obtain ⟨s', -, rfl⟩ := Option.map_eq_some_iff.mp hs
      intro u g hg
      simp only at hg
      split_ifs at hg
      exact h u g hg
    | inr t =>
      obtain rfl := Option.some.inj hs
      intro u g hg
      by_cases hu : u = t
      · subst hu
        cases (Function.update_self ..).symm.trans hg
      · exact h u g ((Function.update_of_ne hu ..).symm.trans hg)

/-- In every run, a sleeper stands where it fell asleep. -/
theorem placed_run {c c' : Threads (State σ τ φ) τ (Notifying φ)}
    {ms : List (Move τ (Notifying φ) κ (α ⊕ τ))} (hawake : ∀ t, c.shared.asleep t = none)
    (hrun : W.program.machine.run c ms = some c') : W.Placed c' := by
  refine Machine.invariant (I := W.Placed) (fun t f hf ↦ ?_) (fun _ _ _ h hm ↦ h.step hm) hrun
  cases (hawake t).symm.trans hf

/-! ## Lost wake-ups -/

variable {I : σ → Prop} {A : φ → σ → Prop} {owes : φ → Prop}

/-- The obligation of the sections: who makes a wait pointless notifies, or owes it. -/
structure Covers (W : Waits P) (I : σ → Prop) (A : φ → σ → Prop) (owes : φ → Prop) : Prop where
  call : ∀ {s t f s'}, I s → P.call s t f = some s' →
    ∀ u g, W.ready s' u g = true → W.ready s u g = true
  sleep : ∀ {s t f g}, W.sleeps s t f = some g → ¬owes f
  exec : ∀ {s t f k s' new}, I s → A f s → P.exec s t f k = some (s', new) →
    W.notifies s t f k = false →
    (∀ u, u ≠ t → ∀ g, W.ready s' u g = true → W.ready s u g = true) ∧ ¬owes f ∨
      ∃ g ∈ new, owes g ∨ W.announces g = true
  ambient : ∀ {s a s'}, I s → P.ambient s a = some s' → W.rouses s a = false →
    ∀ u g, W.ready s' u g = true → W.ready s u g = true

/-- Somebody sleeps without a reason. -/
def Overslept (W : Waits P) (s : State σ τ φ) : Prop :=
  ∃ t f, s.asleep t = some f ∧ W.ready s.shared t f = true

/-- A frame that is going to notify. -/
def Due (owes : φ → Prop) : Notifying φ → Prop
  | .frame f => owes f
  | .notify => True

theorem Covers.debt (h : Covers W I A owes) :
    Debt W.program (fun s ↦ I s.shared)
      (fun _ ↦ liftClaim State.shared Notifying.frame? A) W.Overslept (Due owes) where
  call {s t f s'} hI hcall hdue := by
    cases f with
    | frame f =>
      obtain ⟨s'', hs'', rfl⟩ := Option.map_eq_some_iff.mp hcall
      obtain ⟨u, g, hg, hready⟩ := hdue
      exact .inl ⟨u, g, hg, h.call hI hs'' u g hready⟩
    | notify => cases hcall
  exec {s t f k s' new} hI hA hexec hdue := by
    obtain ⟨u, g, hg, hready⟩ := hdue
    cases f with
    | notify =>
      obtain ⟨rfl, rfl⟩ := Prod.mk.inj (Option.some.inj hexec)
      cases hg
    | frame f =>
      obtain ⟨hawake, hexec⟩ := program_exec_frame hexec
      rcases exec_cases hexec with ⟨g', hg', rfl, rfl⟩ | ⟨r, hsleeps, hr, rfl, rfl⟩
      · -- who falls asleep has a reason, and the reasons of the others are as they were
        refine .inl ⟨?_, h.sleep hg'⟩
        by_cases hu : u = t
        · subst hu
          obtain rfl : g' = g := by simpa using hg
          exact absurd (W.not_ready hg') (by simp [hready])
        · exact ⟨u, g, (Function.update_of_ne hu ..).symm.trans hg, hready⟩
      · have hu : u ≠ t := by
          rintro rfl
          cases hawake.symm.trans hg
        cases hnotifies : W.notifies s.shared t f k with
        | true => exact .inr ⟨.notify, W.notify_mem_leaves r.2, trivial⟩
        | false =>
          rcases h.exec hI (hA f rfl) hr hnotifies with
            ⟨hsame, hpaid⟩ | ⟨g', hg', howes | hannounces⟩
          · exact .inl ⟨⟨u, g, hg, hsame u hu g hready⟩, hpaid⟩
          · refine .inr ⟨.frame g', W.mem_leaves_of_mem hg' ?_, howes⟩
            rw [announced]
            split_ifs <;> simp
          · refine .inr ⟨.notify, W.mem_leaves_of_mem hg' ?_, trivial⟩
            simp [announced, hannounces]
  ambient {s a s'} hI hambient hdue := by
    obtain ⟨u, g, hg, hready⟩ := hdue
    cases a with
    | inl a =>
      obtain ⟨s'', hs'', rfl⟩ := Option.map_eq_some_iff.mp hambient
      simp only at hg hready
      split_ifs at hg with hrouses
      exact ⟨u, g, hg, h.ambient hI hs'' (by simpa using hrouses) u g hready⟩
    | inr t =>
      obtain rfl := Option.some.inj hambient
      refine ⟨u, g, ?_, hready⟩
      by_cases hu : u = t
      · subst hu
        cases (Function.update_self ..).symm.trans hg
      · exact (Function.update_of_ne hu ..).symm.trans hg

/-- **No wake-up is lost.** A thread that sleeps although what it waits for is there is going to be
notified: some thread has the call before it, or owes it. -/
theorem no_lost_wakeup [Nonempty τ] (h : Covers W I A owes) (hP : Assertional P I fun _ ↦ A)
    {c c' : Threads (State σ τ φ) τ (Notifying φ)} {ms : List (Move τ (Notifying φ) κ (α ⊕ τ))}
    (hI : I c.shared.shared) (hidle : ∀ t, c.calls t = []) (hawake : ∀ t, c.shared.asleep t = none)
    (hrun : W.program.machine.run c ms = some c') (hasleep : c'.shared.asleep t = some f) :
    W.ready c'.shared.shared t f = false ∨ ∃ u, ∃ n ∈ c'.calls u, Due owes n := by
  by_contra hlost
  rw [not_or, Bool.not_eq_false] at hlost
  refine hlost.2 (h.debt.run (hP.lift W.part) ⟨hI, fun t n hn ↦ ?_⟩ ?_ hrun
    ⟨t, f, hasleep, hlost.1⟩)
  · rw [hidle t] at hn
    cases hn
  · rintro ⟨u, g, hg, -⟩
    cases (hawake u).symm.trans hg

end Waits

end Program
