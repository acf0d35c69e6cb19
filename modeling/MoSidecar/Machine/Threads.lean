import MoSidecar.Machine.Run

/-!
# Threads with call stacks over a shared state

A program here is what a set of threads may do to a shared state: start a call when idle, run the
next atomic section of the call on top of the own stack, or — for steps that belong to no modelled
thread — change the shared state alone. A section may return from its frame, move it to a later
point, or call further functions, so it answers with the list of frames that replace the top one.

## Proof rules

An invariant of such a program rarely speaks about the shared state only; it also says where the
threads stand. Four shapes of that cover most arguments, and each has a rule here.

* **Assertions.** Every frame carries a claim about the shared state that holds as long as the
  frame is on some stack (`Program.Assertional`). A section must establish the claims of the frames
  it leaves and must not disturb the claims of any other frame.
* **Ledgers.** The shared state is in a relation to a family of such counts: how many frames of each
  kind are on the stacks (`Program.Ledger`). Assertions about single frames go along.
* **Tallies.** A ledger with one count, under assertions that are already known (`Program.Tally`).
* **Debts.** While the shared state is in some condition, a frame that will deal with it is on some
  stack (`Program.Debt`).

Assertions cannot say that a frame is the only one of its kind; that is what ledgers are for.
-/

open Function (update)

/-- A shared state, and for each thread the frames of its calls, the innermost first. -/
structure Threads (σ τ φ : Type*) where
  /-- What all threads see. -/
  shared : σ
  /-- The call stack of a thread; an idle thread has none. -/
  calls : τ → List φ

/-- What threads may do to a shared state. -/
structure Program (σ τ φ κ α : Type*) where
  /-- The effect of an idle thread entering a function, if it may. -/
  call : σ → τ → φ → Option σ
  /-- The next section of a frame, under the choices made for it: the new shared state and the
  frames that replace it. -/
  exec : σ → τ → φ → κ → Option (σ × List φ)
  /-- A step that no modelled thread takes. -/
  ambient : σ → α → Option σ

/-- The labels of a program's machine. -/
inductive Move (τ φ κ α : Type*) where
  /-- An idle thread enters a function. -/
  | call (t : τ) (f : φ)
  /-- A thread runs the next section of its innermost call. -/
  | exec (t : τ) (k : κ)
  /-- A step of the surroundings. -/
  | ambient (a : α)
  deriving DecidableEq

namespace Program

variable {σ τ φ κ α : Type*} [DecidableEq τ] (P : Program σ τ φ κ α)

/-- The interleavings of a program, one section at a time. -/
def machine : Machine (Threads σ τ φ) (Move τ φ κ α) where
  step c
    | .call t f =>
      match c.calls t with
      | [] => (P.call c.shared t f).map fun s ↦ ⟨s, update c.calls t [f]⟩
      | _ :: _ => none
    | .exec t k =>
      match c.calls t with
      | [] => none
      | f :: rest =>
        (P.exec c.shared t f k).map fun r ↦ ⟨r.1, update c.calls t (r.2 ++ rest)⟩
    | .ambient a => (P.ambient c.shared a).map fun s ↦ ⟨s, c.calls⟩

variable {P} {c c' : Threads σ τ φ} {t : τ} {f : φ} {k : κ} {a : α}

theorem step_call_eq_some :
    P.machine.step c (.call t f) = some c' ↔
      c.calls t = [] ∧ ∃ s, P.call c.shared t f = some s ∧ c' = ⟨s, update c.calls t [f]⟩ := by
  cases h : c.calls t with
  | nil => simp [machine, h, eq_comm]
  | cons g rest => simp [machine, h]

theorem step_exec_eq_some :
    P.machine.step c (.exec t k) = some c' ↔
      ∃ f rest s new, c.calls t = f :: rest ∧ P.exec c.shared t f k = some (s, new) ∧
        c' = ⟨s, update c.calls t (new ++ rest)⟩ := by
  cases h : c.calls t with
  | nil => simp [machine, h]
  | cons g rest =>
    simp only [machine, h, Option.map_eq_some_iff, Prod.exists, List.cons.injEq]
    constructor
    · rintro ⟨s, new, hs, rfl⟩
      exact ⟨g, rest, s, new, ⟨rfl, rfl⟩, hs, rfl⟩
    · rintro ⟨f, rest', s, new, ⟨rfl, rfl⟩, hs, rfl⟩
      exact ⟨s, new, hs, rfl⟩

theorem step_ambient_eq_some :
    P.machine.step c (.ambient a) = some c' ↔
      ∃ s, P.ambient c.shared a = some s ∧ c' = ⟨s, c.calls⟩ := by
  simp [machine, eq_comm]

/-- A frame stays on its stack until it is run. -/
theorem mem_of_step {m : Move τ φ κ α} (hm : P.machine.step c m = some c') (hf : f ∈ c.calls t) :
    f ∈ c'.calls t ∨ ∃ k rest, m = .exec t k ∧ c.calls t = f :: rest := by
  have hother : ∀ {u : τ} {fs : List φ}, t ≠ u → f ∈ update c.calls u fs t := fun hu ↦ by
    rwa [Function.update_of_ne hu]
  cases m with
  | call u g =>
    obtain ⟨hidle, s, -, rfl⟩ := step_call_eq_some.mp hm
    refine .inl (hother ?_)
    rintro rfl
    rw [hidle] at hf
    cases hf
  | exec u k =>
    obtain ⟨g, rest, s, new, hstack, -, rfl⟩ := step_exec_eq_some.mp hm
    by_cases hu : t = u
    · subst hu
      rw [hstack] at hf
      rcases List.mem_cons.mp hf with rfl | hrest
      · exact .inr ⟨k, rest, rfl, hstack⟩
      · exact .inl (by simp [hrest])
    · exact .inl (hother hu)
  | ambient a =>
    obtain ⟨s, -, rfl⟩ := step_ambient_eq_some.mp hm
    exact .inl hf

/-! ## Assertions -/

/-- A global claim `I` about the shared state and a claim `A` for each frame of each thread, such
that every step keeps the first, establishes the claims of the frames it leaves, and disturbs the
claim of no other frame. -/
structure Assertional (P : Program σ τ φ κ α) (I : σ → Prop) (A : τ → φ → σ → Prop) : Prop where
  call : ∀ {s t f s'}, I s → P.call s t f = some s' →
    I s' ∧ A t f s' ∧ ∀ u g, A u g s → A u g s'
  exec : ∀ {s t f k s' new}, I s → A t f s → P.exec s t f k = some (s', new) →
    I s' ∧ (∀ g ∈ new, A t g s') ∧ ∀ u g, A u g s → A u g s'
  ambient : ∀ {s a s'}, I s → P.ambient s a = some s' → I s' ∧ ∀ u g, A u g s → A u g s'

/-- The global claim holds, and so does the claim of every frame on a stack. -/
def Holds (I : σ → Prop) (A : τ → φ → σ → Prop) (c : Threads σ τ φ) : Prop :=
  I c.shared ∧ ∀ t, ∀ f ∈ c.calls t, A t f c.shared

variable {I : σ → Prop} {A : τ → φ → σ → Prop}

/-- The frames of a thread are replaced; what holds of the new ones and of all old ones holds of all
afterwards. -/
theorem forall_calls_update {Q : τ → φ → Prop} {fs : List φ} (hnew : ∀ g ∈ fs, Q t g)
    (hold : ∀ u, u ≠ t → ∀ g ∈ c.calls u, Q u g) : ∀ u, ∀ g ∈ update c.calls t fs u, Q u g := by
  intro u g hg
  by_cases hu : u = t
  · subst hu
    rw [Function.update_self] at hg
    exact hnew g hg
  · rw [Function.update_of_ne hu] at hg
    exact hold u hu g hg

theorem Assertional.step (hP : Assertional P I A) {m : Move τ φ κ α} (hc : Holds I A c)
    (hm : P.machine.step c m = some c') : Holds I A c' := by
  obtain ⟨hI, hA⟩ := hc
  cases m with
  | call t f =>
    obtain ⟨-, s, hs, rfl⟩ := step_call_eq_some.mp hm
    obtain ⟨hI', hf, hframe⟩ := hP.call hI hs
    refine ⟨hI', forall_calls_update ?_ fun u _ g hg ↦ hframe u g (hA u g hg)⟩
    intro g hg
    obtain rfl := List.mem_singleton.mp hg
    exact hf
  | exec t k =>
    obtain ⟨f, rest, s, new, hstack, hs, rfl⟩ := step_exec_eq_some.mp hm
    obtain ⟨hI', hnew, hframe⟩ := hP.exec hI (hA t f (by simp [hstack])) hs
    refine ⟨hI', forall_calls_update ?_ fun u _ g hg ↦ hframe u g (hA u g hg)⟩
    intro g hg
    rcases List.mem_append.mp hg with hg | hg
    · exact hnew g hg
    · exact hframe t g (hA t g (by simp [hstack, hg]))
  | ambient a =>
    obtain ⟨s, hs, rfl⟩ := step_ambient_eq_some.mp hm
    obtain ⟨hI', hframe⟩ := hP.ambient hI hs
    exact ⟨hI', fun u g hg ↦ hframe u g (hA u g hg)⟩

/-- **The rule of assertions.** -/
theorem Assertional.run (hP : Assertional P I A) {ms : List (Move τ φ κ α)} (hc : Holds I A c)
    (hrun : P.machine.run c ms = some c') : Holds I A c' :=
  Machine.invariant hc (fun _ _ _ h hm ↦ hP.step h hm) hrun

/-! ## Ledgers -/

/-- The weight of all frames on all stacks. -/
def weight [Fintype τ] (w : φ → ℕ) (c : Threads σ τ φ) : ℕ := ∑ t, ((c.calls t).map w).sum

omit [DecidableEq τ] in
theorem weight_eq_zero [Fintype τ] {w : φ → ℕ} (h : ∀ t, ∀ f ∈ c.calls t, w f = 0) :
    weight w c = 0 := by
  refine Finset.sum_eq_zero fun t _ ↦ List.sum_eq_zero fun n hn ↦ ?_
  obtain ⟨f, hf, rfl⟩ := List.mem_map.mp hn
  exact h t f hf

omit [DecidableEq τ] in
theorem weight_congr [Fintype τ] {w w' : φ → ℕ} (h : ∀ t, ∀ f ∈ c.calls t, w f = w' f) :
    weight w c = weight w' c := by
  refine Finset.sum_congr rfl fun t _ ↦ ?_
  rw [List.map_congr_left (h t)]

omit [DecidableEq τ] in
/-- Where one weight is so many times another, it is so in all. -/
theorem mul_weight_le [Fintype τ] {n : ℕ} {w w' : φ → ℕ}
    (h : ∀ t, ∀ f ∈ c.calls t, n * w f ≤ w' f) : n * weight w c ≤ weight w' c := by
  rw [weight, Finset.mul_sum]
  refine Finset.sum_le_sum fun t _ ↦ ?_
  rw [← List.sum_map_mul_left]
  exact List.sum_le_sum (h t)

omit [DecidableEq τ] in
theorem le_weight [Fintype τ] {w : φ → ℕ} (hf : f ∈ c.calls t) : w f ≤ weight w c :=
  (List.le_sum_of_mem (List.mem_map_of_mem hf)).trans
    (Finset.single_le_sum (f := fun u ↦ ((c.calls u).map w).sum) (fun _ _ ↦ Nat.zero_le _)
      (Finset.mem_univ t))

omit [DecidableEq τ] in
theorem weight_eq_zero_iff [Fintype τ] {w : φ → ℕ} :
    weight w c = 0 ↔ ∀ t, ∀ f ∈ c.calls t, w f = 0 :=
  ⟨fun h _ _ hf ↦ Nat.le_zero.mp ((le_weight hf).trans h.le), weight_eq_zero⟩

/-- Only the stack that changed changes the weight. -/
theorem weight_update [Fintype τ] (w : φ → ℕ) (s : σ) (fs : List φ) :
    weight w ⟨s, update c.calls t fs⟩ + ((c.calls t).map w).sum
      = weight w c + (fs.map w).sum := by
  have hrest : ∑ u ∈ Finset.univ.erase t, ((update c.calls t fs u).map w).sum
      = ∑ u ∈ Finset.univ.erase t, ((c.calls u).map w).sum :=
    Finset.sum_congr rfl fun u hu ↦ by rw [Function.update_of_ne (Finset.ne_of_mem_erase hu)]
  simp only [weight]
  rw [← Finset.add_sum_erase _ _ (Finset.mem_univ t),
    ← Finset.add_sum_erase _ (fun u ↦ ((c.calls u).map w).sum) (Finset.mem_univ t), hrest,
    Function.update_self]
  omega

/-- A thread enters a function: the weight of the call is added. -/
theorem weight_call [Fintype τ] (w : φ → ℕ) (s : σ) (hstack : c.calls t = []) :
    weight w ⟨s, update c.calls t [f]⟩ = weight w c + w f := by
  have hw := weight_update (c := c) (t := t) w s [f]
  simpa [hstack] using hw

/-- A section replaces its frame: the weights of the other frames stay. -/
theorem weight_exec [Fintype τ] (w : φ → ℕ) (s : σ) {rest new : List φ}
    (hstack : c.calls t = f :: rest) :
    weight w ⟨s, update c.calls t (new ++ rest)⟩ = weight w c - w f + (new.map w).sum := by
  have hle : w f ≤ weight w c := le_weight (t := t) (by simp [hstack])
  have hw := weight_update (c := c) (t := t) w s (new ++ rest)
  simp only [hstack, List.map_cons, List.sum_cons, List.map_append, List.sum_append] at hw
  omega

/-- `J s n` relates the shared state to a family of weights of the frames, and `A` is a claim for
each frame, such that every step keeps the first, establishes the claims of the frames it leaves and
disturbs the claim of no other frame. -/
structure Ledger {β : Type*} (P : Program σ τ φ κ α) (w : β → φ → ℕ) (J : σ → (β → ℕ) → Prop)
    (A : τ → φ → σ → Prop) : Prop where
  call : ∀ {s t f s'} {n : β → ℕ}, J s n → P.call s t f = some s' →
    J s' (fun b ↦ n b + w b f) ∧ A t f s' ∧ ∀ u g, A u g s → A u g s'
  exec : ∀ {s t f k s' new} {n : β → ℕ}, J s (fun b ↦ n b + w b f) → A t f s →
    P.exec s t f k = some (s', new) → J s' (fun b ↦ n b + (new.map (w b)).sum) ∧
      (∀ g ∈ new, A t g s') ∧ ∀ u g, A u g s → A u g s'
  ambient : ∀ {s a s'} {n : β → ℕ}, J s n → P.ambient s a = some s' →
    J s' n ∧ ∀ u g, A u g s → A u g s'

/-- The relation holds of the weights of all frames, and the claim of every frame holds. -/
def Balanced {β : Type*} [Fintype τ] (w : β → φ → ℕ) (J : σ → (β → ℕ) → Prop)
    (A : τ → φ → σ → Prop) (c : Threads σ τ φ) : Prop :=
  J c.shared (fun b ↦ weight (w b) c) ∧ ∀ t, ∀ f ∈ c.calls t, A t f c.shared

theorem Ledger.step {β : Type*} [Fintype τ] {w : β → φ → ℕ} {J : σ → (β → ℕ) → Prop}
    (hP : Ledger P w J A) {m : Move τ φ κ α} (hc : Balanced w J A c)
    (hm : P.machine.step c m = some c') : Balanced w J A c' := by
  obtain ⟨hJ, hA⟩ := hc
  cases m with
  | call t f =>
    obtain ⟨hstack, s, hs, rfl⟩ := step_call_eq_some.mp hm
    obtain ⟨hJ', hf, hframe⟩ := hP.call hJ hs
    refine ⟨?_, forall_calls_update ?_ fun u _ g hg ↦ hframe u g (hA u g hg)⟩
    · simpa only [weight_call _ s hstack] using hJ'
    · intro g hg
      obtain rfl := List.mem_singleton.mp hg
      exact hf
  | exec t k =>
    obtain ⟨f, rest, s, new, hstack, hs, rfl⟩ := step_exec_eq_some.mp hm
    have hle : ∀ b, w b f ≤ weight (w b) c := fun b ↦ le_weight (t := t) (by simp [hstack])
    -- the weights without the frame that runs
    have hJf : J c.shared (fun b ↦ (weight (w b) c - w b f) + w b f) := by
      simpa only [Nat.sub_add_cancel (hle _)] using hJ
    obtain ⟨hJ', hnew, hframe⟩ := hP.exec hJf (hA t f (by simp [hstack])) hs
    refine ⟨?_, forall_calls_update ?_ fun u _ g hg ↦ hframe u g (hA u g hg)⟩
    · simpa only [weight_exec _ s hstack] using hJ'
    · intro g hg
      rcases List.mem_append.mp hg with hg | hg
      · exact hnew g hg
      · exact hframe t g (hA t g (by simp [hstack, hg]))
  | ambient a =>
    obtain ⟨s, hs, rfl⟩ := step_ambient_eq_some.mp hm
    obtain ⟨hJ', hframe⟩ := hP.ambient hJ hs
    exact ⟨hJ', fun u g hg ↦ hframe u g (hA u g hg)⟩

/-- **The rule of ledgers.** -/
theorem Ledger.run {β : Type*} [Fintype τ] {w : β → φ → ℕ} {J : σ → (β → ℕ) → Prop}
    (hP : Ledger P w J A) {ms : List (Move τ φ κ α)} (hc : Balanced w J A c)
    (hrun : P.machine.run c ms = some c') : Balanced w J A c' :=
  Machine.invariant hc (fun _ _ _ h hm ↦ hP.step h hm) hrun

/-- `T s n` relates the shared state to the weight `n` of the frames, under a known assertional
invariant. -/
structure Tally (P : Program σ τ φ κ α) (I : σ → Prop) (A : τ → φ → σ → Prop) (w : φ → ℕ)
    (T : σ → ℕ → Prop) : Prop where
  call : ∀ {s t f s' n}, I s → T s n → P.call s t f = some s' → T s' (n + w f)
  exec : ∀ {s t f k s' new n}, I s → A t f s → T s (n + w f) → P.exec s t f k = some (s', new) →
    T s' (n + (new.map w).sum)
  ambient : ∀ {s a s' n}, I s → T s n → P.ambient s a = some s' → T s' n

omit [DecidableEq τ] in
/-- A tally is a ledger with one count. -/
theorem Tally.ledger {w : φ → ℕ} {T : σ → ℕ → Prop} (hT : Tally P I A w T)
    (hP : Assertional P I A) :
    Ledger P (fun _ : Unit ↦ w) (fun s n ↦ I s ∧ T s (n ())) A where
  call h hs := by
    obtain ⟨hI, hf, hframe⟩ := hP.call h.1 hs
    exact ⟨⟨hI, hT.call h.1 h.2 hs⟩, hf, hframe⟩
  exec h hA hs := by
    obtain ⟨hI, hnew, hframe⟩ := hP.exec h.1 hA hs
    exact ⟨⟨hI, hT.exec h.1 hA h.2 hs⟩, hnew, hframe⟩
  ambient h hs := by
    obtain ⟨hI, hframe⟩ := hP.ambient h.1 hs
    exact ⟨⟨hI, hT.ambient h.1 h.2 hs⟩, hframe⟩

/-- **The rule of tallies.** -/
theorem Tally.run [Fintype τ] {w : φ → ℕ} {T : σ → ℕ → Prop} (hT : Tally P I A w T)
    (hP : Assertional P I A) {ms : List (Move τ φ κ α)} (hc : Holds I A c)
    (hinit : T c.shared (weight w c)) (hrun : P.machine.run c ms = some c') :
    T c'.shared (weight w c') :=
  ((hT.ledger hP).run ⟨⟨hc.1, hinit⟩, hc.2⟩ hrun).1.2

/-! ## Debts -/

/-- Whenever the shared state is in condition `D`, a frame satisfying `g` is on some stack: the
condition arises only together with such a frame, and such a frame goes away only when the
condition does or another one takes its place. -/
structure Debt (P : Program σ τ φ κ α) (I : σ → Prop) (A : τ → φ → σ → Prop) (D : σ → Prop)
    (g : φ → Prop) : Prop where
  call : ∀ {s t f s'}, I s → P.call s t f = some s' → D s' → D s ∨ g f
  exec : ∀ {s t f k s' new}, I s → A t f s → P.exec s t f k = some (s', new) → D s' →
    (D s ∧ ¬g f) ∨ ∃ f' ∈ new, g f'
  ambient : ∀ {s a s'}, I s → P.ambient s a = some s' → D s' → D s

/-- **The rule of debts.** -/
theorem Debt.run {D : σ → Prop} {g : φ → Prop} (hD : Debt P I A D g) (hP : Assertional P I A)
    {ms : List (Move τ φ κ α)} (hc : Holds I A c) (hinit : ¬D c.shared)
    (hrun : P.machine.run c ms = some c') (hdue : D c'.shared) :
    ∃ t, ∃ f ∈ c'.calls t, g f := by
  refine (Machine.invariant
    (I := fun c ↦ Holds I A c ∧ (D c.shared → ∃ t, ∃ f ∈ c.calls t, g f))
    ⟨hc, fun h ↦ absurd h hinit⟩ (fun c m c' h hm ↦ ⟨hP.step h.1 hm, fun hdue ↦ ?_⟩) hrun).2 hdue
  obtain ⟨⟨hI, hA⟩, hpaid⟩ := h
  cases m with
  | call t f =>
    obtain ⟨hstack, s, hs, rfl⟩ := step_call_eq_some.mp hm
    rcases hD.call hI hs hdue with hold | hf
    · obtain ⟨u, g', hg', hgood⟩ := hpaid hold
      have hu : u ≠ t := by
        rintro rfl
        simp [hstack] at hg'
      exact ⟨u, g', by simpa [Function.update_of_ne hu] using hg', hgood⟩
    · exact ⟨t, f, by simp, hf⟩
  | exec t k =>
    obtain ⟨f, rest, s, new, hstack, hs, rfl⟩ := step_exec_eq_some.mp hm
    rcases hD.exec hI (hA t f (by simp [hstack])) hs hdue with ⟨hold, hf⟩ | ⟨f', hf', hgood⟩
    · obtain ⟨u, g', hg', hgood⟩ := hpaid hold
      by_cases hu : u = t
      · subst hu
        rw [hstack, List.mem_cons] at hg'
        have hrest : g' ∈ rest := hg'.resolve_left fun h ↦ hf (h ▸ hgood)
        exact ⟨u, g', by simp [hrest], hgood⟩
      · exact ⟨u, g', by simpa [Function.update_of_ne hu] using hg', hgood⟩
    · exact ⟨t, f', by simp [hf'], hgood⟩
  | ambient a =>
    obtain ⟨s, hs, rfl⟩ := step_ambient_eq_some.mp hm
    exact hpaid (hD.ambient hI hs hdue)

end Program
