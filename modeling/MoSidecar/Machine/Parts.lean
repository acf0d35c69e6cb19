import MoSidecar.Machine.Threads

/-!
# Parts of a program

A program may be put together from others: it has a part of the shared state for each of them, and
some of its frames are frames of theirs. The sections of the whole are then sections of the parts,
several at a time or none, with whatever holds them together.

## What carries over

The proof rules for programs do not ask on which stack a frame is, nor below what. So it is enough
to know, of each section of the whole, which frames of a part it takes and which it leaves, and that
the part leads from the ones to the others by its own sections (`Program.Moves`). Ledgers,
assertions and debts of the part are then ledgers, assertions and debts of the whole.
-/

namespace Program

variable {σ τ φ κ α σ' τ' φ' κ' α' : Type*} [Nonempty τ']

/-- What the sections of a program make of a list of frames and the shared state, whoever runs
them. -/
inductive Moves (Q : Program σ τ φ κ α) (s : σ) (fs : List φ) : σ → List φ → Prop
  | refl : Moves Q s fs s fs
  | call {s' s'' : σ} {fs' : List φ} {t : τ} {g : φ} (h : Moves Q s fs s' fs')
    (hcall : Q.call s' t g = some s'') : Moves Q s fs s'' (g :: fs')
  | exec {s' s'' : σ} {post new : List φ} {t : τ} {g : φ} {k : κ} (h : Moves Q s fs s' (g :: post))
    (hexec : Q.exec s' t g k = some (s'', new)) : Moves Q s fs s'' (new ++ post)
  | ambient {s' s'' : σ} {fs' : List φ} {a : α} (h : Moves Q s fs s' fs')
    (hambient : Q.ambient s' a = some s'') : Moves Q s fs s'' fs'

namespace Moves

variable {Q : Program σ τ φ κ α} {s s' s'' : σ} {t : τ} {g : φ} {k : κ} {new : List φ}

theorem enter (hcall : Q.call s t g = some s') : Moves Q s [] s' [g] := .call .refl hcall

theorem single (hexec : Q.exec s t g k = some (s', new)) : Moves Q s [g] s' new := by
  have hstart : Moves Q s [g] s [g] := .refl
  simpa only [List.append_nil] using hstart.exec hexec

/-- A call that runs its first section at once. -/
theorem callExec (hcall : Q.call s t g = some s') (hexec : Q.exec s' t g k = some (s'', new)) :
    Moves Q s [] s'' new := by
  simpa using (enter hcall).exec hexec

end Moves

/-- The program `Q` is a part of `P`, by a part of the shared state and some of the frames. -/
structure Part (P : Program σ τ φ κ α) (Q : Program σ' τ' φ' κ' α') (π : σ → σ')
    (p : φ → Option φ') : Prop where
  call : ∀ {s t f s'}, P.call s t f = some s' → Q.Moves (π s) [] (π s') (p f).toList
  exec : ∀ {s t f k s' new}, P.exec s t f k = some (s', new) →
    Q.Moves (π s) (p f).toList (π s') (new.filterMap p)
  ambient : ∀ {s a s'}, P.ambient s a = some s' → Q.Moves (π s) [] (π s') []

variable {P : Program σ τ φ κ α} {Q : Program σ' τ' φ' κ' α'} {π : σ → σ'} {p : φ → Option φ'}
  {s s' : σ'} {fs fs' : List φ'}

/-- The claim of a frame of the part, as a claim of a frame of the whole. -/
def liftClaim (π : σ → σ') (p : φ → Option φ') (A : φ' → σ' → Prop) (f : φ) (s : σ) : Prop :=
  ∀ g ∈ p f, A g (π s)

/-- The weight of a frame of the part, as a weight of a frame of the whole. -/
def liftWeight (p : φ → Option φ') (w : φ' → ℕ) (f : φ) : ℕ := (p f).elim 0 w

theorem sum_liftWeight (w : φ' → ℕ) (new : List φ) :
    (new.map (liftWeight p w)).sum = ((new.filterMap p).map w).sum := by
  induction new with
  | nil => rfl
  | cons f new ih =>
    rw [List.map_cons, List.sum_cons, ih, liftWeight]
    cases hf : p f with
    | none => rw [List.filterMap_cons_none hf, Option.elim_none, Nat.zero_add]
    | some g => rw [List.filterMap_cons_some hf, Option.elim_some, List.map_cons, List.sum_cons]

theorem liftWeight_eq (w : φ' → ℕ) (f : φ) : liftWeight p w f = ((p f).toList.map w).sum := by
  rw [liftWeight]
  cases p f <;> simp

theorem forall_liftClaim {A : φ' → σ' → Prop} {s : σ} {new : List φ} :
    (∀ f ∈ new, liftClaim π p A f s) ↔ ∀ g ∈ new.filterMap p, A g (π s) := by
  simp only [liftClaim, List.mem_filterMap, Option.mem_def]
  constructor
  · rintro h g ⟨f, hf, hg⟩
    exact h f hf g hg
  · intro h f hf g hg
    exact h g ⟨f, hf, hg⟩

/-! ## Ledgers -/

variable {β : Type*} {w : β → φ' → ℕ} {J : σ' → (β → ℕ) → Prop} {A : φ' → σ' → Prop}

/-- A ledger is kept by any number of sections. -/
theorem Ledger.moves (hQ : Ledger Q w J fun _ ↦ A) (h : Q.Moves s fs s' fs') {n : β → ℕ}
    (hJ : J s fun b ↦ n b + (fs.map (w b)).sum) (hA : ∀ g ∈ fs, A g s) :
    J s' (fun b ↦ n b + (fs'.map (w b)).sum) ∧ (∀ g ∈ fs', A g s') ∧ ∀ g, A g s → A g s' := by
  induction h with
  | refl => exact ⟨hJ, hA, fun _ ↦ id⟩
  | @call s' s'' fs' t g _ hcall ih =>
    obtain ⟨hJ', hA', hframe⟩ := ih
    obtain ⟨hJ'', hg, hframe'⟩ := hQ.call hJ' hcall
    refine ⟨?_, ?_, fun a ha ↦ hframe' t a (hframe a ha)⟩
    · simpa only [List.map_cons, List.sum_cons, Nat.add_assoc, Nat.add_comm (w _ g)] using hJ''
    · intro a ha
      rcases List.mem_cons.mp ha with rfl | ha
      · exact hg
      · exact hframe' t a (hA' a ha)
  | @exec s' s'' post new t g k _ hexec ih =>
    obtain ⟨hJ', hA', hframe⟩ := ih
    -- the counts without the frame that runs
    have hsplit : J s' fun b ↦ (n b + (post.map (w b)).sum) + w b g := by
      simpa only [List.map_cons, List.sum_cons, Nat.add_comm (w _ g), Nat.add_assoc] using hJ'
    obtain ⟨hJ'', hnew, hframe'⟩ := hQ.exec hsplit (hA' g List.mem_cons_self) hexec
    refine ⟨?_, ?_, fun a ha ↦ hframe' t a (hframe a ha)⟩
    · have hsum : ∀ b, n b + ((new ++ post).map (w b)).sum
          = n b + (post.map (w b)).sum + (new.map (w b)).sum := fun b ↦ by
        rw [List.map_append, List.sum_append]
        omega
      simpa only [hsum] using hJ''
    · intro a ha
      rcases List.mem_append.mp ha with ha | ha
      · exact hnew a ha
      · exact hframe' t a (hA' a (List.mem_cons_of_mem g ha))
  | ambient _ hambient ih =>
    obtain ⟨hJ', hA', hframe⟩ := ih
    obtain ⟨hJ'', hframe'⟩ := hQ.ambient hJ' hambient
    have hstays : ∀ a, A a _ → A a _ := hframe' (Classical.arbitrary τ')
    exact ⟨hJ'', fun a ha ↦ hstays a (hA' a ha), fun a ha ↦ hstays a (hframe a ha)⟩

/-- **A ledger of a part is a ledger of the whole.** -/
theorem Ledger.lift (hP : Part P Q π p) (hQ : Ledger Q w J fun _ ↦ A) :
    Ledger P (fun b ↦ liftWeight p (w b)) (fun s n ↦ J (π s) n) fun _ ↦ liftClaim π p A where
  call {s t f s' n} hJ hcall := by
    obtain ⟨hJ', hA', hframe⟩ := hQ.moves (n := n) (hP.call hcall) (by simpa using hJ) nofun
    refine ⟨by simpa only [liftWeight_eq] using hJ', ?_, fun _ g hg a ha ↦ hframe a (hg a ha)⟩
    exact fun g hg ↦ hA' g (Option.mem_toList.mpr hg)
  exec {s t f k s' new n} hJ hA hexec := by
    obtain ⟨hJ', hA', hframe⟩ := hQ.moves (n := n) (hP.exec hexec)
      (by simpa only [liftWeight_eq] using hJ) fun g hg ↦ hA g (Option.mem_toList.mp hg)
    refine ⟨by simpa only [sum_liftWeight] using hJ', forall_liftClaim.mpr hA', ?_⟩
    exact fun _ g hg a ha ↦ hframe a (hg a ha)
  ambient {s a s' n} hJ hambient := by
    obtain ⟨hJ', -, hframe⟩ := hQ.moves (n := n) (hP.ambient hambient) (by simpa using hJ) nofun
    exact ⟨by simpa using hJ', fun _ g hg a ha ↦ hframe a (hg a ha)⟩

/-! ## Assertions -/

variable {I : σ' → Prop}

omit [Nonempty τ'] in
/-- Assertions are a ledger without counts. -/
theorem Assertional.ledger (hQ : Assertional Q I fun _ ↦ A) :
    Ledger Q (fun b : Empty ↦ b.elim) (fun s _ ↦ I s) fun _ ↦ A where
  call h hcall := hQ.call h hcall
  exec h hA hexec := hQ.exec h hA hexec
  ambient h hambient := hQ.ambient h hambient

/-- **Assertions of a part are assertions of the whole.** -/
theorem Assertional.lift (hP : Part P Q π p) (hQ : Assertional Q I fun _ ↦ A) :
    Assertional P (fun s ↦ I (π s)) fun _ ↦ liftClaim π p A where
  call h hcall := (hQ.ledger.lift hP).call (n := nofun) h hcall
  exec h hA hexec := (hQ.ledger.lift hP).exec (n := nofun) h hA hexec
  ambient h hambient := (hQ.ledger.lift hP).ambient (n := nofun) h hambient

/-- What every section makes of the shared state, in some order of states, any number of sections
makes of it. -/
theorem Assertional.moves_rel {R : σ' → σ' → Prop} (hQ : Assertional Q I fun _ ↦ A)
    (hrefl : ∀ s, R s s) (htrans : ∀ s s' s'', R s s' → R s' s'' → R s s'')
    (hcall : ∀ s t f s', I s → Q.call s t f = some s' → R s s')
    (hexec : ∀ s t f k s' new, I s → A f s → Q.exec s t f k = some (s', new) → R s s')
    (hambient : ∀ s a s', I s → Q.ambient s a = some s' → R s s') (h : Q.Moves s fs s' fs')
    (hI : I s) (hA : ∀ g ∈ fs, A g s) : R s s' := by
  have hheld : ∀ {s' fs'}, Q.Moves s fs s' fs' → I s' ∧ ∀ g ∈ fs', A g s' := fun h ↦ by
    obtain ⟨hI', hA', -⟩ := hQ.ledger.moves (n := nofun) h hI hA
    exact ⟨hI', hA'⟩
  induction h with
  | refl => exact hrefl s
  | call h hcall' ih => exact htrans _ _ _ ih (hcall _ _ _ _ (hheld h).1 hcall')
  | exec h hexec' ih =>
    obtain ⟨hI', hA'⟩ := hheld h
    exact htrans _ _ _ ih (hexec _ _ _ _ _ _ hI' (hA' _ List.mem_cons_self) hexec')
  | ambient h hambient' ih => exact htrans _ _ _ ih (hambient _ _ _ (hheld h).1 hambient')

/-! ## Debts -/

variable {D : σ' → Prop} {q : φ' → Prop}

/-- A debt that is there after some sections was there before, with all that pays it still to be
done, or something will pay it. -/
theorem Debt.moves (hD : Debt Q I (fun _ ↦ A) D q) (hQ : Assertional Q I fun _ ↦ A)
    (h : Q.Moves s fs s' fs') (hI : I s) (hA : ∀ g ∈ fs, A g s) (hdue : D s') :
    (D s ∧ ∀ g ∈ fs, ¬q g) ∨ ∃ g ∈ fs', q g := by
  have hheld : ∀ {s' fs'}, Q.Moves s fs s' fs' → I s' ∧ ∀ g ∈ fs', A g s' := fun h ↦ by
    obtain ⟨hI', hA', -⟩ := hQ.ledger.moves (n := nofun) h hI hA
    exact ⟨hI', hA'⟩
  induction h with
  | refl =>
    by_cases hpaid : ∃ g ∈ fs, q g
    · exact .inr hpaid
    · exact .inl ⟨hdue, fun g hg hq ↦ hpaid ⟨g, hg, hq⟩⟩
  | call h hcall ih =>
    rcases hD.call (hheld h).1 hcall hdue with hold | hg
    · exact (ih hold).imp_right fun ⟨g, hg, hq⟩ ↦ ⟨g, List.mem_cons_of_mem _ hg, hq⟩
    · exact .inr ⟨_, List.mem_cons_self, hg⟩
  | exec h hexec ih =>
    obtain ⟨hI', hA'⟩ := hheld h
    rcases hD.exec hI' (hA' _ List.mem_cons_self) hexec hdue with ⟨hold, hno⟩ | ⟨g, hg, hq⟩
    · refine (ih hold).imp_right fun ⟨g, hg, hq⟩ ↦ ?_
      rcases List.mem_cons.mp hg with rfl | hg
      · exact absurd hq hno
      · exact ⟨g, List.mem_append_right _ hg, hq⟩
    · exact .inr ⟨g, List.mem_append_left _ hg, hq⟩
  | ambient h hambient ih => exact ih (hD.ambient (hheld h).1 hambient hdue)

/-- **A debt of a part is a debt of the whole.** -/
theorem Debt.lift (hP : Part P Q π p) (hD : Debt Q I (fun _ ↦ A) D q)
    (hQ : Assertional Q I fun _ ↦ A) :
    Debt P (fun s ↦ I (π s)) (fun _ ↦ liftClaim π p A) (fun s ↦ D (π s))
      fun f ↦ ∃ g ∈ p f, q g where
  call {s t f s'} hI hcall hdue := by
    rcases hD.moves hQ (hP.call hcall) hI nofun hdue with ⟨hold, -⟩ | ⟨g, hg, hq⟩
    · exact .inl hold
    · exact .inr ⟨g, Option.mem_toList.mp hg, hq⟩
  exec {s t f k s' new} hI hA hexec hdue := by
    have hA' : ∀ g ∈ (p f).toList, A g (π s) := fun g hg ↦ hA g (Option.mem_toList.mp hg)
    rcases hD.moves hQ (hP.exec hexec) hI hA' hdue with ⟨hold, hno⟩ | ⟨g, hg, hq⟩
    · exact .inl ⟨hold, fun ⟨g, hg, hq⟩ ↦ hno g (Option.mem_toList.mpr hg) hq⟩
    · obtain ⟨f', hf', hg⟩ := List.mem_filterMap.mp hg
      exact .inr ⟨f', hf', g, hg, hq⟩
  ambient {s a s'} hI hambient hdue := by
    rcases hD.moves hQ (hP.ambient hambient) hI nofun hdue with ⟨hold, -⟩ | ⟨g, hg, -⟩
    · exact hold
    · cases hg

/-! ## Several parts, and what holds them together -/

section Together

variable {β' : Type*} {w : β → φ → ℕ} {J : σ → (β → ℕ) → Prop} {A : τ → φ → σ → Prop}
  {w' : β' → φ → ℕ} {J' : σ → (β' → ℕ) → Prop} {A' : τ → φ → σ → Prop} {I' : σ → Prop}

/-- Assertions for every index at once. -/
theorem Assertional.all {ν : Type*} {I : ν → σ → Prop} {A : ν → τ → φ → σ → Prop}
    (h : ∀ i, Assertional P (I i) (A i)) :
    Assertional P (fun s ↦ ∀ i, I i s) fun t f s ↦ ∀ i, A i t f s where
  call hI hcall :=
    ⟨fun i ↦ ((h i).call (hI i) hcall).1, fun i ↦ ((h i).call (hI i) hcall).2.1,
      fun u g hg i ↦ ((h i).call (hI i) hcall).2.2 u g (hg i)⟩
  exec hI hA hexec :=
    ⟨fun i ↦ ((h i).exec (hI i) (hA i) hexec).1,
      fun g hg i ↦ ((h i).exec (hI i) (hA i) hexec).2.1 g hg,
      fun u g hg i ↦ ((h i).exec (hI i) (hA i) hexec).2.2 u g (hg i)⟩
  ambient hI hambient :=
    ⟨fun i ↦ ((h i).ambient (hI i) hambient).1,
      fun u g hg i ↦ ((h i).ambient (hI i) hambient).2 u g (hg i)⟩

/-- A ledger and assertions that do not need each other. -/
theorem Ledger.with (h : Ledger P w J A) (h' : Assertional P I' A') :
    Ledger P w (fun s n ↦ J s n ∧ I' s) fun t f s ↦ A t f s ∧ A' t f s where
  call hJ hcall := by
    obtain ⟨hJ', hf, hframe⟩ := h.call hJ.1 hcall
    obtain ⟨hI', hf', hframe'⟩ := h'.call hJ.2 hcall
    exact ⟨⟨hJ', hI'⟩, ⟨hf, hf'⟩, fun u g hg ↦ ⟨hframe u g hg.1, hframe' u g hg.2⟩⟩
  exec hJ hA hexec := by
    obtain ⟨hJ', hnew, hframe⟩ := h.exec hJ.1 hA.1 hexec
    obtain ⟨hI', hnew', hframe'⟩ := h'.exec hJ.2 hA.2 hexec
    exact ⟨⟨hJ', hI'⟩, fun g hg ↦ ⟨hnew g hg, hnew' g hg⟩,
      fun u g hg ↦ ⟨hframe u g hg.1, hframe' u g hg.2⟩⟩
  ambient hJ hambient := by
    obtain ⟨hJ', hframe⟩ := h.ambient hJ.1 hambient
    obtain ⟨hI', hframe'⟩ := h'.ambient hJ.2 hambient
    exact ⟨⟨hJ', hI'⟩, fun u g hg ↦ ⟨hframe u g hg.1, hframe' u g hg.2⟩⟩

/-- A further ledger, each of whose steps may rely on the first one. -/
structure Rests (P : Program σ τ φ κ α) (w : β → φ → ℕ) (J : σ → (β → ℕ) → Prop)
    (A : τ → φ → σ → Prop) (w' : β' → φ → ℕ) (J' : σ → (β' → ℕ) → Prop) (A' : τ → φ → σ → Prop) :
    Prop where
  call : ∀ {s t f s'} {n : β → ℕ} {m : β' → ℕ}, J s n → J' s m → P.call s t f = some s' →
    J' s' (fun b ↦ m b + w' b f) ∧ A' t f s' ∧ ∀ u g, A u g s → A' u g s → A' u g s'
  exec : ∀ {s t f k s' new} {n : β → ℕ} {m : β' → ℕ}, J s (fun b ↦ n b + w b f) → A t f s →
    J' s (fun b ↦ m b + w' b f) → A' t f s → P.exec s t f k = some (s', new) →
    J' s' (fun b ↦ m b + (new.map (w' b)).sum) ∧ (∀ g ∈ new, A' t g s') ∧
      ∀ u g, A u g s → A' u g s → A' u g s'
  ambient : ∀ {s a s'} {n : β → ℕ} {m : β' → ℕ}, J s n → J' s m → P.ambient s a = some s' →
    J' s' m ∧ ∀ u g, A u g s → A' u g s → A' u g s'

/-- **A ledger and one that rests on it.** -/
theorem Ledger.extend (h : Ledger P w J A) (h' : Rests P w J A w' J' A') :
    Ledger P (Sum.elim w w') (fun s n ↦ J s (fun b ↦ n (.inl b)) ∧ J' s fun b ↦ n (.inr b))
      fun t f s ↦ A t f s ∧ A' t f s where
  call hJ hcall := by
    obtain ⟨hJ', hf, hframe⟩ := h.call hJ.1 hcall
    obtain ⟨hJ'', hf', hframe'⟩ := h'.call hJ.1 hJ.2 hcall
    exact ⟨⟨hJ', hJ''⟩, ⟨hf, hf'⟩, fun u g hg ↦ ⟨hframe u g hg.1, hframe' u g hg.1 hg.2⟩⟩
  exec hJ hA hexec := by
    obtain ⟨hJ', hnew, hframe⟩ := h.exec hJ.1 hA.1 hexec
    obtain ⟨hJ'', hnew', hframe'⟩ := h'.exec hJ.1 hA.1 hJ.2 hA.2 hexec
    exact ⟨⟨hJ', hJ''⟩, fun g hg ↦ ⟨hnew g hg, hnew' g hg⟩,
      fun u g hg ↦ ⟨hframe u g hg.1, hframe' u g hg.1 hg.2⟩⟩
  ambient hJ hambient := by
    obtain ⟨hJ', hframe⟩ := h.ambient hJ.1 hambient
    obtain ⟨hJ'', hframe'⟩ := h'.ambient hJ.1 hJ.2 hambient
    exact ⟨⟨hJ', hJ''⟩, fun u g hg ↦ ⟨hframe u g hg.1, hframe' u g hg.1 hg.2⟩⟩

/-- A ledger and assertions that rest on it. -/
theorem Ledger.assert (h : Ledger P w J A)
    (h' : Rests P w J A (fun b : Empty ↦ b.elim) (fun s _ ↦ I' s) A') :
    Ledger P w (fun s n ↦ J s n ∧ I' s) fun t f s ↦ A t f s ∧ A' t f s where
  call hJ hcall := by
    obtain ⟨hJ', hf, hframe⟩ := h.call hJ.1 hcall
    obtain ⟨hI', hf', hframe'⟩ := h'.call (m := nofun) hJ.1 hJ.2 hcall
    exact ⟨⟨hJ', hI'⟩, ⟨hf, hf'⟩, fun u g hg ↦ ⟨hframe u g hg.1, hframe' u g hg.1 hg.2⟩⟩
  exec hJ hA hexec := by
    obtain ⟨hJ', hnew, hframe⟩ := h.exec hJ.1 hA.1 hexec
    obtain ⟨hI', hnew', hframe'⟩ := h'.exec (m := nofun) hJ.1 hA.1 hJ.2 hA.2 hexec
    exact ⟨⟨hJ', hI'⟩, fun g hg ↦ ⟨hnew g hg, hnew' g hg⟩,
      fun u g hg ↦ ⟨hframe u g hg.1, hframe' u g hg.1 hg.2⟩⟩
  ambient hJ hambient := by
    obtain ⟨hJ', hframe⟩ := h.ambient hJ.1 hambient
    obtain ⟨hI', hframe'⟩ := h'.ambient (m := nofun) hJ.1 hJ.2 hambient
    exact ⟨⟨hJ', hI'⟩, fun u g hg ↦ ⟨hframe u g hg.1, hframe' u g hg.1 hg.2⟩⟩

end Together

end Program
