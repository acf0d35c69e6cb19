import MoSidecar.Execution.Handlers

/-!
# The end of the inputs

An execution that becomes terminal ends its inputs one after the other, outside its mutex, and while
handlers upload to them and scans read from them. `cancel` ends them by cancelling, and so does
`finish` unless the query has succeeded; then they are no longer needed. Which of the two an input
meets first decides how it ends, and an input that was read to its end is left alone.

Whatever the order, an input is not forgotten: as long as it has not ended, a loop that will come to
it is under way.
-/

namespace MoSidecar

namespace StreamInput

variable {i i' : StreamInput}

/-- An input that has come to an end. -/
def Over (i : StreamInput) : Prop :=
  i.cancelled = true ∨ i.notNeeded = true ∨ i.consumerEof = true

/-- The end of the stream is read after it was written. -/
def EofAfter (i : StreamInput) : Prop := i.consumerEof = true → i.producerEof = true

/-- Flags that end an input stay. -/
structure Onward (i i' : StreamInput) : Prop where
  cancelled : i.cancelled = true → i'.cancelled = true
  notNeeded : i.notNeeded = true → i'.notNeeded = true
  consumerEof : i.consumerEof = true → i'.consumerEof = true
  eof : EofAfter i → EofAfter i'

theorem Onward.refl (i : StreamInput) : Onward i i := ⟨id, id, id, id⟩

theorem Onward.over (h : Onward i i') : i.Over → i'.Over
  | .inl hc => .inl (h.cancelled hc)
  | .inr (.inl hn) => .inr (.inl (h.notNeeded hn))
  | .inr (.inr he) => .inr (.inr (h.consumerEof he))

/-- Nothing but the slot and the counters changes. -/
theorem Onward.of_flags (hcancelled : i'.cancelled = i.cancelled)
    (hneeded : i'.notNeeded = i.notNeeded) (hconsumer : i'.consumerEof = i.consumerEof)
    (hproducer : i'.producerEof = i.producerEof) : Onward i i' where
  cancelled h := hcancelled.trans h
  notNeeded h := hneeded.trans h
  consumerEof h := hconsumer.trans h
  eof h hc := hproducer.trans (h (hconsumer.symm.trans hc))

theorem onward_attach (h : i.attach = .ok i') : Onward i i' := by
  obtain ⟨-, -, rfl⟩ := attach_eq_ok.mp h
  exact .of_flags rfl rfl rfl rfl

theorem onward_publishSlot (i : StreamInput) (b : NativeBatchView) :
    Onward i (i.publishSlot b).1 := by
  rw [publishSlot]
  split_ifs
  · exact .refl i
  · exact .refl i
  · exact .refl i
  · exact .of_flags rfl rfl rfl rfl

theorem onward_cancel (i : StreamInput) (error : String) : Onward i (i.cancel error) := by
  rcases cancel_cases (s := i) error with h | ⟨h, -, -⟩ <;> rw [h]
  · exact .refl i
  · exact ⟨fun _ ↦ rfl, id, id, id⟩

theorem onward_markNotNeeded (i : StreamInput) : Onward i i.markNotNeeded := by
  rcases markNotNeeded_cases (s := i) with h | ⟨h, -, -⟩ <;> rw [h]
  · exact .refl i
  · exact ⟨id, fun _ ↦ rfl, id, id⟩

theorem onward_traffic {a : InputTraffic} (h : ExecutionEntry.traffic i a = some i') :
    Onward i i' := by
  cases a with
  | publish b =>
    obtain rfl := Option.some.inj h
    rw [publish]
    split_ifs
    · exact .refl _
    · exact .refl _
    · exact onward_publishSlot _ b
  | publishSlot b =>
    obtain rfl := Option.some.inj h
    exact onward_publishSlot _ b
  | endOfUpload =>
    obtain rfl := Option.some.inj h
    exact ⟨id, id, id, fun _ _ ↦ rfl⟩
  | nextBatch =>
    obtain ⟨⟨i'', r⟩, hr, rfl⟩ := Option.map_eq_some_iff.mp h
    rcases nextBatch_cases hr with rfl | ⟨rfl, -, hproducer, -⟩
    · exact .refl _
    · exact ⟨id, id, fun _ ↦ rfl, fun _ _ ↦ hproducer⟩
  | markConsumed sequence =>
    obtain rfl := Option.some.inj h
    rw [markConsumed]
    split
    · exact .refl _
    · exact .of_flags rfl rfl rfl rfl

/-- What was cancelled has come to an end. -/
theorem over_cancel (i : StreamInput) (error : String) : (i.cancel error).Over :=
  (cancelled_or_notNeeded_cancel error).imp_right .inl

theorem over_markNotNeeded (i : StreamInput) : i.markNotNeeded.Over := by
  rw [markNotNeeded]
  split_ifs with hopen
  · exact .inr (.inl rfl)
  · simp only [Bool.and_eq_true, Bool.not_eq_true', not_and, Bool.not_eq_false] at hopen
    by_cases hc : i.cancelled = true
    · exact .inl hc
    · exact .inr (.inr (hopen (by simpa using hc)))

/-- The handler that waits for the end of the stream returns. -/
theorem Over.finishWait (h : i.Over) : i.finishWait.isSome := by
  rw [StreamInput.finishWait]
  rcases h with hc | hn | he <;> split_ifs <;> simp_all

/-- The scan that waits for a batch returns. -/
theorem Over.nextBatch (h : i.Over) (heof : i.EofAfter) : i.nextBatch.isSome := by
  have hready : i.ready = true := by
    rw [ready]
    rcases h with hc | hn | he
    · simp [hc]
    · simp [hn]
    · simp [heof he]
  rw [StreamInput.nextBatch, if_pos hready]
  split_ifs
  · rfl
  · rfl
  · cases i.batch <;> rfl

end StreamInput

namespace ExecutionEntry

open EntryControl

variable {ι : Type*} {cfg : ExecutionConfig} {s s' : ExecutionEntry} {t : Option ι}
  {f : EntryCall} {k : EntryAnswer} {new : List EntryCall} {ref : Bytes}

/-- The calls that will come to an input and end it. -/
def Ends (ref : Bytes) : EntryCall → Prop
  | .cancelAll _ todo | .markAllNotNeeded todo => ref ∈ todo
  | _ => False

/-- The end of every stream is read after it was written. -/
def Written (s : ExecutionEntry) : Prop := ∀ ref, (s.input ref).EofAfter

/-- An execution is terminal, and an input has not come to an end. -/
def Open (ref : Bytes) (s : ExecutionEntry) : Prop := s.terminal = true ∧ ¬(s.input ref).Over

theorem setInput_input_self (i : StreamInput) : (s.setInput ref i).input ref = i :=
  Function.update_self ..

theorem onward_setInput {ref' : Bytes} {i : StreamInput}
    (h : StreamInput.Onward (s.input ref') i) (ref : Bytes) :
    StreamInput.Onward (s.input ref) ((s.setInput ref' i).input ref) := by
  by_cases href : ref = ref'
  · subst href
    rwa [setInput_input_self]
  · have hsame : (s.setInput ref' i).input ref = s.input ref := Function.update_of_ne href ..
    rw [hsame]
    exact .refl _

/-- No section takes an end back. -/
theorem onward_of_exec (hexec : s.exec cfg t f k = some (s', new)) (ref : Bytes) :
    StreamInput.Onward (s.input ref) (s'.input ref) := by
  cases section_of_exec hexec with
  | cancelAll => exact onward_setInput (StreamInput.onward_cancel _ _) ref
  | markAllNotNeeded => exact onward_setInput (StreamInput.onward_markNotNeeded _) ref
  | attached href hattach => exact onward_setInput (StreamInput.onward_attach hattach) ref
  | @detachInput ref' =>
    have hdetach : StreamInput.Onward (s.input ref') (s.input ref').detach :=
      .of_flags rfl rfl rfl rfl
    exact onward_setInput hdetach ref
  | _ => exact .refl _

theorem input_of_call (hcall : s.call t f = some s') : s'.input = s.input := by
  cases t with
  | none =>
    simp only [call] at hcall
    split at hcall <;> cases hcall
    rfl
  | some i =>
    simp only [call] at hcall
    split at hcall <;> cases hcall <;> rfl

theorem assertional_written (cfg : ExecutionConfig) (ι : Type*) :
    Program.Assertional (program cfg ι) Written fun _ _ _ ↦ True where
  call h hcall := by
    refine ⟨fun ref ↦ ?_, trivial, fun _ _ ↦ id⟩
    rw [input_of_call hcall]
    exact h ref
  exec h _ hexec := by
    exact ⟨fun ref ↦ (onward_of_exec hexec ref).eof (h ref), fun _ _ ↦ trivial, fun _ _ ↦ id⟩
  ambient h hambient := by
    obtain ⟨i, hi, rfl⟩ := Option.map_eq_some_iff.mp hambient
    exact ⟨fun ref ↦ (onward_setInput (StreamInput.onward_traffic hi) ref).eof (h ref),
      fun _ _ ↦ id⟩

/-! ## The debt -/

/-- A section that makes an execution terminal goes on to end its inputs. -/
theorem ends_of_exec (href : ref ∈ cfg.inputRefs) (hexec : s.exec cfg t f k = some (s', new))
    (hbefore : s.terminal = false) (hafter : s'.terminal = true) : ∃ g ∈ new, Ends ref g := by
  have hsame : s'.terminal = s.terminal → ∃ g ∈ new, Ends ref g := fun h ↦ by
    rw [h, hbefore] at hafter
    cases hafter
  cases section_of_exec hexec with
  | terminate => exact ⟨_, List.mem_cons_self, href⟩
  | claim =>
    refine hsame ?_
    simp only [setControl, EntryControl.claim]
    split_ifs <;> rfl
  | start =>
    refine hsame ?_
    simp only [setControl, EntryControl.start]
    split_ifs <;> rfl
  | readNext expired | readOn expired =>
    refine hsame ?_
    simp only [setControl, readSlot]
    split
    · rfl
    · split_ifs <;> rfl
  | terminateQuiesced =>
    refine hsame ?_
    simp only [setControl, cancelTaken]
    split <;> rfl
  | run hw hrun =>
    cases section_of_runStep hrun with
    | @finished status outcome =>
      refine ⟨_, List.mem_cons_self, ?_⟩
      cases outcome <;> exact href
    | _ => exact hsame rfl
  | _ => exact hsame rfl

/-- A loop that comes to an input ends it, and one that does not goes on. -/
theorem over_or_ends (hexec : s.exec cfg t f k = some (s', new)) (hf : Ends ref f) :
    (s'.input ref).Over ∨ ∃ g ∈ new, Ends ref g := by
  cases section_of_exec hexec with
  | @cancelAll error ref' todo =>
    rcases List.mem_cons.mp hf with rfl | hmem
    · refine .inl ?_
      rw [setInput_input_self]
      exact StreamInput.over_cancel _ _
    · exact .inr ⟨_, List.mem_cons_self, hmem⟩
  | @markAllNotNeeded ref' todo =>
    rcases List.mem_cons.mp hf with rfl | hmem
    · refine .inl ?_
      rw [setInput_input_self]
      exact StreamInput.over_markNotNeeded _
    · exact .inr ⟨_, List.mem_cons_self, hmem⟩
  | cancelAllDone | markAllNotNeededDone => cases hf
  | _ => exact hf.elim

/-- An input of a terminal execution is ended, or will be. -/
theorem debt_open (ι : Type*) (href : ref ∈ cfg.inputRefs) :
    Program.Debt (program cfg ι) Written (fun _ _ _ ↦ True) (Open ref) (Ends ref) where
  call {s t f s'} _ hcall hdue := by
    refine .inl ⟨?_, ?_⟩
    · have hterminal := hdue.1
      cases t with
      | none =>
        simp only [program, call] at hcall
        split at hcall <;> cases hcall
        exact hterminal
      | some i =>
        simp only [program, call] at hcall
        split at hcall <;> cases hcall <;> exact hterminal
    · rw [← input_of_call hcall]
      exact hdue.2
  exec {s t f k s' new} _ _ hexec hdue := by
    cases hterminal : s.terminal with
    | false => exact .inr (ends_of_exec href hexec hterminal hdue.1)
    | true =>
      by_cases hf : Ends ref f
      · exact .inr ((over_or_ends hexec hf).resolve_left hdue.2)
      · exact .inl ⟨⟨hterminal, fun hover ↦ hdue.2 ((onward_of_exec hexec ref).over hover)⟩, hf⟩
  ambient {s a s'} _ hambient hdue := by
    obtain ⟨i, hi, rfl⟩ := Option.map_eq_some_iff.mp hambient
    exact ⟨hdue.1, fun hover ↦
      hdue.2 ((onward_setInput (StreamInput.onward_traffic hi) ref).over hover)⟩

/-! ## Nobody is in the way -/

/-- Of `run`, only `finish` goes on to the inputs itself. -/
theorem finishing_of_ends {g : EntryCall} (hexec : s.exec cfg t .run k = some (s', new))
    (hg : g ∈ new) (hends : Ends ref g) :
    ∃ status outcome, s.worker = .running (.finishing status outcome) := by
  cases section_of_exec hexec with
  | run hw hrun =>
    cases section_of_runStep hrun with
    | finished => exact ⟨_, _, hw⟩
    | threw hpoint hbefore =>
      rcases hbefore with rfl | rfl
      · obtain rfl := List.mem_singleton.mp hg
        exact hends.elim
      · rcases List.mem_cons.mp hg with rfl | hg
        · exact hends.elim
        · obtain rfl := List.mem_singleton.mp hg
          exact hends.elim
    | expired =>
      rcases List.mem_cons.mp hg with rfl | hg
      · exact hends.elim
      · obtain rfl := List.mem_singleton.mp hg
        exact hends.elim
    | left => cases hg
    | _ =>
      obtain rfl := List.mem_singleton.mp hg
      exact hends.elim

/-- A loop over the inputs is not below another call. -/
theorem ends_first (hexec : s.exec cfg t f k = some (s', new)) :
    new.Pairwise fun _ g ↦ ¬Ends ref g := by
  cases section_of_exec hexec with
  | readNext expired | readOn expired =>
    simp only [readSlot]
    split
    · exact .nil
    · split_ifs <;> simp [Ends]
  | run hw hrun =>
    cases section_of_runStep hrun with
    | threw hpoint hbefore => rcases hbefore with rfl | rfl <;> simp [Ends]
    | finished => simp [Ends]
    | _ => simp [Ends]
  | _ => simp [EntryCall.cancel, Ends]

/-- A loop over the inputs waits for nobody. -/
theorem exec_of_ends (hf : Ends ref f) : (s.exec cfg t f {}).isSome := by
  cases f with
  | cancelAll error todo => cases todo <;> rfl
  | markAllNotNeeded todo => cases todo <;> rfl
  | _ => exact hf.elim

end ExecutionEntry

end MoSidecar
