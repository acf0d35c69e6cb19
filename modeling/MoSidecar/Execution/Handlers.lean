import MoSidecar.Execution.Lifecycle

/-!
# Handlers, quiescence and the terminal callback

An execution reports its end through the terminal callback, and through `cancel_and_join` returning
true. Both follow a test for quiescence: `quiesced_` is set and no handler is counted. The flag, the
count and the inputs the handlers work on change in sections of different calls, so what the test
says about the inputs is a matter of where all threads stand.

`Effect` lists what a section may do to these three; the rest of the module argues about nothing
else. Three kinds of facts come out of it by the rules for programs: how often the callback runs
(a tally), that it runs at all (a debt), and which handlers a test overlooks (a tally and a debt).

## What the test overlooks

* A handler between `attach` and `handler_attached` is not counted yet.
* An input that is neither cancelled nor was ever attached still accepts a handler. So it is with
  all inputs of an execution that succeeded, which are marked as not needed and never cancelled.

A test that passes while one of the two is the case reports an end that is none; in runs without
such a test the report is right.
-/

namespace MoSidecar

/-! ## What does not concern the handler of an input -/

namespace StreamInput

variable {s s' : StreamInput}

/-- The handler of the input is where it was, and a cancelled input stays cancelled. -/
structure Kept (s s' : StreamInput) : Prop where
  attached : s'.attached = s.attached
  detached : s'.detached = s.detached
  cancelled : s.cancelled = true → s'.cancelled = true

theorem Kept.refl (s : StreamInput) : Kept s s := ⟨rfl, rfl, id⟩

theorem kept_cancel (s : StreamInput) (error : String) : Kept s (s.cancel error) := by
  rcases cancel_cases (s := s) error with h | ⟨h, -, -⟩
  · rw [h]
    exact .refl s
  · rw [h]
    exact ⟨rfl, rfl, fun _ ↦ rfl⟩

theorem kept_markNotNeeded (s : StreamInput) : Kept s s.markNotNeeded := by
  rcases markNotNeeded_cases (s := s) with h | ⟨h, -, -⟩
  · rw [h]
    exact .refl s
  · rw [h]
    exact ⟨rfl, rfl, id⟩

theorem kept_publishSlot (s : StreamInput) (b : NativeBatchView) : Kept s (s.publishSlot b).1 := by
  rw [publishSlot]
  split_ifs <;> exact ⟨rfl, rfl, id⟩

theorem kept_publish (s : StreamInput) (b : NativeBatchView) : Kept s (s.publish b).1 := by
  rw [publish]
  split_ifs
  · exact .refl s
  · exact .refl s
  · exact kept_publishSlot s b

theorem kept_markConsumed (s : StreamInput) (sequence : UInt64) :
    Kept s (s.markConsumed sequence) := by
  rw [markConsumed]
  cases s.released sequence with
  | none => exact .refl s
  | some b => exact ⟨rfl, rfl, id⟩

theorem kept_nextBatch {r : Except String (Option NativeBatchView)}
    (h : s.nextBatch = some (s', r)) : Kept s s' := by
  rcases nextBatch_cases h with rfl | ⟨rfl, -⟩
  · exact .refl s'
  · exact ⟨rfl, rfl, id⟩

end StreamInput

namespace ExecutionEntry

theorem kept_traffic {i i' : StreamInput} {a : InputTraffic} (h : traffic i a = some i') :
    StreamInput.Kept i i' := by
  cases a with
  | publish b =>
    cases h
    exact i.kept_publish b
  | publishSlot b =>
    cases h
    exact i.kept_publishSlot b
  | endOfUpload =>
    cases h
    exact ⟨rfl, rfl, id⟩
  | nextBatch =>
    obtain ⟨r, hr, rfl⟩ := Option.map_eq_some_iff.mp h
    exact StreamInput.kept_nextBatch hr
  | markConsumed sequence =>
    cases h
    exact i.kept_markConsumed sequence

/-! ## What a section does to inputs, handlers and reports -/

end ExecutionEntry

/-- Calls that hold no handler and no report. -/
def EntryCall.plain : EntryCall → Bool
  | .maybeNotifyTerminal | .onTerminal | .join true | .handlerAttached _ | .serve _ | .detachInput _
  | .handlerDetached => false
  | _ => true

namespace ExecutionEntry

variable {ι : Type*} {cfg : ExecutionConfig} {s s' : ExecutionEntry} {t : Option ι}
  {f : EntryCall} {k : EntryAnswer} {new : List EntryCall}

/-- The effect of a section on everything but the control state, and on the two flags of the control
state that the test for quiescence reads. -/
inductive Effect (cfg : ExecutionConfig) :
    EntryCall → ExecutionEntry → ExecutionEntry → List EntryCall → Prop
  | aside {f : EntryCall} {s : ExecutionEntry} {c : EntryControl} {new : List EntryCall}
    (hf : f.plain = true) (hnew : ∀ g ∈ new, g.plain = true) (hq : c.quiesced = s.quiesced)
    (hn : c.terminalNotified = s.terminalNotified) : Effect cfg f s (s.setControl c) new
  /-- A section that may quiesce the execution, with the test to come. -/
  | tested {f : EntryCall} {s : ExecutionEntry} {c : EntryControl} {new : List EntryCall}
    (hf : f.plain = true) (hnew : ∀ g ∈ new, g = .maybeNotifyTerminal ∨ g.plain = true)
    (htest : .maybeNotifyTerminal ∈ new) (hn : c.terminalNotified = s.terminalNotified) :
    Effect cfg f s (s.setControl c) new
  | released {f : EntryCall} {s : ExecutionEntry} {ref : Bytes} {i : StreamInput}
    {new : List EntryCall} (hf : f.plain = true) (hnew : ∀ g ∈ new, g.plain = true)
    (hi : StreamInput.Kept (s.input ref) i) : Effect cfg f s (s.setInput ref i) new
  | notified {s : ExecutionEntry} (hquiet : s.isQuiet = true) (hn : s.terminalNotified = false) :
    Effect cfg .maybeNotifyTerminal s { s with terminalNotified := true, checked := true }
      [.onTerminal]
  | unnotified {s : ExecutionEntry} (h : s.isQuiet = true → s.terminalNotified = true) :
    Effect cfg .maybeNotifyTerminal s s []
  | onTerminal (s : ExecutionEntry) :
    Effect cfg .onTerminal s { s with notifications := s.notifications + 1, reported := true } []
  | awaited {s : ExecutionEntry} (hquiet : s.isQuiet = true) :
    Effect cfg .awaitQuiesced s { s with checked := true } [.join true]
  | joined {s : ExecutionEntry} {c : EntryControl} (hq : c.quiesced = s.quiesced)
    (hn : c.terminalNotified = s.terminalNotified) :
    Effect cfg (.join true) s { s.setControl c with reported := true } []
  | attached {s : ExecutionEntry} {ref : Bytes} {i : StreamInput} (href : ref ∈ cfg.inputRefs)
    (hattach : (s.input ref).attach = .ok i) :
    Effect cfg (.attachInput ref) s
      { s.setInput ref i with lateAttach := s.lateAttach || s.reported } [.handlerAttached ref]
  | handlerAttached (s : ExecutionEntry) (ref : Bytes) :
    Effect cfg (.handlerAttached ref) s { s with activeHandlers := s.activeHandlers + 1 }
      [.serve ref]
  | served (s : ExecutionEntry) (ref : Bytes) (before after : List EntryCall)
    (hbefore : ∀ g ∈ before, g.plain = true) (hafter : ∀ g ∈ after, g.plain = true) :
    Effect cfg (.serve ref) s s (before ++ .detachInput ref :: after)
  | detached (s : ExecutionEntry) (ref : Bytes) :
    Effect cfg (.detachInput ref) s (s.setInput ref (s.input ref).detach) [.handlerDetached]
  | handlerDetached (s : ExecutionEntry) :
    Effect cfg .handlerDetached s { s with activeHandlers := s.activeHandlers - 1 }
      [.maybeNotifyTerminal]

/-- A section that leaves the shared state as it is. -/
theorem Effect.idle (hf : f.plain = true) (hnew : ∀ g ∈ new, g.plain = true) :
    Effect cfg f s s new :=
  .aside (c := s.toEntryControl) hf hnew rfl rfl

/-- The two flags of the test are what they were. -/
structure SameFlags (c c' : EntryControl) : Prop where
  quiesced : c'.quiesced = c.quiesced
  notified : c'.terminalNotified = c.terminalNotified

theorem sameFlags_claim (c : EntryControl) : SameFlags c c.claim := by
  rw [EntryControl.claim]
  split_ifs <;> exact ⟨rfl, rfl⟩

theorem sameFlags_start (c : EntryControl) : SameFlags c c.start := by
  rw [EntryControl.start]
  split_ifs <;> exact ⟨rfl, rfl⟩

theorem sameFlags_readSlot (c : EntryControl) (expired : Bool) :
    SameFlags c (c.readSlot expired).1 := by
  rw [EntryControl.readSlot]
  split
  · exact ⟨rfl, rfl⟩
  · split_ifs <;> exact ⟨rfl, rfl⟩

theorem sameFlags_cancelTaken (c : EntryControl) (t : Option ι) :
    SameFlags c (c.cancelTaken t) := by
  simp only [EntryControl.cancelTaken]
  split <;> exact ⟨rfl, rfl⟩

theorem sameFlags_terminate (c : EntryControl) (cause : Cause) :
    SameFlags c (c.terminate cause) := by
  rw [EntryControl.terminate]
  split_ifs <;> exact ⟨rfl, rfl⟩

theorem readSlot_plain {c : EntryControl} {expired : Bool} :
    ∀ g ∈ (c.readSlot expired).2, g.plain = true := by
  intro g hg
  rcases readSlot_calls hg with rfl | rfl <;> rfl

/-- **What a section does** beside the control state. -/
theorem exec_effect (hexec : s.exec cfg t f k = some (s', new)) : Effect cfg f s s' new := by
  cases section_of_exec hexec with
  | claim =>
    have h := sameFlags_claim s.toEntryControl
    exact .aside rfl (by simp) h.quiesced h.notified
  | start =>
    have h := sameFlags_start s.toEntryControl
    exact .aside rfl (by simp) h.quiesced h.notified
  | readNext expired | readOn expired =>
    have h := sameFlags_readSlot s.toEntryControl expired
    exact .aside rfl readSlot_plain h.quiesced h.notified
  | terminateQuiesced =>
    have h := sameFlags_cancelTaken s.toEntryControl t
    exact .aside rfl (by simp) h.quiesced h.notified
  | @terminate cause =>
    have h := sameFlags_cancelTaken s.toEntryControl t
    have h' := sameFlags_terminate (s.cancelTaken t) cause
    exact .aside rfl (by simp [EntryCall.plain]) (h'.quiesced.trans h.quiesced)
      (h'.notified.trans h.notified)
  | cancelAll => exact .released rfl (by simp [EntryCall.plain]) (StreamInput.kept_cancel _ _)
  | markAllNotNeeded =>
    exact .released rfl (by simp [EntryCall.plain]) (StreamInput.kept_markNotNeeded _)
  | quiesceLater | quiesce => exact .tested rfl (by simp) (by simp) rfl
  | notified hquiet hn => exact .notified hquiet hn
  | unnotified h => exact .unnotified h
  | onTerminal => exact .onTerminal s
  | awaited hquiet => exact .awaited hquiet
  | @joinNobody quiesced | @join quiesced hw =>
    cases quiesced with
    | false =>
      rw [Bool.or_false]
      exact .aside rfl (by simp) rfl rfl
    | true =>
      rw [Bool.or_true]
      exact .joined rfl rfl
  | attached href hattach => exact .attached href hattach
  | handlerAttached => exact .handlerAttached s _
  | served => exact .served s _ [] [] (by simp) (by simp)
  | @serveFailed ref error =>
    exact .served s ref [.failInput error] [] (by simp [EntryCall.plain]) (by simp)
  | @serveThrew ref error =>
    exact .served s ref [] [.failInput error] (by simp) (by simp [EntryCall.plain])
  | detachInput => exact .detached s _
  | handlerDetached => exact .handlerDetached s
  | run hw hrun =>
    cases EntryControl.section_of_runStep hrun with
    | threw hpoint hbefore =>
      refine .aside rfl ?_ rfl rfl
      rcases hbefore with rfl | rfl <;> simp [EntryCall.failGpuUnavailable, EntryCall.plain]
    | @finished status outcome =>
      refine .tested rfl ?_ (by simp) ?_
      · cases outcome <;> simp [EntryControl.releaseInputs, EntryCall.plain]
      · simp only [EntryControl.finish]
        split_ifs <;> rfl
    | _ => exact .aside rfl (by simp [EntryCall.cancel, EntryCall.plain]) rfl rfl
  | _ => exact .idle rfl (by simp [EntryCall.cancel, EntryCall.plain])

theorem call_effect (hcall : s.call t f = some s') :
    f.plain = true ∧ ∃ c, s' = s.setControl c ∧ SameFlags s.toEntryControl c := by
  cases t with
  | none =>
    simp only [call] at hcall
    split at hcall <;> cases hcall
    exact ⟨rfl, _, rfl, rfl, rfl⟩
  | some i =>
    simp only [call] at hcall
    split at hcall <;> cases hcall <;> exact ⟨rfl, s.toEntryControl, rfl, rfl, rfl⟩

/-! ## The terminal callback -/

/-- The callback on its way. -/
def notifying (f : EntryCall) : ℕ := if f = .onTerminal then 1 else 0

theorem notifying_of_plain (hf : f.plain = true) : notifying f = 0 := by
  rw [notifying, if_neg]
  rintro rfl
  cases hf

theorem sum_eq_zero {w : EntryCall → ℕ} (hnew : ∀ g ∈ new, w g = 0) : (new.map w).sum = 0 := by
  refine List.sum_eq_zero fun n hn ↦ ?_
  obtain ⟨g, hg, rfl⟩ := List.mem_map.mp hn
  exact hnew g hg

/-- The callback has run or is about to run as often as `terminal_notified_` was set. -/
theorem tally_notifying (cfg : ExecutionConfig) (ι : Type*) :
    Program.Tally (program cfg ι) (fun s ↦ s.Sound) (fun _ ↦ Unstarted) notifying
      fun s n ↦ s.notifications + n = s.terminalNotified.toNat where
  call {s t f s' n} _ hn hcall := by
    obtain ⟨hf, c, rfl, hflags⟩ := call_effect hcall
    rw [notifying_of_plain hf]
    simpa [setControl, hflags.notified] using hn
  exec {s t f k s' new n} _ _ hn hexec := by
    have heffect : Effect cfg f s s' new := exec_effect hexec
    cases heffect with
    | aside hf hnew hq hnotified =>
      rw [notifying_of_plain hf] at hn
      rw [sum_eq_zero fun g hg ↦ notifying_of_plain (hnew g hg)]
      simpa [setControl, hnotified] using hn
    | tested hf hnew htest hnotified =>
      have hsum : (new.map notifying).sum = 0 := sum_eq_zero fun g hg ↦ by
        rcases hnew g hg with rfl | hplain
        · rfl
        · exact notifying_of_plain hplain
      rw [notifying_of_plain hf] at hn
      rw [hsum]
      simpa [setControl, hnotified] using hn
    | released hf hnew hi =>
      rw [notifying_of_plain hf] at hn
      rw [sum_eq_zero fun g hg ↦ notifying_of_plain (hnew g hg)]
      exact hn
    | notified hquiet hnotified =>
      simp only [hnotified, notifying, reduceCtorEq, if_false, Bool.toNat_false] at hn
      simp only [notifying, List.map_cons, List.map_nil, if_true, List.sum_singleton,
        Bool.toNat_true]
      omega
    | onTerminal =>
      simp only [notifying, if_true] at hn
      simp only [List.map_nil, List.sum_nil]
      omega
    | joined hq hnotified => simpa [notifying, setControl, hnotified] using hn
    | served _ ref before after hbefore hafter =>
      rw [List.map_append, List.sum_append, List.map_cons, List.sum_cons,
        sum_eq_zero fun g hg ↦ notifying_of_plain (hbefore g hg),
        sum_eq_zero fun g hg ↦ notifying_of_plain (hafter g hg)]
      simpa [notifying] using hn
    | _ => simpa [notifying, setInput] using hn
  ambient {s a s' n} _ hn hamb := by
    obtain ⟨i, -, rfl⟩ := Option.map_eq_some_iff.mp hamb
    exact hn

/-- A quiet execution that has not been notified is about to be tested. -/
theorem debt_notification (cfg : ExecutionConfig) (ι : Type*) :
    Program.Debt (program cfg ι) (fun s ↦ s.Sound) (fun _ ↦ Unstarted)
      (fun s ↦ s.isQuiet = true ∧ s.terminalNotified = false) (· = .maybeNotifyTerminal) where
  call {s t f s'} _ hcall hdue := by
    obtain ⟨hf, c, rfl, hflags⟩ := call_effect hcall
    refine .inl ?_
    simpa [isQuiet, setControl, hflags.quiesced, hflags.notified] using hdue
  exec {s t f k s' new} _ _ hexec hdue := by
    have heffect : Effect cfg f s s' new := exec_effect hexec
    cases heffect with
    | aside hf hnew hq hnotified =>
      refine .inl ⟨by simpa [isQuiet, setControl, hq, hnotified] using hdue, ?_⟩
      rintro rfl
      cases hf
    | tested hf hnew htest => exact .inr ⟨_, htest, rfl⟩
    | released hf =>
      refine .inl ⟨hdue, ?_⟩
      rintro rfl
      cases hf
    | notified => cases hdue.2
    | unnotified h =>
      rw [h hdue.1] at hdue
      cases hdue.2
    | joined hq hnotified =>
      exact .inl ⟨by simpa [isQuiet, setControl, hq, hnotified] using hdue, by simp⟩
    | handlerAttached ref =>
      simp [isQuiet] at hdue
    | handlerDetached => exact .inr ⟨_, List.mem_singleton_self _, rfl⟩
    | _ => exact .inl ⟨hdue, by simp⟩
  ambient {s a s'} _ hamb hdue := by
    obtain ⟨i, -, rfl⟩ := Option.map_eq_some_iff.mp hamb
    exact hdue

/-! ## Handlers -/

/-- A handler that is counted. -/
def counted : EntryCall → ℕ
  | .serve _ | .detachInput _ | .handlerDetached => 1
  | _ => 0

theorem counted_of_plain (hf : f.plain = true) : counted f = 0 := by
  cases f with
  | serve | detachInput | handlerDetached => cases hf
  | _ => rfl

/-- `active_handlers_` counts the handlers from `handler_attached` to `handler_detached`. -/
theorem tally_counted (cfg : ExecutionConfig) (ι : Type*) :
    Program.Tally (program cfg ι) (fun s ↦ s.Sound) (fun _ ↦ Unstarted) counted
      fun s n ↦ s.activeHandlers = n where
  call {s t f s' n} _ hn hcall := by
    obtain ⟨hf, c, rfl, -⟩ := call_effect hcall
    rw [counted_of_plain hf]
    exact hn
  exec {s t f k s' new n} _ _ hn hexec := by
    have heffect : Effect cfg f s s' new := exec_effect hexec
    cases heffect with
    | aside hf hnew | released hf hnew =>
      rw [counted_of_plain hf] at hn
      rw [sum_eq_zero fun g hg ↦ counted_of_plain (hnew g hg)]
      exact hn
    | tested hf hnew =>
      rw [counted_of_plain hf] at hn
      rw [sum_eq_zero fun g hg ↦ ?_]
      · exact hn
      · rcases hnew g hg with rfl | hplain
        · rfl
        · exact counted_of_plain hplain
    | handlerAttached => exact congrArg (· + 1) hn
    | served _ ref before after hbefore hafter =>
      rw [List.map_append, List.sum_append, List.map_cons, List.sum_cons,
        sum_eq_zero fun g hg ↦ counted_of_plain (hbefore g hg),
        sum_eq_zero fun g hg ↦ counted_of_plain (hafter g hg)]
      simpa [counted] using hn
    | handlerDetached =>
      show s.activeHandlers - 1 = n
      rw [hn]
      rfl
    | _ => exact hn
  ambient {s a s' n} _ hn hamb := by
    obtain ⟨i, -, rfl⟩ := Option.map_eq_some_iff.mp hamb
    exact hn

/-- The handler of an input, from `attach` to `detach`. -/
def Serves (ref : Bytes) (f : EntryCall) : Prop :=
  f = .handlerAttached ref ∨ f = .serve ref ∨ f = .detachInput ref

theorem not_serves_of_plain {ref : Bytes} (hf : f.plain = true) : ¬Serves ref f := by
  rintro (rfl | rfl | rfl) <;> cases hf

/-- A handler is at work on the input. -/
def Attached (ref : Bytes) (s : ExecutionEntry) : Prop :=
  (s.input ref).attached = true ∧ (s.input ref).detached = false

theorem attached_setInput {ref ref' : Bytes} {i : StreamInput} :
    Attached ref (s.setInput ref' i) ↔
      if ref = ref' then i.attached = true ∧ i.detached = false else Attached ref s := by
  by_cases h : ref = ref'
  · subst h
    simp [Attached, setInput]
  · simp [Attached, setInput, h]

theorem attached_of_kept {ref ref' : Bytes} {i : StreamInput}
    (hi : StreamInput.Kept (s.input ref') i) (h : Attached ref (s.setInput ref' i)) :
    Attached ref s := by
  rw [attached_setInput] at h
  split_ifs at h with heq
  · subst heq
    rwa [hi.attached, hi.detached] at h
  · exact h

/-- An input that is attached has a handler. -/
theorem debt_attached (cfg : ExecutionConfig) (ι : Type*) (ref : Bytes) :
    Program.Debt (program cfg ι) (fun s ↦ s.Sound) (fun _ ↦ Unstarted) (Attached ref)
      (Serves ref) where
  call {s t f s'} _ hcall hdue := by
    obtain ⟨hf, c, rfl, -⟩ := call_effect hcall
    exact .inl hdue
  exec {s t f k s' new} _ _ hexec hdue := by
    have heffect : Effect cfg f s s' new := exec_effect hexec
    cases heffect with
    | aside hf | tested hf => exact .inl ⟨hdue, not_serves_of_plain hf⟩
    | released hf hnew hi => exact .inl ⟨attached_of_kept hi hdue, not_serves_of_plain hf⟩
    | @attached _ ref' i href hattach =>
      by_cases heq : ref = ref'
      · exact .inr ⟨_, List.mem_singleton_self _, .inl (by rw [heq])⟩
      · refine .inl ⟨?_, by rintro (h | h | h) <;> cases h⟩
        have hdue' : Attached ref (s.setInput ref' i) := hdue
        rwa [attached_setInput, if_neg heq] at hdue'
    | handlerAttached _ ref' =>
      by_cases heq : ref = ref'
      · exact .inr ⟨_, List.mem_singleton_self _, .inr (.inl (by rw [heq]))⟩
      · exact .inl ⟨hdue, by rintro (h | h | h) <;> cases h; exact heq rfl⟩
    | served _ ref' before after =>
      by_cases heq : ref = ref'
      · refine .inr ⟨.detachInput ref', ?_, .inr (.inr (by rw [heq]))⟩
        exact List.mem_append_right _ List.mem_cons_self
      · refine .inl ⟨hdue, ?_⟩
        rintro (h | h | h) <;> cases h
        exact heq rfl
    | detached _ ref' =>
      rw [attached_setInput] at hdue
      split_ifs at hdue with heq
      · cases hdue.2
      · refine .inl ⟨hdue, ?_⟩
        rintro (h | h | h) <;> cases h
        exact heq rfl
    | _ => exact .inl ⟨hdue, by rintro (h | h | h) <;> cases h⟩
  ambient {s a s'} _ hamb hdue := by
    obtain ⟨i, hi, rfl⟩ := Option.map_eq_some_iff.mp hamb
    exact attached_of_kept (kept_traffic hi) hdue

/-! ## Reports -/

/-- The calls that report the end. -/
def Reports (f : EntryCall) : Prop := f = .onTerminal ∨ f = .join true

theorem not_reports_of_plain (hf : f.plain = true) : ¬Reports f := by
  rintro (rfl | rfl) <;> cases hf

/-- A report has passed the test for quiescence. -/
theorem assertional_reported (cfg : ExecutionConfig) (ι : Type*) :
    Program.Assertional (program cfg ι) (fun s ↦ s.reported = true → s.checked = true)
      fun _ f s ↦ Reports f → s.checked = true where
  call {s t f s'} hI hcall := by
    obtain ⟨hf, c, rfl, -⟩ := call_effect hcall
    exact ⟨hI, fun hr ↦ absurd hr (not_reports_of_plain hf), fun u g hg ↦ hg⟩
  exec {s t f k s' new} hI hA hexec := by
    have heffect : Effect cfg f s s' new := exec_effect hexec
    cases heffect with
    | aside hf hnew | released hf hnew =>
      exact ⟨hI, fun g hg hr ↦ absurd hr (not_reports_of_plain (hnew g hg)), fun u g hg ↦ hg⟩
    | tested hf hnew =>
      refine ⟨hI, fun g hg hr ↦ ?_, fun u g hg ↦ hg⟩
      rcases hnew g hg with rfl | hplain
      · rcases hr with hr | hr <;> cases hr
      · exact absurd hr (not_reports_of_plain hplain)
    | notified | awaited => exact ⟨fun _ ↦ rfl, fun g hg hr ↦ rfl, fun u g hg hr ↦ rfl⟩
    | onTerminal => exact ⟨fun _ ↦ hA (.inl rfl), nofun, fun u g hg ↦ hg⟩
    | joined => exact ⟨fun _ ↦ hA (.inr rfl), nofun, fun u g hg ↦ hg⟩
    | served _ ref before after hbefore hafter =>
      refine ⟨hI, fun g hg hr ↦ ?_, fun u g hg ↦ hg⟩
      rcases List.mem_append.mp hg with hg | hg
      · exact absurd hr (not_reports_of_plain (hbefore g hg))
      · rcases List.mem_cons.mp hg with rfl | hg
        · rcases hr with hr | hr <;> cases hr
        · exact absurd hr (not_reports_of_plain (hafter g hg))
    | _ =>
      refine ⟨hI, fun g hg hr ↦ ?_, fun u g hg ↦ hg⟩
      rcases hr with rfl | rfl <;> simp at hg
  ambient {s a s'} hI hamb := by
    obtain ⟨i, -, rfl⟩ := Option.map_eq_some_iff.mp hamb
    exact ⟨hI, fun u g hg ↦ hg⟩

variable [DecidableEq ι] {c c' : Threads ExecutionEntry (Option ι) EntryCall}
  {m : Move (Option ι) EntryCall EntryAnswer (Bytes × InputTraffic)}
  {ms : List (Move (Option ι) EntryCall EntryAnswer (Bytes × InputTraffic))}

/-- **The terminal callback runs at most once, and is not lost.** Whatever the threads of an
execution do, the callback has not run twice; and when no thread is before the test for quiescence
or before the callback, the callback of a quiescent execution has run. -/
theorem notified_once [Fintype ι] (cfg : ExecutionConfig)
    (ms : List (Move (Option ι) EntryCall EntryAnswer (Bytes × InputTraffic)))
    (c : Threads ExecutionEntry (Option ι) EntryCall)
    (hrun : (program cfg ι).machine.run (init ι) ms = some c) :
    c.shared.notifications ≤ 1 ∧
      ((∀ t, ∀ f ∈ c.calls t, f ≠ .maybeNotifyTerminal ∧ f ≠ .onTerminal) →
        c.shared.isQuiet = true → c.shared.notifications = 1) := by
  have hzero : Program.weight notifying (init ι) = 0 := Program.weight_eq_zero nofun
  have htally : c.shared.notifications + Program.weight notifying c =
      c.shared.terminalNotified.toNat :=
    (tally_notifying cfg ι).run (assertional cfg ι) holds_init (by rw [hzero]; rfl) hrun
  constructor
  · have := Bool.toNat_le c.shared.terminalNotified
    omega
  · intro hidle hquiet
    have hnotified : c.shared.terminalNotified = true := by
      by_contra hno
      rw [Bool.not_eq_true] at hno
      obtain ⟨t, f, hf, rfl⟩ :=
        (debt_notification cfg ι).run (assertional cfg ι) holds_init nofun hrun ⟨hquiet, hno⟩
      exact (hidle t _ hf).1 rfl
    have hnone : Program.weight notifying c = 0 :=
      Program.weight_eq_zero fun t f hf ↦ by rw [notifying, if_neg (hidle t f hf).2]
    rw [hnone, hnotified] at htally
    exact htally

/-! ## Runs without an overlooked handler -/

/-- The test for quiescence is next, and passes. -/
def tests (s : ExecutionEntry) : EntryCall → Bool
  | .maybeNotifyTerminal => s.isQuiet && !s.terminalNotified
  | .awaitQuiesced => s.isQuiet
  | _ => false

/-- No further handler can attach. -/
def Sealed (cfg : ExecutionConfig) (s : ExecutionEntry) : Prop :=
  ∀ ref ∈ cfg.inputRefs, (s.input ref).cancelled = true ∨ (s.input ref).attached = true

/-- A handler that is not counted yet. -/
def uncounted : EntryCall → Bool
  | .handlerAttached _ => true
  | _ => false

/-- A test for quiescence passes only while no handler is between `attach` and `handler_attached`
and no further one can attach. -/
def SafeTest (cfg : ExecutionConfig) (c : Threads ExecutionEntry (Option ι) EntryCall) :
    Move (Option ι) EntryCall EntryAnswer (Bytes × InputTraffic) → Prop
  | .exec t _ => ∀ f ∈ (c.calls t).head?, c.shared.tests f = true →
      (∀ u, ∀ g ∈ c.calls u, uncounted g = false) ∧ Sealed cfg c.shared
  | _ => True

instance : Decidable (Sealed cfg s) :=
  inferInstanceAs (Decidable (∀ ref ∈ cfg.inputRefs, _ ∨ _))

instance [Fintype ι] : ∀ m, Decidable (SafeTest cfg c m)
  | .exec t _ => inferInstanceAs (Decidable (∀ f ∈ (c.calls t).head?, c.shared.tests f = true →
      (∀ u, ∀ g ∈ c.calls u, uncounted g = false) ∧ Sealed cfg c.shared))
  | .call _ _ | .ambient _ => .isTrue trivial

/-- The handlers of an execution that has been tested: none is left, and no further one can
attach. -/
def Ended (cfg : ExecutionConfig) (s : ExecutionEntry) : Prop :=
  Sealed cfg s ∧ ∀ ref ∈ cfg.inputRefs, ¬Attached ref s

/-- A test that passes in a safe state finds no handler. -/
theorem ended_of_tests [Fintype ι] (hrun : (program cfg ι).machine.run (init ι) ms = some c)
    (hquiet : c.shared.isQuiet = true) (hsealed : Sealed cfg c.shared)
    (hnone : ∀ u, ∀ g ∈ c.calls u, uncounted g = false) : Ended cfg c.shared := by
  refine ⟨hsealed, fun ref href hattached ↦ ?_⟩
  obtain ⟨t, f, hf, hserves⟩ :=
    (debt_attached cfg ι ref).run (assertional cfg ι) holds_init nofun hrun hattached
  have hcount : c.shared.activeHandlers = Program.weight counted c :=
    (tally_counted cfg ι).run (assertional cfg ι) holds_init
      (Program.weight_eq_zero nofun).symm hrun
  have hle : counted f ≤ Program.weight counted c := Program.le_weight hf
  have hzero : c.shared.activeHandlers = 0 := by
    simpa [isQuiet] using (Bool.and_eq_true_iff.mp hquiet).2
  rcases hserves with rfl | rfl | rfl
  · cases hnone t _ hf
  -- the other two are counted
  · rw [← hcount, hzero] at hle
    exact absurd hle (Nat.not_succ_le_zero 0)
  · rw [← hcount, hzero] at hle
    exact absurd hle (Nat.not_succ_le_zero 0)

theorem Ended.setInput {ref : Bytes} {i : StreamInput} (h : Ended cfg s)
    (hattached : i.attached = (s.input ref).attached)
    (hdetached : (s.input ref).detached = true → i.detached = true)
    (hcancelled : (s.input ref).cancelled = true → i.cancelled = true) :
    Ended cfg (s.setInput ref i) := by
  constructor
  · intro ref' href'
    by_cases heq : ref' = ref
    · subst heq
      simpa [ExecutionEntry.setInput, hattached] using (h.1 ref' href').imp_left hcancelled
    · simpa [ExecutionEntry.setInput, heq] using h.1 ref' href'
  · intro ref' href' hat
    refine h.2 ref' href' ?_
    rw [attached_setInput] at hat
    split_ifs at hat with heq
    · subst heq
      obtain ⟨ha, hd⟩ := hat
      refine ⟨hattached ▸ ha, ?_⟩
      by_contra hno
      rw [hdetached (by simpa using hno)] at hd
      cases hd
    · exact hat

theorem Ended.kept {ref : Bytes} {i : StreamInput} (h : Ended cfg s)
    (hi : StreamInput.Kept (s.input ref) i) : Ended cfg (s.setInput ref i) :=
  h.setInput hi.attached (fun hd ↦ by rw [hi.detached, hd]) hi.cancelled

/-- One section, if a test that passes there ends the handlers. -/
theorem Effect.ended (h : Effect cfg f s s' new) (hs : s.checked = true → Ended cfg s)
    (hreported : s.reported = true → s.checked = true)
    (htests : s.tests f = true → Ended cfg s) :
    (s'.checked = true → Ended cfg s') ∧ s'.lateAttach = s.lateAttach := by
  cases h with
  | released hf hnew hi => exact ⟨fun hc ↦ (hs hc).kept hi, rfl⟩
  | notified hquiet hn => exact ⟨fun _ ↦ htests (by simp [tests, hquiet, hn]), rfl⟩
  | awaited hquiet => exact ⟨fun _ ↦ htests hquiet, rfl⟩
  | @attached _ ref i href hattach =>
    obtain ⟨hno, hopen, -⟩ := StreamInput.attach_eq_ok.mp hattach
    have hunchecked : ¬s.checked = true := fun hc ↦ by
      rcases (hs hc).1 ref href with hcancelled | hattached
      · simp [hopen] at hcancelled
      · simp [hno] at hattached
    have hunreported : s.reported = false := by simpa using mt hreported hunchecked
    exact ⟨fun hc ↦ absurd hc hunchecked, by simp [hunreported]⟩
  | detached _ ref => exact ⟨fun hc ↦ (hs hc).setInput rfl (fun _ ↦ rfl) id, rfl⟩
  | _ => exact ⟨hs, rfl⟩

/-- What is to be shown of a run: after a test that passed there is no handler left, and no handler
attached after a report. -/
def Clean (cfg : ExecutionConfig) (s : ExecutionEntry) : Prop :=
  (s.checked = true → Ended cfg s) ∧ s.lateAttach = false

theorem clean_step [Fintype ι] (hrun : (program cfg ι).machine.run (init ι) ms = some c)
    (h : Clean cfg c.shared) (hsafe : SafeTest cfg c m)
    (hm : (program cfg ι).machine.step c m = some c') : Clean cfg c'.shared := by
  have hreported := (assertional_reported cfg ι).run (c := init ι) ⟨nofun, nofun⟩ hrun
  cases m with
  | call t f =>
    obtain ⟨-, s, hs, rfl⟩ := Program.step_call_eq_some.mp hm
    obtain ⟨-, d, rfl, -⟩ := call_effect hs
    exact h
  | exec t k =>
    obtain ⟨f, rest, s, new, hstack, hs, rfl⟩ := Program.step_exec_eq_some.mp hm
    have heffect : Effect cfg f c.shared s new := exec_effect hs
    obtain ⟨hended, hlate⟩ := heffect.ended h.1 hreported.1 fun htests ↦ by
      obtain ⟨hnone, hsealed⟩ := hsafe f (by simp [hstack]) htests
      have hquiet : c.shared.isQuiet = true := by
        revert htests
        cases f <;> simp +contextual [tests]
      exact ended_of_tests hrun hquiet hsealed hnone
    exact ⟨hended, hlate.trans h.2⟩
  | ambient a =>
    obtain ⟨s, hs, rfl⟩ := Program.step_ambient_eq_some.mp hm
    obtain ⟨i, hi, rfl⟩ := Option.map_eq_some_iff.mp hs
    exact ⟨fun hc ↦ (h.1 hc).kept (kept_traffic hi), h.2⟩

/-- **No handler outlives a report**, in every run all of whose tests for quiescence pass in states
without a handler that is not counted yet and without an input that is open to one. -/
theorem no_handler_after_report [Fintype ι] (cfg : ExecutionConfig)
    (ms : List (Move (Option ι) EntryCall EntryAnswer (Bytes × InputTraffic)))
    (c : Threads ExecutionEntry (Option ι) EntryCall)
    (hsafe : (program cfg ι).machine.Meets (SafeTest cfg) (init ι) ms)
    (hrun : (program cfg ι).machine.run (init ι) ms = some c) :
    (c.shared.reported = true → ∀ ref ∈ cfg.inputRefs, ¬Attached ref c.shared) ∧
      c.shared.lateAttach = false := by
  have hclean : Clean cfg c.shared := by
    refine (Machine.invariant_of_meets (M := (program cfg ι).machine)
      (I := fun c ↦ (program cfg ι).machine.Reaches (init ι) c ∧ Clean cfg c.shared)
      ⟨.refl _, nofun, rfl⟩ (fun d m d' hd hm hstep ↦ ?_) hsafe hrun).2
    obtain ⟨⟨ls, hls⟩, hclean⟩ := hd
    exact ⟨.tail ⟨ls, hls⟩ hstep, clean_step hls hclean hm hstep⟩
  have hreported := (assertional_reported cfg ι).run (c := init ι) ⟨nofun, nofun⟩ hrun
  exact ⟨fun hr ↦ (hclean.1 (hreported.1 hr)).2, hclean.2⟩

/-- A query with one input and without result. -/
def oneInput : ExecutionConfig where
  maxBatchBytes := 0
  inputRefs := [[]]
  batches := []

/-- A handler attaches, and before it is counted the execution is cancelled. -/
def cancelUncounted : List (Move (Option Bool) EntryCall EntryAnswer (Bytes × InputTraffic)) :=
  [.call (some false) (.attachInput []), .exec (some false) {},
    .call (some true) (.cancel false), .exec (some true) {}, .exec (some true) {},
    .exec (some true) {}, .exec (some true) {}, .exec (some true) {}, .exec (some true) {}]

/-- The execution succeeds, and then a handler attaches. -/
def attachAfterwards : List (Move (Option Bool) EntryCall EntryAnswer (Bytes × InputTraffic)) :=
  [.call (some true) .claim, .exec (some true) {}, .call (some true) .start, .exec (some true) {},
    .call none .run, .exec none { batches := .returns }, .exec none {}, .exec none {},
    .exec none {}, .exec none {}, .exec none {}, .call (some false) (.attachInput []),
    .exec (some false) {}]

/-- Both oversights of the test show. -/
theorem handler_after_report :
    (∃ c, (program oneInput Bool).machine.run (init Bool) cancelUncounted = some c ∧
        c.shared.reported = true ∧ Attached [] c.shared) ∧
      ∃ c, (program oneInput Bool).machine.run (init Bool) attachAfterwards = some c ∧
        c.shared.lateAttach = true :=
  ⟨⟨_, rfl, rfl, rfl, rfl⟩, _, rfl, rfl⟩

/-- A handler attaches and is counted, works and leaves, and then the execution is cancelled. -/
def cancelAfterUpload : List (Move (Option Bool) EntryCall EntryAnswer (Bytes × InputTraffic)) :=
  [.call (some false) (.attachInput []), .exec (some false) {}, .exec (some false) {},
    .call (some true) (.cancel false), .exec (some true) {}, .exec (some true) {},
    .exec (some true) {}, .exec (some true) {}, .exec (some true) {},
    .exec (some false) {}, .exec (some false) {}, .exec (some false) {}, .exec (some false) {},
    .exec (some false) {}]

theorem no_handler_after_report_cancelAfterUpload :
    ∃ c, (program oneInput Bool).machine.run (init Bool) cancelAfterUpload = some c ∧
      (c.shared.reported = true → ∀ ref ∈ oneInput.inputRefs, ¬Attached ref c.shared) ∧
        c.shared.lateAttach = false := by
  have hsafe : (program oneInput Bool).machine.Meets (SafeTest oneInput) (init Bool)
      cancelAfterUpload := by
    decide +kernel
  exact ⟨_, rfl, no_handler_after_report oneInput cancelAfterUpload _ hsafe rfl⟩

end ExecutionEntry

end MoSidecar
