import MoSidecar.Execution.Sections

/-!
# The lifecycle of an execution

An execution is claimed once, starts at most one worker, becomes terminal once and quiesces after
that; the first transition to terminal decides its status.

## Two levels

`EntryControl.Step` lists what the sections of an execution do to its control state, and
`ExecutionEntry.exec_control` reads it off the program, whatever the calls are about otherwise.
Which control states are `Sound`, and what may come `Later` than one, is proved of these steps; so
is what the reader of the result gets, in `ResultStream`.

## Quiescence

The subtle point is `quiesced_`. `cancel` sets it in its last section for an execution that had no
worker in its first one, so it relies on `start` refusing in between; and `finish` sets it while the
worker is still in `run`, with the inputs to release and the terminal callback to invoke. Hence a
quiesced execution may have a worker, but one that has left `run_batches` for good.
-/

namespace MoSidecar

/-- The worker has not been started, or has left `run_batches` and the section of `finish`. -/
def WorkerThread.Settled : WorkerThread → Prop
  | .absent | .running .leaving | .exited | .joined => True
  | _ => False

theorem WorkerThread.settled_of_not_joinable {w : WorkerThread} (h : w.joinable = false) :
    w.Settled := by
  cases w with
  | absent | joined => trivial
  | _ => cases h

namespace EntryControl

variable {cfg : ExecutionConfig} {c c' c'' : EntryControl}

/-- What holds of the control state at all times. -/
structure Sound (c : EntryControl) : Prop where
  claims : c.claims = c.claimed.toNat
  absent : c.worker = .absent → c.workers = 0
  workers : c.workers ≤ 1
  present : c.worker.joinable = true → c.claimed = true
  stopped : c.worker = .running .stopped → c.terminal = true
  /-- A frame is in the slot only while the worker waits for its reader. -/
  frame : c.frame.isSome → c.terminal = false ∧ ∃ batch encoder offset,
    c.worker = .running (.published batch encoder offset)
  quiesced : c.quiesced = true → c.terminal = true ∧ c.worker.Settled
  left : c.worker.Settled → c.worker = .absent ∨ c.terminal = true

/-- What a step leaves of the past: flags stay, and a terminal execution keeps its status, is not
claimed and starts no worker. -/
structure Later (c c' : EntryControl) : Prop where
  claimed : c.claimed = true → c'.claimed = true
  terminal : c.terminal = true → c'.terminal = true
  quiesced : c.quiesced = true → c'.quiesced = true
  notified : c.terminalNotified = true → c'.terminalNotified = true
  status : c.terminal = true → c'.terminalStatus = c.terminalStatus
  claims : c.terminal = true → c'.claims = c.claims
  workers : c.terminal = true → c'.workers = c.workers
  settled : c.terminal = true → c.worker.Settled → c'.worker.Settled

namespace Later

theorem refl (c : EntryControl) : Later c c :=
  ⟨id, id, id, id, fun _ ↦ rfl, fun _ ↦ rfl, fun _ ↦ rfl, fun _ ↦ id⟩

theorem trans (h : Later c c') (h' : Later c' c'') : Later c c'' where
  claimed := h'.claimed ∘ h.claimed
  terminal := h'.terminal ∘ h.terminal
  quiesced := h'.quiesced ∘ h.quiesced
  notified := h'.notified ∘ h.notified
  status ht := (h'.status (h.terminal ht)).trans (h.status ht)
  claims ht := (h'.claims (h.terminal ht)).trans (h.claims ht)
  workers ht := (h'.workers (h.terminal ht)).trans (h.workers ht)
  settled ht hs := h'.settled (h.terminal ht) (h.settled ht hs)

/-- Moving the worker, as long as it was not settled. -/
theorem goto (hunsettled : ¬c.worker.Settled) (point : RunPoint) : Later c (c.goto point) :=
  ⟨id, id, id, id, fun _ ↦ rfl, fun _ ↦ rfl, fun _ ↦ rfl, fun _ hs ↦ absurd hs hunsettled⟩

end Later

/-! ## The steps of the control state -/

/-- What one section does to the control state. -/
inductive Step (cfg : ExecutionConfig) : EntryControl → EntryControl → Prop
  | claim (c : EntryControl) : Step cfg c c.claim
  | start (c : EntryControl) : Step cfg c c.start
  | readSlot (c : EntryControl) (expired : Bool) : Step cfg c (c.readSlot expired).1
  | terminate (c : EntryControl) (cause : Cause) : Step cfg c (c.terminate cause)
  /-- The worker's own `cancel(true)` has made the execution terminal, if nothing else did. -/
  | taken {c : EntryControl} (hterminal : c.terminal = true) (hw : c.worker = .running .expiring) :
    Step cfg c (c.goto .stopped)
  | quiesce {c : EntryControl} (hterminal : c.terminal = true) (hw : c.worker.Settled) :
    Step cfg c { c with quiesced := true }
  | notify (c : EntryControl) : Step cfg c { c with terminalNotified := true }
  | join {c : EntryControl} (hw : c.worker = .exited) : Step cfg c { c with worker := .joined }
  | enter {c : EntryControl} (hw : c.worker = .created) : Step cfg c (c.goto (.batches 0))
  | run {c c' : EntryControl} {k : EntryAnswer} {point : RunPoint} {calls : List EntryCall}
    (hw : c.worker = .running point) (hrun : c.runStep cfg k point = some (c', calls)) :
    Step cfg c c'

/-- Any number of sections. -/
abbrev Steps (cfg : ExecutionConfig) : EntryControl → EntryControl → Prop :=
  Relation.ReflTransGen (Step cfg)

/-! ## One section at a time -/

theorem claim_spec (h : Sound c) : Sound c.claim ∧ Later c c.claim := by
  rw [claim]
  split_ifs with hno
  · exact ⟨h, .refl c⟩
  · simp only [Bool.or_eq_true, not_or, Bool.not_eq_true] at hno
    refine ⟨{ h with claims := ?_, present := fun _ ↦ rfl }, ?_⟩
    · rw [h.claims, hno.1]
      rfl
    · refine ⟨fun _ ↦ rfl, id, id, id, fun _ ↦ rfl, fun ht ↦ ?_, fun _ ↦ rfl, fun _ ↦ id⟩
      simp [hno.2] at ht

/-- The worker is new to an execution that starts one: it was not joined, since only a terminal
execution can be past that. -/
theorem start_spec (h : Sound c) : Sound c.start ∧ Later c c.start := by
  rw [start]
  split_ifs with hno
  · exact ⟨h, .refl c⟩
  · simp only [Bool.or_eq_true, Bool.not_eq_true', not_or, Bool.not_eq_false,
      Bool.not_eq_true] at hno
    obtain ⟨⟨hclaimed, hjoinable⟩, hterminal⟩ := hno
    have habsent : c.worker = .absent := by
      cases hw : c.worker with
      | absent => rfl
      | joined => simpa [hw, hterminal] using h.left (by rw [hw]; trivial)
      | _ => simp [hw, WorkerThread.joinable] at hjoinable
    have hframe : c.frame.isSome = false := by
      cases hf : c.frame with
      | none => rfl
      | some f => simpa [habsent] using (h.frame (by simp [hf])).2
    constructor
    · refine { h with
        absent := nofun, workers := ?_, present := fun _ ↦ hclaimed, stopped := nofun
        frame := fun hf ↦ ?_, quiesced := fun hq ↦ ?_, left := nofun }
      · rw [h.absent habsent]
      · simp [hframe] at hf
      · simp [(h.quiesced hq).1] at hterminal
    · refine ⟨id, id, id, id, fun _ ↦ rfl, fun _ ↦ rfl, fun ht ↦ ?_, fun ht ↦ ?_⟩
      · simp [ht] at hterminal
      · simp [ht] at hterminal

theorem readSlot_spec (h : Sound c) (expired : Bool) :
    Sound (c.readSlot expired).1 ∧ Later c (c.readSlot expired).1 := by
  rw [readSlot]
  cases hf : c.frame with
  | some f =>
    exact ⟨{ h with frame := nofun }, ⟨id, id, id, id, fun _ ↦ rfl, fun _ ↦ rfl, fun _ ↦ rfl,
      fun _ ↦ id⟩⟩
  | none =>
    by_cases ht : c.terminal = true
    · rw [if_pos ht]
      exact ⟨{ h with frame := nofun }, ⟨id, id, id, id, fun _ ↦ rfl, fun _ ↦ rfl, fun _ ↦ rfl,
        fun _ ↦ id⟩⟩
    · rw [if_neg ht]
      exact ⟨h, .refl c⟩

theorem terminal_terminate (cause : Cause) : (c.terminate cause).terminal = true := by
  rw [terminate]
  split_ifs with ht
  · exact ht
  · rfl

theorem worker_terminate (cause : Cause) : (c.terminate cause).worker = c.worker := by
  rw [terminate]
  split_ifs <;> rfl

theorem terminate_spec (h : Sound c) (cause : Cause) :
    Sound (c.terminate cause) ∧ Later c (c.terminate cause) := by
  rw [terminate]
  split_ifs with ht
  · exact ⟨h, .refl c⟩
  · constructor
    · exact { h with
        stopped := fun _ ↦ rfl, frame := nofun, quiesced := fun hq ↦ ⟨rfl, (h.quiesced hq).2⟩
        left := fun _ ↦ .inr rfl }
    · exact ⟨id, fun _ ↦ rfl, id, id, fun ht' ↦ absurd ht' ht, fun _ ↦ rfl, fun _ ↦ rfl,
        fun _ ↦ id⟩

theorem Sound.frame_eq_none (h : Sound c)
    (hw : ∀ batch encoder offset, c.worker ≠ .running (.published batch encoder offset)) :
    c.frame = none := by
  cases hf : c.frame with
  | none => rfl
  | some f =>
    obtain ⟨-, batch, encoder, offset, hpub⟩ := h.frame (by simp [hf])
    exact absurd hpub (hw batch encoder offset)

/-- The worker moves on from a point where the slot is empty. -/
theorem goto_spec (h : Sound c) {w : WorkerThread} (point : RunPoint) (hw : c.worker = w)
    (hjoinable : w.joinable = true) (hunsettled : ¬w.Settled) (hframe : c.frame = none)
    (hpoint : ¬(WorkerThread.running point).Settled)
    (hstopped : point = .stopped → c.terminal = true) :
    Sound (c.goto point) ∧ Later c (c.goto point) := by
  subst hw
  refine ⟨?_, .goto hunsettled point⟩
  exact {
    claims := h.claims
    absent := nofun
    workers := h.workers
    present := fun _ ↦ h.present hjoinable
    stopped := fun hs ↦ hstopped (WorkerThread.running.inj hs)
    frame := fun hf ↦ by simp [goto, hframe] at hf
    quiesced := fun hq ↦ absurd (h.quiesced hq).2 hunsettled
    left := fun hl ↦ absurd hl hpoint }

theorem finish_spec (h : Sound c) {status' : Option ArrowError} {outcome : ExecutionOutcome}
    (hw : c.worker = .running (.finishing status' outcome)) (status : Option ArrowError) :
    Sound (c.finish status) ∧ Later c (c.finish status) := by
  have hframe : c.frame = none := h.frame_eq_none (by simp [hw])
  have hclaimed : c.claimed = true := h.present (by rw [hw]; rfl)
  rw [finish]
  split_ifs with ht
  · constructor
    · exact {
        claims := h.claims, absent := nofun, workers := h.workers, present := fun _ ↦ hclaimed
        stopped := nofun, frame := fun hf ↦ by simp [goto, hframe] at hf
        quiesced := fun _ ↦ ⟨ht, trivial⟩, left := fun _ ↦ .inr ht }
    · exact ⟨id, id, fun _ ↦ rfl, id, fun _ ↦ rfl, fun _ ↦ rfl, fun _ ↦ rfl, fun _ _ ↦ trivial⟩
  · constructor
    · exact {
        claims := h.claims, absent := nofun, workers := h.workers, present := fun _ ↦ hclaimed
        stopped := nofun, frame := fun hf ↦ by simp [goto, hframe] at hf
        quiesced := fun _ ↦ ⟨rfl, trivial⟩, left := fun _ ↦ .inr rfl }
    · exact ⟨id, fun _ ↦ rfl, fun _ ↦ rfl, id, fun ht' ↦ absurd ht' ht, fun _ ↦ rfl, fun _ ↦ rfl,
        fun _ _ ↦ trivial⟩

/-- The worker goes on after the section of `finish`: it returns, and it is joined. -/
theorem settled_spec (h : Sound c) {w w' : WorkerThread} (hw : c.worker = w) (hsettled : w.Settled)
    (hsettled' : w'.Settled) (hjoinable : w.joinable = true) (hpresent : w' ≠ .absent)
    (hterminal : c.terminal = true) :
    Sound { c with worker := w' } ∧ Later c { c with worker := w' } := by
  subst hw
  have hframe : c.frame = none := h.frame_eq_none fun _ _ _ hp ↦ by
    rw [hp] at hsettled
    exact hsettled
  constructor
  · exact { h with
      absent := fun ha ↦ absurd ha hpresent, present := fun _ ↦ h.present hjoinable
      stopped := fun _ ↦ hterminal
      frame := fun hf ↦ by simp [hframe] at hf
      quiesced := fun _ ↦ ⟨hterminal, hsettled'⟩, left := fun _ ↦ .inr hterminal }
  · exact ⟨id, id, id, id, fun _ ↦ rfl, fun _ ↦ rfl, fun _ ↦ rfl, fun _ _ ↦ hsettled'⟩

/-- **The worker** keeps the control state sound at every point of `run`. -/
theorem runStep_spec (h : Sound c) {k : EntryAnswer} {point : RunPoint} {calls : List EntryCall}
    (hw : c.worker = .running point) (hrun : c.runStep cfg k point = some (c', calls)) :
    Sound c' ∧ Later c c' := by
  cases section_of_runStep hrun with
  | called | expired | opened | consumed | returned =>
    exact goto_spec h _ hw rfl id (h.frame_eq_none (by simp [hw])) id nofun
  | completed =>
    obtain ⟨hs, hl⟩ := goto_spec h (.finishing none .succeeded) hw rfl id
      (h.frame_eq_none (by simp [hw])) id nofun
    exact ⟨{ hs with }, { hl with }⟩
  | threw hpoint =>
    have hunsettled : ¬(WorkerThread.running point).Settled := by
      cases point with
      | leaving => cases hpoint
      | _ => exact id
    refine goto_spec h _ hw rfl hunsettled (h.frame_eq_none ?_) id nofun
    rintro batch encoder offset hpublished
    obtain rfl := WorkerThread.running.inj (hw.symm.trans hpublished)
    cases hpoint
  | @framed batch offset encoder f =>
    obtain ⟨hs, hl⟩ := goto_spec h (.publishing batch encoder f) hw rfl id
      (h.frame_eq_none (by simp [hw])) id nofun
    exact ⟨{ hs with }, { hl with }⟩
  | unpublished ht =>
    exact goto_spec h _ hw rfl id (h.frame_eq_none (by simp [hw])) id fun _ ↦ ht
  | @published batch encoder f ht =>
    obtain ⟨hs, hl⟩ := goto_spec h (.published batch encoder (f.range.offset + f.range.rows)) hw rfl
      id (h.frame_eq_none (by simp [hw])) id nofun
    -- the only section that fills the slot
    exact ⟨{ hs with frame := fun _ ↦ ⟨ht, batch, encoder, _, rfl⟩ }, { hl with }⟩
  | untaken ht =>
    have hframe : c.frame = none := by
      cases hf : c.frame with
      | none => rfl
      | some f => simpa [ht] using (h.frame (by simp [hf])).1
    exact goto_spec h _ hw rfl id hframe id fun _ ↦ ht
  | taken hempty => exact goto_spec h _ hw rfl id hempty id nofun
  | finished => exact finish_spec h hw _
  | left =>
    have hterminal : c.terminal = true := by simpa [hw] using h.left (by rw [hw]; trivial)
    exact settled_spec h hw trivial trivial rfl nofun hterminal

theorem Step.spec (h : Sound c) (hstep : Step cfg c c') : Sound c' ∧ Later c c' := by
  cases hstep with
  | claim => exact claim_spec h
  | start => exact start_spec h
  | readSlot expired => exact readSlot_spec h expired
  | terminate cause => exact terminate_spec h cause
  | taken hterminal hw =>
    exact goto_spec h _ hw rfl id (h.frame_eq_none (by simp [hw])) id fun _ ↦ hterminal
  | quiesce hterminal hw =>
    exact ⟨{ h with quiesced := fun _ ↦ ⟨hterminal, hw⟩ },
      ⟨id, id, fun _ ↦ rfl, id, fun _ ↦ rfl, fun _ ↦ rfl, fun _ ↦ rfl, fun _ ↦ id⟩⟩
  | notify =>
    exact ⟨{ h with }, ⟨id, id, id, fun _ ↦ rfl, fun _ ↦ rfl, fun _ ↦ rfl, fun _ ↦ rfl, fun _ ↦ id⟩⟩
  | join hw =>
    have hterminal : c.terminal = true := by simpa [hw] using h.left (by rw [hw]; trivial)
    exact settled_spec h hw trivial trivial rfl nofun hterminal
  | enter hw => exact goto_spec h _ hw rfl id (h.frame_eq_none (by simp [hw])) id nofun
  | run hw hrun => exact runStep_spec h hw hrun

/-- What holds of the control state after one section holds after any number. -/
theorem Steps.spec (h : Sound c) (hsteps : Steps cfg c c') : Sound c' ∧ Later c c' := by
  induction hsteps with
  | refl => exact ⟨h, .refl c⟩
  | tail _ hstep ih =>
    obtain ⟨hs, hl⟩ := ih
    obtain ⟨hs', hl'⟩ := hstep.spec hs
    exact ⟨hs', hl.trans hl'⟩

/-- What can be said of an execution at any time of its life. -/
structure Lived (c : EntryControl) : Prop where
  claims : c.claims ≤ 1
  workers : c.workers ≤ 1
  quiesced : c.quiesced = true → c.terminal = true ∧ c.worker.Settled
  frame : c.terminal = true → c.frame = none

theorem Sound.lived {c : EntryControl} (h : Sound c) : Lived c where
  claims := by
    rw [h.claims]
    exact Bool.toNat_le c.claimed
  workers := h.workers
  quiesced := h.quiesced
  frame ht := by
    cases hf : c.frame with
    | none => rfl
    | some f => simpa [ht] using (h.frame (by simp [hf])).1

end EntryControl

/-! ## From the program to the control state -/

namespace ExecutionEntry

open EntryControl

variable {ι : Type*} {cfg : ExecutionConfig} {s s' : ExecutionEntry} {t : Option ι}
  {f : EntryCall} {k : EntryAnswer} {new : List EntryCall}

/-- What a call knows of the control state: the end of a `cancel` that found no worker. -/
def Unstarted (f : EntryCall) (s : ExecutionEntry) : Prop :=
  f = .quiesce true → s.terminal = true ∧ s.worker.Settled

theorem Unstarted.later {s s' : ExecutionEntry} (hl : Later s.toEntryControl s'.toEntryControl)
    (h : Unstarted f s) : Unstarted f s' := fun hf ↦
  ⟨hl.terminal (h hf).1, hl.settled (h hf).1 (h hf).2⟩

theorem call_control (cfg : ExecutionConfig) (hcall : s.call t f = some s') :
    Steps cfg s.toEntryControl s'.toEntryControl := by
  cases t with
  | none =>
    simp only [call] at hcall
    split at hcall
    · next hw =>
      cases hcall
      exact .single (.enter hw)
    · cases hcall
  | some i =>
    simp only [call] at hcall
    split at hcall <;> cases hcall <;> exact .refl

theorem cancelTaken_control {c : EntryControl} (hterminal : c.terminal = true) (t : Option ι) :
    Steps cfg c (c.cancelTaken t) := by
  simp only [cancelTaken]
  split
  · next hw => exact .single (.taken hterminal hw)
  · exact .refl

/-- A worker that cancels its own execution finds it terminal when it goes on. -/
theorem cancelTaken_terminate (c : EntryControl) (t : Option ι) (cause : Cause) :
    (c.cancelTaken t).terminate cause = (c.terminate cause).cancelTaken t := by
  simp only [cancelTaken, worker_terminate]
  split
  · simp only [EntryControl.terminate]
    split_ifs <;> rfl
  · rfl

theorem exec_control (hs : Sound s.toEntryControl) (hA : Unstarted f s)
    (hexec : s.exec cfg t f k = some (s', new)) :
    Steps cfg s.toEntryControl s'.toEntryControl := by
  cases section_of_exec hexec with
  | claim => exact .single (.claim _)
  | start => exact .single (.start _)
  | readNext | readOn => exact .single (.readSlot _ _)
  | terminateQuiesced hq => exact cancelTaken_control (hs.quiesced hq).1 t
  | terminate =>
    simp only [setControl, cancelTaken_terminate]
    exact .head (.terminate _ _) (cancelTaken_control (terminal_terminate _) t)
  -- where there is no worker to do it, the thread that ended the execution sets the flag
  | quiesce => exact .single (.quiesce (hA rfl).1 (hA rfl).2)
  | notified => exact .single (.notify _)
  | join hw => exact .single (.join hw)
  | run hw hrun => exact .single (.run hw hrun)
  | _ => exact .refl

/-- A reader that goes on waiting may have to cancel first. -/
theorem readSlot_calls {c : EntryControl} {expired : Bool} {g : EntryCall}
    (hg : g ∈ (c.readSlot expired).2) : g = .cancel true ∨ g = .readNext := by
  simp only [readSlot] at hg
  split at hg
  · cases hg
  · split_ifs at hg <;> simp_all

/-- Only `cancel` and its like end in a section that may quiesce the execution, and only where they
found no worker. -/
theorem exec_unstarted (hexec : s.exec cfg t f k = some (s', new)) :
    ∀ g ∈ new, Unstarted g s' := by
  rintro g hg rfl
  cases section_of_exec hexec with
  | readNext | readOn => rcases readSlot_calls hg with h | h <;> cases h
  | terminate =>
    -- the only section that asks for this, and it has just looked at the worker
    have habsent : s.worker.joinable = false := by simpa using hg
    have hw : (s.cancelTaken t).worker = s.worker := by
      simp only [cancelTaken]
      split
      · next hw => simp [hw, WorkerThread.joinable] at habsent
      · rfl
    refine ⟨terminal_terminate _, ?_⟩
    show ((s.cancelTaken t).terminate _).worker.Settled
    rw [worker_terminate, hw]
    exact WorkerThread.settled_of_not_joinable habsent
  | run hw hrun =>
    cases section_of_runStep hrun with
    | threw hpoint hbefore =>
      rcases hbefore with rfl | rfl <;> simp [EntryCall.failGpuUnavailable] at hg
    | @finished status outcome => cases outcome <;> simp [releaseInputs] at hg
    | _ => simp [EntryCall.cancel] at hg
  | _ => simp [EntryCall.cancel] at hg

/-! ## Runs -/

/-- Every state of the program has a sound control state, whatever its threads are about to do. -/
theorem assertional (cfg : ExecutionConfig) (ι : Type*) :
    Program.Assertional (program cfg ι) (fun s ↦ Sound s.toEntryControl) fun _ ↦ Unstarted where
  call {s t f s'} hs hcall := by
    obtain ⟨hs', hl⟩ := (call_control cfg hcall).spec hs
    refine ⟨hs', ?_, fun u g hg ↦ hg.later hl⟩
    rintro rfl
    cases t <;> cases hcall
  exec {s t f k s' new} hs hA hexec := by
    obtain ⟨hs', hl⟩ := (exec_control hs hA hexec).spec hs
    exact ⟨hs', exec_unstarted hexec, fun u g hg ↦ hg.later hl⟩
  ambient {s a s'} hs hamb := by
    obtain ⟨i, -, rfl⟩ := Option.map_eq_some_iff.mp hamb
    exact ⟨hs, fun u g hg ↦ hg⟩

theorem holds_init : Program.Holds (fun s : ExecutionEntry ↦ Sound s.toEntryControl)
    (fun _ : Option ι ↦ Unstarted) (init ι) := by
  refine ⟨?_, fun t f hf ↦ nomatch hf⟩
  exact {
    claims := rfl, absent := fun _ ↦ rfl, workers := Nat.zero_le 1, present := nofun
    stopped := nofun, frame := nofun, quiesced := nofun, left := fun _ ↦ .inl rfl }

variable [DecidableEq ι] {c c' c'' : Threads ExecutionEntry (Option ι) EntryCall}
  {m : Move (Option ι) EntryCall EntryAnswer (Bytes × InputTraffic)}
  {ms ms' : List (Move (Option ι) EntryCall EntryAnswer (Bytes × InputTraffic))}

theorem step_control
    (hc : Program.Holds (fun s ↦ Sound s.toEntryControl) (fun _ ↦ Unstarted) c)
    (hm : (program cfg ι).machine.step c m = some c') :
    Steps cfg c.shared.toEntryControl c'.shared.toEntryControl := by
  cases m with
  | call t f =>
    obtain ⟨-, s, hs, rfl⟩ := Program.step_call_eq_some.mp hm
    exact call_control cfg hs
  | exec t k =>
    obtain ⟨f, rest, s, new, hstack, hs, rfl⟩ := Program.step_exec_eq_some.mp hm
    exact exec_control hc.1 (hc.2 t f (by simp [hstack])) hs
  | ambient a =>
    obtain ⟨s, hs, rfl⟩ := Program.step_ambient_eq_some.mp hm
    obtain ⟨i, -, rfl⟩ := Option.map_eq_some_iff.mp hs
    exact .refl

/-- The control state follows its own steps, along any run from any state with sound control. -/
theorem run_control
    (hc : Program.Holds (fun s ↦ Sound s.toEntryControl) (fun _ ↦ Unstarted) c)
    (hrun : (program cfg ι).machine.run c ms = some c') :
    Steps cfg c.shared.toEntryControl c'.shared.toEntryControl := by
  refine Machine.run_induction
    (P := fun _ d ↦ Steps cfg c.shared.toEntryControl d.shared.toEntryControl) .refl
    (fun ls d m d' hd ih hm ↦ ?_) hrun
  exact ih.trans (step_control ((assertional cfg ι).run hc hd) hm)

/-- **The life of an execution is monotone.** In every state of every run the execution was claimed
at most once and started at most one worker, and the worker of a quiesced one has left
`run_batches` and the section of `finish`; and from there on flags stay, and the first transition to
terminal decides the status and ends claims and starts. -/
theorem lifecycle (cfg : ExecutionConfig)
    (ms ms' : List (Move (Option ι) EntryCall EntryAnswer (Bytes × InputTraffic)))
    (c c' : Threads ExecutionEntry (Option ι) EntryCall)
    (hrun : (program cfg ι).machine.run (init ι) ms = some c)
    (hrun' : (program cfg ι).machine.run c ms' = some c') :
    Lived c.shared.toEntryControl ∧ Later c.shared.toEntryControl c'.shared.toEntryControl := by
  have hc := (assertional cfg ι).run holds_init hrun
  exact ⟨hc.1.lived, ((run_control hc hrun').spec hc.1).2⟩

/-- A query without input and without result. -/
def emptyQuery : ExecutionConfig where
  maxBatchBytes := 0
  inputRefs := []
  batches := []

/-- Claim and start the execution, and let its worker pass the section of `finish`. -/
def finishEmptyQuery : List (Move (Option Unit) EntryCall EntryAnswer (Bytes × InputTraffic)) :=
  [.call (some ()) .claim, .exec (some ()) {}, .call (some ()) .start, .exec (some ()) {},
    .call none .run, .exec none { batches := .returns }, .exec none {}]

/-- A quiesced execution may have a worker that is still in `run`. -/
theorem quiesced_while_running :
    ∃ c, (program emptyQuery Unit).machine.run (init Unit) finishEmptyQuery = some c ∧
      c.shared.quiesced = true ∧ c.shared.worker = .running .leaving ∧ c.calls none ≠ [] :=
  ⟨_, rfl, rfl, rfl, nofun⟩

theorem lifecycle_emptyQuery :
    ∃ c c', (program emptyQuery Unit).machine.run (init Unit) finishEmptyQuery = some c ∧
      (program emptyQuery Unit).machine.run c [.call (some ()) .claim] = some c' ∧
        Lived c.shared.toEntryControl ∧ Later c.shared.toEntryControl c'.shared.toEntryControl :=
  ⟨_, _, rfl, rfl, lifecycle emptyQuery finishEmptyQuery [.call (some ()) .claim] _ _ rfl rfl⟩

end ExecutionEntry

end MoSidecar
