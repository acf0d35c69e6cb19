import MoSidecar.Execution.Handlers

/-!
# Quiescence

A terminal execution quiesces: either its worker will pass the section of `finish`, or the call that
made it terminal has found no worker and will set the flag itself. Once nothing is under way any
more, a terminal execution is therefore quiesced, and its terminal callback has been invoked.
-/

namespace MoSidecar

/-- The worker is past the section of `finish`. -/
def WorkerThread.Finished : WorkerThread → Prop
  | .running .leaving | .exited | .joined => True
  | _ => False

/-- The worker has a pointer to its execution. -/
def WorkerThread.working : WorkerThread → Bool
  | .created | .running _ => true
  | _ => false

/-- The worker was created, and is not in `run` yet. -/
def WorkerThread.isCreated : WorkerThread → Bool
  | .created => true
  | _ => false

/-- The worker is in `run`. -/
def WorkerThread.isRunning : WorkerThread → Bool
  | .running _ => true
  | _ => false

theorem WorkerThread.working_eq (w : WorkerThread) : w.working = (w.isCreated || w.isRunning) := by
  cases w <;> rfl

namespace EntryControl

variable {cfg : ExecutionConfig} {c c' : EntryControl}

/-- A worker that is past `finish` has quiesced the execution. -/
def Closed (c : EntryControl) : Prop := c.worker.Finished → c.quiesced = true

theorem closed_runStep (h : Closed c) {k : EntryAnswer} {point : RunPoint}
    {calls : List EntryCall} (hw : c.worker = .running point)
    (hrun : c.runStep cfg k point = some (c', calls)) : Closed c' := by
  cases section_of_runStep hrun with
  | finished =>
    intro _
    rw [finish]
    split_ifs <;> rfl
  | left =>
    intro _
    exact h (by rw [hw]; trivial)
  -- the worker goes on to a point before `finish`
  | _ => exact fun hf ↦ hf.elim

theorem Step.closed (h : Closed c) (hstep : Step cfg c c') : Closed c' := by
  cases hstep with
  | claim =>
    rw [EntryControl.claim]
    split_ifs <;> exact h
  | start =>
    rw [EntryControl.start]
    split_ifs
    · exact h
    · exact fun hf ↦ hf.elim
  | readSlot expired =>
    rw [EntryControl.readSlot]
    split
    · exact h
    · split_ifs <;> exact h
  | terminate cause =>
    rw [EntryControl.terminate]
    split_ifs <;> exact h
  | taken hterminal hw => exact fun hf ↦ hf.elim
  | quiesce hterminal hw => exact fun _ ↦ rfl
  | notify => exact h
  | join hw => exact fun _ ↦ h (by rw [hw]; trivial)
  | enter hw => exact fun hf ↦ hf.elim
  | run hw hrun => exact closed_runStep h hw hrun

theorem Steps.closed (h : Closed c) (hsteps : Steps cfg c c') : Closed c' := by
  induction hsteps with
  | refl => exact h
  | tail _ hstep ih => exact hstep.closed ih

/-- A terminal execution whose worker was never started, or was joined. -/
structure Stopped (c : EntryControl) : Prop where
  terminal : c.terminal = true
  worker : c.worker.joinable = false

theorem Step.stopped (h : Stopped c) (hstep : Step cfg c c') : Stopped c' := by
  cases hstep with
  | claim =>
    rw [EntryControl.claim]
    split_ifs
    · exact h
    · exact ⟨h.terminal, h.worker⟩
  | start =>
    rw [EntryControl.start, if_pos (by simp [h.terminal])]
    exact h
  | readSlot expired =>
    rw [EntryControl.readSlot]
    split
    · exact ⟨h.terminal, h.worker⟩
    · split_ifs <;> exact ⟨h.terminal, h.worker⟩
  | terminate cause =>
    rw [EntryControl.terminate, if_pos h.terminal]
    exact h
  | taken hterminal hw | join hw | enter hw | run hw =>
    have hworker := h.worker
    rw [hw] at hworker
    cases hworker
  | quiesce hterminal hw => exact ⟨h.terminal, h.worker⟩
  | notify => exact ⟨h.terminal, h.worker⟩

theorem Steps.stopped (h : Stopped c) (hsteps : Steps cfg c c') : Stopped c' := by
  induction hsteps with
  | refl => exact h
  | tail _ hstep ih => exact hstep.stopped ih

/-- An execution without a worker that is terminal and not quiesced. -/
structure Unsettled (c : EntryControl) : Prop where
  terminal : c.terminal = true
  quiesced : c.quiesced = false
  worker : c.worker = .absent

namespace Unsettled

theorem of_claim (h : Unsettled c.claim) : Unsettled c := by
  rw [EntryControl.claim] at h
  split_ifs at h
  · exact h
  · exact ⟨h.terminal, h.quiesced, h.worker⟩

theorem of_start (h : Unsettled c.start) : Unsettled c := by
  rw [EntryControl.start] at h
  split_ifs at h
  · exact h
  · cases h.worker

theorem of_readSlot {expired : Bool} (h : Unsettled (c.readSlot expired).1) : Unsettled c := by
  rw [EntryControl.readSlot] at h
  split at h
  · exact ⟨h.terminal, h.quiesced, h.worker⟩
  · split_ifs at h <;> exact ⟨h.terminal, h.quiesced, h.worker⟩

end Unsettled

theorem worker_of_cancelTaken {ι : Type*} {t : Option ι} (h : (c.cancelTaken t).worker = .absent) :
    c.worker = .absent := by
  simp only [EntryControl.cancelTaken] at h
  split at h
  · cases h
  · exact h

theorem Unsettled.of_cancelTaken {ι : Type*} {t : Option ι} (h : Unsettled (c.cancelTaken t)) :
    Unsettled c := by
  have hworker := worker_of_cancelTaken h.worker
  simp only [EntryControl.cancelTaken] at h
  split at h
  · cases h.worker
  · exact h

/-- The worker is there at every point of `run`, and after it. -/
theorem worker_runStep {k : EntryAnswer} {point : RunPoint} {calls : List EntryCall}
    (hrun : c.runStep cfg k point = some (c', calls)) : c'.worker ≠ .absent := by
  cases section_of_runStep hrun with
  | finished =>
    rw [finish]
    split_ifs <;> rintro ⟨⟩
  | _ => rintro ⟨⟩

end EntryControl

/-- Calls that neither claim an execution nor run it. -/
def EntryCall.passive : EntryCall → Bool
  | .claim | .start | .run => false
  | _ => true

namespace ExecutionEntry

open EntryControl

variable {ι : Type*} {cfg : ExecutionConfig} {s s' : ExecutionEntry} {t : Option ι}
  {f : EntryCall} {k : EntryAnswer} {new : List EntryCall}

/-- The flags are set in their order. -/
structure Ordered (s : ExecutionEntry) : Prop where
  sound : Sound s.toEntryControl
  closed : Closed s.toEntryControl
  notified : s.terminalNotified = true → s.quiesced = true

theorem notified_of_effect (h : Effect cfg f s s' new)
    (hlater : Later s.toEntryControl s'.toEntryControl)
    (hs : s.terminalNotified = true → s.quiesced = true) :
    s'.terminalNotified = true → s'.quiesced = true := by
  intro hn
  refine hlater.quiesced ?_
  cases h with
  | aside hf hnew hq hnotified | tested hf hnew htest hnotified | joined hq hnotified =>
    exact hs (hnotified ▸ hn)
  | notified hquiet => exact (Bool.and_eq_true_iff.mp hquiet).1
  | _ => exact hs hn

/-- The flags are set in their order in every state of the program. -/
theorem assertional_ordered (cfg : ExecutionConfig) (ι : Type*) :
    Program.Assertional (program cfg ι) Ordered fun _ ↦ Unstarted where
  call {s t f s'} hs hcall := by
    obtain ⟨hsound, hf, hframe⟩ := (assertional cfg ι).call hs.sound hcall
    obtain ⟨-, c, rfl, hflags⟩ := call_effect hcall
    refine ⟨⟨hsound, (call_control cfg hcall).closed hs.closed, fun hn ↦ ?_⟩, hf, hframe⟩
    have hq : c.quiesced = s.quiesced := hflags.quiesced
    exact hq.trans (hs.notified (hflags.notified ▸ hn))
  exec {s t f k s' new} hs hA hexec := by
    obtain ⟨hsound, hnew, hframe⟩ := (assertional cfg ι).exec hs.sound hA hexec
    have hsteps := exec_control hs.sound hA hexec
    refine ⟨⟨hsound, hsteps.closed hs.closed, ?_⟩, hnew, hframe⟩
    exact notified_of_effect (exec_effect hexec) (hsteps.spec hs.sound).2 hs.notified
  ambient {s a s'} hs hamb := by
    obtain ⟨i, -, rfl⟩ := Option.map_eq_some_iff.mp hamb
    exact ⟨⟨hs.sound, hs.closed, hs.notified⟩, fun u g hg ↦ hg⟩

/-- **An execution without a worker that is terminal** is about to be quiesced by the call that made
it so. -/
theorem debt_quiesce (cfg : ExecutionConfig) (ι : Type*) :
    Program.Debt (program cfg ι) Ordered (fun _ ↦ Unstarted) (fun s ↦ s.Unsettled)
      (· = .quiesce true) where
  call {s t f s'} _ hcall hdue := by
    refine .inl ?_
    cases t with
    | none =>
      simp only [program, call] at hcall
      split at hcall <;> cases hcall
      cases hdue.worker
    | some i =>
      simp only [program, call] at hcall
      split at hcall <;> cases hcall <;> exact hdue
  exec {s t f k s' new} hs _ hexec hdue := by
    cases section_of_exec hexec with
    | claim => exact .inl ⟨hdue.of_claim, by simp⟩
    | start => exact .inl ⟨hdue.of_start, by simp⟩
    | readNext | readOn => exact .inl ⟨hdue.of_readSlot, by simp⟩
    | terminateQuiesced hq => exact absurd hdue.of_cancelTaken fun h ↦ by simp [h.quiesced] at hq
    | terminate =>
      -- the worker is absent before the section too, so the flag will be set
      have hworker : s.worker = .absent := worker_of_cancelTaken
        ((worker_terminate _).symm.trans hdue.worker)
      refine .inr ⟨_, List.mem_cons_of_mem _ List.mem_cons_self, ?_⟩
      rw [hworker]
      rfl
    | quiesce => cases hdue.quiesced
    | join => cases hdue.worker
    | run hw hrun => exact absurd hdue.worker (worker_runStep hrun)
    | _ => exact .inl ⟨⟨hdue.terminal, hdue.quiesced, hdue.worker⟩, by simp⟩
  ambient {s a s'} _ hamb hdue := by
    obtain ⟨i, -, rfl⟩ := Option.map_eq_some_iff.mp hamb
    exact hdue

/-- A terminal execution that nobody is at work on is quiesced. -/
theorem Ordered.quiesced_of_terminal (h : Ordered s) (hterminal : s.terminal = true)
    (hidle : s.worker.working = false) (hsettled : ¬s.Unsettled) : s.quiesced = true := by
  by_contra hno
  rw [Bool.not_eq_true] at hno
  cases hw : s.worker with
  | absent => exact hsettled ⟨hterminal, hno, hw⟩
  | exited | joined => exact absurd (h.closed (by rw [hw]; trivial)) (by simp [hno])
  | created | running => simp [hw, WorkerThread.working] at hidle

/-! ## Passive sections -/

/-- What a section that neither claims nor runs leaves as it is. -/
structure Passive (f : EntryCall) (s s' : ExecutionEntry) (new : List EntryCall) : Prop where
  claimed : s'.claimed = s.claimed
  created : s'.worker.isCreated = s.worker.isCreated
  running : s'.worker.isRunning = s.worker.isRunning
  workers : s'.workers = s.workers
  terminal : (∃ cause, f = .terminate cause) ∨ s'.terminal = s.terminal
  calls : ∀ g ∈ new, g.passive = true

theorem passive_readSlot (s : ExecutionEntry) (expired : Bool) :
    Passive f s (s.setControl (s.readSlot expired).1) (s.readSlot expired).2 := by
  have hcalls : ∀ g ∈ (s.readSlot expired).2, g.passive = true := fun g hg ↦ by
    rcases readSlot_calls hg with rfl | rfl <;> rfl
  have hsame : (s.readSlot expired).1.claimed = s.claimed ∧
      (s.readSlot expired).1.worker = s.worker ∧ (s.readSlot expired).1.workers = s.workers ∧
        (s.readSlot expired).1.terminal = s.terminal := by
    rw [EntryControl.readSlot]
    split
    · exact ⟨rfl, rfl, rfl, rfl⟩
    · split_ifs <;> exact ⟨rfl, rfl, rfl, rfl⟩
  obtain ⟨hclaimed, hworker, hworkers, hterminal⟩ := hsame
  exact ⟨hclaimed, congrArg _ hworker, congrArg _ hworker, hworkers, .inr hterminal, hcalls⟩

theorem passive_cancelTaken (c : EntryControl) (t : Option ι) :
    (c.cancelTaken t).claimed = c.claimed ∧
      (c.cancelTaken t).worker.isCreated = c.worker.isCreated ∧
        (c.cancelTaken t).worker.isRunning = c.worker.isRunning ∧
          (c.cancelTaken t).workers = c.workers := by
  simp only [EntryControl.cancelTaken]
  split
  · next hw => exact ⟨rfl, by rw [hw]; rfl, by rw [hw]; rfl, rfl⟩
  · exact ⟨rfl, rfl, rfl, rfl⟩

theorem passive_of_exec (hf : f.passive = true) (h : s.exec cfg t f k = some (s', new)) :
    Passive f s s' new := by
  have hnil : ∀ g ∈ ([] : List EntryCall), g.passive = true := List.forall_mem_nil _
  have hone : ∀ {g : EntryCall}, g.passive = true → ∀ g' ∈ [g], g'.passive = true :=
    fun hg ↦ List.forall_mem_singleton.mpr hg
  have htwo : ∀ {g g' : EntryCall}, g.passive = true → g'.passive = true →
      ∀ h ∈ [g, g'], h.passive = true :=
    fun hg hg' ↦ List.forall_mem_cons.mpr ⟨hg, hone hg'⟩
  cases section_of_exec h with
  | claim | start | run => cases hf
  | readNext expired | readOn expired => exact passive_readSlot s expired
  | @terminateQuiesced cause =>
    obtain ⟨hclaimed, hcreated, hrunning, hworkers⟩ := passive_cancelTaken s.toEntryControl t
    exact ⟨hclaimed, hcreated, hrunning, hworkers, .inl ⟨cause, rfl⟩, hnil⟩
  | @terminate cause =>
    obtain ⟨hclaimed, hcreated, hrunning, hworkers⟩ := passive_cancelTaken s.toEntryControl t
    have hworker := EntryControl.worker_terminate (c := s.cancelTaken t) cause
    refine ⟨?_, ?_, ?_, ?_, .inl ⟨cause, rfl⟩, htwo rfl rfl⟩
    · simp only [setControl, EntryControl.terminate]
      split_ifs <;> exact hclaimed
    · exact (congrArg _ hworker).trans hcreated
    · exact (congrArg _ hworker).trans hrunning
    · simp only [setControl, EntryControl.terminate]
      split_ifs <;> exact hworkers
  | join hw => exact ⟨rfl, by rw [hw]; rfl, by rw [hw]; rfl, rfl, .inr rfl, hnil⟩
  | cancelAllDone | markAllNotNeededDone | unnotified | onTerminal | gaveUp | joinNobody
  | unattached => exact ⟨rfl, rfl, rfl, rfl, .inr rfl, hnil⟩
  | cancelAll | markAllNotNeeded | quiesceLater | quiesce | notified | awaited | unquiet
  | pollWaiting | attached | handlerAttached | served | detachInput | handlerDetached =>
    exact ⟨rfl, rfl, rfl, rfl, .inr rfl, hone rfl⟩
  | readCancelled | cancelAndJoin | serveFailed | serveThrew | failInput =>
    exact ⟨rfl, rfl, rfl, rfl, .inr rfl, htwo rfl rfl⟩

theorem workers_of_runStep {c c' : EntryControl} {point : RunPoint} {calls : List EntryCall}
    (hrun : c.runStep cfg k point = some (c', calls)) : c'.workers = c.workers := by
  cases section_of_runStep hrun with
  | finished =>
    rw [EntryControl.finish]
    split_ifs <;> rfl
  | _ => rfl

/-- Only `start` creates a worker. -/
theorem workers_of_exec (hf : f ≠ .start) (h : s.exec cfg t f k = some (s', new)) :
    s'.workers = s.workers := by
  cases f with
  | claim =>
    cases h
    simp only [setControl, EntryControl.claim]
    split_ifs <;> rfl
  | start => exact absurd rfl hf
  | run =>
    cases section_of_exec h with
    | run hw hrun => exact workers_of_runStep hrun
  | _ => exact (passive_of_exec rfl h).workers

/-- After `terminate` the execution is terminal. -/
theorem terminal_of_terminate (hs : Sound s.toEntryControl) {cause : Cause}
    (h : s.exec cfg t (.terminate cause) k = some (s', new)) : s'.terminal = true := by
  cases section_of_exec h with
  | terminateQuiesced hquiesced =>
    have hterminal := (hs.quiesced hquiesced).1
    simp only [setControl, EntryControl.cancelTaken]
    split <;> exact hterminal
  | terminate => exact EntryControl.terminal_terminate cause

end ExecutionEntry

end MoSidecar
