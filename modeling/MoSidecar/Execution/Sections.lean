import MoSidecar.Execution.Entry

/-!
# The sections of an execution

What a section of an execution does, listed once (`ExecutionEntry.Section`): the state it leaves,
and the calls that its thread goes on with. The sections of `run` have a list of their own
(`EntryControl.RunSection`). What is shown of all sections later on is proved by cases on these
lists, and not by cases on the code.
-/

namespace MoSidecar

/-- The points of `run` at which an exception may reach its handlers. -/
def RunPoint.throws : RunPoint → Bool
  | .batches _ | .consuming _ | .encoding .. | .stopped => true
  | _ => false

namespace EntryControl

variable {cfg : ExecutionConfig} {c c' : EntryControl} {k : EntryAnswer} {point : RunPoint}
  {calls : List EntryCall}

/-- What a section of `run` does. -/
inductive RunSection (cfg : ExecutionConfig) (c : EntryControl) :
    RunPoint → EntryControl → List EntryCall → Prop
  | called {next : ℕ} (hnext : next < cfg.batches.length) :
    RunSection cfg c (.batches next) (c.goto (.consuming next)) [.run]
  | completed {next : ℕ} (hnext : next = cfg.batches.length) :
    RunSection cfg c (.batches next)
      { c.goto (.finishing none .succeeded) with completed := true } [.run]
  | threw {point : RunPoint} {what : Thrown} {before : List EntryCall}
    (hpoint : point.throws = true) (hbefore : before = [] ∨ before = [.failGpuUnavailable]) :
    RunSection cfg c point (c.goto (.finishing (some (caught what).1) (caught what).2))
      (before ++ [.run])
  | expired {batch : ℕ} :
    RunSection cfg c (.consuming batch) (c.goto .expiring) [.cancel true, .run]
  | opened {batch : ℕ} {encoder : ResultEncoder}
    (hbatch : cfg.batches[batch]? = some (.ok encoder)) :
    RunSection cfg c (.consuming batch) (c.goto (.encoding batch encoder 0)) [.run]
  | framed {batch offset : ℕ} {encoder : ResultEncoder} {f : ResultFrame}
    (hoffset : offset < encoder.rows)
    (hframe : nextFrame encoder cfg.maxBatchBytes (c.sequence + 1) batch offset = .ok f) :
    RunSection cfg c (.encoding batch encoder offset)
      { c.goto (.publishing batch encoder f) with sequence := c.sequence + 1 } [.run]
  | consumed {batch offset : ℕ} {encoder : ResultEncoder} (hoffset : ¬offset < encoder.rows) :
    RunSection cfg c (.encoding batch encoder offset) (c.goto (.batches (batch + 1))) [.run]
  /-- The worker learns that its execution was ended, before it fills the slot. -/
  | unpublished {batch : ℕ} {encoder : ResultEncoder} {f : ResultFrame}
    (hterminal : c.terminal = true) :
    RunSection cfg c (.publishing batch encoder f) (c.goto .stopped) [.run]
  | published {batch : ℕ} {encoder : ResultEncoder} {f : ResultFrame}
    (hterminal : c.terminal = false) :
    RunSection cfg c (.publishing batch encoder f)
      { c.goto (.published batch encoder (f.range.offset + f.range.rows)) with frame := some f }
      [.run]
  /-- The worker learns it while it waits for the reader. -/
  | untaken {batch offset : ℕ} {encoder : ResultEncoder} (hterminal : c.terminal = true) :
    RunSection cfg c (.published batch encoder offset) (c.goto .stopped) [.run]
  | taken {batch offset : ℕ} {encoder : ResultEncoder} (hempty : c.frame = none) :
    RunSection cfg c (.published batch encoder offset) (c.goto (.encoding batch encoder offset))
      [.run]
  | returned : RunSection cfg c .stopped (c.goto (.finishing none .succeeded)) [.run]
  | finished {status : Option ArrowError} {outcome : ExecutionOutcome} :
    RunSection cfg c (.finishing status outcome) (c.finish status)
      [releaseInputs cfg outcome, .maybeNotifyTerminal, .run]
  | left : RunSection cfg c .leaving { c with worker := .exited } []

theorem section_of_catchThrown (hpoint : point.throws = true) (what : Thrown) (seals : Bool) :
    RunSection cfg c point (c.catchThrown what seals).1 (c.catchThrown what seals).2 := by
  simp only [catchThrown]
  split_ifs
  · change RunSection cfg c point _ ([.failGpuUnavailable] ++ [.run])
    exact .threw hpoint (.inr rfl)
  · change RunSection cfg c point _ ([] ++ [.run])
    exact .threw hpoint (.inl rfl)

/-- **Every section** of `run` is one of these. -/
theorem section_of_runStep (h : c.runStep cfg k point = some (c', calls)) :
    RunSection cfg c point c' calls := by
  cases point with
  | batches next =>
    simp only [runStep] at h
    split at h
    · split_ifs at h with hnext
      cases h
      exact .called hnext
    · split_ifs at h with hnext
      cases h
      exact .completed hnext
    · cases h
      exact section_of_catchThrown rfl _ _
  | consuming batch =>
    simp only [runStep] at h
    split_ifs at h
    · cases h
      exact .expired
    · split at h
      · next encoder hbatch =>
        cases h
        exact .opened hbatch
      · cases h
        exact section_of_catchThrown rfl _ _
      · cases h
  | expiring => cases h
  | encoding batch encoder offset =>
    simp only [runStep] at h
    split_ifs at h with hoffset
    · split at h
      · cases h
        exact section_of_catchThrown rfl _ _
      · next f hframe =>
        cases h
        exact .framed hoffset hframe
    · cases h
      exact .consumed hoffset
  | publishing batch encoder f =>
    simp only [runStep] at h
    split_ifs at h with hterminal <;> cases h
    · exact .unpublished hterminal
    · exact .published (by simpa using hterminal)
  | published batch encoder offset =>
    simp only [runStep] at h
    split_ifs at h with hterminal hfull <;> cases h
    · exact .untaken hterminal
    · exact .taken (by simpa using hfull)
  | stopped =>
    simp only [runStep] at h
    split at h
    · cases h
    · cases h
      exact .returned
    · cases h
      exact section_of_catchThrown rfl _ _
  | finishing status outcome =>
    cases h
    exact .finished
  | leaving =>
    cases h
    exact .left

end EntryControl

namespace ExecutionEntry

variable {ι : Type*} {cfg : ExecutionConfig} {s s' : ExecutionEntry} {t : Option ι}
  {f : EntryCall} {k : EntryAnswer} {new : List EntryCall}

/-- What a section of an execution does. -/
inductive Section (cfg : ExecutionConfig) (t : Option ι) (s : ExecutionEntry) :
    EntryCall → ExecutionEntry → List EntryCall → Prop
  | claim : Section cfg t s .claim (s.setControl s.claim) []
  | start : Section cfg t s .start (s.setControl s.start) []
  /-- A reader finds that nobody waits for what it reads. -/
  | readCancelled : Section cfg t s .readNext s [.cancel false, .readOn]
  | readNext (expired : Bool) :
    Section cfg t s .readNext (s.setControl (s.readSlot expired).1) (s.readSlot expired).2
  | readOn (expired : Bool) :
    Section cfg t s .readOn (s.setControl (s.readSlot expired).1) (s.readSlot expired).2
  /-- An execution that is quiesced already is not ended again. -/
  | terminateQuiesced {cause : Cause} (hquiesced : s.quiesced = true) :
    Section cfg t s (.terminate cause) (s.setControl (s.cancelTaken t)) []
  | terminate {cause : Cause} :
    Section cfg t s (.terminate cause) (s.setControl ((s.cancelTaken t).terminate cause))
      [.cancelAll cause.inputError cfg.inputRefs, .quiesce (!s.worker.joinable)]
  | cancelAllDone {error : String} : Section cfg t s (.cancelAll error []) s []
  | cancelAll {error : String} {ref : Bytes} {todo : List Bytes} :
    Section cfg t s (.cancelAll error (ref :: todo))
      (s.setInput ref ((s.input ref).cancel error)) [.cancelAll error todo]
  | markAllNotNeededDone : Section cfg t s (.markAllNotNeeded []) s []
  | markAllNotNeeded {ref : Bytes} {todo : List Bytes} :
    Section cfg t s (.markAllNotNeeded (ref :: todo))
      (s.setInput ref (s.input ref).markNotNeeded) [.markAllNotNeeded todo]
  /-- The worker that was started is left to set the flag. -/
  | quiesceLater : Section cfg t s (.quiesce false) s [.maybeNotifyTerminal]
  | quiesce :
    Section cfg t s (.quiesce true) (s.setControl { s.toEntryControl with quiesced := true })
      [.maybeNotifyTerminal]
  | notified (hquiet : s.isQuiet = true) (hn : s.terminalNotified = false) :
    Section cfg t s .maybeNotifyTerminal { s with terminalNotified := true, checked := true }
      [.onTerminal]
  | unnotified (h : s.isQuiet = true → s.terminalNotified = true) :
    Section cfg t s .maybeNotifyTerminal s []
  | onTerminal :
    Section cfg t s .onTerminal { s with notifications := s.notifications + 1, reported := true } []
  | cancelAndJoin {timedOut : Bool} :
    Section cfg t s (.cancelAndJoin timedOut) s [.cancel timedOut, .awaitQuiesced]
  | awaited (hquiet : s.isQuiet = true) :
    Section cfg t s .awaitQuiesced { s with checked := true } [.join true]
  | unquiet : Section cfg t s .awaitQuiesced s [.pollWaiting]
  | pollWaiting : Section cfg t s .pollWaiting s [.awaitQuiesced]
  | gaveUp : Section cfg t s .pollWaiting s []
  /-- It is the worker that calls `join`, or there is none that could be joined. -/
  | joinNobody {quiesced : Bool} (hnobody : t = none ∨ s.worker.joinable = false) :
    Section cfg t s (.join quiesced) { s with reported := s.reported || quiesced } []
  | join {quiesced : Bool} (hw : s.worker = .exited) :
    Section cfg t s (.join quiesced)
      { s with worker := .joined, reported := s.reported || quiesced } []
  | unattached {ref : Bytes} : Section cfg t s (.attachInput ref) s []
  | attached {ref : Bytes} {i : StreamInput} (href : ref ∈ cfg.inputRefs)
    (hattach : (s.input ref).attach = .ok i) :
    Section cfg t s (.attachInput ref)
      { s.setInput ref i with lateAttach := s.lateAttach || s.reported } [.handlerAttached ref]
  | handlerAttached {ref : Bytes} :
    Section cfg t s (.handlerAttached ref) { s with activeHandlers := s.activeHandlers + 1 }
      [.serve ref]
  | served {ref : Bytes} : Section cfg t s (.serve ref) s [.detachInput ref]
  | serveFailed {ref : Bytes} {error : String} :
    Section cfg t s (.serve ref) s [.failInput error, .detachInput ref]
  | serveThrew {ref : Bytes} {error : String} :
    Section cfg t s (.serve ref) s [.detachInput ref, .failInput error]
  | detachInput {ref : Bytes} :
    Section cfg t s (.detachInput ref) (s.setInput ref (s.input ref).detach) [.handlerDetached]
  | handlerDetached :
    Section cfg t s .handlerDetached { s with activeHandlers := s.activeHandlers - 1 }
      [.maybeNotifyTerminal]
  | failInput {error : String} :
    Section cfg t s (.failInput error) s [.cancelAll error cfg.inputRefs, .cancel false]
  | run {k : EntryAnswer} {point : RunPoint} {c : EntryControl} {calls : List EntryCall}
    (hw : s.worker = .running point) (hrun : s.runStep cfg k point = some (c, calls)) :
    Section cfg t s .run (s.setControl c) calls

theorem section_of_join {c : EntryControl} {quiesced : Bool}
    (h : s.toEntryControl.join t = some c) :
    Section cfg t s (.join quiesced)
      { s.setControl c with reported := s.reported || quiesced } [] := by
  simp only [EntryControl.join] at h
  split at h
  · cases h
    exact .joinNobody (.inl rfl)
  · next hw =>
    cases h
    exact .joinNobody (.inr (by rw [hw]; rfl))
  · next hw =>
    cases h
    exact .joinNobody (.inr (by rw [hw]; rfl))
  · next hw =>
    cases h
    exact .join hw
  · cases h

/-- **Every section** is one of these. -/
theorem section_of_exec (h : s.exec cfg t f k = some (s', new)) : Section cfg t s f s' new := by
  cases f with
  | claim =>
    cases h
    exact .claim
  | start =>
    cases h
    exact .start
  | readNext =>
    simp only [exec] at h
    split_ifs at h <;> cases h
    · exact .readCancelled
    · exact .readNext k.expired
  | readOn =>
    cases h
    exact .readOn k.expired
  | terminate cause =>
    simp only [exec] at h
    split_ifs at h with hquiesced <;> cases h
    · exact .terminateQuiesced hquiesced
    · exact .terminate
  | cancelAll error todo =>
    cases todo <;> cases h
    · exact .cancelAllDone
    · exact .cancelAll
  | markAllNotNeeded todo =>
    cases todo <;> cases h
    · exact .markAllNotNeededDone
    · exact .markAllNotNeeded
  | quiesce unstarted =>
    cases h
    cases unstarted with
    | false => exact .quiesceLater
    | true => exact .quiesce
  | maybeNotifyTerminal =>
    -- the test and the setting of the flag are one section: what fails the test sets nothing
    simp only [exec] at h
    split_ifs at h with hpass <;> cases h
    · rw [Bool.and_eq_true, Bool.not_eq_true'] at hpass
      exact .notified hpass.1 hpass.2
    · exact .unnotified fun hquiet ↦ by simpa [hquiet] using hpass
  | onTerminal =>
    cases h
    exact .onTerminal
  | cancelAndJoin timedOut =>
    cases h
    exact .cancelAndJoin
  | awaitQuiesced =>
    simp only [exec] at h
    split_ifs at h with hquiet <;> cases h
    · exact .awaited hquiet
    · exact .unquiet
  | pollWaiting =>
    cases h
    split_ifs
    · exact .gaveUp
    · exact .pollWaiting
  | join quiesced =>
    obtain ⟨c, hjoin, heq⟩ := Option.map_eq_some_iff.mp h
    obtain ⟨rfl, rfl⟩ := Prod.mk.inj heq
    exact section_of_join hjoin
  | attachInput ref =>
    simp only [exec] at h
    split_ifs at h with href
    · split at h <;> cases h
      · exact .unattached
      · next i hattach => exact .attached href hattach
    · cases h
      exact .unattached
  | handlerAttached ref =>
    cases h
    exact .handlerAttached
  | serve ref =>
    simp only [exec] at h
    split at h <;> cases h
    · exact .served
    · exact .serveFailed
    · exact .serveThrew
  | detachInput ref =>
    cases h
    exact .detachInput
  | handlerDetached =>
    cases h
    exact .handlerDetached
  | failInput error =>
    cases h
    exact .failInput
  | run =>
    simp only [exec] at h
    split at h
    · next point hw =>
      obtain ⟨⟨c, calls⟩, hrun, heq⟩ := Option.map_eq_some_iff.mp h
      obtain ⟨rfl, rfl⟩ := Prod.mk.inj heq
      exact .run hw hrun
    · cases h

end ExecutionEntry

end MoSidecar
