import MoSidecar.Execution.ResultBatch
import MoSidecar.Machine.Threads
import MoSidecar.StreamInput.Slot

/-!
# An execution

`execution_entry` is shared by the threads of the server — the reader of the result, the handlers
of uploads, cancellations, the reaper — and by the worker it starts itself. Every function of the
class is cut into its critical sections, each a step of a thread; the flags, the frame slot and the
worker are the shared state, and what a thread has still to do is its call stack.

## What stands for what

* Threads are `Option ι`: the worker is `none`, any number of server threads are `some i`.
* `run` holds one frame at the bottom of the worker's stack. Its program point is kept in the shared
  state, since other threads' invariants speak about it.
* `cancel` and `fail_gpu_unavailable` are one function of the cause.
* `run_batches` calls the callback for the batches of the query in turn. Between two calls it may
  throw; it returns when all batches were consumed, or in any way it likes after the callback has
  asked it to stop. That the plan is cancelled and the connection interrupted has no effect of its
  own here: it makes `run_batches` throw, which it may do at any time.
* What a section asks the outside — clocks, contexts, the handler's client — is the answer that
  labels its step.
-/

namespace MoSidecar

/-- Why an execution is ended from outside. -/
inductive Cause where
  | cancelled
  | timedOut
  | gpuUnavailable
  deriving DecidableEq

namespace Cause

/-- The status the execution ends with. -/
def status : Cause → ArrowError
  | .cancelled => flightError .cancelled "sidecar execution was cancelled" "CANCELLED"
  | .timedOut => flightError .timedOut "sidecar execution deadline expired" "DEADLINE_EXCEEDED"
  | .gpuUnavailable =>
    flightError .unavailable "sidecar GPU generation is unavailable" "GPU_DEVICE_UNAVAILABLE"

/-- The error its inputs are cancelled with. -/
def inputError : Cause → String
  | .cancelled => "sidecar execution was cancelled"
  | .timedOut => "sidecar execution deadline expired"
  | .gpuUnavailable => "sidecar GPU generation is unavailable"

end Cause

/-- `execution_outcome`. -/
inductive ExecutionOutcome where
  | succeeded | cancelled | failed
  deriving DecidableEq

/-- The program points of `run`, with `consume_batch` and `publish` inlined. -/
inductive RunPoint where
  /-- In `run_batches`, before the callback for a batch. -/
  | batches (next : ℕ)
  /-- In `consume_batch`, before the look at the deadline. -/
  | consuming (batch : ℕ)
  /-- In `consume_batch`, within a call of `cancel(true)` that has not taken the mutex yet. -/
  | expiring
  /-- At the head of the loop over the rows of a batch. -/
  | encoding (batch : ℕ) (encoder : ResultEncoder) (offset : ℕ)
  /-- In the first wait of `publish`. -/
  | publishing (batch : ℕ) (encoder : ResultEncoder) (frame : ResultFrame)
  /-- In the second wait of `publish`. -/
  | published (batch : ℕ) (encoder : ResultEncoder) (offset : ℕ)
  /-- In `run_batches`, after the callback has answered `CANCEL`. -/
  | stopped
  /-- Before `finish`. -/
  | finishing (status : Option ArrowError) (outcome : ExecutionOutcome)
  /-- Past the critical section of `finish`. -/
  | leaving

/-- `worker_`. -/
inductive WorkerThread where
  | absent
  /-- Created, and not in `run` yet. -/
  | created
  | running (point : RunPoint)
  /-- Returned from `run`, and not joined yet. -/
  | exited
  | joined

/-- `worker_.joinable()`. -/
def WorkerThread.joinable : WorkerThread → Bool
  | .absent | .joined => false
  | _ => true

/-- What `read_next` returns. -/
inductive ReadResult where
  | frame (frame : ResultFrame)
  /-- No frame, and the status: none is OK. -/
  | ended (status : Option ArrowError)
  deriving DecidableEq

/-- The control state of an execution: its flags, the frame slot and the worker, with what became of
them so far. -/
structure EntryControl where
  frame : Option ResultFrame := none
  sequence : UInt64 := 0
  terminalStatus : Option ArrowError := none
  claimed : Bool := false
  terminal : Bool := false
  quiesced : Bool := false
  terminalNotified : Bool := false
  worker : WorkerThread := .absent
  /-- How often `claim` succeeded. -/
  claims : ℕ := 0
  /-- How many workers were created. -/
  workers : ℕ := 0
  /-- What `read_next` returned. -/
  reads : List ReadResult := []
  /-- Whether `run_batches` returned after all batches were consumed. -/
  completed : Bool := false

/-- `execution_entry`, as far as its threads share it. -/
structure ExecutionEntry extends EntryControl where
  /-- `stream_inputs_`, by reference. -/
  input : Bytes → StreamInput := fun _ ↦ {}
  activeHandlers : ℕ := 0
  /-- How often the terminal callback was invoked. -/
  notifications : ℕ := 0
  /-- Whether a test for quiescence, of `maybe_notify_terminal` or of `cancel_and_join`, passed. -/
  checked : Bool := false
  /-- Whether the terminal callback was invoked or `cancel_and_join` returned true. -/
  reported : Bool := false
  /-- Whether a handler attached after that. -/
  lateAttach : Bool := false

/-- What an execution is created with. -/
structure ExecutionConfig where
  maxBatchBytes : ℕ
  /-- The references of its inputs, in the order of the map that holds them. -/
  inputRefs : List Bytes
  /-- The result batches, each as the encoder its callback makes of it. -/
  batches : List (Except Thrown ResultEncoder)

/-- The calls of an execution, each at the program point where its thread takes it up again. -/
inductive EntryCall where
  | claim
  | start
  | readNext
  /-- `read_next`, after the call of `cancel` for a client that is gone. -/
  | readOn
  /-- `cancel` or `fail_gpu_unavailable`. -/
  | terminate (cause : Cause)
  /-- `cancel_all`, with the inputs that are left. -/
  | cancelAll (error : String) (todo : List Bytes)
  /-- `mark_all_not_needed`, with the inputs that are left. -/
  | markAllNotNeeded (todo : List Bytes)
  /-- The end of `terminate`. -/
  | quiesce (unstarted : Bool)
  | maybeNotifyTerminal
  /-- The terminal callback. -/
  | onTerminal
  | cancelAndJoin (timedOut : Bool)
  /-- The loop condition of `cancel_and_join`. -/
  | awaitQuiesced
  /-- The loop body of `cancel_and_join`. -/
  | pollWaiting
  /-- `join`, as the end of `cancel_and_join` or alone. -/
  | join (quiesced : Bool)
  | attachInput (ref : Bytes)
  /-- `attach_input`, past `attach`. -/
  | handlerAttached (ref : Bytes)
  /-- The handler of an upload, from one end of `attach_input` to the other of `detach_input`. -/
  | serve (ref : Bytes)
  | detachInput (ref : Bytes)
  /-- `detach_input`, past `detach`. -/
  | handlerDetached
  | failInput (error : String)
  | run
  deriving DecidableEq

/-- `cancel`. -/
def EntryCall.cancel (timedOut : Bool) : EntryCall :=
  .terminate (if timedOut then .timedOut else .cancelled)

/-- `fail_gpu_unavailable`. -/
def EntryCall.failGpuUnavailable : EntryCall := .terminate .gpuUnavailable

/-- What `run_batches` does next. -/
inductive BatchesStep where
  | callback
  | returns
  | throws (what : Thrown)
  deriving DecidableEq

/-- How a handler's work on an upload ends. -/
inductive HandlerEnd where
  | finished
  | failed (error : String)
  | threw (error : String)
  deriving DecidableEq

/-- What a section learns from outside. -/
structure EntryAnswer where
  /-- `context.is_cancelled()` or `stop_waiting()`. -/
  stopped : Bool := false
  /-- Whether the deadline has passed. -/
  expired : Bool := false
  batches : BatchesStep := .callback
  /-- Whether the fatal callback fails this execution. -/
  seals : Bool := false
  ending : HandlerEnd := .finished
  deriving DecidableEq

/-- The traffic on an input that concerns its slot only. -/
inductive InputTraffic where
  | publish (b : NativeBatchView)
  | publishSlot (b : NativeBatchView)
  | endOfUpload
  | nextBatch
  | markConsumed (sequence : UInt64)
  deriving DecidableEq

/-! ## Sections of the control state -/

namespace EntryControl

variable (cfg : ExecutionConfig) (c : EntryControl)

/-- `claim`. -/
def claim : EntryControl :=
  if c.claimed || c.terminal then c else { c with claimed := true, claims := c.claims + 1 }

/-- `start`. -/
def start : EntryControl :=
  if !c.claimed || c.worker.joinable || c.terminal then c
  else { c with worker := .created, workers := c.workers + 1 }

/-- `read_next`, from the look at the slot. -/
def readSlot (expired : Bool) : EntryControl × List EntryCall :=
  match c.frame with
  | some f => ({ c with frame := none, reads := c.reads ++ [.frame f] }, [])
  | none =>
    if c.terminal then ({ c with reads := c.reads ++ [.ended c.terminalStatus] }, [])
    else (c, if expired then [.cancel true, .readNext] else [.readNext])

/-- The first section of `cancel` and `fail_gpu_unavailable`, on an execution that is not quiesced
yet. -/
def terminate (cause : Cause) : EntryControl :=
  if c.terminal then c
  else { c with terminal := true, terminalStatus := some cause.status, frame := none }

/-- The last section of `cancel` and `fail_gpu_unavailable`. -/
def quiesce (unstarted : Bool) : EntryControl :=
  if unstarted then { c with quiesced := true } else c

/-- A worker that has called `cancel(true)` for the deadline goes on to answer `CANCEL`. -/
def cancelTaken {ι : Type*} (t : Option ι) : EntryControl :=
  match t, c.worker with
  | none, .running .expiring => { c with worker := .running .stopped }
  | _, _ => c

/-- `join`: blocked while the worker runs, without effect on the worker's own thread. -/
def join {ι : Type*} (t : Option ι) : Option EntryControl :=
  match t, c.worker with
  | none, _ | some _, .absent | some _, .joined => some c
  | some _, .exited => some { c with worker := .joined }
  | some _, _ => none

/-- Move the worker within `run`. -/
def goto (point : RunPoint) : EntryControl := { c with worker := .running point }

/-- The section of `finish`. -/
def finish (status : Option ArrowError) : EntryControl :=
  if c.terminal then { c.goto .leaving with quiesced := true }
  else { c.goto .leaving with terminal := true, terminalStatus := status, quiesced := true }

/-- The handlers of `run`: the status and the outcome for what was thrown. -/
def caught : Thrown → ArrowError × ExecutionOutcome
  | .substrait code what =>
    (substraitError code what, if code = .cancelled then .cancelled else .failed)
  | .invalidArgument what | .exception what =>
    (flightError .internal ("sidecar result streaming failed: " ++ what) "EXECUTION_FAILED",
      .failed)
  | .unknown =>
    (flightError .internal "sidecar result streaming failed" "EXECUTION_FAILED", .failed)

/-- Whether `on_fatal_` is called for what was thrown. -/
def isFatal : Thrown → Bool
  | .substrait code _ => code == .gpuDeviceUnavailable
  | _ => false

/-- An exception reaches the handlers of `run`. The fatal callback may call back into this
execution. -/
def catchThrown (what : Thrown) (seals : Bool) : EntryControl × List EntryCall :=
  (c.goto (.finishing (some (caught what).1) (caught what).2),
    if isFatal what && seals then [.failGpuUnavailable, .run] else [.run])

/-- The inputs after `finish`. -/
def releaseInputs : ExecutionOutcome → EntryCall
  | .succeeded => .markAllNotNeeded cfg.inputRefs
  | _ => .cancelAll "sidecar execution terminated" cfg.inputRefs

/-- The next step of `run`. The sequence counts the frames that were made; a frame that failed to
be serialized ends the run, and its number is not used again. -/
def runStep (k : EntryAnswer) : RunPoint → Option (EntryControl × List EntryCall)
  | .batches next =>
    match k.batches with
    | .callback =>
      if next < cfg.batches.length then some (c.goto (.consuming next), [.run]) else none
    | .returns =>
      if next = cfg.batches.length then
        some ({ c.goto (.finishing none .succeeded) with completed := true }, [.run])
      else none
    | .throws what => some (c.catchThrown what k.seals)
  | .consuming batch =>
    if k.expired then some (c.goto .expiring, [.cancel true, .run])
    else
      match cfg.batches[batch]? with
      | some (.ok encoder) => some (c.goto (.encoding batch encoder 0), [.run])
      | some (.error what) => some (c.catchThrown what k.seals)
      | none => none
  -- not on top of the stack before `cancel(true)` has moved the worker on
  | .expiring => none
  | .encoding batch encoder offset =>
    if offset < encoder.rows then
      match nextFrame encoder cfg.maxBatchBytes (c.sequence + 1) batch offset with
      | .error what => some (c.catchThrown what k.seals)
      | .ok f =>
        some ({ c.goto (.publishing batch encoder f) with sequence := c.sequence + 1 }, [.run])
    else some (c.goto (.batches (batch + 1)), [.run])
  | .publishing batch encoder f =>
    if c.terminal then some (c.goto .stopped, [.run])
    else if c.frame.isSome then none
    else
      some ({ c.goto (.published batch encoder (f.range.offset + f.range.rows)) with
        frame := some f }, [.run])
  | .published batch encoder offset =>
    if c.terminal then some (c.goto .stopped, [.run])
    else if c.frame.isSome then none
    else some (c.goto (.encoding batch encoder offset), [.run])
  | .stopped =>
    match k.batches with
    | .callback => none
    | .returns => some (c.goto (.finishing none .succeeded), [.run])
    | .throws what => some (c.catchThrown what k.seals)
  | .finishing status outcome =>
    some (c.finish status, [releaseInputs cfg outcome, .maybeNotifyTerminal, .run])
  | .leaving => some ({ c with worker := .exited }, [])

end EntryControl

/-! ## The program -/

namespace ExecutionEntry

variable (cfg : ExecutionConfig) (s : ExecutionEntry)

/-- The test for quiescence. -/
def isQuiet : Bool := s.quiesced && s.activeHandlers == 0

/-- Change the control state. -/
def setControl (c : EntryControl) : ExecutionEntry := { s with toEntryControl := c }

/-- Change one input. -/
def setInput (ref : Bytes) (i : StreamInput) : ExecutionEntry :=
  { s with input := Function.update s.input ref i }

/-- The functions a thread may enter: the worker `run`, once it was created, and the server's
threads the others. -/
def call {ι : Type*} (t : Option ι) (f : EntryCall) : Option ExecutionEntry :=
  match t with
  | none =>
    match f, s.worker with
    | .run, .created => some (s.setControl (s.goto (.batches 0)))
    | _, _ => none
  | some _ =>
    match f with
    | .claim | .start | .readNext | .terminate _ | .cancelAndJoin _ | .join false
    | .attachInput _ => some s
    | _ => none

/-- The next section of a call. -/
def exec {ι : Type*} (t : Option ι) (f : EntryCall) (k : EntryAnswer) :
    Option (ExecutionEntry × List EntryCall) :=
  match f with
  | .claim => some (s.setControl s.claim, [])
  | .start => some (s.setControl s.start, [])
  | .readNext =>
    if k.stopped && !s.terminal then some (s, [.cancel false, .readOn])
    else some (s.setControl (s.readSlot k.expired).1, (s.readSlot k.expired).2)
  | .readOn => some (s.setControl (s.readSlot k.expired).1, (s.readSlot k.expired).2)
  | .terminate cause =>
    if s.quiesced then some (s.setControl (s.cancelTaken t), [])
    else some (s.setControl ((s.cancelTaken t).terminate cause),
      [.cancelAll cause.inputError cfg.inputRefs, .quiesce (!s.worker.joinable)])
  | .cancelAll error todo =>
    match todo with
    | [] => some (s, [])
    | ref :: todo => some (s.setInput ref ((s.input ref).cancel error), [.cancelAll error todo])
  | .markAllNotNeeded todo =>
    match todo with
    | [] => some (s, [])
    | ref :: todo => some (s.setInput ref (s.input ref).markNotNeeded, [.markAllNotNeeded todo])
  | .quiesce unstarted => some (s.setControl (s.quiesce unstarted), [.maybeNotifyTerminal])
  | .maybeNotifyTerminal =>
    if s.isQuiet && !s.terminalNotified then
      some ({ s with terminalNotified := true, checked := true }, [.onTerminal])
    else some (s, [])
  | .onTerminal =>
    some ({ s with notifications := s.notifications + 1, reported := true }, [])
  | .cancelAndJoin timedOut => some (s, [.cancel timedOut, .awaitQuiesced])
  | .awaitQuiesced =>
    if s.isQuiet then some ({ s with checked := true }, [.join true])
    else some (s, [.pollWaiting])
  | .pollWaiting => some (s, if k.stopped || k.expired then [] else [.awaitQuiesced])
  | .join quiesced =>
    (s.toEntryControl.join t).map fun c ↦
      ({ s.setControl c with reported := s.reported || quiesced }, [])
  | .attachInput ref =>
    if ref ∈ cfg.inputRefs then
      match (s.input ref).attach with
      | .error _ => some (s, [])
      | .ok i =>
        some ({ s.setInput ref i with lateAttach := s.lateAttach || s.reported },
          [.handlerAttached ref])
    else some (s, [])
  | .handlerAttached ref =>
    some ({ s with activeHandlers := s.activeHandlers + 1 }, [.serve ref])
  | .serve ref =>
    match k.ending with
    | .finished => some (s, [.detachInput ref])
    | .failed error => some (s, [.failInput error, .detachInput ref])
    | .threw error => some (s, [.detachInput ref, .failInput error])
  | .detachInput ref => some (s.setInput ref (s.input ref).detach, [.handlerDetached])
  | .handlerDetached =>
    some ({ s with activeHandlers := s.activeHandlers - 1 }, [.maybeNotifyTerminal])
  | .failInput error => some (s, [.cancelAll error cfg.inputRefs, .cancel false])
  | .run =>
    match s.worker with
    | .running point =>
      (s.runStep cfg k point).map fun r ↦ (s.setControl r.1, r.2)
    | _ => none

/-- The effect of traffic on an input. -/
def traffic (i : StreamInput) : InputTraffic → Option StreamInput
  | .publish b => some (i.publish b).1
  | .publishSlot b => some (i.publishSlot b).1
  | .endOfUpload => some i.endOfUpload
  | .nextBatch => i.nextBatch.map Prod.fst
  | .markConsumed sequence => some (i.markConsumed sequence)

/-- An execution and its threads as a program. -/
def program (ι : Type*) :
    Program ExecutionEntry (Option ι) EntryCall EntryAnswer (Bytes × InputTraffic) where
  call s t f := s.call t f
  exec s t f k := s.exec cfg t f k
  ambient s a := (traffic (s.input a.1) a.2).map (s.setInput a.1)

/-- A new execution, with no thread in it. -/
def init (ι : Type*) : Threads ExecutionEntry (Option ι) EntryCall := ⟨{}, fun _ ↦ []⟩

end ExecutionEntry

end MoSidecar
