import MoSidecar.Machine.Run
import MoSidecar.StreamInput.Slot

/-!
# One upload

The handler `DoPut` of one upload, against the slot of its input. The handler moves through the
program points of `DoPut`; everybody else may act at any time: the scan through `next_batch` and
`mark_consumed` (here with any sequence whatever), the execution through `mark_not_needed` and
`cancel`, and the client by cancelling its call, which `stopped()` reports from then on.

The client's stream is a script of messages. The end of the script is the end of the stream, but a
cancelled call ends it early: `reader->Next()` then returns the same empty chunk.

The state also records what happened, in fields that no step reads.
-/

namespace MoSidecar

/-- `FlightStreamChunk`: whether Arrow data came with the message, and its metadata. -/
structure FlightStreamChunk where
  data : Bool := false
  appMetadata : Option Bytes
  deriving DecidableEq

/-- What `DoPut` takes from the execution it uploads to. -/
structure UploadConfig where
  /-- `max_input_batch_bytes`. -/
  maxInputBatchBytes : UInt64
  /-- `parse_native_batch_frame` followed by the constructor of `native_batch_view`. -/
  decode : Bytes → Except String NativeBatchView

/-- The program points of `DoPut`. -/
inductive DoPut where
  /-- Before `attach_input`. -/
  | attaching
  /-- An ack is built and not written yet; `last` if it is the one of `finish_upload`. -/
  | acking (ack : UploadInputAck) (last : Bool)
  /-- Before `reader->Next()`. -/
  | reading
  /-- Before the first section of `publish`. -/
  | publishing (b : NativeBatchView)
  /-- In the first loop of `publish`; `polled` once `stopped()` has answered no. -/
  | awaitingSlot (b : NativeBatchView) (polled : Bool)
  /-- In the second loop of `publish`. -/
  | awaitingRelease (b : NativeBatchView) (polled : Bool)
  /-- Before the first section of `finish_upload`. -/
  | finishing
  /-- In the loop of `finish_upload`. -/
  | awaitingEof (polled : Bool)
  /-- Before `fail_input`, with the status to return; `unwound` if an exception has already run the
  guard's destructor. -/
  | failing (error : String) (status : ArrowError) (unwound : Bool)
  /-- In the guard's destructor; on an exception `fail_input` is still to come. -/
  | detaching (status : Option ArrowError) (thrown : Option String)
  | returned (status : Option ArrowError)
  deriving DecidableEq

/-- What happened in an upload so far. -/
structure UploadHistory where
  /-- The frames given to `publish`. -/
  uploaded : List NativeBatchView := []
  /-- The frames `publish` put into the slot. -/
  accepted : List NativeBatchView := []
  /-- The frames a `mark_consumed` of their own sequence took out of the slot. -/
  released : List NativeBatchView := []
  /-- The frames `mark_not_needed` or `cancel` dropped from the slot. -/
  discarded : List NativeBatchView := []
  /-- The acks the client was sent. -/
  written : List UploadInputAck := []
  /-- Whether `stopped()` was true when `finish_upload` was called. -/
  stoppedAtFinish : Bool := false

/-- The state of an upload. -/
structure Upload extends UploadHistory where
  input : StreamInput := {}
  handler : DoPut := .attaching
  /-- The messages the client has still to send. -/
  pending : List FlightStreamChunk
  /-- `context.is_cancelled()`. -/
  stopped : Bool := false

/-- Who does what next. -/
inductive UploadStep where
  | attach
  /-- `WriteMetadata`, with the text of its failure if it fails. -/
  | writeAck (failure : Option String)
  /-- `reader->Next()` returns the client's next message, or the end of the stream. -/
  | read
  /-- `reader->Next()` returns the end of the stream because the call was cancelled. -/
  | readCancelled
  /-- `reader->Next()` fails. -/
  | readError (text : String)
  | publish
  /-- A waiting loop asks `stopped()`. -/
  | poll
  /-- A wait of a loop ends. -/
  | wake
  | finish
  | fail
  | detach
  /-- The client cancels the call. -/
  | cancelCall
  | nextBatch
  | markConsumed (sequence : UInt64)
  | markNotNeeded
  | cancel (error : String)
  deriving DecidableEq

namespace Upload

variable (cfg : UploadConfig)

/-- A new input, and a handler that is about to attach to it. -/
def init (script : List FlightStreamChunk) : Upload := { pending := script }

/-- The ack that says the handler is attached. -/
def readyAck : UploadInputAck := { ready := true }

/-- What `DoPut` does with a message. -/
def dispatch (chunk : FlightStreamChunk) : DoPut :=
  match chunk.appMetadata with
  | none =>
    if chunk.data then
      .failing "UploadInput accepts MO-native metadata frames only"
        (.invalid "UploadInput accepts MO-native metadata frames only") false
    else .finishing
  | some bytes =>
    if chunk.data then
      .failing "UploadInput accepts MO-native metadata frames only"
        (.invalid "UploadInput accepts MO-native metadata frames only") false
    else if bytes.length.toUInt64 > cfg.maxInputBatchBytes + kNativeBatchFrameHeaderBytes.toUInt64
    then
      .failing "MO native input frame exceeds the negotiated limit"
        (.invalid "MO native input frame exceeds the negotiated limit") false
    else
      match cfg.decode bytes with
      | .error what => .detaching (some (.invalid what)) (some what)
      | .ok b => .publishing b

/-- Where `DoPut` goes from a section of `publish`. -/
def afterPublish (b : NativeBatchView) : PublishOutcome → DoPut
  | .returned (.ok ack) => .acking ack false
  | .returned (.error e) => .failing e.toString e false
  | .awaitingSlot => .awaitingSlot b false
  | .awaitingRelease => .awaitingRelease b false

/-- Where `DoPut` goes from a section of `finish_upload`. -/
def afterFinish : Option (Except ArrowError UploadInputAck) → DoPut
  | none => .awaitingEof false
  | some (.ok ack) => .acking ack true
  | some (.error e) => .failing e.toString e false

/-- The frames a section of `publish` puts into the slot. -/
def placed (b : NativeBatchView) : PublishOutcome → List NativeBatchView
  | .awaitingRelease => [b]
  | _ => []

/-- Replace the input by one that was cancelled or is no longer needed. -/
def close (u : Upload) (s : StreamInput) : Upload :=
  { u with
    input := s
    discarded := u.discarded ++ (if s.batch.isNone then u.input.batch.toList else []) }

/-- A call of `mark_consumed`. -/
def consume (u : Upload) (sequence : UInt64) : Upload :=
  { u with
    input := u.input.markConsumed sequence
    released := u.released ++ (u.input.released sequence).toList }

/-- What a waiting loop does with the answer of `stopped()`. -/
def afterPoll (stopped : Bool) (waiting : DoPut) : DoPut :=
  if stopped then .failing StreamInput.stoppedStatus.toString StreamInput.stoppedStatus false
  else waiting

/-- The effect of a section of `publish` on an upload. -/
def published (u : Upload) (b : NativeBatchView) (r : StreamInput × PublishOutcome) : Upload :=
  { u with input := r.1, handler := afterPublish b r.2, accepted := u.accepted ++ placed b r.2 }

/-- One step of an upload. -/
def step (u : Upload) : UploadStep → Option Upload
  | .attach =>
    match u.handler with
    | .attaching =>
      match u.input.attach with
      | .ok s => some { u with input := s, handler := .acking readyAck false }
      | .error e => some { u with handler := .returned (some e) }
    | _ => none
  | .writeAck failure =>
    match u.handler, failure with
    | .acking ack last, none =>
      some { u with
        written := u.written ++ [ack]
        handler := if ack.complete || last then .detaching none none else .reading }
    | .acking _ last, some text =>
      some { u with
        handler :=
          if last then .detaching (some ⟨.transport, text⟩) none
          else .failing text ⟨.transport, text⟩ false }
    | _, _ => none
  | .read =>
    match u.handler with
    | .reading =>
      match u.pending with
      | [] => some { u with handler := .finishing }
      | chunk :: rest =>
        match dispatch cfg chunk with
        | .publishing b =>
          some { u with pending := rest, handler := .publishing b, uploaded := u.uploaded ++ [b] }
        | pc => some { u with pending := rest, handler := pc }
    | _ => none
  | .readCancelled =>
    match u.handler with
    | .reading => if u.stopped then some { u with handler := .finishing } else none
    | _ => none
  | .readError text =>
    match u.handler with
    | .reading => some { u with handler := .failing text ⟨.transport, text⟩ false }
    | _ => none
  | .publish =>
    match u.handler with
    | .publishing b => some (u.published b (u.input.publish b))
    | _ => none
  | .poll =>
    match u.handler with
    | .awaitingSlot b false =>
      some { u with handler := afterPoll u.stopped (.awaitingSlot b true) }
    | .awaitingRelease b false =>
      some { u with handler := afterPoll u.stopped (.awaitingRelease b true) }
    | .awaitingEof false => some { u with handler := afterPoll u.stopped (.awaitingEof true) }
    | _ => none
  | .wake =>
    match u.handler with
    | .awaitingSlot b true => some (u.published b (u.input.publishSlot b))
    | .awaitingRelease b true =>
      some { u with handler := afterPublish b u.input.publishRelease }
    | .awaitingEof true => some { u with handler := afterFinish u.input.finishWait }
    | _ => none
  | .finish =>
    match u.handler with
    | .finishing =>
      some { u with
        input := u.input.endOfUpload
        handler := afterFinish u.input.endOfUpload.finishWait
        stoppedAtFinish := u.stopped }
    | _ => none
  | .fail =>
    match u.handler with
    | .failing error status unwound =>
      some { u.close (u.input.cancel error) with
        handler := if unwound then .returned (some status) else .detaching (some status) none }
    | _ => none
  | .detach =>
    match u.handler with
    | .detaching (some status) (some what) =>
      some { u with input := u.input.detach, handler := .failing what status true }
    | .detaching status _ => some { u with input := u.input.detach, handler := .returned status }
    | _ => none
  | .cancelCall => some { u with stopped := true }
  | .nextBatch => u.input.nextBatch.map fun r ↦ { u with input := r.1 }
  | .markConsumed sequence => some (u.consume sequence)
  | .markNotNeeded => some (u.close u.input.markNotNeeded)
  | .cancel error => some (u.close (u.input.cancel error))

/-- The interleavings of an upload. -/
def machine : Machine Upload UploadStep := ⟨step cfg⟩

/-- The frames of a script that reach `publish`, if nothing stops the handler before. -/
def frames (script : List FlightStreamChunk) : List NativeBatchView :=
  script.filterMap fun chunk ↦
    match dispatch cfg chunk with
    | .publishing b => some b
    | _ => none

end Upload

end MoSidecar
