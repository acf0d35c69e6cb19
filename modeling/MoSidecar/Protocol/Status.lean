import Mathlib

/-!
# Statuses and exceptions

Handlers of the sidecar answer with an `arrow::Status`; below them, code throws. Both are data here,
so that a failing path of the source is a value of the model and not a missing case. An
`arrow::Result` or a non-OK status is an `Except ArrowError`, a function that throws is an `Except`
over what it throws.

Message texts are the source's own. The one text the model cannot know is that of a transport
failure, which the transport supplies.
-/

namespace MoSidecar

/-- The codes a Flight error carries besides its message. -/
inductive FlightStatusCode where
  | failed | timedOut | cancelled | unauthorized | unavailable | internal
  deriving DecidableEq, Repr

/-- What kind of error an `arrow::Status` is. -/
inductive StatusCode where
  | invalid
  | keyError
  | cancelled
  /-- Made by `flight_error`, with its detail. -/
  | flight (code : FlightStatusCode) (detail : String)
  /-- A failure of the peer or of the transport, with its complete text as message. -/
  | transport
  deriving DecidableEq, Repr

/-- A non-OK `arrow::Status`. -/
structure ArrowError where
  code : StatusCode
  message : String
  deriving DecidableEq, Repr

namespace ArrowError

/-- `arrow::Status::Invalid`. -/
def invalid (message : String) : ArrowError := ⟨.invalid, message⟩

/-- `arrow::Status::KeyError`. -/
def keyError (message : String) : ArrowError := ⟨.keyError, message⟩

/-- `arrow::Status::Cancelled`. -/
def cancelled (message : String) : ArrowError := ⟨.cancelled, message⟩

/-- `Status::ToString`, for the statuses an upload can end with. -/
def toString (e : ArrowError) : String :=
  match e.code with
  | .invalid => "Invalid: " ++ e.message
  | .keyError => "Key error: " ++ e.message
  | .cancelled => "Cancelled: " ++ e.message
  | .flight _ _ | .transport => e.message

end ArrowError

/-- `flight_error`. -/
def flightError (code : FlightStatusCode) (message : String) (detail : String := "") : ArrowError :=
  ⟨.flight code detail, message⟩

/-- `sirius::offload::substrait_error_code`. -/
inductive SubstraitErrorCode where
  | unsupportedPlan | invalidPlan | authenticationFailed | readResolutionFailed | cancelled
  | executionFailed | gpuDeviceUnavailable
  deriving DecidableEq, Repr

/-- What the code below a handler can throw, as its handlers tell it apart. -/
inductive Thrown where
  | substrait (code : SubstraitErrorCode) (what : String)
  | invalidArgument (what : String)
  /-- Any other `std::exception`. -/
  | exception (what : String)
  /-- Something that is no `std::exception`. -/
  | unknown
  deriving DecidableEq, Repr

/-- `substrait_error`. -/
def substraitError (code : SubstraitErrorCode) (what : String) : ArrowError :=
  match code with
  | .unsupportedPlan => flightError .failed what "UNSUPPORTED_PLAN"
  | .invalidPlan => .invalid what
  | .authenticationFailed => flightError .unauthorized what "AUTHENTICATION_FAILED"
  | .readResolutionFailed => flightError .unavailable what "READ_RESOLUTION_FAILED"
  | .cancelled => flightError .cancelled what "CANCELLED"
  | .executionFailed => flightError .internal what "EXECUTION_FAILED"
  | .gpuDeviceUnavailable => flightError .unavailable what "GPU_DEVICE_UNAVAILABLE"

end MoSidecar
