import MoSidecar.Config.Endpoint
import MoSidecar.Protocol.Serialization

/-!
# Calls of the read service

`call_read_service` posts a request to MatrixOne and collects the body of the response while it
arrives, in pieces that the transport cuts as it likes. A body may not be longer than 64 MiB, which
is checked before a piece is appended: so no more is ever held, and the subtraction in the check
does not wrap. What comes of a call depends on the whole body only, not on its pieces.
-/

namespace MoSidecar

/-- `max_response_bytes`. -/
def maxResponseBytes : ℕ := 64 * 1024 * 1024

/-- What is looked at of an HTTP response, besides the body. -/
structure ServiceResponse where
  status : ℤ
  contentType : Bytes
  deriving DecidableEq

/-- What a call of the read service meets with. -/
structure ServiceAnswer where
  /-- `client.is_valid()`. -/
  valid : Bool
  /-- The body, as it arrives. -/
  chunks : List Bytes
  /-- The response, if the transport has one once the body has been received. -/
  response : Option ServiceResponse

/-- The content receiver, over the pieces of a body: `response_body` and `response_too_large`. -/
def receive (responseBody : Bytes) : List Bytes → Bytes × Bool
  | [] => (responseBody, false)
  | data :: chunks =>
    if data.length > maxResponseBytes - responseBody.length then (responseBody, true)
    else receive (responseBody ++ data) chunks

/-- The content types that are accepted. -/
def isProtobuf (contentType : Bytes) : Bool :=
  contentType = ascii "application/x-protobuf" ||
    (ascii "application/x-protobuf;").isPrefixOf contentType

/-- `call_read_service`, past the body. -/
def checkResponse (responseBody : Bytes) : Option ServiceResponse → Except ReadError Bytes
  | none => .error (.readResolutionFailed "MatrixOne read service request failed")
  | some response =>
    if response.status = 401 ∨ response.status = 403 then
      .error (.authenticationFailed "MatrixOne rejected the sidecar workload identity")
    else if response.status ≠ 200 then
      .error (.readResolutionFailed
        ("MatrixOne read service returned HTTP " ++ toString response.status))
    else if !isProtobuf response.contentType then
      .error (.readResolutionFailed
        "MatrixOne read service returned an unexpected content type")
    else .ok responseBody

/-- `call_read_service`. -/
def callReadService (a : ServiceAnswer) : Except ReadError Bytes :=
  if !a.valid then
    .error (.readResolutionFailed "cannot initialize the MatrixOne mTLS client")
  else
    let (responseBody, responseTooLarge) := receive [] a.chunks
    if responseTooLarge then
      .error (.readResolutionFailed "MatrixOne read response exceeds 64 MiB")
    else checkResponse responseBody a.response

/-! ## The body -/

/-- What the receiver holds when the body has been received, or has turned out to be too large. -/
structure Received (body : Bytes) (r : Bytes × Bool) : Prop where
  held : r.1.length ≤ maxResponseBytes
  received : r.1 <+: body
  tooLarge : r.2 = true ↔ maxResponseBytes < body.length
  complete : r.2 = false → r.1 = body

/-- The induction is on the pieces to come; what is held is always within the limit. -/
theorem received_receive {responseBody : Bytes} (h : responseBody.length ≤ maxResponseBytes)
    (chunks : List Bytes) :
    Received (responseBody ++ chunks.flatten) (receive responseBody chunks) := by
  induction chunks generalizing responseBody with
  | nil =>
    rw [List.flatten_nil, List.append_nil]
    exact ⟨h, List.prefix_rfl, by simpa [receive] using h, fun _ ↦ rfl⟩
  | cons data chunks ih =>
    rw [receive]
    split_ifs with hlarge
    · refine ⟨h, List.prefix_append _ _, ?_, fun hno ↦ by cases hno⟩
      simp only [List.length_append, List.flatten_cons, true_iff]
      omega
    · have hfits : (responseBody ++ data).length ≤ maxResponseBytes := by
        rw [List.length_append]
        omega
      rw [List.flatten_cons, ← List.append_assoc]
      exact ih hfits

/-! ## Calls -/

theorem checkResponse_eq_ok {responseBody body : Bytes} {response : Option ServiceResponse} :
    checkResponse responseBody response = .ok body ↔ body = responseBody ∧
      ∃ r, response = some r ∧ r.status = 200 ∧ isProtobuf r.contentType = true := by
  cases response with
  | none => simp [checkResponse]
  | some r =>
    simp only [checkResponse, Option.some.injEq, exists_eq_left']
    by_cases hstatus : r.status = 200
    · by_cases htype : isProtobuf r.contentType = true
      · simp [hstatus, htype, eq_comm]
      · simp [hstatus, htype]
    · split_ifs <;> simp [hstatus]

/-- **What a call depends on**, besides the response: the body as a whole. -/
theorem callReadService_eq (a : ServiceAnswer) :
    callReadService a =
      if a.valid = false then
        .error (.readResolutionFailed "cannot initialize the MatrixOne mTLS client")
      else if maxResponseBytes < a.chunks.flatten.length then
        .error (.readResolutionFailed "MatrixOne read response exceeds 64 MiB")
      else checkResponse a.chunks.flatten a.response := by
  have hreceived : Received ([] ++ a.chunks.flatten) (receive [] a.chunks) :=
    received_receive (Nat.zero_le _) a.chunks
  rw [List.nil_append] at hreceived
  have hlarge := hreceived.tooLarge
  simp only [callReadService, Bool.not_eq_true', hlarge]
  split_ifs with hvalid hsize
  · rfl
  · rfl
  · rw [hreceived.complete (Bool.eq_false_iff.mpr fun h ↦ hsize (hlarge.mp h))]

/-- A body that is accepted is the one that arrived, and within the limit. -/
theorem callReadService_eq_ok {a : ServiceAnswer} {body : Bytes} :
    callReadService a = .ok body ↔ a.valid = true ∧ body = a.chunks.flatten ∧
      body.length ≤ maxResponseBytes ∧
        ∃ r, a.response = some r ∧ r.status = 200 ∧ isProtobuf r.contentType = true := by
  rw [callReadService_eq]
  split_ifs with hvalid hsize
  · simp [hvalid]
  · simp only [false_iff, not_and]
    rintro - rfl hfits
    omega
  · rw [checkResponse_eq_ok]
    simp only [Bool.not_eq_false] at hvalid
    rw [not_lt] at hsize
    constructor
    · rintro ⟨rfl, hresponse⟩
      exact ⟨hvalid, rfl, hsize, hresponse⟩
    · rintro ⟨-, rfl, -, hresponse⟩
      exact ⟨rfl, hresponse⟩

end MoSidecar
