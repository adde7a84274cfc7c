import PgAgmemory.System.Runs

/-! # The transaction boundary

What `TransactionBoundary` and the routes behind it decide by themselves: whose request it is, how long a
body may be, the program that the transaction runs, the response that a handler's result becomes, and
the error that each class of exceptions is answered with. When these decisions are taken is the matter
of the machine of a tenant. -/

namespace PgAgmemory

open Json (Value)

/-- The bytes of a body. -/
abbrev Bytes := List UInt8

/-- The UTF-8 bytes of a text. -/
def bytesOf (text : String) : Bytes := text.toUTF8.data.toList

/-! ## Exceptions -/

/-- A `MemoryError`: a code and the status that it is answered with. -/
structure MemoryError where
  code : String
  status : Nat
  deriving DecidableEq

/-- **The exceptions** that `TransactionBoundary` tells apart. -/
inductive Raised where
  /-- `jwt.InvalidTokenError`. -/
  | invalidToken
  | memory (error : MemoryError)
  /-- `psycopg.OperationalError`, `QueryCanceled`, `TimeoutError` or `TokenizerUnavailable`. -/
  | dependency
  /-- Any other `psycopg.Error`. -/
  | database
  /-- What no `except` clause catches. -/
  | other
  deriving DecidableEq

/-- The error that an exception is answered with; none when it leaves the boundary. -/
def Raised.error? : Raised → Option MemoryError
  | .invalidToken => some ⟨"unauthenticated", 401⟩
  | .memory error => some error
  | .dependency => some ⟨"dependency_unavailable", 503⟩
  | .database => some ⟨"database_error", 503⟩
  | .other => none

/-- Whether an exception can come from outside the service at any await: from the network, the
database or the event loop. -/
def Raised.interrupts : Raised → Bool
  | .dependency | .database | .other => true
  | _ => false

/-- The exception of a fault of the service. -/
def Fault.raised : Fault → Raised
  | .memory code => .memory ⟨code.str, code.status⟩
  | .database => .database
  | .unavailable => .dependency

/-- `MemoryError("unauthenticated", 401)`. -/
def MemoryError.unauthenticated : MemoryError := ⟨"unauthenticated", 401⟩

/-- `MemoryError("body_too_large", 413)`. -/
def MemoryError.bodyTooLarge : MemoryError := ⟨"body_too_large", 413⟩

/-! ## Messages -/

/-- What the server sends for one request. -/
inductive Message where
  | start (status : Nat) (headers : List (String × String))
  | body (content : Bytes)
  deriving DecidableEq

/-- A JSON response of the application. -/
structure Reply where
  status : Nat
  content : Bytes

/-- The messages of a response, as `buffered_send` keeps them. -/
def Reply.messages (reply : Reply) (requestId : UUID) : List Message :=
  [.start reply.status [("content-type", "application/json"), ("x-request-id", requestId.str),
    ("cache-control", "no-store")], .body reply.content]

/-- `ErrorBody`, without details. -/
structure ErrorBody where
  code : String
  requestId : String
  retryable : Bool

/-- The JSON of an error. -/
def ErrorBody.dump (e : ErrorBody) : Value :=
  .obj [("code", .text e.code), ("request_id", .text e.requestId), ("retryable", .bool e.retryable),
    ("details", .obj [])]

/-- The messages of an error that the boundary answers. -/
def MemoryError.messages (error : MemoryError) (requestId : UUID) : List Message :=
  [.start error.status ([("x-request-id", requestId.str), ("cache-control", "no-store")]
      ++ (if error.status = 401 then [("www-authenticate", "Bearer")] else [])
      ++ [("content-type", "application/json")]),
    .body (bytesOf (compactText
      (ErrorBody.dump ⟨error.code, requestId.str, decide (error.status = 503)⟩)))]

/-- `validation_error`: the response to a body that is no request. -/
def validationReply (malformed : Bool) (requestId : UUID) : Reply where
  status := if malformed then 400 else 422
  content := bytesOf (compactText (ErrorBody.dump
    ⟨if malformed then "malformed_json" else "invalid_request", requestId.str, false⟩))

/-! ## Requests -/

/-- A request as it arrives: its identifier, its path, and its `Authorization` and `Idempotency-Key`
headers. -/
structure Incoming where
  requestId : UUID
  path : String
  authorization : String
  idempotencyKey : Option String

/-- The subject of a request, if its token is good: a bearer token of bounded length whose verified
claims name a subject of bounded length. -/
def Incoming.subject? (verify : String → Option String) (incoming : Incoming) : Option String :=
  if incoming.authorization.startsWith "Bearer " && decide (incoming.authorization.length ≤ 16384) then
    (verify (incoming.authorization.drop 7).copy).filter fun subject =>
      decide (1 ≤ subject.length) && decide (subject.length ≤ 256)
  else none

/-- The length that a body may have. -/
def Incoming.limit (incoming : Incoming) : Nat :=
  if incoming.path = "/v1/checkpoints" then 1024 * 1024 else 256 * 1024

/-- The status of a route's response; the worker's operations have no route. -/
def Request.successStatus : Request → Option Nat
  | .observe _ _ | .remember _ _ | .reviseAssertion _ _ _ | .capture _ _ | .captureBatch _ _
  | .createEntity _ _ | .createRelation _ _ | .reviseRelation _ _ _ | .createCheckpoint _ _
  | .restoreCheckpoint _ _ | .plan _ _ | .transition _ _ _ | .putEmbedding _ _ => some 201
  | .enqueue _ _ _ | .forget _ _ => some 202
  | .cancel _ _ _ | .«recall» _ | .explain _ | .entity _ | .expand _ | .checkpoint _
  | .checkpointHead _ | .job _ | .effect _ | .query _ => some 200
  | .claim _ | .heartbeat _ _ | .publish _ _ _ | .fail _ _ _ _ => none

/-- Outside functions of the application. -/
structure Application where
  platform : Platform
  /-- `jwt.decode`: the subject of a token that verifies. -/
  verify : String → Option String
  /-- The routes' validation: the request of a path, an `Idempotency-Key` and a body, or whether the body is
  no JSON. -/
  parse : String → Option String → Bytes → Except Bool Request
  /-- The JSON of a response by its model, if it fits the model. -/
  render : Response → Option Bytes

/-- What a transaction ends with. -/
inductive Served where
  /-- The body was no request. -/
  | refused (reply : Reply)
  /-- The response did not fit its model. -/
  | unserialisable
  /-- The response of a handler, and what is sent. -/
  | answered (request : Request) (response : Response) (reply : Option Reply)

/-- The response that a handler's result becomes. -/
def Application.served (app : Application) (request : Request) (response : Response) : Served :=
  match request.successStatus, app.render response with
  | some status, some content => .answered request response (some ⟨status, content⟩)
  | _, _ => .unserialisable

/-- **The transaction of an HTTP request**: the principal is bound, and the application handles the
body. -/
def Application.serve (app : Application) (incoming : Incoming) (body : Bytes) : Tx Served := do
  MemoryService.bindIdentity
  match app.parse incoming.path incoming.idempotencyKey body with
  | .error malformed => pure (.refused (validationReply malformed incoming.requestId))
  | .ok request => do
    let response ← request.body app.platform
    pure (app.served request response)

/-- **The transaction of a worker** (`job_transaction`). -/
def Application.work (app : Application) (request : Request) : Tx Served := do
  MemoryService.bindIdentity
  let response ← request.body app.platform
  pure (.answered request response none)

/-! ## Statuses -/

/-- Domain errors are client errors. -/
theorem ErrorCode.status_bounds (code : ErrorCode) : 400 ≤ code.status ∧ code.status < 500 := by
  cases code <;> exact ⟨by decide, by decide⟩

/-- No error is answered with success. -/
theorem Fault.error?_status {fault : Fault} {error : MemoryError}
    (h : fault.raised.error? = some error) : 400 ≤ error.status := by
  cases fault with
  | memory code =>
    cases h
    exact code.status_bounds.1
  | database => cases h; decide
  | unavailable => cases h; decide

/-- Responses are successes. -/
theorem Request.successStatus_bounds {request : Request} {status : Nat}
    (h : request.successStatus = some status) : 200 ≤ status ∧ status < 300 := by
  cases request <;> cases h <;> exact ⟨by decide, by decide⟩

/-- The response to what is no request is a client error. -/
theorem validationReply_status (malformed : Bool) (requestId : UUID) :
    400 ≤ (validationReply malformed requestId).status
      ∧ (validationReply malformed requestId).status < 500 := by
  cases malformed with
  | false => exact ⟨show 400 ≤ 422 by decide, show 422 < 500 by decide⟩
  | true => exact ⟨show 400 ≤ 400 by decide, show 400 < 500 by decide⟩

end PgAgmemory
