import PgAgmemory.Delivery.Boundary

/-! # The native client

`NativeHTTPClient`: a request is serialised, sent and awaited, and every way in which that may go wrong
becomes an `AdapterError`, which says whether the outcome of a mutation is unknown. What comes back from
the network is an `Arrival`; the JSON library and the response models are parameters. -/

namespace PgAgmemory

open Json (Value)

/-- `AdapterError`. -/
structure AdapterError where
  code : String
  retryable : Bool := false
  outcomeUnknown : Bool := false
  nativeStatus : Option Nat := none
  requestId : Option UUID := none
  deriving DecidableEq

/-- **What the network hands to the client**: a failure of the transport or of the deadline, or a status
and headers with the parts of a body, after which the transport may still fail. -/
inductive Arrival where
  | broken
  | response (status : Nat) (headers : List (String × String)) (parts : List Bytes) (complete : Bool)

/-- Outside functions of the client. -/
structure Decoding where
  /-- `json.loads`. -/
  loads : Bytes → Option Value
  /-- `ErrorBody.model_validate`. -/
  errorBody : Value → Option ErrorBody
  /-- `UUID`. -/
  uuid : String → Option UUID

/-- The largest response. -/
def maxResponseBytes : Nat := 2 * 1024 * 1024

/-- The largest request, but for a checkpoint. -/
def maxRequestBytes : Nat := 262144

/-- A header of a response; the client joins the values of repeated ones. -/
def header (headers : List (String × String)) (name default : String) : String :=
  match (headers.filter fun h => h.1.toLower = name).map Prod.snd with
  | [] => default
  | values => ", ".intercalate values

/-- The media type of a response. -/
def mediaType (headers : List (String × String)) : String :=
  String.ofList ((header headers "content-type" "").toList.takeWhile (· ≠ ';'))

/-- The parts of a body, up to the largest response. -/
def collect (content : Bytes) : List Bytes → Option Bytes
  | [] => some content
  | part :: parts =>
    if maxResponseBytes < (content ++ part).length then none else collect (content ++ part) parts

/-- A body that is collected is all of its parts. -/
theorem collect_eq_some {content result : Bytes} {parts : List Bytes}
    (h : collect content parts = some result) : result = content ++ parts.flatten := by
  induction parts generalizing content with
  | nil =>
    rw [List.flatten_nil, List.append_nil]
    exact (Option.some.inj h).symm
  | cons part parts ih =>
    unfold collect at h
    split at h
    next => cases h
    next => rw [ih h, List.flatten_cons, List.append_assoc]

namespace NativeHTTPClient

variable (decoding : Decoding) (safeCodes : List String)

/-- `failure("invalid_native_response", unknown=mutation)`. -/
def invalidResponse (mutation : Bool) : AdapterError :=
  { code := "invalid_native_response", outcomeUnknown := mutation }

/-- The error of a response that is no success. -/
def nativeFailure (mutation : Bool) (status : Nat) (payload : Value) : AdapterError :=
  match (decoding.errorBody payload).bind fun native =>
      (decoding.uuid native.requestId).map (native, ·) with
  | none => { invalidResponse mutation with nativeStatus := some status }
  | some (native, requestId) =>
    { code := if safeCodes.contains native.code then native.code else "native_api_error"
      retryable := decide (status = 429 ∨ status = 503)
      outcomeUnknown := mutation && decide (500 ≤ status)
      nativeStatus := some status
      requestId := some requestId }

/-- `exchange`: the status and the JSON of a success. -/
def exchange (mutation : Bool) : Arrival → Except AdapterError (Nat × Value)
  | .broken => .error { code := "native_api_unavailable", retryable := true, outcomeUnknown := mutation }
  | .response status headers parts complete =>
    if mediaType headers ≠ "application/json"
        ∨ header headers "content-encoding" "identity" ≠ "identity" then
      .error (invalidResponse mutation)
    else
      match collect [] parts with
      | none => .error (invalidResponse mutation)
      | some content =>
        if !complete then
          .error { code := "native_api_unavailable", retryable := true, outcomeUnknown := mutation }
        else
          match decoding.loads content with
          | none => .error (invalidResponse mutation)
          | some payload =>
            if 200 ≤ status ∧ status < 300 then .ok (status, payload)
            else .error (nativeFailure decoding safeCodes mutation status payload)

/-- A request that the client makes: the bytes of its model, if they are encodable, and what the client
expects. -/
structure Asked where
  /-- None when the model holds a lone surrogate. -/
  body : Option Bytes
  mutation : Bool
  expectedStatus : Nat
  maxBytes : Nat

/-- Whether a request is sent at all. -/
def Asked.sent (asked : Asked) : Bool := asked.body.any fun body => body.length ≤ asked.maxBytes

/-- `request`: the response of a success, by the model of the response. -/
def request {α : Type} (validate : Value → Option α) (asked : Asked) (arrival : Arrival) :
    Except AdapterError α :=
  match asked.body with
  | none => .error { code := "invalid_request" }
  | some body =>
    if asked.maxBytes < body.length then .error { code := "body_too_large" }
    else do
      let (status, payload) ← exchange decoding safeCodes asked.mutation arrival
      if status ≠ asked.expectedStatus then .error (invalidResponse asked.mutation)
      else
        match validate payload with
        | none => .error (invalidResponse asked.mutation)
        | some value => .ok value

end NativeHTTPClient

/-! ## The way back -/

/-- **What the transport may hand to the client** of what the server has sent so far: it may fail at any
point; a body is handed over in parts, and as complete only when it is; and a response that is no JSON
may come from elsewhere, from the server's own fallback or from a proxy. -/
def Carried (wire : List Message) : Arrival → Prop
  | .broken => True
  | .response status headers parts complete =>
    mediaType headers ≠ "application/json"
      ∨ ∃ rest, wire = .start status headers :: rest
        ∧ (complete = true → rest = [.body parts.flatten])

namespace NativeHTTPClient

variable {decoding : Decoding} {safeCodes : List String} {mutation : Bool} {arrival : Arrival}
  {wire : List Message}

/-- **A success was sent**, with its body. -/
theorem sent_of_exchange {status : Nat} {payload : Value}
    (h : exchange decoding safeCodes mutation arrival = .ok (status, payload))
    (hcarried : Carried wire arrival) :
    (200 ≤ status ∧ status < 300) ∧ ∃ headers content,
      wire = [.start status headers, .body content] ∧ decoding.loads content = some payload := by
  unfold exchange at h
  split at h
  next => cases h
  next status' headers parts complete =>
    split at h
    next => cases h
    next hjson =>
      split at h
      next => cases h
      next content hcollect =>
        cases complete with
        | false => cases h
        | true =>
          rw [if_neg (by decide)] at h
          split at h
          next => cases h
          next payload' hloads =>
            split at h
            next hsuccess =>
              cases h
              rcases hcarried with hforeign | ⟨rest, hwire, hcomplete⟩
              · exact absurd (Or.inl hforeign) hjson
              · rw [collect_eq_some hcollect, List.nil_append] at hloads
                exact ⟨hsuccess, headers, _, by rw [hwire, hcomplete rfl], hloads⟩
            next => cases h

/-- **A definite failure of a mutation** was a client error that the server sent. -/
theorem sent_of_failure {error : AdapterError}
    (h : exchange decoding safeCodes true arrival = .error error)
    (hdefinite : error.outcomeUnknown = false) (hcarried : Carried wire arrival) :
    ∃ status headers rest, wire = .start status headers :: rest ∧ status < 500
      ∧ ¬(200 ≤ status ∧ status < 300) := by
  unfold exchange at h
  split at h
  next => cases h; cases hdefinite
  next status headers parts complete =>
    split at h
    next => cases h; cases hdefinite
    next hjson =>
      split at h
      next => cases h; cases hdefinite
      next content hcollect =>
        cases complete with
        | false => cases h; cases hdefinite
        | true =>
          rw [if_neg (by decide)] at h
          split at h
          next => cases h; cases hdefinite
          next payload hloads =>
            split at h
            next => cases h
            next hfailure =>
              cases h
              rcases hcarried with hforeign | ⟨rest, hwire, -⟩
              · exact absurd (Or.inl hforeign) hjson
              · refine ⟨status, headers, rest, hwire, ?_, hfailure⟩
                unfold nativeFailure at hdefinite
                split at hdefinite
                next => cases hdefinite
                next => exact Nat.lt_of_not_le (of_decide_eq_false hdefinite)

end NativeHTTPClient

end PgAgmemory
