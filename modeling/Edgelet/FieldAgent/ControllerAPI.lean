import Edgelet.Lexical.Text
import Mathlib.Data.Nat.Notation

/-!
# Requests to the controller and their errors

A request makes up to four attempts, each of which meets an `Exchange`. An error is a text, a
`ControllerAPIError` for the two statuses whose body is read as JSON, or one of these with a label
before it.
-/

namespace Edgelet.FieldAgent

open Lexical

/-! ## Errors -/

structure ControllerAPIError where
  statusCode : ℕ
  errorKind : Str
  code : Str
  message : Str
  retryable : Bool
  body : Str
  legacy : Bool

structure Payload where
  error : Str
  code : Str
  message : Str
  retryable : Option Bool
  name : Str

def decimal (n : ℕ) : Str := (Nat.repr n).toList

def statusUnauthorized : ℕ := 401

def statusServiceUnavailable : ℕ := 503

def ControllerAPIError.error (e : ControllerAPIError) : Str :=
  let head := "controller API error: status ".toList ++ decimal e.statusCode
  if e.message ≠ [] then head ++ ": ".toList ++ e.message
  else if e.code ≠ [] then head ++ ": ".toList ++ e.code
  else if e.body ≠ [] then head ++ ": ".toList ++ e.body
  else head

variable (unmarshal : Str → Option Payload) (status : ℕ) (body : Str)

def parseControllerAPIError : ControllerAPIError :=
  let body := trimSpace body
  let plain : ControllerAPIError :=
    { statusCode := status, errorKind := [], code := [], message := [], retryable := false,
      body := body, legacy := false }
  if body ≠ [] then
    match unmarshal body with
    | none => plain
    | some p =>
      let legacy := p.name ≠ [] && p.code = [] && p.retryable.isNone
      { statusCode := status
        errorKind := if legacy && p.error = [] then p.name else p.error
        code := p.code
        message := p.message
        retryable := p.retryable.getD (status = statusServiceUnavailable)
        body := body
        legacy := legacy }
  else { plain with retryable := status = statusServiceUnavailable }

@[simp] theorem parseControllerAPIError_statusCode :
    (parseControllerAPIError unmarshal status body).statusCode = status := by
  unfold parseControllerAPIError
  dsimp only
  split
  · split <;> rfl
  · rfl

inductive Failure
  | text (message : Str)
  | api (e : ControllerAPIError)
  | wrap (label : Str) (cause : Failure)

namespace Failure

def error : Failure → Str
  | text message => message
  | api e => e.error
  | wrap label cause => label ++ ": ".toList ++ cause.error

def apiError? : Failure → Option ControllerAPIError
  | text _ => none
  | api e => some e
  | wrap _ cause => cause.apiError?

end Failure

def isRetryableControllerError (e : Failure) : Bool :=
  match e.apiError? with
  | some a => a.statusCode = statusServiceUnavailable || a.retryable
  | none => false

def isNonRetryableAgentAuthError (e : Failure) : Bool :=
  match e.apiError? with
  | some a => a.statusCode = statusUnauthorized && !a.retryable && a.code ≠ []
  | none => false

def isLegacyControllerAuthError (e : Failure) : Bool :=
  match e.apiError? with
  | some a => a.statusCode = statusUnauthorized && a.code = []
  | none => false

/-! ## One attempt -/

inductive Exchange
  | marshalFailed (cause : Str)
  | createFailed (cause : Str)
  /-- No token for a provisioned node; without one, a node that is not provisioned goes on. -/
  | jwtFailed (cause : Str)
  | transportFailed (cause : Str)
  /-- An answer, with the error of decoding it and with what reading its first bytes gives. -/
  | response (status : ℕ) (decodeError : Option Str) (body : Except Str Str)

def Exchange.status? : Exchange → Option ℕ
  | .response status _ _ => some status
  | _ => none

def readLimitedResponseBody : Except Str Str → Str
  | .error cause => "<read error: ".toList ++ cause ++ ">".toList
  | .ok body => trimSpace body

def controllerHTTPError (status : ℕ) (label body : Str) : Failure :=
  let head := label ++ ": status ".toList ++ decimal status
  if trimSpace body = [] then .text head else .text (head ++ ": ".toList ++ trimSpace body)

@[simp] theorem apiError?_controllerHTTPError (status : ℕ) (label body : Str) :
    (controllerHTTPError status label body).apiError? = none := by
  unfold controllerHTTPError
  dsimp only
  split <;> rfl

def statusLabel (status : ℕ) : Str :=
  if status = 404 then "not found: controller endpoint not found".toList
  else if status = 400 then "bad request".toList
  else if status = 403 then "forbidden: access forbidden".toList
  else if status = 500 then "internal server error".toList
  else if 400 ≤ status ∧ status < 500 then "client error".toList
  else if 500 ≤ status then "server error".toList
  else "unexpected status code".toList

def doRequest (unmarshal : Str → Option Payload) : Exchange → Option Failure
  | .marshalFailed cause => some (.wrap "failed to marshal request body".toList (.text cause))
  | .createFailed cause => some (.wrap "failed to create request".toList (.text cause))
  | .jwtFailed cause => some (.wrap "failed to generate JWT".toList (.text cause))
  | .transportFailed cause => some (.wrap "request failed".toList (.text cause))
  | .response status decodeError body =>
    if status = 200 then
      decodeError.map fun cause => .wrap "failed to decode response".toList (.text cause)
    else if status = 204 then none
    else if status = statusUnauthorized ∨ status = statusServiceUnavailable then
      some (.api (parseControllerAPIError unmarshal status (readLimitedResponseBody body)))
    else some (controllerHTTPError status (statusLabel status) (readLimitedResponseBody body))

variable {unmarshal : Str → Option Payload} {a : ControllerAPIError} {e : Failure}

theorem doRequest_apiError {x : Exchange} (h : doRequest unmarshal x = some e)
    (ha : e.apiError? = some a) : x.status? = some a.statusCode := by
  cases x with
  | response status decodeError body =>
    simp only [doRequest] at h
    split at h
    · obtain ⟨cause, -, rfl⟩ := Option.map_eq_some_iff.mp h
      cases ha
    · split at h
      · cases h
      · split at h
        · cases h
          cases ha
          simp [Exchange.status?]
        · cases h
          simp at ha
  | _ =>
    cases h
    cases ha

/-! ## The attempts of a request -/

def shouldRetry (e : Failure) : Bool :=
  if isNonRetryableAgentAuthError e then false
  else if isRetryableControllerError e then true
  else if isLegacyControllerAuthError e then true
  else if occursIn "forbidden".toList e.error || occursIn "not found".toList e.error ||
      occursIn "bad request".toList e.error then false
  else occursIn "timeout".toList e.error || occursIn "connection".toList e.error ||
    occursIn "server error".toList e.error || occursIn "internal server error".toList e.error

def maxRetries : ℕ := 3

structure Exchanges where
  attempt : ℕ → Exchange
  done : ℕ → Option Str

def requestLoop (unmarshal : Str → Option Payload) (x : Exchanges) (left i : ℕ) :
    List Exchange × Option Failure :=
  match if i = 0 then none else x.done i with
  | some cause => ([], some (.text cause))
  | none =>
    match doRequest unmarshal (x.attempt i) with
    | none => ([x.attempt i], none)
    | some e =>
      if !shouldRetry e then ([x.attempt i], some e)
      else
        match left with
        | 0 =>
          ([x.attempt i], some (.wrap ("request failed after ".toList ++ decimal (maxRetries + 1) ++
            " attempts".toList) e))
        | left + 1 =>
          let rest := requestLoop unmarshal x left (i + 1)
          (x.attempt i :: rest.1, rest.2)

def request (unmarshal : Str → Option Payload) (x : Exchanges) : List Exchange × Option Failure :=
  requestLoop unmarshal x maxRetries 0

theorem requestLoop_apiError {x : Exchanges} {left i : ℕ}
    (h : (requestLoop unmarshal x left i).2 = some e) (ha : e.apiError? = some a) :
    ∃ y ∈ (requestLoop unmarshal x left i).1, y.status? = some a.statusCode := by
  induction left generalizing i with
  | zero =>
    unfold requestLoop at h ⊢
    split at h
    · cases h
      cases ha
    · split at h
      · cases h
      next e' he =>
        refine ⟨x.attempt i, by split <;> simp, ?_⟩
        split at h <;> cases h <;> exact doRequest_apiError he ha
  | succ left ih =>
    unfold requestLoop at h ⊢
    split at h
    · cases h
      cases ha
    · split at h
      · cases h
      next e' he =>
        split at h
        next hno =>
          cases h
          rw [if_pos hno]
          exact ⟨x.attempt i, List.mem_singleton_self _, doRequest_apiError he ha⟩
        next hyes =>
          rw [if_neg hyes]
          obtain ⟨y, hy, hstatus⟩ := ih h
          exact ⟨y, List.mem_cons_of_mem _ hy, hstatus⟩

/-- **An API error is an answer**: when the error of a request holds a `ControllerAPIError`, one
of the attempts was answered with its status. -/
theorem request_apiError {x : Exchanges} (h : (request unmarshal x).2 = some e)
    (ha : e.apiError? = some a) : ∃ y ∈ (request unmarshal x).1, y.status? = some a.statusCode :=
  requestLoop_apiError h ha

end Edgelet.FieldAgent
