import Mathlib

/-!
# Requests to Qdrant

`QdrantHttpVectorStore._request` of `rick_retrieval/qdrant.py`: a call is admitted by the circuit,
asks the transport until an attempt settles it, and tells the circuit how it ended. What it tells is
in `Ending`; a call that an exception leaves from the side tells nothing.
-/

namespace RickIntelligence.Qdrant

/-- The subclasses of `QdrantError`, with what they say besides the operation. -/
inductive ErrorKind where
  | configuration
  | dependency
  | validation (limit empty_scope : Bool)
  | bounds
  | schemaMismatch
  | hybridUnavailable
  | closed
  | timeout
  | transport
  | status (status_code : ℕ)
  | malformedResponse
  | responseTooLarge
  | circuitOpen
  deriving DecidableEq, Repr

/-- A `QdrantError`. -/
structure QdrantError where
  kind : ErrorKind
  operation : String
  deriving DecidableEq, Repr

/-! ## The circuit -/

/-- The arguments of the store that `_request` reads, as they were validated. -/
structure RequestConfig (T : Type) where
  max_attempts : ℕ
  retry_backoff_seconds : ℚ
  circuit_failure_threshold : ℕ
  circuit_reset_seconds : T
  max_response_bytes : ℕ
  attempts_range : 1 ≤ max_attempts ∧ max_attempts ≤ 5
  threshold_range : 1 ≤ circuit_failure_threshold ∧ circuit_failure_threshold ≤ 10

/-- The fields of the store that the circuit writes. -/
structure Breaker (T : Type) where
  consecutive_failures : ℕ
  opened_at : Option T
  probe_in_flight : Bool
  deriving DecidableEq, Repr

namespace Breaker

section Methods

variable {T : Type}

/-- The circuit of a new store. -/
def new : Breaker T := ⟨0, none, false⟩

/-- `_acquire_circuit`, with the reading of the clock: whether the call is admitted. -/
def acquire [LT T] [DecidableLT T] [Sub T] (cfg : RequestConfig T) (now : T) (b : Breaker T) :
    Bool × Breaker T :=
  match b.opened_at with
  | none => (true, b)
  | some opened_at =>
    if now - opened_at < cfg.circuit_reset_seconds then (false, b)
    else if b.probe_in_flight then (false, b)
    else (true, { b with probe_in_flight := true })

/-- `_record_circuit_success`. -/
def recordSuccess (_ : Breaker T) : Breaker T := ⟨0, none, false⟩

/-- `_record_circuit_failure`, with the reading of the clock. -/
def recordFailure (cfg : RequestConfig T) (now : T) (b : Breaker T) : Breaker T :=
  if cfg.circuit_failure_threshold ≤ b.consecutive_failures + 1 then
    ⟨b.consecutive_failures + 1, some now, false⟩
  else ⟨b.consecutive_failures + 1, b.opened_at, false⟩

/-- `_clear_circuit_probe`. -/
def clearProbe (b : Breaker T) : Breaker T := { b with probe_in_flight := false }

end Methods

end Breaker

/-- What a call that is over has told the circuit. -/
inductive Ending where
  | success
  | failure
  | cleared
  | untold
  deriving DecidableEq, Repr

/-- The circuit after a call is over, with the reading of the clock. -/
def Ending.apply {T : Type} (cfg : RequestConfig T) (now : T) : Ending → Breaker T → Breaker T
  | success, b => b.recordSuccess
  | failure, b => b.recordFailure cfg now
  | cleared, b => b.clearProbe
  | untold, b => b

/-! ## The attempts -/

/-- An `HttpResponse`. -/
structure HttpResponse where
  status_code : ℕ
  content : List UInt8
  deriving DecidableEq, Repr

/-- What the transport does when it is asked: it answers with what is or becomes an `HttpResponse`,
or with what does not; it raises a `QdrantError`, another `Exception`, which may look like a timeout,
or something that is no `Exception`. -/
inductive Reply where
  | response (r : HttpResponse)
  | malformed
  | raises (e : QdrantError)
  | exception (looks_like_timeout : Bool)
  | interrupt
  deriving DecidableEq, Repr

/-- How a call ends for its caller: with a response, a `QdrantError`, or an exception that was not
caught. -/
inductive Result where
  | returned (r : HttpResponse)
  | raised (e : QdrantError)
  | escaped
  deriving DecidableEq, Repr

/-- `_retryable_status`. -/
def retryableStatus (status_code : ℕ) : Bool :=
  [408, 425, 429].contains status_code || (500 ≤ status_code && status_code ≤ 599)

/-- `_sleep_before_retry` calls the sleeper. -/
def sleepsBeforeRetry {T : Type} (cfg : RequestConfig T) (attempt : ℕ) : Bool :=
  decide (0 < min (cfg.retry_backoff_seconds * 2 ^ attempt) 5)

section Attempts

variable {T : Type} (cfg : RequestConfig T) (operation : String) (transport : ℕ → Reply)
  (sleeper : ℕ → Bool)

/-- The attempts of `_request` from one on, with the number of those that are left. The sleeper
raises where it is false. -/
def attemptsFrom : ℕ → ℕ → Result × Ending
  | 0, _ => (.raised ⟨.transport, operation⟩, .untold)
  | left + 1, attempt =>
    let retry (last_error : QdrantError) : Result × Ending :=
      if left = 0 then (.raised last_error, .failure)
      else if sleepsBeforeRetry cfg attempt && !sleeper attempt then (.escaped, .untold)
      else attemptsFrom left (attempt + 1)
    match transport attempt with
    | .raises e =>
      match e.kind with
      | .timeout | .transport => retry e
      | .responseTooLarge => (.raised ⟨.responseTooLarge, operation⟩, .cleared)
      | _ => (.raised e, .cleared)
    | .exception true => retry ⟨.timeout, operation⟩
    | .exception false => retry ⟨.transport, operation⟩
    | .interrupt => (.escaped, .untold)
    | .malformed => (.raised ⟨.malformedResponse, operation⟩, .cleared)
    | .response r =>
      if cfg.max_response_bytes < r.content.length then
        (.raised ⟨.responseTooLarge, operation⟩, .cleared)
      else if 200 ≤ r.status_code ∧ r.status_code ≤ 299 then (.returned r, .success)
      else if retryableStatus r.status_code then retry ⟨.status r.status_code, operation⟩
      else (.raised ⟨.status r.status_code, operation⟩, .cleared)

/-- `_request` after the call is admitted. -/
def attempts : Result × Ending := attemptsFrom cfg operation transport sleeper cfg.max_attempts 0

end Attempts

end RickIntelligence.Qdrant
