import RickIntelligence.Locking.Breaker

/-!
# The command executor

`_RedisCommandExecutor.call` sends a request to Redis, and sends it again while it fails in a way that
may pass, within the attempts of the retry policy and before a deadline. Between two attempts it may
first ask the server what became of the last one (`reconcile`).

A call is a sequence of phases (`CallPhase`). What the network does to a message, the readings of the
clock and the random numbers are the inputs of the functions that lead from one phase to the next.
-/

namespace RickIntelligence.Locking

/-- `LeaseErrorCode`. -/
inductive LeaseErrorCode where
  | unavailable
  | timeout
  | notOwner
  | invalidRequest
  | cancelled
  | internalError
  deriving DecidableEq, Repr

/-- The failures after which a call may be attempted again. -/
def LeaseErrorCode.transient : LeaseErrorCode → Bool
  | timeout | unavailable => true
  | _ => false

/-- What leaves a call as an exception: a `LeaseError`, an `asyncio.CancelledError`, or the
`RedisConfigurationError` of a retry policy. -/
inductive Failure where
  | lease (code : LeaseErrorCode)
  | cancelled
  | configuration
  deriving DecidableEq, Repr

/-- What a request comes back with: a result, an exception, which `_redis_error_code` classifies, or
the cancellation of the task that waits for it. -/
inductive Reply (ρ : Type) where
  | result (r : ρ)
  | error (code : LeaseErrorCode)
  | cancelled

/-- `RedisRetryPolicy`, with what `__post_init__` checks. -/
structure RedisRetryPolicy where
  max_attempts : ℕ
  base_delay_seconds : ℚ
  max_delay_seconds : ℚ
  jitter_ratio : ℚ
  attempts_range : 1 ≤ max_attempts ∧ max_attempts ≤ 5
  base_range : 0 ≤ base_delay_seconds ∧ base_delay_seconds ≤ 5
  max_range : base_delay_seconds ≤ max_delay_seconds ∧ max_delay_seconds ≤ 5
  jitter_range : 0 ≤ jitter_ratio ∧ jitter_ratio ≤ 1

namespace RedisRetryPolicy

/-- `single_attempt`. -/
def singleAttempt : RedisRetryPolicy :=
  ⟨1, 0, 0, 0, by decide, by norm_num, by norm_num, by norm_num⟩

/-- `delay_seconds`, with the value of `random.random()`; `none` stands for its
`RedisConfigurationError`. -/
def delaySeconds (p : RedisRetryPolicy) (retry_number : ℕ) (random : ℚ) : Option ℚ :=
  if 1 ≤ retry_number ∧ retry_number < p.max_attempts then
    let delay := min p.max_delay_seconds (p.base_delay_seconds * 2 ^ (retry_number - 1))
    if p.jitter_ratio = 0 then some delay
    else some (min p.max_delay_seconds (delay * (1 + random * p.jitter_ratio)))
  else none

end RedisRetryPolicy

/-- How far a call has come. An attempt is numbered from 0; `sent` and `reading` wait for the server. -/
inductive CallPhase (ρ : Type) where
  | starting
  | attempting (attempt : ℕ)
  | sent (attempt : ℕ)
  | reconciling (attempt : ℕ) (failure_code : LeaseErrorCode)
  | reading (attempt : ℕ) (failure_code : LeaseErrorCode)
  | delaying (attempt : ℕ) (failure_code : LeaseErrorCode)
  | returned (result : ρ)
  | raised (failure : Failure)

namespace CallPhase

variable {ρ : Type}

/-- The phase after an attempt: a transient failure that is not of the last attempt leads to the
reconciliation, or without one to the delay. -/
def afterAttempt (policy : RedisRetryPolicy) (reconciles : Bool) (attempt : ℕ) :
    Reply ρ → CallPhase ρ
  | .result r => returned r
  | .error code =>
    if !code.transient || policy.max_attempts ≤ attempt + 1 then raised (.lease code)
    else if reconciles then reconciling attempt code
    else delaying attempt code
  | .cancelled => raised .cancelled

/-- The phase after a reconciliation, where no result stands for `_NO_RECONCILIATION`. Its failures are
dropped. -/
def afterReconcile (attempt : ℕ) (failure_code : LeaseErrorCode) : Reply (Option ρ) → CallPhase ρ
  | .result (some r) => returned r
  | .result none | .error _ => delaying attempt failure_code
  | .cancelled => raised .cancelled

/-- The phase after the delay, with the time that remains: the next attempt, if there is time for the
delay. -/
def afterDelay (policy : RedisRetryPolicy) (attempt : ℕ) (failure_code : LeaseErrorCode)
    (remaining random : ℚ) : CallPhase ρ :=
  match policy.delaySeconds (attempt + 1) random with
  | none => raised .configuration
  | some delay => if remaining < delay then raised (.lease failure_code) else attempting (attempt + 1)

/-- What the circuit breaker is told when the call ends, with the reading of the clock. -/
def settle (cfg : CircuitConfig ℚ) (now : ℚ) (generation : ℕ) (b : RedisCircuitBreaker ℚ) :
    CallPhase ρ → RedisCircuitBreaker ℚ
  | returned _ => b.recordSuccess (some generation)
  | raised (.lease code) =>
    if code.transient then b.recordFailure cfg now (some generation) else b.releaseCall generation
  | raised .cancelled => b.releaseCall generation
  | _ => b

/-- A call that has returned or raised. -/
def ended : CallPhase ρ → Bool
  | returned _ | raised (.lease _) | raised .cancelled => true
  | _ => false

/-- A call that ends tells the circuit breaker, in the way of the protocol. -/
theorem settle_finish (cfg : CircuitConfig ℚ) (now : ℚ) (generation : ℕ) (b : RedisCircuitBreaker ℚ)
    {phase : CallPhase ρ} (h : phase.ended = true) :
    b.Finish generation (phase.settle cfg now generation b) := by
  unfold settle
  split
  · exact RedisCircuitBreaker.recordSuccess_finish b generation
  · split
    · exact RedisCircuitBreaker.recordFailure_finish cfg now b generation
    · exact RedisCircuitBreaker.releaseCall_finish b generation
  · exact RedisCircuitBreaker.releaseCall_finish b generation
  · next hreturned hlease hcancelled =>
    unfold ended at h
    split at h
    · exact absurd rfl (hreturned _)
    · exact absurd rfl (hlease _)
    · exact absurd rfl hcancelled
    · cases h

end CallPhase

end RickIntelligence.Locking
