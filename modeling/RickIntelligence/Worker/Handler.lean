import RickIntelligence.Jobs.Lifecycle

/-!
# Codes of a failed ingestion

A failed ingestion passes its code through three lists: the codes of the pipeline
(`rick_ingestion/jobs.py`), the codes that the handler of the worker lets pass
(`apps/worker/external_ingestion.py`), and the codes that the runtime knows (`apps/worker/runtime.py`).
The runtime decides by the last what becomes of a handler that has ended (`handlerPlan`), and builds
the failure that the queue is given (`failureOf`). The lists agree on whether an attempt may be
repeated, but for the two permanent codes that the handler does not know (`retry_agrees_iff`).
-/

namespace RickIntelligence.Worker

open Lib Jobs

/-! ## The pipeline -/

/-- `TRANSIENT_ERROR_CODES`. -/
def transientErrorCodes : List String :=
  ["provider_timeout", "provider_unavailable", "vector_store_unavailable", "lock_unavailable",
    "storage_unavailable"]

/-- `PERMANENT_ERROR_CODES`. -/
def permanentErrorCodes : List String :=
  ["validation_error", "unsupported_media_type", "request_too_large"]

/-- `is_retryable`. -/
def isRetryable (error_code : Option String) : Bool :=
  match error_code with
  | none => false
  | some code =>
    if transientErrorCodes.contains code then true
    else if permanentErrorCodes.contains code then false
    else false

/-- `_TYPED_PROVIDER_ERROR_CODES`. -/
def typedProviderErrorCodes : List String :=
  ["timeout", "unavailable", "rate_limit", "server_error", "malformed_response", "missing_field",
    "invalid_json", "invalid_model", "embedding_dimension_mismatch", "model_not_found", "http_error",
    "invalid_configuration", "cancelled", "internal_error"]

/-- `_PROVIDER_RETRYABLE_CODES`. -/
def providerRetryableCodes : List String := ["timeout", "unavailable", "rate_limit", "server_error"]

/-- An error of the embedding provider: its code, whether it says that it is retryable, and whether it
is a `ValueError`. -/
structure ProviderError where
  code : Option String
  retryable : Bool
  isValueError : Bool

/-- The code of `_embedding_batch_failure`. -/
def embeddingBatchCode (e : ProviderError) : String :=
  if e.code.any typedProviderErrorCodes.contains then
    if e.code.any providerRetryableCodes.contains || e.retryable then "provider_timeout"
    else "validation_error"
  else if e.isValueError then "validation_error"
  else "provider_unavailable"

/-- `_failure_code`. -/
def failureCode (stage : String) : String :=
  if stage = "embedding" then "provider_unavailable"
  else if ["indexing", "verifying"].contains stage then "storage_unavailable"
  else "ingestion_failed"

/-- The errors that end an ingestion. A parser may raise a `ParseError` with any code. -/
inductive PipelineError where
  | parse (code : String)
  | embedding (e : ProviderError)
  | lockUnavailable
  | other

/-- The code with which `ingest` ends a failed job. -/
def PipelineError.errorCode (stage : String) : PipelineError → String
  | .parse code => code
  | .embedding e => embeddingBatchCode e
  | .lockUnavailable => "lock_unavailable"
  | .other => failureCode stage

/-! ## The handler -/

/-- The codes that `ExternalIngestionError` keeps. -/
def externalCodes : List String :=
  ["validation_error", "storage_unavailable", "provider_timeout", "provider_unavailable",
    "vector_store_unavailable", "lock_unavailable", "ingestion_failed", "cancelled",
    "recovery_required"]

/-- The code of an `ExternalIngestionError`. -/
def externalCode (code : String) : String :=
  if externalCodes.contains code then code else "ingestion_failed"

/-- What the handler reads of the job that `ingest` returns. -/
structure IngestionResult where
  status : String
  error_code : Option String
  publication_outcome_unknown : Bool

/-- What an ingestion that fails returns. -/
def failedResult (stage : String) (e : PipelineError) : IngestionResult :=
  ⟨"failed", some (e.errorCode stage), false⟩

/-- The end of `ExternalIngestionHandler.__call__`: the error with its code, or the result. -/
def settleResult (r : IngestionResult) : Except String IngestionResult :=
  if r.status = "cancelled" then .error (externalCode "cancelled")
  else if r.status ≠ "published" then
    if r.status = "verifying" ∧ r.publication_outcome_unknown = true then
      .error (externalCode "recovery_required")
    else match r.error_code with
      | none => .error (externalCode "ingestion_failed")
      | some code => .error (externalCode (if code = "" then "ingestion_failed" else code))
  else .ok r

/-! ## The runtime -/

/-- `_RETRYABLE_HANDLER_CODES`. -/
def retryableHandlerCodes : List String :=
  ["handler_timeout", "handler_failed", "provider_timeout", "provider_unavailable",
    "storage_unavailable", "vector_store_unavailable", "lock_unavailable", "ingestion_failed",
    "recovery_required"]

/-- `_KNOWN_HANDLER_CODES`. -/
def knownHandlerCodes : List String :=
  retryableHandlerCodes ++ ["validation_error", "invalid_result", "vector_store_unavailable",
    "recovery_required", "cancelled"]

/-- `_SAFE_FAILURE_MESSAGES`. -/
def safeFailureMessages : List (String × String) :=
  [("handler_timeout", "The operation exceeded its execution deadline."),
    ("handler_failed", "The operation failed."),
    ("provider_timeout", "The provider operation timed out."),
    ("provider_unavailable", "The provider was unavailable."),
    ("storage_unavailable", "The storage operation was unavailable."),
    ("vector_store_unavailable", "The vector store operation was unavailable."),
    ("lock_unavailable", "The job lease was unavailable."),
    ("ingestion_failed", "The operation failed."),
    ("recovery_required", "The operation requires recovery."),
    ("cancelled", "The operation was cancelled."),
    ("validation_error", "The operation input was invalid."),
    ("invalid_result", "The operation returned an invalid result."),
    ("unknown_operation", "The job operation is not registered."),
    ("payload_too_large", "The job payload exceeds the worker limit.")]

/-- `[a-z0-9_.:-]`. -/
def isCodeChar (c : Char) : Bool := isLowerAscii c || isDigitAscii c || "_.:-".toList.contains c

/-- `_safe_code` with the fallback of a handler. -/
def safeCode (value : Option String) : String :=
  match value with
  | none => "handler_failed"
  | some code =>
    if matchesRun isLowerAscii isCodeChar 63 code && knownHandlerCodes.contains code then code
    else "handler_failed"

/-- The error of a handler: the cooperative cancellation, or another with its code, if it has one. -/
inductive HandlerError where
  | workerCancelled
  | other (code : Option String)

/-- `getattr(error, "code", None)`. -/
def HandlerError.code : HandlerError → Option String
  | .workerCancelled => some "cancelled"
  | .other code => code

/-- What `_finalize_handler` reads of an execution under its lock. A result that is no `JobResult` is
none. -/
structure Observation where
  launch_failed : Bool
  error : Option HandlerError
  result : Option JobResult
  cancelled : Bool
  lease_lost : Bool
  timed_out : Bool

/-- What becomes of an execution whose handler has ended. -/
inductive Plan where
  | leaseLost
  | cancel
  | timeout
  | fail (code : String) (retryable : Bool)
  | acknowledge (result : JobResult)

/-- `_finalize_handler`, up to the call of the queue. -/
def handlerPlan (o : Observation) (now deadline : ℚ) : Plan :=
  if o.launch_failed then .fail "invalid_job" false
  else if o.lease_lost then .leaseLost
  else if o.cancelled then .cancel
  else match o.error with
    | some .workerCancelled => .cancel
    | some (.other code) =>
      if o.timed_out || decide (deadline ≤ now) then .timeout
      else if safeCode code = "recovery_required" then .leaseLost
      else .fail (safeCode code) (retryableHandlerCodes.contains (safeCode code))
    | none =>
      if o.timed_out || decide (deadline ≤ now) then .timeout
      else match o.result with
        | none => .fail "invalid_result" false
        | some result => .acknowledge result

/-- `_failure`: the failure that the queue is given, if its fields are accepted. -/
def failureOf (job : Job) (code : String) (retryable : Bool) (now : ℚ) : Option JobFailure :=
  if 1 ≤ job.attemptCount ∧ job.attemptCount ≤ 64 then
    (Validated.make
      { code, message := (safeFailureMessages.lookup code).getD "The operation failed.", retryable,
        attempt := job.attemptCount, occurred_at := max now job.val.updated_at }).toOption
  else none

/-- The failure that `_finalize_failure` passes to the queue for a handler that has ended. -/
def queueFailure (job : Job) (o : Observation) (now deadline : ℚ) : Option JobFailure :=
  match handlerPlan o now deadline with
  | .fail code retryable => failureOf job code retryable now
  | .timeout => failureOf job "handler_timeout" true now
  | _ => none

/-! ## Agreement -/

/-- What the runtime reads of an execution whose handler raised the error of a failed ingestion, without
a loss of the lease, a timeout or a cancellation. -/
def ingestionEnded (r : IngestionResult) : Observation :=
  { launch_failed := false, cancelled := false, lease_lost := false, timed_out := false,
    result := none,
    error := match settleResult r with
      | .error code => some (.other (some code))
      | .ok _ => none }

/-- The classes of a code agree from the pipeline to the queue: for every running job whose ingestion
ends with the code before its deadline, the queue is given a failure that is retryable if the code
is, and one that ends the job after this attempt if the code is permanent. -/
def Agrees (c : String) : Prop :=
  ∀ (stage : String) (e : PipelineError), e.errorCode stage = c →
    ∀ (job : Job) (now deadline : ℚ), job.val.state = .running → now < deadline →
      (isRetryable (some c) = true → ∃ f,
        queueFailure job (ingestionEnded (failedResult stage e)) now deadline = some f ∧
        f.val.retryable = true) ∧
      (c ∈ permanentErrorCodes → ∃ f,
        queueFailure job (ingestionEnded (failedResult stage e)) now deadline = some f ∧
        f.val.retryable = false ∧ ∀ failed : Job, failed.val.failure = some f →
          failed.retryEligible = false)

/-- The code that the handler raises for a failed ingestion. -/
theorem settleResult_failed (stage : String) (e : PipelineError) :
    settleResult (failedResult stage e) = .error (externalCode
      (if e.errorCode stage = "" then "ingestion_failed" else e.errorCode stage)) := rfl

/-- A running job has an attempt, and at most as many as the contract allows. -/
theorem running_attempts {job : Job} (h : job.val.state = .running) :
    1 ≤ job.attemptCount ∧ job.attemptCount ≤ 64 := by
  have hconsistent := job.consistent
  have hshape := hconsistent.shape
  unfold JobFields.Shape at hshape
  simp only [h] at hshape
  obtain ⟨-, -, last, hlast, -⟩ := hshape
  have hne : job.val.attempts ≠ [] := by
    intro hnil
    unfold JobFields.lastAttempt at hlast
    rw [hnil] at hlast
    cases hlast
  have hpos := List.length_pos_of_ne_nil hne
  have hle := hconsistent.history.length_le
  have hmax : job.val.max_attempts ≤ 64 := hconsistent.history.max_le
  unfold Job.attemptCount
  omega

/-- The message of a code. -/
def messageOf (code : String) : String :=
  (safeFailureMessages.lookup code).getD "The operation failed."

/-- A failure of a running job is built, if the contract accepts its code and its message. -/
theorem failureOf_running {job : Job} (h : job.val.state = .running) {code : String}
    (hcode : JobFailureFields.cleanCode code = .ok code)
    (hmessage : text "failure.message" maxMessageLength (messageOf code) = .ok (messageOf code))
    (retryable : Bool) (now : ℚ) :
    ∃ f, failureOf job code retryable now = some f ∧ f.val.retryable = retryable := by
  have hattempts := running_attempts h
  have htime : 0 ≤ max now job.val.updated_at :=
    le_max_of_le_right ((job.consistent.lifetime.created_nonneg).trans
      job.consistent.lifetime.created_le_updated)
  have hpost : JobFailureFields.postInit
      ⟨code, messageOf code, retryable, job.attemptCount, max now job.val.updated_at⟩ =
      .ok ⟨code, messageOf code, retryable, job.attemptCount, max now job.val.updated_at⟩ := by
    have hchecks : raiseFirst [attemptNumberCheck "failure.attempt" job.attemptCount,
        timestampCheck "failure.occurred_at" (max now job.val.updated_at)] = .ok () := by
      rw [raiseFirst_ok]
      generalize max now job.val.updated_at = t at htime
      simp [attemptNumberCheck, timestampCheck, maxAttempts, hattempts, htime]
    unfold JobFailureFields.postInit
    rw [hcode, hmessage, hchecks]
    rfl
  refine ⟨⟨_, hpost⟩, ?_, rfl⟩
  have hmake : Validated.make _ = .ok (⟨_, hpost⟩ : JobFailure) := Validated.make_ok.mpr hpost
  unfold failureOf
  rw [if_pos hattempts]
  exact congrArg Except.toOption hmake

/-- The plan for a failed ingestion whose code the handler keeps or replaces by `code`. -/
theorem handlerPlan_failed {stage : String} {e : PipelineError} {now deadline : ℚ} {code : String}
    (hcode : externalCode
      (if e.errorCode stage = "" then "ingestion_failed" else e.errorCode stage) = code)
    (hsafe : safeCode (some code) = code) (hrecovery : code ≠ "recovery_required")
    (htime : now < deadline) :
    handlerPlan (ingestionEnded (failedResult stage e)) now deadline =
      .fail code (retryableHandlerCodes.contains code) := by
  unfold handlerPlan ingestionEnded
  rw [settleResult_failed, hcode]
  simp only [Bool.false_eq_true, if_false, Bool.false_or, decide_eq_true_eq, not_le.mpr htime, hsafe,
    hrecovery]

/-- The queue is given a failure with the code that the handler raises. -/
theorem queueFailure_failed {stage : String} {e : PipelineError} {now deadline : ℚ} {code : String}
    {job : Job} (hrunning : job.val.state = .running)
    (hcode : externalCode
      (if e.errorCode stage = "" then "ingestion_failed" else e.errorCode stage) = code)
    (hsafe : safeCode (some code) = code) (hrecovery : code ≠ "recovery_required")
    (hclean : JobFailureFields.cleanCode code = .ok code)
    (hmessage : text "failure.message" maxMessageLength (messageOf code) = .ok (messageOf code))
    (htime : now < deadline) :
    ∃ f, queueFailure job (ingestionEnded (failedResult stage e)) now deadline = some f ∧
      f.val.retryable = retryableHandlerCodes.contains code := by
  unfold queueFailure
  rw [handlerPlan_failed hcode hsafe hrecovery htime]
  exact failureOf_running hrunning hclean hmessage _ now

/-- The codes for which the runtime builds a failure, besides those of the runtime itself. -/
def passedCodes : List String := "validation_error" :: "ingestion_failed" :: transientErrorCodes

/-- A code that the runtime passes on. -/
theorem queueFailure_passed {stage : String} {e : PipelineError} {now deadline : ℚ} {code : String}
    {job : Job} (hrunning : job.val.state = .running) (hmem : code ∈ passedCodes)
    (hcode : externalCode
      (if e.errorCode stage = "" then "ingestion_failed" else e.errorCode stage) = code)
    (htime : now < deadline) :
    ∃ f, queueFailure job (ingestionEnded (failedResult stage e)) now deadline = some f ∧
      f.val.retryable = retryableHandlerCodes.contains code := by
  have hall : ∀ code ∈ passedCodes, safeCode (some code) = code ∧ code ≠ "recovery_required" ∧
      JobFailureFields.cleanCode code = .ok code ∧
      text "failure.message" maxMessageLength (messageOf code) = .ok (messageOf code) := by
    decide +kernel
  obtain ⟨hsafe, hrecovery, hclean, hmessage⟩ := hall code hmem
  exact queueFailure_failed hrunning hcode hsafe hrecovery hclean hmessage htime

/-- A transient code passes the lists unchanged, and is retryable in each. -/
theorem transient_passed {c : String} (h : isRetryable (some c) = true) :
    c ∈ passedCodes ∧ externalCode (if c = "" then "ingestion_failed" else c) = c ∧
      retryableHandlerCodes.contains c = true := by
  have hall : ∀ c ∈ transientErrorCodes, c ∈ passedCodes ∧
      externalCode (if c = "" then "ingestion_failed" else c) = c ∧
      retryableHandlerCodes.contains c = true := by decide +kernel
  apply hall
  unfold isRetryable at h
  by_cases hmem : c ∈ transientErrorCodes
  · exact hmem
  · simp [hmem] at h

/-- The permanent codes that the handler replaces. -/
def replacedCodes : List String := ["unsupported_media_type", "request_too_large"]

/-- A failure that is not retryable leaves its job no further attempt. -/
theorem not_retryEligible {f : JobFailure} (hf : f.val.retryable = false) {failed : Job}
    (h : failed.val.failure = some f) : failed.retryEligible = false := by
  unfold Job.retryEligible
  rw [h]
  simp [hf]

/-- The first attempt of a job. -/
def firstAttempt : JobAttempt :=
  ⟨{ number := 1, worker_id := "w", state := .running, started_at := 0, finished_at := none,
     failure := none }, by decide +kernel⟩

/-- A job in its first attempt of three. -/
def runningJob : Job :=
  ⟨{ job_id := "job-1", tenant_id := "t1", workspace_id := "w1", collection_id := "c1",
     operation := "ingest", idempotency_key := "key-1", payload := [], state := .running,
     max_attempts := 3, attempts := [firstAttempt], result := none, failure := none,
     available_at := 0, created_at := 0, updated_at := 0, version := 2 }, by decide +kernel⟩

/-- A document that a parser rejects with one of the replaced codes is given back to the queue as
retryable. -/
theorem replaced_retryable {c : String} (h : c ∈ replacedCodes) :
    ∃ f, queueFailure runningJob (ingestionEnded (failedResult "parsing" (.parse c))) 0 1 = some f ∧
      f.val.retryable = true := by
  have hall : ∀ c ∈ replacedCodes,
      externalCode (if c = "" then "ingestion_failed" else c) = "ingestion_failed" := by decide +kernel
  obtain ⟨f, hf, hretryable⟩ := @queueFailure_passed "parsing" (.parse c) 0 1 "ingestion_failed"
    runningJob rfl (by decide +kernel) (hall c h) (by decide +kernel)
  exact ⟨f, hf, hretryable.trans (by decide +kernel)⟩

/-- **The classes of a code agree from the pipeline to the queue, except for the two permanent codes
that the handler does not know.** -/
theorem retry_agrees_iff (c : String) :
    Agrees c ↔ c ≠ "unsupported_media_type" ∧ c ≠ "request_too_large" := by
  have hreplaced : (c ≠ "unsupported_media_type" ∧ c ≠ "request_too_large") ↔ c ∉ replacedCodes := by
    simp [replacedCodes]
  rw [hreplaced]
  constructor
  · intro hagrees hmem
    have hpermanent : c ∈ permanentErrorCodes := List.mem_cons_of_mem _ hmem
    obtain ⟨f, hf, hfalse, -⟩ := (hagrees "parsing" (.parse c) rfl runningJob 0 1 rfl
      (by decide +kernel)).2 hpermanent
    obtain ⟨f', hf', htrue⟩ := replaced_retryable hmem
    cases hf.symm.trans hf'
    rw [htrue] at hfalse
    cases hfalse
  · intro hmem stage e he job now deadline hrunning htime
    subst he
    constructor
    · intro hretryable
      obtain ⟨hpassed, hcode, hknown⟩ := transient_passed hretryable
      obtain ⟨f, hf, heq⟩ := queueFailure_passed hrunning hpassed hcode htime
      exact ⟨f, hf, heq.trans hknown⟩
    · intro hpermanent
      -- Of the permanent codes, only that of a validation is left.
      have hvalidation : e.errorCode stage = "validation_error" := by
        rcases List.mem_cons.mp hpermanent with heq | hrest
        · exact heq
        · exact absurd hrest hmem
      have hcode : externalCode (if e.errorCode stage = "" then "ingestion_failed"
          else e.errorCode stage) = "validation_error" := by
        rw [hvalidation]
        decide +kernel
      obtain ⟨f, hf, heq⟩ := queueFailure_passed hrunning (by decide +kernel) hcode htime
      have hfalse : f.val.retryable = false := heq.trans (by decide +kernel)
      exact ⟨f, hf, hfalse, fun _ hfailed => not_retryEligible hfalse hfailed⟩

/-- A document that is too large is given back to the queue as retryable, though its code is
permanent. -/
theorem too_large_retryable : ¬ Agrees "request_too_large" := by
  intro hagrees
  obtain ⟨f, hf, hfalse, -⟩ := (hagrees "parsing" (.parse "request_too_large") rfl runningJob 0 1 rfl
    (by decide +kernel)).2 (by decide +kernel)
  obtain ⟨f', hf', htrue⟩ := replaced_retryable (c := "request_too_large") (by decide +kernel)
  cases hf.symm.trans hf'
  rw [htrue] at hfalse
  cases hfalse

end RickIntelligence.Worker
