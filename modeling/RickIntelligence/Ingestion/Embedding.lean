import RickIntelligence.Knowledge.Checkpoints
import RickIntelligence.Lib.Dict

/-!
# Embedding in batches

`_embed_in_batches` of `rick_ingestion/pipeline.py`: the texts of a plan are sent to the provider in
consecutive batches, every answer is checked as a whole, and the vectors so far are saved in the
checkpoint of the attempt after each batch. An execution begins with the vectors that its copy of the
checkpoint has.

An execution is taken apart at the points where another one may go on: before and after each call of the
provider and of the store (`Execution.step`). What the callbacks answer is given with each step
(`Signals`). A number of a vector is exact; one that is not finite is no number here, as for the check.
-/

namespace RickIntelligence.Ingestion

open Lib Knowledge

/-! ## Checking an answer -/

/-- `MAX_EMBEDDING_BATCH`. -/
def maxEmbeddingBatch : ℕ := 256

/-- An exception that a provider raises: its code, whether it says that it can be retried, whether it is
a `ValueError`, and whether it is a `_CancellationRequested`. -/
structure ProviderFault where
  code : Option String
  retryable : Bool
  isValueError : Bool
  isCancellation : Bool
  deriving DecidableEq, Repr

/-- The exceptions that leave an execution. -/
inductive Stop where
  | store (e : StoreError)
  | executionOwnershipLost
  | cancellationRequested
  | batch (code message : String)
  | value (message : String)
  | overflow
  | type
  deriving DecidableEq, Repr

/-- The least whole number that `float` cannot round to a finite one. -/
def floatLimit : ℤ := 2 ^ 1024 - 2 ^ 970

/-- `isinstance(v, Real) and not isinstance(v, bool) and math.isfinite(float(v))`. -/
def componentOk : Json → Except Stop Bool
  | .int n => if -floatLimit < n ∧ n < floatLimit then .ok true else .error .overflow
  | .float _ => .ok true
  | _ => .ok false

/-- `all` of the components of a vector. -/
def componentsOk : List Json → Except Stop Bool
  | [] => .ok true
  | v :: vs => do
    if ← componentOk v then componentsOk vs else return false

/-- `_embedding_is_valid`. -/
def embeddingIsValid (dimensions : ℤ) : Json → Except Stop Bool
  | .arr components => if (components.length : ℤ) = dimensions then componentsOk components else .ok false
  | _ => .ok false

/-- The check of each vector of an answer. -/
def checkVectors (dimensions : ℤ) : List Json → Except Stop Unit
  | [] => .ok ()
  | vector :: vectors => do
    if ← embeddingIsValid dimensions vector then checkVectors dimensions vectors
    else .error (.value ("Embedding dimension or value mismatch: expected " ++ toString dimensions ++
      " finite values. Refusing to write incompatible vectors; reindex required on model change."))

/-- `_validate_embeddings`. -/
def validateEmbeddings (vectors : Json) (expected_count : ℕ) (dimensions : ℤ) :
    Except Stop (List Json) :=
  let mismatch (actual_count : String) : Stop :=
    .value ("Embedding count mismatch: expected " ++ toString expected_count ++ ", got " ++ actual_count ++
      ". Refusing to write incomplete vectors.")
  match vectors with
  | .arr items =>
    if items.length ≠ expected_count then .error (mismatch (toString items.length))
    else if dimensions ≤ 0 then .error (.value "Embedding dimensions must be a positive integer.")
    else do
      checkVectors dimensions items
      return items
  | _ => .error (mismatch "unknown")

/-- `_TYPED_PROVIDER_ERROR_CODES`. -/
def typedProviderErrorCodes : List String :=
  ["timeout", "unavailable", "rate_limit", "server_error", "malformed_response", "missing_field",
    "invalid_json", "invalid_model", "embedding_dimension_mismatch", "model_not_found", "http_error",
    "invalid_configuration", "cancelled", "internal_error"]

/-- `_PROVIDER_RETRYABLE_CODES`. -/
def providerRetryableCodes : List String := ["timeout", "unavailable", "rate_limit", "server_error"]

/-- `_embedding_batch_failure`. -/
def embeddingBatchFailure (fault : ProviderFault) : Stop :=
  match fault.code.filter typedProviderErrorCodes.contains with
  | some code =>
    .batch (if providerRetryableCodes.contains code || fault.retryable then "provider_timeout"
      else "validation_error") "Embedding batch rejected by provider."
  | none =>
    if fault.isValueError then .batch "validation_error" "Embedding batch is invalid."
    else .batch "provider_unavailable" "Embedding provider failed during a bounded batch."

/-- An exception of the check, as the exception that it is. -/
def Stop.fault : Stop → ProviderFault
  | value _ => ⟨none, false, true, false⟩
  | _ => ⟨none, false, false, false⟩

/-! ## The batches -/

section Batches

variable (provider : List String → Json) (dimensions : ℤ) (texts : List String)

/-- `texts[offset:offset + MAX_EMBEDDING_BATCH]`. -/
def batchAt (offset : ℕ) : List String := (texts.drop offset).take maxEmbeddingBatch

/-- The number of batches of the whole plan. -/
def batchCount : ℕ := (texts.length + (maxEmbeddingBatch - 1)) / maxEmbeddingBatch

/-- The batches of the whole plan. -/
def batches : List (List String) :=
  (List.range (batchCount texts)).map fun k => batchAt texts (maxEmbeddingBatch * k)

/-- The call of the provider for a batch, unless it raises: the vectors of its answer. -/
def embedBatch (fault : Option ProviderFault) (batch : List String) : Except Stop (List Json) :=
  match fault with
  | some fault =>
    .error (if fault.isCancellation then .cancellationRequested else embeddingBatchFailure fault)
  | none =>
    match validateEmbeddings (provider batch) batch.length dimensions with
    | .ok validated => .ok validated
    | .error e => .error (embeddingBatchFailure e.fault)

/-- The vectors that the provider has for a batch, if its answer passes the check. -/
def answer (batch : List String) : List Json :=
  (validateEmbeddings (provider batch) batch.length dimensions).toOption.getD []

end Batches

/-! ## Executions -/

/-- The part of a checkpoint that an execution has a copy of. -/
structure Phase where
  fingerprint : Option Json
  artifacts : Json.Members

/-- A copy of the checkpoint with another output. -/
def Phase.withOutput (phase : Phase) : Option (String × Json) → Phase
  | some (name, value) => { phase with artifacts := Json.setMember name value phase.artifacts }
  | none => phase

/-- How far an execution has come: it is still to begin, at the head of the loop, about to call the
provider, to save, or to check after a save, or it is over. -/
inductive Stage where
  | prepare
  | resume
  | head
  | embed
  | save
  | check
  | returned (vectors : List Json)
  | stopped (e : Stop)

/-- An execution of `_embed_in_batches`. -/
structure Execution where
  job : Job
  phase : Option Phase
  vectors : List Json
  offset : ℕ
  stage : Stage

/-- What the callbacks answer in a step: `_lease_lost_check`, `cancel_check`, and what the provider
raises. -/
structure Signals where
  lease_lost : Bool
  cancel : Bool
  fault : Option ProviderFault

namespace Execution

/-- The vectors of the artifacts, checked if there are any. -/
def phaseVectors (dimensions : ℤ) (phase : Option Phase) : Except Stop (List Json) :=
  match phase.bind fun p => Json.member? "vectors" p.artifacts with
  | none | some (.arr []) => .ok []
  | some (.arr items) => validateEmbeddings (.arr items) items.length dimensions
  | some _ => .error .type

/-- The vectors that an execution begins with. -/
def resumed (dimensions : ℤ) (texts : List String) (phase : Option Phase) : Except Stop (List Json) := do
  let vectors ← phaseVectors dimensions phase
  if texts.length < vectors.length ∨
      (vectors.length ≠ texts.length ∧ vectors.length % maxEmbeddingBatch ≠ 0) then
    .error (.store (.ownership "checkpoint embedding batch boundary changed"))
  else return vectors

/-- `_checkpoint`: the job, which notes a cancellation of the checkpoint, or what it raises. -/
def checkpoint (env : Env) (signals : Signals) (job : Job) (s : Store) : Except Stop Job :=
  if signals.lease_lost then .error .executionOwnershipLost
  else match (Proc.exec (getIngestionCheckpoint env job.key) s).1 with
    | .error e => .error (.store e)
    | .ok checkpoint =>
      match checkpoint.map fun c => job.isAttempt c.attempt_id with
      | some (.error e) => .error (.store e)
      | some (.ok false) => .error (.store (.ownership "checkpoint attempt changed"))
      | _ =>
        let job := { job with
          cancel_requested := job.cancel_requested || checkpoint.any Checkpoint.cancel_requested }
        if job.status = .cancelled ∨ job.cancel_requested = true ∨ signals.cancel = true then
          .error .cancellationRequested
        else .ok job

/-- The execution is over. -/
def stop (x : Execution) (e : Stop) : Execution := { x with stage := .stopped e }

/-- The artifacts of an execution, with its vectors. -/
def saved (x : Execution) (phase : Phase) : Phase :=
  { phase with artifacts := Json.setMember "vectors" (.arr x.vectors) phase.artifacts }

/-- The next step of an execution. -/
def step (env : Env) (provider : List String → Json) (dimensions : ℤ) (texts : List String)
    (signals : Signals) (x : Execution) (s : Store) : Execution × Store :=
  match x.stage with
  | .prepare => ({ x with stage := .resume }, s)
  | .resume =>
    match resumed dimensions texts x.phase with
    | .error e => (x.stop e, s)
    | .ok vectors => ({ x with vectors, offset := vectors.length, stage := .head }, s)
  | .head =>
    if texts.length ≤ x.offset then ({ x with stage := .returned x.vectors }, s)
    else match checkpoint env signals x.job s with
      | .error e => (x.stop e, s)
      | .ok job => ({ x with job, stage := .embed }, s)
  | .embed =>
    match embedBatch provider dimensions signals.fault (batchAt texts x.offset) with
    | .error e => (x.stop e, s)
    | .ok validated => ({ x with vectors := x.vectors ++ validated, stage := .save }, s)
  | .save =>
    match x.phase with
    | none => ({ x with offset := x.offset + maxEmbeddingBatch, stage := .head }, s)
    | some phase =>
      match Proc.exec (saveIngestionCheckpoint env x.job phase.fingerprint (x.saved phase).artifacts) s with
      | (.error e, s) => ({ x with phase := some (x.saved phase), stage := .stopped (.store e) }, s)
      | (.ok (_, cancel), s) =>
        ({ x with phase := some (x.saved phase), stage := .check,
                  job := { x.job with cancel_requested := cancel } }, s)
  | .check =>
    match checkpoint env signals x.job s with
    | .error e => (x.stop e, s)
    | .ok job => ({ x with job, offset := x.offset + maxEmbeddingBatch, stage := .head }, s)
  | .returned _ | .stopped _ => (x, s)

/-- An execution that is about to begin saves another output of the attempt, or its copy as it is. -/
def prepare (env : Env) (output : Option (String × Json)) (x : Execution) (s : Store) :
    Execution × Store :=
  match x.stage, x.phase with
  | .prepare, some phase =>
    match Proc.exec (saveIngestionCheckpoint env x.job phase.fingerprint
      (phase.withOutput output).artifacts) s with
    | (.error e, s) =>
      ({ x with phase := some (phase.withOutput output), stage := .stopped (.store e) }, s)
    | (.ok (_, cancel), s) =>
      ({ x with phase := some (phase.withOutput output),
                job := { x.job with cancel_requested := cancel } }, s)
  | _, _ => (x, s)

end Execution

end RickIntelligence.Ingestion
