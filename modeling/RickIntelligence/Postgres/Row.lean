import RickIntelligence.Jobs.Lifecycle
import RickIntelligence.Jobs.TimeMap
import RickIntelligence.Lib.Json

/-!
# Durable rows and their jobs

The rows of `rick_ingestion_jobs` and `rick_ingestion_job_attempts`, the values that
`apps/worker/postgres_jobs.py` writes into them, and `_decode`, which reads a job back. A timestamp
column holds whole microseconds, a document column holds a JSON value, and the other columns hold
what is written to them; integers and timestamps are unbounded.

A row with no `contract_state` was written before the canonical adapter. `_decode` reads it through
its legacy status and reconstructs what it does not have.
-/

namespace RickIntelligence.Postgres

open Lib Jobs

/-! ## Errors -/

/-- What the adapter raises: `PostgresJobError` by its code, or an error of the contract. -/
inductive QueueError where
  | unavailable
  | invalidInput (message : String)
  | notFound
  | concurrency (message : String)
  | lease (message : String)
  | idempotency
  | corrupt (message : String)
  | capacity
  | invalidTransition (message : String)
  | contract (e : ContractError)
  deriving DecidableEq, Repr

/-! ## Rows -/

/-- The values of the `status` column, which the legacy facade reads. -/
inductive LegacyStatus where
  | queued
  | leased
  | processing
  | published
  | acked
  | failed
  | cancelled
  | dead
  deriving DecidableEq, Repr

/-- The state of a legacy status: its upper case where that is a state, else `_LEGACY_STATES`. -/
def LegacyStatus.state : LegacyStatus → JobState
  | queued => .queued
  | leased => .running
  | processing => .running
  | published => .succeeded
  | acked => .succeeded
  | failed => .failed
  | cancelled => .cancelled
  | dead => .deadLetter

/-- `_legacy_status`. -/
def legacyStatus : JobState → LegacyStatus
  | .pending => .queued
  | .queued => .queued
  | .retrying => .queued
  | .running => .processing
  | .succeeded => .published
  | .failed => .failed
  | .cancelled => .cancelled
  | .deadLetter => .dead

/-- A row of `rick_ingestion_jobs`. -/
structure Row where
  job_id : String
  idempotency_key : String
  tenant_id : String
  workspace_id : String
  collection_id : String
  document_id : Option String
  operation : String
  status : LegacyStatus
  contract_state : Option JobState
  contract_version : String
  payload : Json
  max_attempts : ℕ
  attempts : ℕ
  available_at : ℤ
  lease_until : Option ℤ
  lease_owner : Option String
  lease_worker_id : Option String
  lease_acquired_at : Option ℤ
  result : Option Json
  failure : Option Json
  version : ℕ
  created_at : ℤ
  updated_at : ℤ
  last_error_code : Option String
  publication_recovery_at : Option ℤ

/-- A row of `rick_ingestion_job_attempts`, below its job. -/
structure AttemptRow where
  attempt_no : ℕ
  worker_id : String
  state : JobState
  started_at : ℤ
  finished_at : Option ℤ
  failure : Option Json

/-! ## Writing -/

/-- The version of the contract. -/
def contractVersion : String := "jobs-contract-v1"

/-- `_failure_dict`. -/
def failureDict (f : JobFailure) : Json :=
  .obj [("code", .str f.val.code), ("message", .str f.val.message),
    ("retryable", .bool f.val.retryable), ("attempt", .int f.val.attempt),
    ("occurred_at", .float (floorMicros f.val.occurred_at))]

/-- `_result_dict`. -/
def resultDict (r : JobResult) : Json :=
  .obj [("output_refs", .ofMapping r.val.output_refs),
    ("document_id", .ofOptionalText r.val.document_id),
    ("completed_at", .float (floorMicros r.val.completed_at))]

/-- The attempt row that `_write_attempts` writes. -/
def attemptRow (a : JobAttempt) : AttemptRow where
  attempt_no := a.val.number
  worker_id := a.val.worker_id
  state := a.val.state
  started_at := micros a.val.started_at
  finished_at := a.val.finished_at.map micros
  failure := a.val.failure.map failureDict

/-- The row that `_insert` writes. -/
def insertRow (j : Job) : Row where
  job_id := j.val.job_id
  idempotency_key := j.val.idempotency_key
  tenant_id := j.val.tenant_id
  workspace_id := j.val.workspace_id
  collection_id := j.val.collection_id
  document_id := j.val.result.bind fun r => r.val.document_id
  operation := j.val.operation
  status := legacyStatus j.val.state
  contract_state := some j.val.state
  contract_version := contractVersion
  payload := .ofMapping j.val.payload
  max_attempts := j.val.max_attempts
  attempts := j.attemptCount
  available_at := micros j.val.available_at
  lease_until := none
  lease_owner := none
  lease_worker_id := none
  lease_acquired_at := none
  result := j.val.result.map resultDict
  failure := j.val.failure.map failureDict
  version := j.val.version
  created_at := micros j.val.created_at
  updated_at := micros j.val.updated_at
  last_error_code := none
  publication_recovery_at := none

/-! ## Reading -/

/-- `_epoch` of a timestamp column. -/
def epoch (field : String) (m : ℤ) : Except QueueError ℚ :=
  if m < 0 then .error (.corrupt (field ++ " is not a finite timestamp")) else .ok (ofMicros m)

/-- `_epoch` of a timestamp column that may be null. -/
def optionalEpoch (field : String) : Option ℤ → Except QueueError (Option ℚ)
  | none => .ok none
  | some m => some <$> epoch field m

/-- A constructor of the contract, whose refusal is a corruption of the data. -/
def makeStored {α : Type} {post : α → Except ContractError α} [Normalises post] (message : String)
    (a : α) : Except QueueError (Validated post) :=
  (Validated.make a).mapError fun _ => .corrupt message

/-- The fields of a stored failure. -/
def failureFields (ms : Json.Members) : Option JobFailureFields := do
  let code ← (Json.member? "code" ms).bind Json.text?
  let message ← (Json.member? "message" ms).bind Json.text?
  let retryable ← (Json.member? "retryable" ms).bind Json.bool?
  let attempt ← (Json.member? "attempt" ms).bind Json.nat?
  let occurred_at ← (Json.member? "occurred_at" ms).bind Json.number?
  return { code, message, retryable, attempt, occurred_at }

/-- `_parse_failure`. -/
def parseFailure (field : String) : Option Json → Except QueueError (Option JobFailure)
  | none => .ok none
  | some .null => .ok none
  | some (.obj ms) =>
    match failureFields ms with
    | none => .error (.corrupt (field ++ " violates the jobs contract"))
    | some f => some <$> makeStored (field ++ " violates the jobs contract") f
  | some _ => .error (.corrupt (field ++ " must be a JSON object"))

/-- The document of a stored result: its own, or that of the row. -/
def observedDocument (ms : Json.Members) (document_id : Option String) :
    Except QueueError (Option String) :=
  match Json.member? "document_id" ms with
  | none => .ok document_id
  | some .null => .ok document_id
  | some (.str s) => .ok (some s)
  | some _ => .error (.corrupt "result.document_id violates the jobs contract")

/-- The references of a stored result. -/
def outputRefs (ms : Json.Members) : Option Mapping :=
  match Json.member? "output_refs" ms with
  | none => some []
  | some (.obj refs) => Json.mapping? refs
  | some _ => none

/-- The fields of a stored result. -/
def resultFields (ms : Json.Members) (document_id : Option String) : Option JobResultFields := do
  let output_refs ← outputRefs ms
  let completed_at ← (Json.member? "completed_at" ms).bind Json.number?
  return { output_refs, document_id, completed_at }

/-- `_parse_result`. -/
def parseResult (document_id : Option String) : Option Json → Except QueueError (Option JobResult)
  | none => .ok none
  | some .null => .ok none
  | some (.obj ms) => do
    let observed ← observedDocument ms document_id
    match resultFields ms observed with
    | none => .error (.corrupt "result violates the jobs contract")
    | some r => some <$> makeStored "result violates the jobs contract" r
  | some _ => .error (.corrupt "result must be a JSON object")

/-- One attempt of `_load_attempts`. -/
def loadAttempt (a : AttemptRow) : Except QueueError JobAttempt := do
  let failure ← parseFailure "attempt.failure" a.failure
  let started_at ← epoch "attempt.started_at" a.started_at
  let finished_at ← optionalEpoch "attempt.finished_at" a.finished_at
  makeStored "attempt history violates the jobs contract"
    { number := a.attempt_no, worker_id := a.worker_id, state := a.state, started_at,
      finished_at, failure }

/-- `_load_attempts`, on the rows of the job in the order of their numbers. -/
def loadAttempts (rows : List AttemptRow) : Except QueueError (List JobAttempt) :=
  rows.mapM loadAttempt

/-- The members of the payload. -/
def payloadMembers : Json → Except QueueError Json.Members
  | .null => .ok []
  | .obj ms => .ok ms
  | _ => .error (.corrupt "payload must be a JSON object")

/-- The text values of the payload, which the constructor asks for. -/
def payloadMapping (ms : Json.Members) : Except QueueError Mapping :=
  match Json.mapping? ms with
  | none => .error (.corrupt "job row violates the jobs contract")
  | some m => .ok m

/-! ## Rows from before the canonical adapter -/

namespace Legacy

/-- The worker of reconstructed attempts. -/
def worker (row : Row) : String :=
  let named := (row.lease_worker_id.filter (· ≠ "")).orElse fun _ =>
    row.lease_owner.filter (· ≠ "")
  let first := String.ofList ((splitAt ':' (named.getD "legacy-worker").toList).headD [])
  if first = "" then "legacy-worker" else first

/-- One attempt of `_legacy_attempts`. -/
def attempt (row : Row) (state : JobState) (observed : Option JobFailure) (created updated : ℚ)
    (number : ℕ) : Except QueueError JobAttempt := do
  let span := max 0 (updated - created)
  let last := number == row.attempts
  let started := created + span * ((number - 1 : ℚ) / row.attempts)
  let finished : Option ℚ := if state = .running && last then none else
    some (created + span * ((number : ℚ) / row.attempts))
  let kept : Bool := last && (state == .running || state == .succeeded || state == .cancelled)
  let reconstructed : JobFailureFields :=
    { code := "legacy_retry", message := "legacy attempt history is reconstructed for compatibility",
      retryable := true, attempt := number, occurred_at := finished.getD updated }
  let failure ← if kept then .ok none else match (if last then observed else none) with
    | some f => .ok (some f)
    | none => (some <$> Validated.make reconstructed).mapError .contract
  let fields : JobAttemptFields :=
    { number, worker_id := worker row, state := if kept then state else .failed,
      started_at := started, finished_at := finished, failure }
  (Validated.make fields).mapError .contract

/-- `_legacy_attempts`. -/
def attempts (row : Row) (state : JobState) : Except QueueError (List JobAttempt) :=
  if row.attempts = 0 then .ok []
  else if 64 < row.attempts then .error (.corrupt "legacy attempt count is out of range")
  else do
    let created ← epoch "created_at" row.created_at
    let updated ← epoch "updated_at" row.updated_at
    let observed ← parseFailure "failure" row.failure
    (List.range' 1 row.attempts).mapM (attempt row state observed created updated)

/-- The result of a succeeded row that has none. -/
def result (row : Row) (state : JobState) : Option JobResult → Except QueueError (Option JobResult)
  | some r => .ok (some r)
  | none =>
    if state = .succeeded then do
      let completed_at ← epoch "updated_at" row.updated_at
      let fields : JobResultFields :=
        { output_refs := [], document_id := row.document_id, completed_at }
      (some <$> Validated.make fields).mapError .contract
    else .ok none

/-- The failure of a failed or dead row that has none. -/
def failure (row : Row) (state : JobState) (history : List JobAttempt) :
    Option JobFailure → Except QueueError (Option JobFailure)
  | some f => .ok (some f)
  | none =>
    if state = .failed ∨ state = .deadLetter then
      match history.getLast?.bind fun a => a.val.failure with
      | some f => .ok (some f)
      | none => do
        let occurred_at ← epoch "updated_at" row.updated_at
        let fields : JobFailureFields :=
          { code := "legacy_failure", message := "legacy failure reconstructed for compatibility",
            retryable := state == .failed, attempt := max 1 row.attempts, occurred_at }
        (some <$> Validated.make fields).mapError .contract
    else .ok none

end Legacy

/-- `_legacy_state`. -/
def rowState (row : Row) : JobState := row.contract_state.getD row.status.state

/-- The attempts of a row: its history, or the reconstructed one of a legacy row. -/
def rowAttempts (row : Row) (history : List JobAttempt) : Except QueueError (List JobAttempt) :=
  if row.attempts = history.length then .ok history
  else if row.contract_state.isNone then Legacy.attempts row (rowState row)
  else .error (.corrupt ("attempt count mismatch for job " ++ row.job_id))

/-- `_decode`. -/
def decode (row : Row) (history : List AttemptRow) : Except QueueError Job := do
  raiseFirst [(row.job_id == "", .corrupt "job_id is missing")]
  let loaded ← loadAttempts history
  let attempts ← rowAttempts row loaded
  raiseFirst [(row.contract_version != contractVersion,
    .corrupt "unsupported jobs contract version")]
  let members ← payloadMembers row.payload
  let stored ← parseResult row.document_id row.result
  let failed ← parseFailure "failure" row.failure
  let result ← if row.contract_state.isNone then Legacy.result row (rowState row) stored
    else .ok stored
  let failure ← if row.contract_state.isNone then Legacy.failure row (rowState row) attempts failed
    else .ok failed
  let max_attempts := if row.contract_state.isNone then max (max row.max_attempts row.attempts) 1
    else row.max_attempts
  let available_at ← epoch "available_at" row.available_at
  let created_at ← epoch "created_at" row.created_at
  let updated_at ← epoch "updated_at" row.updated_at
  let payload ← payloadMapping members
  makeStored "job row violates the jobs contract"
    { job_id := row.job_id, tenant_id := row.tenant_id, workspace_id := row.workspace_id,
      collection_id := row.collection_id,
      operation := if row.operation = "" then "ingest" else row.operation,
      idempotency_key := row.idempotency_key, payload, state := rowState row, max_attempts,
      attempts, result, failure, available_at, created_at, updated_at,
      version := if row.version = 0 then 1 else row.version }

end RickIntelligence.Postgres
