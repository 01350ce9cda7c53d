import RickIntelligence.Postgres.Store

/-!
# The canonical job queue

`PostgresJobQueue` of `apps/worker/postgres_jobs.py`: the internal statements `_persist` and
`_insert`, the reconciliation of publications, the recovery of expired leases, and the public
operations over them. Every operation is one transaction. What the fault injector of the tests adds,
and the reading operations, are left out.
-/

namespace RickIntelligence.Postgres

open Lib Jobs

/-- `_time`. -/
def time (field : String) (t : ℚ) : Except QueueError ℚ :=
  if t < 0 then .error (.invalidInput (field ++ " must be a finite timestamp")) else .ok t

/-- A step of the contract whose refusal is not translated. -/
def contractStep {α : Type} (x : Except ContractError α) : QTx α := Tx.lift (x.mapError .contract)

/-- A step of the contract whose refusal is an invalid transition. -/
def transitionStep {α : Type} (x : Except ContractError α) : QTx α :=
  Tx.lift (x.mapError fun
    | .validation m => .invalidTransition m
    | .idempotencyConflict m => .invalidTransition m
    | .invalidTransition m => .invalidTransition m)

/-! ## Persisting a job -/

/-- What `_persist` does with the lease of the row. -/
inductive LeaseArg where
  /-- `_KEEP_LEASE`. -/
  | keep
  /-- `None`. -/
  | clear
  /-- A worker and its token, for the duration of a lease. -/
  | issue (worker token : String)

/-- The arguments of `_persist` besides the job. -/
structure PersistArgs where
  expected_version : ℕ
  from_state : JobState
  lease : LeaseArg := .keep
  lease_guard : Option JobLease := none
  document_id : Option String := none
  event_type : String := "transition"
  deadline : Option ℚ := none

/-- The lease columns that `_persist` writes. -/
def LeaseArg.assign (cfg : Config) (env : Env) : LeaseArg → Row → Row
  | .keep, r => r
  | .clear, r =>
    { r with lease_worker_id := none, lease_owner := none, lease_acquired_at := none,
             lease_until := none }
  | .issue worker token, r =>
    { r with lease_worker_id := some worker, lease_owner := some token,
             lease_acquired_at := some env.clock,
             lease_until := some (env.clock + interval cfg.lease_seconds) }

/-- The columns of the job that `_persist` writes. -/
def assignJob (env : Env) (j : Job) (a : PersistArgs) (r : Row) : Row :=
  { r with
    idempotency_key := j.val.idempotency_key
    operation := j.val.operation
    payload := .ofMapping j.val.payload
    status := legacyStatus j.val.state
    contract_state := some j.val.state
    contract_version := contractVersion
    max_attempts := j.val.max_attempts
    attempts := j.attemptCount
    available_at := micros j.val.available_at
    result := j.val.result.map resultDict
    failure := j.val.failure.map failureDict
    version := j.val.version
    updated_at := micros j.val.updated_at
    document_id := a.document_id.or r.document_id
    publication_recovery_at :=
      if a.event_type = "checkpoint_resumed" then some env.clock else r.publication_recovery_at
    last_error_code :=
      if a.event_type = "publication_recovered" ∨ a.event_type = "publication_cancelled" then none
      else r.last_error_code }

/-- The row that `_persist` writes. -/
def persistRow (cfg : Config) (env : Env) (j : Job) (a : PersistArgs) (r : Row) : Row :=
  a.lease.assign cfg env (assignJob env j a r)

/-- The lease that a guarded statement asks for. -/
def Row.heldBy (r : Row) (env : Env) (lease : JobLease) : Bool :=
  r.contract_state == some .running && r.lease_worker_id == some lease.val.worker_id &&
    r.lease_owner == some lease.val.token && r.lease_until.any fun t => decide ((env.clock : ℤ) < t)

/-- The rows that `_persist` updates. -/
def persistWhere (env : Env) (j : Job) (a : PersistArgs) (deadline : Option ℚ) (r : Row) : Bool :=
  r.inScope j.scope && r.version == a.expected_version &&
    (a.lease_guard.all fun lease => r.heldBy env lease) &&
    (deadline.all fun t => decide ((env.clock : ℤ) < micros t)) && r.contract_state.isSome

/-- An optional time as `_time` returns it. -/
def optionalTime (field : String) : Option ℚ → Except QueueError (Option ℚ)
  | none => .ok none
  | some t => some <$> time field t

/-- `_persist`. -/
def persist (cfg : Config) (env : Env) (j : Job) (a : PersistArgs) : QTx Job := do
  Tx.raiseIf (j.val.version != a.expected_version + 1)
    (.concurrency "persisted job version must be expected_version + 1")
  let deadline ← Tx.lift (optionalTime "deadline" a.deadline)
  let updated ← updateRow env j.val.job_id (persistWhere env j a deadline)
    (persistRow cfg env j a)
  match updated with
  | none =>
    if a.lease_guard.isSome then
      Tx.raise (.lease "lease expired or was replaced before persistence")
    else Tx.raise (.concurrency "job version changed")
  | some row =>
    writeAttempts j
    writeEvent j (some a.from_state) a.event_type
    decodeStored row

/-- `_insert`. -/
def insert (env : Env) (j : Job) : QTx Job := do
  insertJobRow env (insertRow j)
  writeAttempts j
  writeEvent j none "created"
  decodeStored (insertRow j)

/-- `_check_expected`. -/
def checkExpected (expected_version observed : ℕ) : QTx Unit :=
  Tx.raiseIf (expected_version != observed) (.concurrency "job version changed")

/-- `_require_canonical_row`. -/
def requireCanonicalRow (row : Row) : QTx Unit :=
  Tx.raiseIf row.contract_state.isNone
    (.invalidTransition "legacy jobs require the Phase 2.3 canonical rewrite")

/-- `ensure_idempotent`, whose conflict is the adapter's. -/
def ensureIdempotent (existing candidate : Job) : QTx Job :=
  Tx.lift ((Job.ensureIdempotent existing candidate).mapError fun _ => .idempotency)

/-! ## Admission -/

/-- `_queue_candidate`. -/
def queueCandidate (j : Job) (now : ℚ) : QTx Job :=
  match j.val.state with
  | .pending => contractStep (j.transition .queued (max now j.val.updated_at) {})
  | .queued => pure j
  | _ => Tx.raise (.invalidTransition "only pending or queued jobs can be enqueued")

/-- `create_or_replay`. -/
def createOrReplay (env : Env) (j : Job) (expected_version : ℕ) : QTx Job := do
  match ← idempotencyRow j with
  | some row =>
    let existing ← decodeStored row
    if expected_version ≠ 0 then checkExpected expected_version existing.val.version
    ensureIdempotent existing j
  | none =>
    if expected_version ≠ 0 then checkExpected expected_version 0
    insert env j

/-- A pending job becomes a queued one. -/
def enqueuePending (cfg : Config) (env : Env) (j : Job) : QTx Job := do
  let queued ← queueCandidate j j.val.updated_at
  persist cfg env queued
    { expected_version := j.val.version, from_state := j.val.state, lease := .clear,
      event_type := "enqueued" }

/-- The states that `enqueue` counts. -/
def activeStates : List JobState := [.pending, .queued, .retrying, .running]

/-- A row counts towards the capacity of a scope. -/
def Row.activeIn (r : Row) (scope : JobScopeFields) : Bool :=
  r.inScope scope && r.contract_state.any fun s => activeStates.contains s

/-- The active rows of a scope. -/
def activeCount (s : Store) (scope : JobScopeFields) : ℕ :=
  s.jobs.rows.countP fun r => r.activeIn scope

/-- `enqueue`. -/
def enqueue (cfg : Config) (env : Env) (j : Job) (expected_version : ℕ) : QTx Job := do
  match ← idempotencyRow j with
  | some row =>
    let existing ← decodeStored row
    if expected_version ≠ 0 then checkExpected expected_version existing.val.version
    let existing ← ensureIdempotent existing j
    if row.contract_state.isNone then return existing
    if existing.val.state = .pending then enqueuePending cfg env existing
    else return existing
  | none =>
    let s : Session ← get
    Tx.raiseIf (decide (cfg.max_pending ≤ activeCount s.store j.scope)) .capacity
    Tx.raiseIf (expected_version != 0) (.concurrency "a new job must use expected_version=0")
    let inserted ← insert env j
    if inserted.val.state = .pending then enqueuePending cfg env inserted
    else return inserted

/-! ## Saving -/

/-- The refusal of `_ensure_attempt_history_mutation` on one attempt. -/
def attemptMutationChecks (previous observed : JobAttempt) : List (Bool × QueueError) :=
  if previous = observed then []
  else
    [(previous.val.state != .running, .invalidTransition "finished attempt history is immutable"),
      (observed.val.number != previous.val.number ||
          observed.val.worker_id != previous.val.worker_id ||
          observed.val.started_at != previous.val.started_at || observed.val.state == .running,
        .invalidTransition "active attempt identity is immutable")]

/-- `_ensure_attempt_history_mutation`. -/
def ensureAttemptHistoryMutation (existing candidate : Job) : Except QueueError Unit :=
  raiseFirst ((decide (candidate.attemptCount < existing.attemptCount),
      .invalidTransition "attempt history cannot be truncated") ::
    (existing.val.attempts.zip candidate.val.attempts).flatMap fun p =>
      attemptMutationChecks p.1 p.2)

/-- `save`. -/
def save (cfg : Config) (env : Env) (j : Job) (expected_version : ℕ) : QTx Job := do
  match ← selectOne j.val.job_id j.scope with
  | none => Tx.raise .notFound
  | some row =>
    requireCanonicalRow row
    let existing ← decodeStored row
    checkExpected expected_version existing.val.version
    Tx.raiseIf (existing.val.state == .running || j.val.state == .running)
      (.lease "running jobs require owner-bound lifecycle operations")
    let _ ← ensureIdempotent existing j
    Tx.lift (ensureAttemptHistoryMutation existing j)
    persist cfg env j { expected_version, from_state := existing.val.state }

/-- `transition`. -/
def transition (cfg : Config) (env : Env) (j : Job) (to_state : JobState) (now : ℚ)
    (expected_version : ℕ) : QTx Job := do
  match ← selectOne j.val.job_id j.scope with
  | none => Tx.raise .notFound
  | some row =>
    requireCanonicalRow row
    let existing ← decodeStored row
    checkExpected expected_version existing.val.version
    Tx.raiseIf (decide (existing ≠ j)) (.concurrency "caller job snapshot is stale")
    Tx.raiseIf (existing.val.state == .running && to_state == .cancelled)
      (.lease "running jobs require owner-bound cancellation")
    let now ← Tx.lift (time "time" now)
    let next ← transitionStep (existing.transition to_state now {})
    persist cfg env next
      { expected_version, from_state := existing.val.state,
        lease := if next.val.state = .running then .keep else .clear }

/-- The job that `schedule` saves. -/
def scheduled (j : Job) (target : ℚ) : Except QueueError Job :=
  match j.val.state with
  | .retrying =>
    (j.transition .queued (max target j.val.updated_at)
      { available_at := some target }).mapError .contract
  | .queued =>
    let fields : JobFields :=
      { j.val with
        available_at := max target j.val.created_at, updated_at := max target j.val.updated_at,
        version := j.val.version + 1 }
    (Validated.make fields).mapError .contract
  | _ => .error (.invalidTransition "only retrying or queued jobs can be scheduled")

/-- `schedule`. -/
def schedule (cfg : Config) (env : Env) (j : Job) (available_at : ℚ) (expected_version : ℕ) :
    QTx Job := do
  let target ← Tx.lift (time "available_at" available_at)
  let next ← Tx.lift (scheduled j target)
  save cfg env next expected_version

/-! ## Reconciling publications -/

/-- The running row of a job at its version. -/
def runningAt (j : Job) (r : Row) : Bool :=
  r.inScope j.scope && r.version == j.val.version && r.contract_state == some .running

/-- One second, in microseconds. -/
def oneSecond : ℤ := 1000000

/-- `_defer_publication`. -/
def deferPublication (env : Env) (j : Job) (reason : String) : QTx Job := do
  let _ ← updateRow env j.val.job_id (runningAt j) fun r =>
    { r with publication_recovery_at := some (env.clock + oneSecond),
             last_error_code := some reason }
  return j

/-- What a publication ends with. -/
inductive Publication where
  | plain (r : JobResult)
  | committed (p : JobPublicationResult)
  | cancelled (c : JobPublicationCancellation)

/-- The facts of a publication are those of the active attempt. -/
def factsMatch (cfg : Config) (j : Job) (facts : JobPublicationFacts) : Bool :=
  facts.job_id == j.val.job_id && facts.scope.val == j.scope && facts.attempt == j.attemptCount &&
    decide (facts.created_at = j.val.created_at) &&
    (j.val.lastAttempt.any fun a => decide (facts.started_at = a.val.started_at)) &&
    cfg.publicationAttempt j == some facts.attempt_id

/-- The end of a publication with its own time, when its facts are those of the attempt. -/
def publishedCompletion (cfg : Config) (j : Job) (facts : JobPublicationFacts)
    (completed_at : Option ℚ) (target : JobState) (result : Option JobResult) (now : ℚ) :
    Except String Job :=
  if !factsMatch cfg j facts then .error "publication_attempt_conflict"
  else match completed_at with
    | none => .error "publication_finish_unknown"
    | some t =>
      (j.finishAttempt target (max (max now j.val.updated_at) t)
        { result, finished_at := some t }).mapError fun _ => "publication_attempt_conflict"

/-- `_publication_completion`: the finished job, or the reason to wait. -/
def publicationCompletion (cfg : Config) (j : Job) (now : ℚ) : Publication → Except String Job
  | .plain r =>
    (j.finishAttempt .succeeded now { result := some r }).mapError
      fun _ => "publication_attempt_conflict"
  | .committed p =>
    publishedCompletion cfg j p.facts (some p.result.val.completed_at) .succeeded (some p.result) now
  | .cancelled c => publishedCompletion cfg j c.facts c.completed_at .cancelled none now

/-- The document that a publication names. -/
def Publication.documentId : Publication → Option String
  | .plain r => r.val.document_id
  | .committed p => p.result.val.document_id
  | .cancelled _ => none

/-- The event of a reconciled publication. -/
def Publication.eventType : Publication → String
  | .plain _ => "publication_recovered"
  | .committed _ => "publication_recovered"
  | .cancelled _ => "publication_cancelled"

/-- What `_reconcile_publication` returns. -/
inductive Reconciled where
  /-- Not handled: there is no authority. -/
  | absent
  /-- Handled, with the job. -/
  | job (j : Job)
  /-- Handled, with the authority to resume the attempt. -/
  | continuation

/-- A publication that has ended is recorded, or waits. -/
def recordPublication (cfg : Config) (env : Env) (j : Job) (now : ℚ) (p : Publication) :
    QTx Reconciled := do
  match publicationCompletion cfg j now p with
  | .error reason => return .job (← deferPublication env j reason)
  | .ok terminal =>
    let terminal ← persist cfg env terminal
      { expected_version := j.val.version, from_state := j.val.state, lease := .clear,
        document_id := p.documentId, event_type := p.eventType }
    return .job terminal

/-- The facts of a continuation are those of the active attempt. -/
def continuationMatches (j : Job) (facts : JobPublicationFacts) : Bool :=
  facts.job_id == j.val.job_id && facts.scope.val == j.scope && facts.attempt == j.attemptCount &&
    decide (facts.created_at = j.val.created_at) &&
    (j.val.lastAttempt.any fun a => decide (facts.started_at = a.val.started_at))

/-- The reason that a raised error gives, if it is a known one. -/
def recoveryReason : Option String → String
  | some "publication_finish_unknown" => "publication_finish_unknown"
  | some "publication_facts_unknown" => "publication_facts_unknown"
  | _ => "publication_authority_unavailable"

/-- `_reconcile_publication`. -/
def reconcilePublication (cfg : Config) (env : Env) (j : Job) (now : ℚ) (allow_continuation : Bool) :
    QTx Reconciled :=
  match env.reconciler with
  | none => pure .absent
  | some reconcile =>
    match reconcile j with
    | .absent => pure .absent
    | .raisedCancelled none => .job <$> deferPublication env j "publication_finish_unknown"
    | .raisedCancelled (some c) => recordPublication cfg env j now (.cancelled c)
    | .raised reason => .job <$> deferPublication env j (recoveryReason reason)
    | .continuation facts =>
      pure (if continuationMatches j facts && allow_continuation then .continuation else .job j)
    | .other => .job <$> deferPublication env j "publication_facts_unknown"
    | .result r => recordPublication cfg env j now (.plain r)
    | .publication p => recordPublication cfg env j now (.committed p)
    | .cancellation c => recordPublication cfg env j now (.cancelled c)

/-- `recover_publication`. -/
def recoverPublication (cfg : Config) (env : Env) (job_id : String) (scope : JobScopeFields)
    (now : ℚ) : QTx (Option Job) := do
  let scope ← contractStep scope.postInit
  match ← selectOne job_id scope with
  | none => return none
  | some row =>
    let j ← decodeStored row
    -- For a succeeded job the owner is only told; its answer is not used.
    if j.val.state = .running then
      let now ← Tx.lift (time "time" now)
      match ← reconcilePublication cfg env j now false with
      | .job recovered => return some recovered
      | _ => return some j
    else return some j

/-! ## Failures and expired leases -/

/-- `_backoff`. -/
def backoff (cfg : Config) (attempt : ℕ) : ℚ :=
  min 86400 (cfg.backoff_seconds * 2 ^ min (attempt - 1) 16)

/-- A failed job is queued again if it has an attempt left, and given up otherwise. -/
def settleFailure (cfg : Config) (env : Env) (failed : Job) (now : ℚ) : QTx Job := do
  let transition_now := max now failed.val.updated_at
  if failed.retryEligible then
    let retrying ← contractStep (failed.transition .retrying transition_now {})
    let retrying ← persist cfg env retrying
      { expected_version := failed.val.version, from_state := failed.val.state, lease := .clear,
        event_type := "retrying" }
    let requeued_at := max transition_now retrying.val.updated_at
    let queued ← contractStep (retrying.transition .queued requeued_at
      { available_at := some (requeued_at + backoff cfg retrying.attemptCount) })
    persist cfg env queued
      { expected_version := retrying.val.version, from_state := retrying.val.state,
        lease := .clear, event_type := "requeued" }
  else
    let dead ← contractStep
      (failed.transition .deadLetter transition_now { failure := failed.val.failure })
    persist cfg env dead
      { expected_version := failed.val.version, from_state := failed.val.state, lease := .clear,
        event_type := "dead_lettered" }

/-- The rows that `_recover_expired` selects. -/
def expiredWhere (env : Env) (scope : JobScopeFields) (r : Row) : Bool :=
  r.inScope scope && r.contract_state == some .running &&
    (r.lease_until.any fun t => decide (t ≤ (env.clock : ℤ))) &&
    r.publication_recovery_at.all fun t => decide (t ≤ (env.clock : ℤ))

/-- The failure of an expired lease. -/
def leaseExpired (j : Job) (now : ℚ) : JobFailureFields :=
  { code := "lease_expired", message := "worker lease expired before completion",
    retryable := true, attempt := j.attemptCount, occurred_at := now }

/-- An expired attempt without publication authority fails. -/
def expireAttempt (cfg : Config) (env : Env) (j : Job) (now : ℚ) : QTx Unit := do
  let failure ← contractStep (Validated.make (leaseExpired j now))
  let failed ← contractStep (j.finishAttempt .failed now { failure := some failure })
  let failed ← persist cfg env failed
    { expected_version := j.val.version, from_state := j.val.state, lease := .clear,
      event_type := "lease_expired" }
  let _ ← settleFailure cfg env failed now
  return ()

/-- The place of a job that can be resumed among the candidates. -/
def continuationOrder (row : Row) (j : Job) : Except QueueError ℚ :=
  match row.publication_recovery_at with
  | none => .ok j.val.created_at
  | some m => epoch "publication_recovery_at" m

/-- One row of `_recover_expired`: the job, when its attempt is to be resumed. -/
def recoverRow (cfg : Config) (env : Env) (now : ℚ) (row : Row) : QTx (Option (Job × ℚ)) := do
  let j ← decodeStored row
  Tx.raiseIf (!j.val.lastIn .running) (.corrupt "running job has no active attempt")
  let recovery_now := max now j.val.updated_at
  match ← reconcilePublication cfg env j recovery_now true with
  | .absent =>
    expireAttempt cfg env j recovery_now
    return none
  | .continuation =>
    let order ← Tx.lift (continuationOrder row j)
    return some (j, order)
  | .job recovered =>
    if recovered.val.state = .running then
      let _ ← updateRow env j.val.job_id (runningAt j) fun r =>
        { r with publication_recovery_at := some (env.clock + oneSecond) }
    return none

/-- The loop of `_recover_expired`: the jobs whose attempts are to be resumed, with their places.
There are at most as many rows as continuations may be kept. -/
def recoverRows (cfg : Config) (env : Env) (now : ℚ) : List Row → QTx (List (Job × ℚ))
  | [] => pure []
  | row :: rows => do
    let first ← recoverRow cfg env now row
    let rest ← recoverRows cfg env now rows
    return first.toList ++ rest

/-- `_recover_expired`. -/
def recoverExpired (cfg : Config) (env : Env) (scope : JobScopeFields) (now : ℚ) :
    QTx (List (Job × ℚ)) := do
  let rows ← selectMany (expiredWhere env scope) recoveryLE 100
  recoverRows cfg env now rows

/-! ## Claiming -/

/-- A token of a lease. -/
def drawToken (env : Env) : QTx String := do
  let s : Session ← get
  set { s with draws := s.draws + 1 }
  return "lease-" ++ env.token s.draws

/-- A random suffix of an event. -/
def drawHex (env : Env) : QTx String := do
  let s : Session ← get
  set { s with draws := s.draws + 1 }
  return env.hex s.draws

/-- The rows that `claim` selects. -/
def claimWhere (env : Env) (scope : JobScopeFields) (r : Row) : Bool :=
  r.inScope scope && r.contract_state == some .queued && decide (r.available_at ≤ (env.clock : ℤ))

/-- The running job of a candidate: a resumed attempt, or a new one. -/
def claimedJob (j : Job) (worker : String) (now : ℚ) : Except ContractError Job :=
  if j.val.state = .running then
    let fields : JobFields :=
      { j.val with updated_at := max now j.val.updated_at, version := j.val.version + 1 }
    Validated.make fields
  else j.startAttempt worker now

/-- A lease time of a row. -/
def leaseEpoch (field : String) : Option ℤ → Except QueueError ℚ
  | none => .error (.corrupt (field ++ " is not a timestamp"))
  | some m => epoch field m

/-- One candidate of `claim`. -/
def claimOne (cfg : Config) (env : Env) (worker : String) (scope : JobScopeFields)
    (expected_versions : List (String × ℕ)) (now : ℚ) (j : Job) : QTx (Job × JobLease) := do
  let expected := (expected_versions.lookup j.val.job_id).getD j.val.version
  checkExpected expected j.val.version
  let running ← transitionStep (claimedJob j worker now)
  let token ← drawToken env
  let persisted ← persist cfg env running
    { expected_version := expected, from_state := j.val.state, lease := .issue worker token,
      event_type := if j.val.state = .running then "checkpoint_resumed" else "claimed" }
  match ← selectOne persisted.val.job_id scope with
  | none => Tx.raise (.lease "claim did not return its durable lease")
  | some row =>
    let acquired ← Tx.lift (leaseEpoch "lease_acquired_at" row.lease_acquired_at)
    let expires ← Tx.lift (leaseEpoch "lease_until" row.lease_until)
    let owner ← contractStep (Validated.make persisted.scope)
    let fields : JobLeaseFields :=
      { job_id := persisted.val.job_id, scope := owner, worker_id := worker, token,
        acquired_at := acquired, expires_at := expires, heartbeat_at := acquired }
    let lease ← contractStep (Validated.make fields)
    return (persisted, lease)

/-- The candidates of `claim`, one after the other. -/
def claimEach (cfg : Config) (env : Env) (worker : String) (scope : JobScopeFields)
    (expected_versions : List (String × ℕ)) (now : ℚ) : List Job → QTx (List (Job × JobLease))
  | [] => pure []
  | j :: rest => do
    let first ← claimOne cfg env worker scope expected_versions now j
    let others ← claimEach cfg env worker scope expected_versions now rest
    return first :: others

/-- `_decode` of some rows. -/
def decodeEach : List Row → QTx (List Job)
  | [] => pure []
  | row :: rows => do
    let j ← decodeStored row
    let rest ← decodeEach rows
    return j :: rest

/-- The place of a candidate: that of its continuation, or its age. -/
def candidateOrder (continuations : List (Job × ℚ)) (j : Job) : ℚ :=
  ((continuations.find? fun c => c.1.val.job_id == j.val.job_id).map Prod.snd).getD
    j.val.created_at

/-- The order of the candidates of `claim`. -/
def candidateLE (continuations : List (Job × ℚ)) (a b : Job) : Prop :=
  candidateOrder continuations a < candidateOrder continuations b ∨
    (candidateOrder continuations a = candidateOrder continuations b ∧
      (a.val.created_at < b.val.created_at ∨
        (a.val.created_at = b.val.created_at ∧ a.val.job_id ≤ b.val.job_id)))

instance (continuations : List (Job × ℚ)) : DecidableRel (candidateLE continuations) := fun a b =>
  inferInstanceAs (Decidable (_ ∨ (_ ∧ (_ ∨ (_ ∧ a.val.job_id ≤ b.val.job_id)))))

/-- `claim`. -/
def claim (cfg : Config) (env : Env) (worker : String) (scope : JobScope)
    (expected_versions : List (String × ℕ)) (limit : ℕ) (now : ℚ) :
    QTx (List (Job × JobLease)) := do
  Tx.raiseIf (!(decide (1 ≤ limit) && decide (limit ≤ 100)))
    (.invalidInput "limit is out of range")
  let now ← Tx.lift (time "now" now)
  let continuations ← recoverExpired cfg env scope.val now
  let rows ← selectMany (claimWhere env scope.val) rowLE limit
  let queued ← decodeEach rows
  let candidates := (continuations.map Prod.fst ++ queued).insertionSort (candidateLE continuations)
  claimEach cfg env worker scope.val expected_versions now (candidates.take limit)

/-! ## Owner-bound operations -/

/-- The row that `_lock_lease` selects. -/
def leaseWhere (env : Env) (lease : JobLease) (expected_version : ℕ) (r : Row) : Bool :=
  r.inScope lease.val.scope.val && r.heldBy env lease && r.version == expected_version

/-- `_lock_lease`. -/
def lockLease (env : Env) (lease : JobLease) (expected_version : ℕ) (now : ℚ) : QTx Job := do
  let _ ← Tx.lift (time "now" now)
  let s : Session ← get
  match (s.store.jobs.find? lease.val.job_id).filter (leaseWhere env lease expected_version) with
  | none => Tx.raise (.lease "lease is missing, expired, or owned by another worker")
  | some row =>
    let j ← decodeStored row
    Tx.raiseIf (lease.val.job_id != j.val.job_id || lease.val.scope.val != j.scope)
      (.lease "lease scope or owner does not match the durable row")
    checkExpected expected_version j.val.version
    return j

/-- `heartbeat`. -/
def heartbeat (cfg : Config) (env : Env) (lease : JobLease) (now : ℚ) (expected_version : ℕ) :
    QTx JobLease := do
  let now ← Tx.lift (time "now" now)
  let j ← lockLease env lease expected_version now
  let updated ← updateRow env lease.val.job_id (leaseWhere env lease expected_version) fun r =>
    { r with lease_until := some (env.clock + interval cfg.lease_seconds) }
  match updated with
  | none => Tx.raise (.lease "lease is missing, expired, or owned by another worker")
  | some row =>
    let acquired ← Tx.lift (leaseEpoch "lease_acquired_at" row.lease_acquired_at)
    let expires ← Tx.lift (leaseEpoch "lease_until" row.lease_until)
    let database_now ← Tx.lift (epoch "database_now" env.clock)
    let suffix ← drawHex env
    let event_id := "job:" ++ j.val.job_id ++ ":heartbeat:" ++ suffix
    let metadata : Json := .obj [("contract_version", .str contractVersion),
      ("state", .str j.val.state.value), ("worker_id", .str lease.val.worker_id)]
    writeLifecycleEvent j event_id (some j.val.state) "lease_heartbeat" metadata
    writeProjectionEvent j event_id "lease_heartbeat" metadata
    contractStep (Validated.make
      { lease.val with
        acquired_at := acquired, expires_at := expires, heartbeat_at := database_now })

/-- The result that `acknowledge` is called with. -/
inductive AckResult where
  | plain (r : JobResult)
  | publication (p : JobPublicationResult)

/-- The authority of the publication owner over an ordinary result: the result to record, or the
reason to wait. -/
def ackAuthority (env : Env) (j : Job) : AckResult → Except String Publication
  | .publication p => .ok (.committed p)
  | .plain r =>
    match env.reconciler with
    | none => .ok (.plain r)
    | some reconcile =>
      match reconcile j with
      | .absent => .ok (.plain r)
      | .result _ => .ok (.plain r)
      | .publication p =>
        if p.result.val = r.val then .ok (.committed p) else .error "publication_attempt_conflict"
      | .raisedCancelled _ => .error "publication_authority_unavailable"
      | .raised _ => .error "publication_authority_unavailable"
      | _ => .error "publication_facts_unknown"

/-- `acknowledge`. -/
def acknowledge (cfg : Config) (env : Env) (lease : JobLease) (result : AckResult) (now : ℚ)
    (expected_version : ℕ) (deadline : Option ℚ) : QTx Job := do
  let now ← Tx.lift (time "now" now)
  let deadline ← Tx.lift (optionalTime "deadline" deadline)
  Tx.raiseIf (deadline.any fun t => decide (t ≤ now)) (.lease "handler deadline expired")
  let j ← lockLease env lease expected_version now
  match ackAuthority env j result with
  | .error reason => deferPublication env j reason
  | .ok (.plain r) =>
    let succeeded ← transitionStep (j.finishAttempt .succeeded now { result := some r })
    persist cfg env succeeded
      { expected_version, from_state := j.val.state, lease := .clear, lease_guard := some lease,
        document_id := r.val.document_id, event_type := "acknowledged", deadline }
  | .ok p =>
    match publicationCompletion cfg j now p with
    | .error reason => deferPublication env j reason
    | .ok succeeded =>
      persist cfg env succeeded
        { expected_version, from_state := j.val.state, lease := .clear, lease_guard := some lease,
          document_id := p.documentId, event_type := "acknowledged", deadline }

/-- `fail`. -/
def fail (cfg : Config) (env : Env) (lease : JobLease) (failure : JobFailure) (now : ℚ)
    (expected_version : ℕ) : QTx Job := do
  let now ← Tx.lift (time "now" now)
  let j ← lockLease env lease expected_version now
  match ← reconcilePublication cfg env j now false with
  | .job recovered => return recovered
  | _ =>
    let failed ← transitionStep (j.finishAttempt .failed now { failure := some failure })
    let failed ← persist cfg env failed
      { expected_version, from_state := j.val.state, lease := .clear, lease_guard := some lease,
        event_type := "failed" }
    settleFailure cfg env failed now

/-- `cancel`. -/
def cancel (cfg : Config) (env : Env) (job_id : String) (scope : JobScopeFields) (now : ℚ)
    (expected_version : ℕ) : QTx Job := do
  let scope ← contractStep scope.postInit
  match ← selectOne job_id scope with
  | none => Tx.raise .notFound
  | some row =>
    let j ← decodeStored row
    requireCanonicalRow row
    checkExpected expected_version j.val.version
    if j.val.state = .running then
      match env.requestCancel with
      | none => Tx.raise (.lease "running publication cancellation owner unavailable")
      | some request =>
        Tx.raiseIf (!request j) .unavailable
        let now ← Tx.lift (time "time" now)
        match ← reconcilePublication cfg env j now false with
        | .job recovered => return recovered
        | _ => return j
    else
      let now ← Tx.lift (time "time" now)
      let cancelled ← transitionStep (j.transition .cancelled now {})
      persist cfg env cancelled
        { expected_version, from_state := j.val.state, lease := .clear,
          event_type := "cancelled" }

/-- `cancel_lease`. -/
def cancelLease (cfg : Config) (env : Env) (lease : JobLease) (now : ℚ) (expected_version : ℕ) :
    QTx Job := do
  let now ← Tx.lift (time "now" now)
  let j ← lockLease env lease expected_version now
  if env.requestCancel.any fun request => !request j then return j
  match ← reconcilePublication cfg env j now false with
  | .job recovered => return recovered
  | _ =>
    let cancelled ← transitionStep (j.finishAttempt .cancelled now {})
    persist cfg env cancelled
      { expected_version, from_state := j.val.state, lease := .clear, lease_guard := some lease,
        event_type := "cancelled" }

/-! ## Replay and retention -/

/-- `replay_dead_letter`. -/
def replayDeadLetter (cfg : Config) (env : Env) (job_id : String) (scope : JobScopeFields)
    (replay_job_id replay_idempotency_key : String) (now : ℚ) (expected_version : ℕ)
    (max_attempts : Option ℕ) : QTx Job := do
  let scope ← contractStep scope.postInit
  let now ← Tx.lift (time "now" now)
  match ← selectOne job_id scope with
  | none => Tx.raise .notFound
  | some row =>
    let original ← decodeStored row
    requireCanonicalRow row
    checkExpected expected_version original.val.version
    Tx.raiseIf (original.val.state != .deadLetter)
      (.invalidTransition "only dead-letter jobs can be replayed")
    let request : Job.Request :=
      { job_id := replay_job_id, tenant_id := scope.tenant_id, workspace_id := scope.workspace_id,
        collection_id := scope.collection_id, operation := original.val.operation,
        idempotency_key := replay_idempotency_key, payload := original.val.payload,
        max_attempts := max_attempts.getD original.val.max_attempts }
    let candidate ← Tx.lift ((Job.create request now).mapError fun
      | .validation m => .invalidInput m
      | .idempotencyConflict m => .invalidInput m
      | .invalidTransition m => .invalidInput m)
    match ← idempotencyRow candidate with
    | some existing_row =>
      let existing ← decodeStored existing_row
      ensureIdempotent existing candidate
    | none =>
      let inserted ← insert env candidate
      let queued ← contractStep (candidate.transition .queued now {})
      persist cfg env queued
        { expected_version := inserted.val.version, from_state := candidate.val.state,
          lease := .clear, event_type := "replay_enqueued" }

/-- The states that `prune_terminal` removes. -/
def terminalStates : List JobState := [.succeeded, .cancelled, .deadLetter]

/-- The rows that `prune_terminal` selects. -/
def pruneWhere (scope : JobScopeFields) (cutoff : ℚ) (r : Row) : Bool :=
  r.inScope scope && (r.contract_state.any fun s => terminalStates.contains s) &&
    decide (r.updated_at < rint (cutoff * 1000000))

/-- One row of `prune_terminal`. -/
def pruneRow (env : Env) (scope : JobScopeFields) (cutoff : ℚ) (row : Row) : QTx ℕ := do
  let j ← decodeStored row
  let suffix ← drawHex env
  let event_id := "job:" ++ j.val.job_id ++ ":retention:" ++ suffix
  let metadata : Json := .obj [("contract_version", .str contractVersion),
    ("state", .str j.val.state.value), ("attempt_count", .int j.attemptCount),
    ("retention_cutoff", .float cutoff)]
  writeLifecycleEvent j event_id (some j.val.state) "retention_pruned" metadata
  writeProjectionEvent j event_id "retention_pruned" metadata
  deleteJobRow j.val.job_id scope

/-- The loop of `prune_terminal`. -/
def pruneEach (env : Env) (scope : JobScopeFields) (cutoff : ℚ) : List Row → QTx ℕ
  | [] => pure 0
  | row :: rows => do
    let removed ← pruneRow env scope cutoff row
    let rest ← pruneEach env scope cutoff rows
    return removed + rest

/-- `prune_terminal`. -/
def pruneTerminal (env : Env) (scope : JobScope) (older_than : ℚ) (limit : ℕ) : QTx ℕ := do
  let cutoff ← Tx.lift (time "older_than" older_than)
  Tx.raiseIf (!(decide (1 ≤ limit) && decide (limit ≤ 10000)))
    (.invalidInput "limit is out of range")
  let rows ← selectMany (pruneWhere scope.val cutoff) rowLE limit
  pruneEach env scope.val cutoff rows

end RickIntelligence.Postgres
