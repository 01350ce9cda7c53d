import RickIntelligence.Postgres.Codec
import RickIntelligence.Lib.Table
import RickIntelligence.Lib.Tx

/-!
# The durable store

The tables that `apps/worker/postgres_jobs.py` writes, with the constraints of
`infrastructure/migrations/0002` and `0004`, and the statements it runs on them. A statement that
breaks a constraint fails its transaction with `queue_unavailable`.

A transaction sees one value of the database clock, and its effect is atomic. Besides the tables it
keeps the list of row versions that its statements wrote (`Session.written`), which is what the
claims about version steps speak of; the tables do not depend on it.
-/

namespace RickIntelligence.Postgres

open Lib Jobs

/-! ## Constraints -/

/-- The columns of a lease are set, and the lease ends after it starts. -/
def Row.hasLease (r : Row) : Bool :=
  r.lease_worker_id.isSome && r.lease_owner.isSome &&
    match r.lease_acquired_at, r.lease_until with
    | some acquired, some expires => decide (acquired < expires)
    | _, _ => false

/-- `rick_ingestion_jobs_contract_payload_ck` for a canonical row. -/
def Row.payloadCheck (r : Row) (state : JobState) : Bool :=
  (state != .running || r.hasLease) && (state != .succeeded || r.result.isSome) &&
    (!(state == .failed || state == .retrying || state == .deadLetter) || r.failure.isSome) &&
    (!(state == .pending || state == .queued || state == .retrying) || r.result.isNone)

/-- The check constraints of `rick_ingestion_jobs`. Those on `contract_state` pass when it is
null. -/
def Row.checks (r : Row) : Bool :=
  r.status != .acked && decide (r.attempts ≤ 64) && decide (1 ≤ r.max_attempts) &&
    decide (r.max_attempts ≤ 64) && operationPattern r.operation && decide (0 < r.version) &&
    match r.contract_state with
    | none => true
    | some state => r.payloadCheck state && decide (r.attempts ≤ r.max_attempts)

/-- The columns of `rick_ingestion_jobs_idempotency_scope_idx`. -/
def Row.identity (r : Row) : String × String × String × String :=
  (r.tenant_id, r.workspace_id, r.collection_id, r.idempotency_key)

/-- The check constraints of `rick_ingestion_job_attempts`. -/
def AttemptRow.checks (a : AttemptRow) : Bool :=
  decide (1 ≤ a.attempt_no) && decide (a.attempt_no ≤ 64) &&
    (a.finished_at.all fun t => decide (a.started_at ≤ t)) &&
    match a.state with
    | .running => a.finished_at.isNone && a.failure.isNone
    | .succeeded => a.finished_at.isSome && a.failure.isNone
    | .cancelled => a.finished_at.isSome && a.failure.isNone
    | .failed => a.finished_at.isSome && a.failure.isSome
    | _ => false

/-! ## Tables -/

/-- `rick_ingestion_jobs`. -/
abbrev JobTable := Table Row.job_id Row.identity Row.checks

/-- A row of `rick_ingestion_job_events`. -/
structure LifecycleEvent where
  event_id : String
  job_id : String
  tenant_id : String
  workspace_id : String
  collection_id : String
  event_type : String
  from_state : Option JobState
  to_state : JobState
  version : ℕ
  metadata : Json

/-- A row of `rick_outbox`. -/
structure OutboxEvent where
  event_id : String
  tenant_id : String
  aggregate_type : String
  aggregate_id : String
  event_type : String
  payload : Json

/-- A row of `rick_audit_events`. -/
structure AuditEvent where
  event_id : String
  tenant_id : String
  action : String
  target_type : String
  target_id : String
  workspace_id : String
  metadata : Json

/-- The tables that the queue writes. The attempts of a job are in the order of their numbers. -/
structure Store where
  jobs : JobTable
  attempts : String → List AttemptRow
  events : List LifecycleEvent
  outbox : List OutboxEvent
  audit : List AuditEvent

/-- The store without rows. -/
def Store.empty : Store := ⟨Table.empty, fun _ => [], [], [], []⟩

/-- A row version that a statement wrote: the row before and after it. -/
structure RowChange where
  before : Option Row
  after : Option Row

/-- The state of a transaction: the tables, the row versions it wrote, and how many random values it
drew. -/
structure Session where
  store : Store
  written : List RowChange
  draws : ℕ

/-- A statement wrote a row version. -/
def Session.write (s : Session) (store : Store) (change : RowChange) : Session :=
  { s with store, written := s.written ++ [change] }

/-! ## What a transaction runs with -/

/-- What a publication owner answers about a job: it returns a value or raises. -/
inductive Reconciliation where
  | absent
  | continuation (facts : JobPublicationFacts)
  | result (r : JobResult)
  | publication (p : JobPublicationResult)
  | cancellation (c : JobPublicationCancellation)
  | other
  /-- The owner raised an error with the code `cancelled`. -/
  | raisedCancelled (c : Option JobPublicationCancellation)
  /-- The owner raised another error, which may carry a `recovery_reason`. -/
  | raised (reason : Option String)

/-- The configuration of a queue, as its constructor accepts it. -/
structure Config where
  max_pending : ℕ
  one_le_max_pending : 1 ≤ max_pending
  max_pending_le : max_pending ≤ 100000
  lease_seconds : ℚ
  lease_ge : 1 / 10 ≤ lease_seconds
  lease_le : lease_seconds ≤ 86400
  backoff_seconds : ℚ
  backoff_nonneg : 0 ≤ backoff_seconds
  backoff_le : backoff_seconds ≤ 86400
  /-- `_recovery_metadata(job).get('publication_attempt')` of `external_ingestion`. -/
  publicationAttempt : Job → Option String

/-- The characters of `secrets.token_urlsafe`. -/
def isUrlsafe (c : Char) : Bool := isAlnumAscii c || c == '_' || c == '-'

/-- The surroundings of one transaction. -/
structure Env where
  /-- `clock_timestamp()`, in microseconds since the epoch. -/
  clock : ℕ
  /-- `secrets.token_urlsafe(24)`, by the number of the draw. -/
  token : ℕ → String
  token_urlsafe : ∀ n, (token n).toList.length = 32 ∧ ∀ c ∈ (token n).toList, isUrlsafe c = true
  /-- `secrets.token_hex(8)`, by the number of the draw. -/
  hex : ℕ → String
  /-- `publication_reconciler`, when there is one. -/
  reconciler : Option (Job → Reconciliation)
  /-- `request_publication_cancel` of the owner, when it has one: it returns, or raises. -/
  requestCancel : Option (Job → Bool)
  /-- The collection and the document that a row refers to exist in its scope. -/
  references : Row → Bool

/-- A transaction of the queue. -/
abbrev QTx := Tx Session QueueError

/-! ## Reading -/

/-- A row is in a scope. -/
def Row.inScope (r : Row) (scope : JobScopeFields) : Bool :=
  r.tenant_id == scope.tenant_id && r.workspace_id == scope.workspace_id &&
    r.collection_id == scope.collection_id

/-- `_select_one` by the job and its scope. -/
def selectOne (job_id : String) (scope : JobScopeFields) : QTx (Option Row) := do
  let s : Session ← get
  return (s.store.jobs.find? job_id).filter fun r => r.inScope scope

/-- `_idempotency_row`. -/
def idempotencyRow (j : Job) : QTx (Option Row) := do
  let s : Session ← get
  return s.store.jobs.rows.find? fun r => decide (r.identity = j.idempotencyIdentity)

/-- The order `created_at, job_id`. -/
def rowLE (a b : Row) : Prop :=
  a.created_at < b.created_at ∨ (a.created_at = b.created_at ∧ a.job_id ≤ b.job_id)

instance : DecidableRel rowLE := fun a b =>
  inferInstanceAs (Decidable (a.created_at < b.created_at ∨ (_ ∧ a.job_id ≤ b.job_id)))

/-- The order `publication_recovery_at NULLS FIRST, created_at, job_id`. -/
def recoveryLE (a b : Row) : Prop :=
  match a.publication_recovery_at, b.publication_recovery_at with
  | none, some _ => True
  | some _, none => False
  | none, none => rowLE a b
  | some t, some u => t < u ∨ (t = u ∧ rowLE a b)

instance : DecidableRel recoveryLE := fun a b =>
  match ha : a.publication_recovery_at, hb : b.publication_recovery_at with
  | none, some _ => .isTrue (by simp [recoveryLE, ha, hb])
  | some _, none => .isFalse (by simp [recoveryLE, ha, hb])
  | none, none => decidable_of_iff (rowLE a b) (by simp [recoveryLE, ha, hb])
  | some t, some u =>
    decidable_of_iff (t < u ∨ (t = u ∧ rowLE a b)) (by simp [recoveryLE, ha, hb])

/-- `_select_many`: the rows that match, in their order, up to a limit. -/
def selectMany (p : Row → Bool) (le : Row → Row → Prop) [DecidableRel le] (limit : ℕ) :
    QTx (List Row) := do
  let s : Session ← get
  return ((s.store.jobs.rows.filter p).insertionSort le).take limit

/-- `_decode` of a row of the store. -/
def decodeStored (row : Row) : QTx Job := do
  let s : Session ← get
  Tx.lift (decode row (s.store.attempts row.job_id))

/-! ## Writing -/

/-- `UPDATE ... WHERE job_id = ... RETURNING`: the row of a job, when it matches. A new document has
to exist. -/
def updateRow (env : Env) (job_id : String) (p : Row → Bool) (f : Row → Row) :
    QTx (Option Row) := do
  let s : Session ← get
  match (s.store.jobs.find? job_id).filter p with
  | none => return none
  | some old =>
    Tx.raiseIf (old.document_id != (f old).document_id && !env.references (f old)) .unavailable
    match s.store.jobs.replace? (f old) with
    | none => Tx.raise .unavailable
    | some jobs =>
      set (s.write { s.store with jobs } ⟨some old, some (f old)⟩)
      return some (f old)

/-- `INSERT INTO rick_ingestion_jobs`. -/
def insertJobRow (env : Env) (row : Row) : QTx Unit := do
  Tx.raiseIf (!env.references row) .unavailable
  let s : Session ← get
  match s.store.jobs.insert? row with
  | none => Tx.raise .unavailable
  | some jobs => set (s.write { s.store with jobs } ⟨none, some row⟩)

/-- The attempt rows of a job after one statement of `_write_attempts`: a new number is added, a
running attempt is updated, and a finished one stays. The trigger on updates refuses another worker
or start. -/
def upsertAttempt (new : AttemptRow) : List AttemptRow → Except QueueError (List AttemptRow)
  | [] => .ok [new]
  | a :: rest =>
    if new.attempt_no < a.attempt_no then .ok (new :: a :: rest)
    else if new.attempt_no = a.attempt_no then
      if a.state = .running then
        if a.worker_id = new.worker_id ∧ a.started_at = new.started_at then .ok (new :: rest)
        else .error .unavailable
      else .ok (a :: rest)
    else (a :: ·) <$> upsertAttempt new rest

/-- The attempt rows of a job after `_write_attempts`. -/
def upsertAttempts : List AttemptRow → List AttemptRow → Except QueueError (List AttemptRow)
  | [], rows => .ok rows
  | new :: news, rows => do
    raiseFirst [(!new.checks, .unavailable)]
    let rows ← upsertAttempt new rows
    upsertAttempts news rows

/-- `_write_attempts`. -/
def writeAttempts (j : Job) : QTx Unit := do
  let s : Session ← get
  let rows ← Tx.lift
    (upsertAttempts (j.val.attempts.map attemptRow) (s.store.attempts j.val.job_id))
  set { s with
    store := { s.store with attempts := Function.update s.store.attempts j.val.job_id rows } }

/-- `INSERT ... ON CONFLICT (event_id) DO NOTHING`. -/
def putEvent {α : Type} (event_id : α → String) (e : α) (l : List α) : List α :=
  if l.any fun x => event_id x == event_id e then l else l ++ [e]

/-- The row of `rick_ingestion_job_events` for an event of a job. -/
def lifecycleEvent (j : Job) (event_id : String) (from_state : Option JobState)
    (event_type : String) (metadata : Json) : LifecycleEvent :=
  { event_id, job_id := j.val.job_id, tenant_id := j.val.tenant_id,
    workspace_id := j.val.workspace_id, collection_id := j.val.collection_id, event_type,
    from_state, to_state := j.val.state, version := j.val.version, metadata }

/-- The row of `rick_outbox` for an event of a job. -/
def outboxEvent (j : Job) (event_id event_type : String) (metadata : Json) : OutboxEvent :=
  { event_id, tenant_id := j.val.tenant_id, aggregate_type := "job", aggregate_id := j.val.job_id,
    event_type := "jobs." ++ event_type, payload := metadata }

/-- The row of `rick_audit_events` for an event of a job. -/
def auditEvent (j : Job) (event_id event_type : String) (metadata : Json) : AuditEvent :=
  { event_id, tenant_id := j.val.tenant_id, action := "jobs." ++ event_type, target_type := "job",
    target_id := j.val.job_id, workspace_id := j.val.workspace_id, metadata }

/-- The store with a lifecycle event. -/
def Store.logLifecycle (s : Store) (e : LifecycleEvent) : Store :=
  { s with events := putEvent LifecycleEvent.event_id e s.events }

/-- The store with an event for the other services. -/
def Store.logProjection (s : Store) (o : OutboxEvent) (a : AuditEvent) : Store :=
  { s with outbox := putEvent OutboxEvent.event_id o s.outbox,
           audit := putEvent AuditEvent.event_id a s.audit }

/-- `_write_lifecycle_event`. -/
def writeLifecycleEvent (j : Job) (event_id : String) (from_state : Option JobState)
    (event_type : String) (metadata : Json) : QTx Unit :=
  modify fun s => { s with
    store := s.store.logLifecycle (lifecycleEvent j event_id from_state event_type metadata) }

/-- `_write_projection_event`. -/
def writeProjectionEvent (j : Job) (event_id event_type : String) (metadata : Json) : QTx Unit :=
  modify fun s => { s with
    store := s.store.logProjection (outboxEvent j event_id event_type metadata)
      (auditEvent j event_id event_type metadata) }

/-- `_event_metadata`. -/
def eventMetadata (j : Job) : Json :=
  .obj [("contract_version", .str contractVersion), ("state", .str j.val.state.value),
    ("attempt_count", .int j.attemptCount), ("max_attempts", .int j.val.max_attempts)]

/-- The id of the event of a job's version. -/
def eventId (job_id : String) (version : ℕ) : String :=
  "job:" ++ job_id ++ ":" ++ toString version

/-- `_write_event`. -/
def writeEvent (j : Job) (from_state : Option JobState) (event_type : String) : QTx Unit := do
  let event_id := eventId j.val.job_id j.val.version
  writeLifecycleEvent j event_id from_state event_type (eventMetadata j)
  writeProjectionEvent j event_id event_type (eventMetadata j)

/-- `DELETE FROM rick_ingestion_jobs`: the attempts and the lifecycle events of the job go with
it. -/
def deleteJobRow (job_id : String) (scope : JobScopeFields) : QTx ℕ := do
  let s : Session ← get
  match (s.store.jobs.find? job_id).filter fun r => r.inScope scope with
  | none => return 0
  | some old =>
    let store : Store := { s.store with
      jobs := s.store.jobs.erase job_id
      attempts := Function.update s.store.attempts job_id []
      events := s.store.events.filter fun e => e.job_id != job_id }
    set (s.write store ⟨some old, none⟩)
    return 1

end RickIntelligence.Postgres
