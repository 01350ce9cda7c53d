import RickIntelligence.Sqlite.Store

/-!
# The local queue

`SQLiteDurableQueue` of `apps/worker/durable_queue.py`. An operation checks its arguments, and is then
one transaction. What it emits to the event sink is left out, but for whether an enqueued request is
a replay, which the caller of `enqueue` here is told.

The queue is a state machine over its file: `Step` is any call that any caller makes at any time, and
a call that raises leaves the file as it was.
-/

namespace RickIntelligence.Sqlite

open Lib Jobs

/-- The configuration of a queue, as its constructor accepts it. -/
structure Config where
  max_pending : ℕ
  max_pending_pos : 0 < max_pending
  max_pending_le : max_pending ≤ 100000
  max_terminal_rows : ℕ
  max_terminal_pos : 1 ≤ max_terminal_rows
  max_terminal_le : max_terminal_rows ≤ 100000
  max_attempts : ℕ
  max_attempts_pos : 0 < max_attempts
  max_attempts_le : max_attempts ≤ 64
  lease_seconds : ℚ
  lease_ge : 1 / 10 ≤ lease_seconds
  lease_le : lease_seconds ≤ 86400
  backoff_seconds : ℚ
  backoff_nonneg : 0 ≤ backoff_seconds
  backoff_le : backoff_seconds ≤ 86400

/-! ## Retention and recovery -/

/-- The order `updated_at, created_at, job_id`. -/
def pruneLE (a b : Row) : Prop :=
  a.updated_at < b.updated_at ∨ (a.updated_at = b.updated_at ∧
    (a.created_at < b.created_at ∨ (a.created_at = b.created_at ∧ a.job_id ≤ b.job_id)))

instance : DecidableRel pruneLE := fun a b =>
  inferInstanceAs (Decidable (_ ∨ (_ ∧ (_ ∨ (_ ∧ a.job_id ≤ b.job_id)))))

/-- The terminal rows. -/
def terminalCount (jobs : JobTable) : ℕ := jobs.rows.countP fun r => r.status.terminal

/-- The rows in the statuses `queued` and `leased`. -/
def activeCount (jobs : JobTable) : ℕ := jobs.rows.countP fun r => !r.status.terminal

/-- The deletions of `_prune_terminal_rows`. -/
def deleteEach : List String → QTx Unit
  | [] => pure ()
  | job_id :: rest => do
    deleteRow job_id
    deleteEach rest

/-- The rows that `_prune_terminal_rows` deletes. -/
def pruned (cfg : Config) (preserve_job_id : Option String) (jobs : JobTable) : List Row :=
  ((jobs.rows.filter fun r => r.status.terminal && preserve_job_id != some r.job_id).insertionSort
    pruneLE).take (terminalCount jobs - cfg.max_terminal_rows)

/-- `_prune_terminal_rows`. -/
def pruneTerminalRows (cfg : Config) (preserve_job_id : Option String) : QTx Unit := do
  let s : Session ← get
  deleteEach ((pruned cfg preserve_job_id s.jobs).map Row.key)

/-- The wait before the next attempt. -/
def retryDelay (cfg : Config) (attempts : ℕ) : ℚ :=
  min (cfg.backoff_seconds * 2 ^ (attempts - 1)) 86400

/-- The row is released: the lease is over, and the job is given up or waits for its next attempt. -/
def release (cfg : Config) (attempts : ℕ) (error : String) (now : ℚ) (p : Progress) : Progress :=
  { p with
    status := if cfg.max_attempts ≤ attempts then .dead else .queued
    lease_until := none, lease_owner := none, last_error := some error, updated_at := now }

/-- One row of `_recover_expired`. -/
def recoverRow (cfg : Config) (now : ℚ) (row : Row) : QTx Unit :=
  updateRow row.job_id .recover fun p =>
    let p := release cfg row.attempts "lease_expired" now p
    if cfg.max_attempts ≤ row.attempts then p
    else { p with available_at := now + retryDelay cfg row.attempts }

/-- The loop of `_recover_expired`. -/
def recoverEach (cfg : Config) (now : ℚ) : List Row → QTx Unit
  | [] => pure ()
  | row :: rest => do
    recoverRow cfg now row
    recoverEach cfg now rest

/-- The rows that `_recover_expired` selects. -/
def expired (now : ℚ) (r : Row) : Bool :=
  r.status == .leased && r.lease_until.any fun t => decide (t ≤ now)

/-- `_recover_expired`: how many leases were over. -/
def recoverExpired (cfg : Config) (now : ℚ) : QTx ℕ := do
  let s : Session ← get
  let rows := s.jobs.rows.filter (expired now)
  recoverEach cfg now rows
  return rows.length

/-! ## Operations -/

/-- The arguments of `enqueue`. -/
structure EnqueueArgs where
  job_id : String
  idempotency_key : String
  payload : Json.Members
  tenant_id : String
  workspace_id : String
  collection_id : String
  now : Clock

/-- The arguments of `enqueue` after their checks. -/
structure Checked where
  job_id : String
  idempotency_key : String
  payload : Mapping
  tenant_id : String
  workspace_id : String
  collection_id : String
  now : ℚ
  deriving DecidableEq

/-- The checks that `enqueue` makes of its arguments. -/
def EnqueueArgs.check (a : EnqueueArgs) : Except QueueError Checked := do
  let job_id ← safeKey "job_id" a.job_id
  let idempotency_key ← safeKey "idempotency_key" a.idempotency_key
  let tenant_id ← safeKey "tenant_id" a.tenant_id
  let workspace_id ← safeKey "workspace_id" a.workspace_id
  let collection_id ← safeKey "collection_id" a.collection_id
  let payload ← Sqlite.payload a.payload
  let now ← finiteNow a.now
  return { job_id, idempotency_key, payload, tenant_id, workspace_id, collection_id, now }

/-- The row that `enqueue` inserts. -/
def Checked.row (c : Checked) : Row :=
  { job_id := c.job_id, idempotency_key := c.idempotency_key, status := .queued,
    payload_json := .ofMapping c.payload, tenant_id := c.tenant_id, workspace_id := c.workspace_id,
    collection_id := c.collection_id, attempts := 0, available_at := c.now, lease_until := none,
    lease_owner := none, created_at := c.now, updated_at := c.now, last_error := none }

/-- The transaction of `enqueue`: the record, and whether it is a replay. -/
def enqueueChecked (cfg : Config) (c : Checked) : QTx (QueueRecord × Bool) := do
  let _ ← recoverExpired cfg c.now
  let s : Session ← get
  match s.jobs.rows.find? fun r => r.idempotency_key == c.idempotency_key with
  | some existing =>
    let record := decode existing
    Tx.raiseIf (record.payload != c.payload || record.job_id != c.job_id)
      (.idempotency "idempotency key conflicts with an existing job")
    pruneTerminalRows cfg (some record.job_id)
    return (record, true)
  | none =>
    Tx.raiseIf (decide (cfg.max_pending ≤ activeCount s.jobs)) .capacity
    insertRow c.row
    pruneTerminalRows cfg (some c.job_id)
    return (decode c.row, false)

/-- `enqueue`. -/
def enqueue (cfg : Config) (a : EnqueueArgs) : QTx (QueueRecord × Bool) := do
  let c ← Tx.lift a.check
  enqueueChecked cfg c

/-- The order `created_at, job_id`. -/
def claimLE (a b : Row) : Prop :=
  a.created_at < b.created_at ∨ (a.created_at = b.created_at ∧ a.job_id ≤ b.job_id)

instance : DecidableRel claimLE := fun a b =>
  inferInstanceAs (Decidable (_ ∨ (_ ∧ a.job_id ≤ b.job_id)))

/-- The rows that `claim` selects. -/
def claimable (now : ℚ) (r : Row) : Bool := r.status == .queued && decide (r.available_at ≤ now)

/-- One row of `claim`: it is leased if it is still queued. -/
def claimOne (cfg : Config) (owner job_id : String) (now : ℚ) : QTx (Option QueueRecord) := do
  let s : Session ← get
  match (s.jobs.find? job_id).filter fun r => r.status == .queued with
  | none => return none
  | some _ =>
    updateRow job_id .claim fun p =>
      { p with status := .leased, attempts := p.attempts + 1,
               lease_until := some (now + cfg.lease_seconds), lease_owner := some owner,
               updated_at := now }
    rowOf job_id

/-- The loop of `claim`, with `secrets.token_urlsafe(18)` by the number of the draw. -/
def claimEach (cfg : Config) (token : ℕ → String) (worker : String) (now : ℚ) :
    ℕ → List String → QTx (List QueueRecord)
  | _, [] => pure []
  | n, job_id :: rest => do
    let first ← claimOne cfg (worker ++ ":" ++ token n) job_id now
    let others ← claimEach cfg token worker now (n + 1) rest
    return first.toList ++ others

/-- `claim`. -/
def claim (cfg : Config) (token : ℕ → String) (worker_id : String) (limit : ℤ) (now : Clock) :
    QTx (List QueueRecord) := do
  let worker ← Tx.lift (safeKey "worker_id" worker_id)
  Tx.raiseIf (!(decide (0 < limit) && decide (limit ≤ 100)))
    (.configuration "claim limit is out of range")
  let now ← Tx.lift (finiteNow now)
  let _ ← recoverExpired cfg now
  pruneTerminalRows cfg none
  let s : Session ← get
  let rows := ((s.jobs.rows.filter (claimable now)).insertionSort claimLE).take limit.toNat
  claimEach cfg token worker now 0 (rows.map Row.key)

/-- The row that `_owned_row` selects. -/
def owned (lease_token : String) (now : ℚ) (r : Row) : Bool :=
  r.status == .leased && r.lease_owner == some lease_token &&
    r.lease_until.any fun t => decide (now < t)

/-- `_owned_row`. -/
def ownedRow (job_id lease_token : String) (now : ℚ) : QTx (Option Row) := do
  let s : Session ← get
  return (s.jobs.find? job_id).filter (owned lease_token now)

/-- `heartbeat`. -/
def heartbeat (cfg : Config) (job_id lease_token : String) (now : Clock) :
    QTx (Option QueueRecord) := do
  let job_id ← Tx.lift (safeKey "job_id" job_id)
  let lease_token ← Tx.lift (safeText "lease_token" 256 lease_token)
  let now ← Tx.lift (finiteNow now)
  match ← ownedRow job_id lease_token now with
  | none =>
    match ← rowOf job_id with
    | none => Tx.raise .notFound
    | some _ => Tx.raise (.lease "lease is not owned by this worker")
  | some _ =>
    updateRow job_id .heartbeat fun p =>
      if p.status = .leased then
        { p with lease_until := some (now + cfg.lease_seconds), updated_at := now }
      else p
    rowOf job_id

/-- `ack`: `_finish` with the status `acked`. -/
def ack (cfg : Config) (job_id lease_token : String) (now : Clock) : QTx (Option QueueRecord) := do
  let job_id ← Tx.lift (safeKey "job_id" job_id)
  let lease_token ← Tx.lift (safeText "lease_token" 256 lease_token)
  let now ← Tx.lift (finiteNow now)
  match ← ownedRow job_id lease_token now with
  | none => Tx.raise (.lease "lease is not owned by this worker")
  | some _ =>
    updateRow job_id .ack fun p =>
      { p with status := .acked, lease_until := none, lease_owner := none, updated_at := now }
    let record ← rowOf job_id
    pruneTerminalRows cfg (some job_id)
    return record

/-- `fail`. -/
def fail (cfg : Config) (job_id lease_token error : String) (now : Clock) :
    QTx (Option QueueRecord) := do
  let job_id ← Tx.lift (safeKey "job_id" job_id)
  let lease_token ← Tx.lift (safeText "lease_token" 256 lease_token)
  let error ← Tx.lift (safeError error)
  let now ← Tx.lift (finiteNow now)
  match ← ownedRow job_id lease_token now with
  | none => Tx.raise (.lease "lease is not owned by this worker")
  | some row =>
    let dead := decide (cfg.max_attempts ≤ row.attempts)
    updateRow job_id .fail fun p =>
      { release cfg row.attempts error now p with
        available_at := if dead then now else now + retryDelay cfg row.attempts }
    let record ← rowOf job_id
    pruneTerminalRows cfg (if dead then some job_id else none)
    return record

/-- An optional token as `cancel` checks it. -/
def optionalToken : Option String → Except QueueError (Option String)
  | none => .ok none
  | some token => some <$> safeText "lease_token" 256 token

/-- `cancel`. -/
def cancel (cfg : Config) (job_id : String) (lease_token : Option String) (now : Clock) :
    QTx (Option QueueRecord) := do
  let job_id ← Tx.lift (safeKey "job_id" job_id)
  let lease_token ← Tx.lift (optionalToken lease_token)
  let now ← Tx.lift (finiteNow now)
  let s : Session ← get
  match s.jobs.find? job_id with
  | none => Tx.raise .notFound
  | some row =>
    Tx.raiseIf (row.status == .leased && (lease_token.isNone || row.lease_owner != lease_token))
      (.lease "leased job requires its owner to cancel")
    if row.status.terminal then
      pruneTerminalRows cfg (some job_id)
      return some (decode row)
    else
      updateRow job_id .cancel fun p =>
        { p with status := .cancelled, lease_until := none, lease_owner := none, updated_at := now }
      let record ← rowOf job_id
      pruneTerminalRows cfg (some job_id)
      return record

/-- `recover`. -/
def recover (cfg : Config) (now : Clock) : QTx ℕ := do
  let now ← Tx.lift (finiteNow now)
  let recovered ← recoverExpired cfg now
  pruneTerminalRows cfg none
  return recovered

/-! ## Runs -/

/-- A call of an operation that writes, with the tokens that it draws. -/
inductive Call where
  | enqueue (a : EnqueueArgs)
  | claim (token : ℕ → String) (worker_id : String) (limit : ℤ) (now : Clock)
  | heartbeat (job_id lease_token : String) (now : Clock)
  | ack (job_id lease_token : String) (now : Clock)
  | fail (job_id lease_token error : String) (now : Clock)
  | cancel (job_id : String) (lease_token : Option String) (now : Clock)
  | recover (now : Clock)

/-- What an operation returns. -/
inductive Reply where
  | enqueued (record : QueueRecord) (replayed : Bool)
  | claimed (records : List QueueRecord)
  | record (r : Option QueueRecord)
  | recovered (n : ℕ)

/-- The operation of a call. -/
def Call.run (cfg : Config) : Call → QTx Reply
  | enqueue a => (fun p => .enqueued p.1 p.2) <$> Sqlite.enqueue cfg a
  | claim token worker limit now => .claimed <$> Sqlite.claim cfg token worker limit now
  | heartbeat id token now => .record <$> Sqlite.heartbeat cfg id token now
  | ack id token now => .record <$> Sqlite.ack cfg id token now
  | fail id token error now => .record <$> Sqlite.fail cfg id token error now
  | cancel id token now => .record <$> Sqlite.cancel cfg id token now
  | recover now => .recovered <$> Sqlite.recover cfg now

/-- A call commits, or raises and leaves the file as it was. -/
def Call.exec (cfg : Config) (call : Call) (s : Session) : Except QueueError Reply × Session :=
  (call.run cfg).commit s

/-- One call. -/
def Step (cfg : Config) (s s' : Session) : Prop := ∃ call : Call, s' = (call.exec cfg s).2

/-- The files that calls lead to from an empty one. -/
def Reachable (cfg : Config) : Session → Prop := Relation.ReflTransGen (Step cfg) Session.empty

end RickIntelligence.Sqlite
