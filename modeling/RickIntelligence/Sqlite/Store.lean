import RickIntelligence.Jobs.Fields
import RickIntelligence.Lib.History
import RickIntelligence.Lib.Json
import RickIntelligence.Lib.Table
import RickIntelligence.Lib.Tx

/-!
# The table of the local queue

The table `durable_jobs` of `apps/worker/durable_queue.py`, the checks that the queue makes of its
arguments, and the statements it runs. The columns that an `UPDATE` sets are a record of their own
(`Progress`), so that no statement can change what was asked for.

Times are exact rationals. The column `payload_json` holds the value of its text. Besides the table
a transaction keeps the history of the row versions that were written and what for
(`Session.history`); the table does not depend on it, and a rollback undoes both.
-/

namespace RickIntelligence.Sqlite

open Lib Jobs

/-- The errors of the queue. -/
inductive QueueError where
  | configuration (message : String)
  | capacity
  | notFound
  | lease (message : String)
  | idempotency (message : String)
  deriving DecidableEq, Repr

/-! ## Arguments -/

/-- `MAX_JSON_BYTES`. -/
def maxJsonBytes : ℕ := 32 * 1024

/-- `MAX_TEXT`. -/
def maxText : ℕ := 256

/-- `_safe_text` of a text. -/
def safeText (label : String) (limit : ℕ) (value : String) : Except QueueError String :=
  let candidate := strip value
  if candidate = "" ∨ limit < candidate.toList.length ∨
      candidate.toList.any (fun c => decide (c.toNat < 0x20)) = true then
    .error (.configuration (label ++ " is invalid"))
  else .ok candidate

/-- `_safe_key`, and `_safe_scope`, which is the same. `_KEY` is the pattern of an identifier. -/
def safeKey (label value : String) : Except QueueError String := do
  let candidate ← safeText label 128 value
  if identifierPattern candidate then return candidate
  else .error (.configuration (label ++ " is invalid"))

/-- `_ALLOWED_PAYLOAD`. -/
def allowedPayload : List String :=
  ["operation", "document_id", "source_key", "filename", "request_id", "correlation_id",
    "collection_id", "workspace_id", "tenant_id"]

/-- The loop of `_payload` over the items. -/
def cleanPayload : Json.Members → Mapping → Except QueueError Mapping
  | [], clean => .ok clean
  | (key, raw) :: rest, clean =>
    if !allowedPayload.contains key then
      .error (.configuration "payload contains an unsupported field")
    else match raw with
      | .str s => do
        let value ← safeText ("payload." ++ key) maxText s
        cleanPayload rest (dictSet key value clean)
      | _ => .error (.configuration "payload values must be bounded text")

/-- A quotation mark. -/
def quote : Char := Char.ofNat 34

/-- A backslash. -/
def backslash : Char := Char.ofNat 92

/-- A text in quotes, as `json.dumps` writes it. Control characters, which `_safe_text` refuses, do
not occur. -/
def quoted (s : String) : String :=
  String.ofList (quote :: (s.toList.flatMap fun c =>
    if c = quote ∨ c = backslash then [backslash, c] else [c]) ++ [quote])

/-- `json.dumps` of a mapping with sorted keys. -/
def dumps (m : Mapping) : String :=
  "\x7b" ++ ",".intercalate (m.map fun item => quoted item.1 ++ ":" ++ quoted item.2) ++ "\x7d"

/-- `_payload`: the mapping in the order of its keys. -/
def payload (value : Json.Members) : Except QueueError Mapping := do
  if value.isEmpty then .error (.configuration "payload must be a non-empty mapping")
  let clean ← cleanPayload value []
  let sorted := clean.insertionSort keyLE
  if maxJsonBytes < (dumps sorted).utf8ByteSize then
    .error (.configuration "payload is too large")
  return sorted

/-- `_decode_payload`: what is not a payload is read as an empty one. -/
def decodePayload : Json → Mapping
  | .obj ms => (payload ms).toOption.getD []
  | _ => []

/-- `_safe_error`. -/
def safeError (value : String) : Except QueueError String := do
  let candidate := lower (← safeText "error" 64 value)
  if fieldPattern candidate && !(["token", "secret", "password", "bearer"].any fun w =>
      contains w.toList candidate.toList) then return candidate
  else .error (.configuration "error is invalid")

/-- A reading of a clock, as a caller passes it or the clock of the queue returns it. -/
inductive Clock where
  | finite (t : ℚ)
  | nonFinite
  | invalid

/-- `_finite_now`. -/
def finiteNow : Clock → Except QueueError ℚ
  | .finite t => .ok t
  | .nonFinite => .error (.configuration "clock returned a non-finite value")
  | .invalid => .error (.configuration "clock returned an invalid value")

/-! ## Rows -/

/-- The values of `status`. -/
inductive Status where
  | queued
  | leased
  | acked
  | dead
  | cancelled
  deriving DecidableEq, Repr

/-- `status IN ('acked', 'dead', 'cancelled')`. -/
def Status.terminal : Status → Bool
  | .queued | .leased => false
  | .acked | .dead | .cancelled => true

/-- The columns that are set once. -/
structure Request where
  job_id : String
  idempotency_key : String
  payload_json : Json
  tenant_id : String
  workspace_id : String
  collection_id : String
  created_at : ℚ

/-- The columns that are updated. -/
structure Progress where
  status : Status
  attempts : ℕ
  available_at : ℚ
  lease_until : Option ℚ
  lease_owner : Option String
  updated_at : ℚ
  last_error : Option String

/-- A row of `durable_jobs`. -/
structure Row extends Request, Progress

/-- The primary key. -/
def Row.key (r : Row) : String := r.job_id

/-- The unique key. -/
def Row.idempotencyKey (r : Row) : String := r.idempotency_key

/-- `durable_jobs`. -/
abbrev JobTable := Table Row.key Row.idempotencyKey fun _ => true

/-- A row with other progress. -/
def Row.progress (f : Progress → Progress) (r : Row) : Row := { r with toProgress := f r.toProgress }

/-- Progress keeps the keys. -/
theorem Row.progress_keeps (f : Progress → Progress) :
    Table.Keeps Row.key Row.idempotencyKey (fun _ => true) (Row.progress f) :=
  ⟨fun _ => rfl, fun _ => rfl, fun _ h => h⟩

/-- `QueueRecord`. -/
structure QueueRecord where
  job_id : String
  idempotency_key : String
  status : Status
  payload : Mapping
  tenant_id : String
  workspace_id : String
  collection_id : String
  attempts : ℕ
  available_at : ℚ
  lease_until : Option ℚ
  lease_token : Option String
  created_at : ℚ
  updated_at : ℚ
  last_error : Option String

/-- `_decode`. -/
def decode (r : Row) : QueueRecord :=
  { job_id := r.job_id, idempotency_key := r.idempotency_key, status := r.status,
    payload := decodePayload r.payload_json, tenant_id := r.tenant_id,
    workspace_id := r.workspace_id, collection_id := r.collection_id, attempts := r.attempts,
    available_at := r.available_at, lease_until := r.lease_until, lease_token := r.lease_owner,
    created_at := r.created_at, updated_at := r.updated_at, last_error := r.last_error }

/-! ## Statements -/

/-- What a row version is written for. -/
inductive Cause where
  | enqueue
  | recover
  | claim
  | heartbeat
  | ack
  | fail
  | cancel
  | prune
  deriving DecidableEq, Repr

/-- A version of a row. -/
abbrev RowVersion := Version String Row Cause

/-- The state of a transaction: the table, and the row versions that were written. -/
structure Session where
  jobs : JobTable
  history : List RowVersion

/-- An empty file. -/
def Session.empty : Session := ⟨Table.empty, []⟩

/-- A transaction of the queue. -/
abbrev QTx := Tx Session QueueError

/-- `UPDATE durable_jobs SET ... WHERE job_id=?`. -/
def updateRow (job_id : String) (cause : Cause) (f : Progress → Progress) : QTx Unit := do
  let s : Session ← get
  match s.jobs.find? job_id with
  | none => return ()
  | some old =>
    set ({ jobs := s.jobs.modify job_id (Row.progress f) (Row.progress_keeps f),
           history := s.history ++ [⟨job_id, cause, some old, some (old.progress f)⟩] } : Session)

/-- `DELETE FROM durable_jobs WHERE job_id = ?`. -/
def deleteRow (job_id : String) : QTx Unit := do
  let s : Session ← get
  match s.jobs.find? job_id with
  | none => return ()
  | some old =>
    set ({ jobs := s.jobs.erase job_id,
           history := s.history ++ [⟨job_id, .prune, some old, none⟩] } : Session)

/-- `INSERT INTO durable_jobs`. -/
def insertRow (row : Row) : QTx Unit := do
  let s : Session ← get
  match s.jobs.insert? row with
  | none => Tx.raise (.idempotency "job identity already exists")
  | some jobs =>
    set ({ jobs, history := s.history ++ [⟨row.job_id, .enqueue, none, some row⟩] } : Session)

/-- `_row`. -/
def rowOf (job_id : String) : QTx (Option QueueRecord) := do
  let s : Session ← get
  return (s.jobs.find? job_id).map decode

end RickIntelligence.Sqlite
