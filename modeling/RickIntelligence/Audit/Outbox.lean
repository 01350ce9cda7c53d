import RickIntelligence.Lib.Dict
import RickIntelligence.Lib.Text

/-!
# The audit outbox

`PostgresAdminAuditReconciler` of `apps/worker/admin_audit_outbox.py`. The rows of `rick_outbox` are
projected into `rick_audit_events` by any number of workers. A call of `process_once` is up to two
transactions: the first takes a batch of due rows with `FOR UPDATE SKIP LOCKED`, projects each of them
and commits, or is rolled back at the first row that fails; the second records the failure of that row.

The rows are listed in the order of their creation and their ids, which no statement changes, as none
changes the tenant and the payload of a row. The standard library and the database are an environment:
the JSON parser and encoder, the case folding of keys, the parser of URLs, and the texts and documents
that the database does not store.
-/

namespace RickIntelligence.Audit

open Lib

/-! ## Preparing an event -/

/-- The columns of an audit event. -/
structure Prepared where
  event_id : String
  tenant_id : String
  actor_user_id : Option String
  action : String
  target_type : Option String
  target_id : Option String
  workspace_id : Option String
  request_id : Option String
  metadata : Json.Members

/-- What the projection uses of the standard library and of the database. -/
structure Env where
  /-- `json.loads`, without duplicate keys and numbers that are not finite. -/
  loads : String → Option Json
  /-- The length of the canonical text of a value, in bytes. -/
  size : Json → ℕ
  /-- The length of a text in bytes. -/
  bytes : String → ℕ
  /-- `str.casefold`. -/
  casefold : String → String
  /-- `_strip_url_credentials`. -/
  stripUrlCredentials : String → Option String
  /-- The database stores the event. -/
  storable : Prepared → Bool

/-- `_MAX_EVENT_BYTES`. -/
def maxEventBytes : ℕ := 64 * 1024

/-- `_ALLOWED_FIELDS`. -/
def allowedFields : List String :=
  ["action", "actor_user_id", "target_id", "target_type", "tenant_id", "workspace_id", "request_id",
    "correlation_id", "reason", "status", "error_code", "user_id", "session_id", "collection_id"]

/-- `_NO_ACTION_ALLOWED_FIELDS`. -/
def noActionAllowedFields : List String := ["sequence", "writer", "payload", "second"]

/-- `_AUDIT_COLUMNS`. -/
def auditColumns : List String :=
  ["actor_user_id", "target_type", "target_id", "workspace_id", "request_id"]

/-- `_SENSITIVE_VALUE_MARKERS`. -/
def sensitiveValueMarkers : List String :=
  ["authorization", "bearer ", "api key", "apikey", "cookie", "credential", "password", "passphrase",
    "private document", "document content", "prompt", "secret", "token=", "reset token", "access token"]

/-- `_SENSITIVE_KEY_STEMS`. -/
def sensitiveKeyStems : List String :=
  ["password", "passwd", "passphrase", "secret", "token", "authorization", "cookie", "credential",
    "apikey", "privatekey", "csrf"]

/-- `_SENSITIVE_KEY_SUFFIXES`. -/
def sensitiveKeySuffixes : List String := ["token", "secret", "password", "apikey", "privatekey"]

/-- `_SAFE_STRING.fullmatch`. -/
def safeString (s : String) : Bool :=
  !s.isEmpty && s.toList.all fun c => isAlnumAscii c || "_.:@/%+~-".toList.contains c

/-- `_is_sensitive_key`. The underscores that stand for other characters are taken out before the
comparison, and no stem has one. -/
def sensitiveKey (env : Env) (key : String) : Bool :=
  let compact := (env.casefold key).toList.filter fun c => isLowerAscii c || isDigitAscii c
  sensitiveKeyStems.any (fun stem => stem.toList.isPrefixOf compact) ||
    sensitiveKeySuffixes.any fun suffix => suffix.toList.isSuffixOf compact

/-- A text of an event. A text that is not safe has no marker to look for. -/
def sanitiseText (env : Env) (value : String) : String :=
  let cut := String.ofList (value.toList.take 512)
  let cleaned := if contains "://".toList cut.toList then env.stripUrlCredentials cut else some cut
  match cleaned with
  | none => "[REDACTED]"
  | some text =>
    if safeString text && !sensitiveValueMarkers.any (fun m => contains m.toList (lower text).toList) then
      text
    else "[REDACTED]"

/-- `_sanitise_value`, with the depth that is left. -/
def sanitiseValue (env : Env) : ℕ → Json → Option Json
  | 0, _ => none
  | depth + 1, value =>
    match value with
    | .str s => some (.str (sanitiseText env s))
    | .obj ms =>
      ((ms.take 64).foldlM (fun acc m =>
        let key := String.ofList (m.1.toList.take 128)
        if sensitiveKey env m.1 then some (Json.setMember key (.str "[REDACTED]") acc)
        else (sanitiseValue env depth m.2).map fun v => Json.setMember key v acc) []).map .obj
    | .arr items => ((items.take 64).mapM (sanitiseValue env depth)).map .arr
    | value => some value

/-- `_sanitise_event`. -/
def sanitiseEvent (env : Env) (event : Json.Members) : Option Json.Members :=
  let kept : Option Json.Members :=
    match Json.member? "action" event with
    | none => some (Json.restrict noActionAllowedFields event)
    | some (.str action) => if safeString action then some (Json.restrict allowedFields event) else none
    | some _ => none
  match kept with
  | none | some [] => none
  | some fields =>
    match sanitiseValue env 33 (.obj fields) with
    | some (.obj sanitised) => if env.size (.obj sanitised) ≤ maxEventBytes then some sanitised else none
    | _ => none

/-- `_payload_mapping`. -/
def payloadMapping (env : Env) : Json → Option Json.Members
  | .obj ms => some ms
  | .str s =>
    if maxEventBytes < env.bytes s then none
    else
      match env.loads s with
      | some (.obj ms) => some ms
      | _ => none
  | _ => none

/-- A text that may be stored in a column. -/
def columnText (maximum : ℕ) (s : String) : Bool :=
  s.length ≤ maximum && s.toList.all fun c => 0x20 ≤ c.toNat && c.toNat ≠ 0x7f

/-- `_audit_text` for a value that is required. -/
def requiredText (maximum : ℕ) (s : String) : Option String :=
  if (strip s).isEmpty then none else if columnText maximum (strip s) then some (strip s) else none

/-- `_audit_text` for a value that is required, of an event. -/
def requiredMember (maximum : ℕ) (name : String) (event : Json.Members) : Option String :=
  match Json.member? name event with
  | some (.str s) => requiredText maximum s
  | _ => none

/-- `_audit_text` for a value that is not required, of an event. -/
def optionalMember (name : String) (event : Json.Members) : Option (Option String) :=
  match Json.member? name event with
  | none | some .null => some none
  | some (.str s) =>
    if (strip s).isEmpty then some none
    else if columnText 512 (strip s) then some (some (strip s)) else none
  | some _ => none

/-- The columns of a row that no statement changes. -/
structure Content where
  tenant_id : String
  payload : Json

/-- `_prepare_event`. -/
def prepareEvent (env : Env) (id : String) (content : Content) : Option Prepared := do
  let event_id ← requiredText 512 id
  let outbox_tenant ← requiredText 512 content.tenant_id
  let event ← sanitiseEvent env (← payloadMapping env content.payload)
  let tenant_id ← requiredMember 512 "tenant_id" event
  if tenant_id ≠ outbox_tenant then none
  let action ← requiredMember 256 "action" event
  let actor_user_id ← optionalMember "actor_user_id" event
  let target_type ← optionalMember "target_type" event
  let target_id ← optionalMember "target_id" event
  let workspace_id ← optionalMember "workspace_id" event
  let request_id ← optionalMember "request_id" event
  let metadata := event.filter fun m =>
    allowedFields.contains m.1 && !(["tenant_id", "action"] ++ auditColumns).contains m.1
  if maxEventBytes < env.size (.obj metadata) then none
  some { event_id, tenant_id, actor_user_id, action, target_type, target_id, workspace_id, request_id,
         metadata }

/-! ## Projecting a batch -/

/-- An audit event. -/
structure AuditEvent where
  prepared : Prepared
  occurred_at : ℚ

/-- `_same_existing_event`. -/
def sameExistingEvent (expected existing : Prepared) : Bool :=
  existing.event_id == expected.event_id && existing.tenant_id == expected.tenant_id &&
    existing.actor_user_id == expected.actor_user_id && existing.action == expected.action &&
    existing.target_type == expected.target_type && existing.target_id == expected.target_id &&
    existing.workspace_id == expected.workspace_id && existing.request_id == expected.request_id &&
    Json.equal (.obj existing.metadata) (.obj expected.metadata)

/-- The columns of a row that the projection changes. -/
structure Delivery where
  attempts : ℕ
  available_at : ℚ
  published_at : Option ℚ
  dead_lettered_at : Option ℚ
  last_error_code : Option String

/-- `published_at IS NULL AND dead_lettered_at IS NULL`. -/
def Delivery.pending (d : Delivery) : Bool := d.published_at.isNone && d.dead_lettered_at.isNone

/-- `rick_outbox`: the ids of its rows in their order, and their contents. -/
structure Outbox where
  ids : List String
  nodup : ids.Nodup
  content : String → Content

/-- What the transactions change, by the id of a row or of an audit event. -/
structure Db where
  delivery : String → Delivery
  audits : String → Option AuditEvent

/-- `INSERT INTO rick_audit_events … ON CONFLICT DO NOTHING`, and the check of an event that was there. -/
def insertEvent (env : Env) (now : ℚ) (db : Db) (p : Prepared) : Option Db :=
  if env.storable p then
    match db.audits p.event_id with
    | none => some { db with audits := Function.update db.audits p.event_id (some ⟨p, now⟩) }
    | some e => if sameExistingEvent p e.prepared then some db else none
  else none

/-- `UPDATE rick_outbox SET published_at=NOW()`, which fails if no row is updated. -/
def publishRow (outbox : Outbox) (now : ℚ) (db : Db) (id : String) : Option Db :=
  if id ∈ outbox.ids ∧ (db.delivery id).pending = true then
    let published := { db.delivery id with published_at := some now, last_error_code := none }
    some { db with delivery := Function.update db.delivery id published }
  else none

/-- `_project`. The row is published under the id of the prepared event. -/
def project (env : Env) (outbox : Outbox) (now : ℚ) (db : Db) (id : String) : Option Db := do
  let p ← prepareEvent env id (outbox.content id)
  let db' ← insertEvent env now db p
  publishRow outbox now db' p.event_id

/-- The loop of `process_once`, which ends with the id of the first row that fails. -/
def projectAll (env : Env) (outbox : Outbox) (now : ℚ) : Db → List String → Except String Db
  | db, [] => .ok db
  | db, id :: ids =>
    match project env outbox now db id with
    | none => .error id
    | some db' => projectAll env outbox now db' ids

/-! ## Recording a failure -/

/-- The bounds of a worker. -/
structure Limits where
  batch_size : ℕ
  max_attempts : ℕ
  batch_pos : 1 ≤ batch_size
  batch_le : batch_size ≤ 1000
  attempts_pos : 1 ≤ max_attempts
  attempts_le : max_attempts ≤ 64

/-- The largest number of the column `attempts`. -/
def maxInteger : ℕ := 2147483647

/-- The row after one more failure. -/
def Delivery.fail (d : Delivery) (limits : Limits) (now : ℚ) : Delivery :=
  let attempts := d.attempts + 1
  let dead := decide (limits.max_attempts ≤ attempts)
  { d with
    attempts := attempts
    last_error_code := some "audit_projection_failed"
    available_at := if dead then d.available_at else now + min (2 ^ min (attempts - 1) 16) 300
    dead_lettered_at := if dead then some now else none }

/-- `_record_failures` for one row. A number of attempts that is out of range raises, and nothing is
recorded. -/
def recordFailure (limits : Limits) (outbox : Outbox) (now : ℚ) (db : Db) (id : String) : Db :=
  if id ∈ outbox.ids ∧ (db.delivery id).pending = true ∧ (db.delivery id).attempts + 1 ≤ maxInteger then
    { db with delivery := Function.update db.delivery id ((db.delivery id).fail limits now) }
  else db

/-! ## Workers -/

/-- Where a worker is in a call of `process_once`. -/
inductive WorkerPhase where
  | idle
  /-- The rows of the batch are locked. -/
  | selected (now : ℚ) (ids : List String)
  /-- The batch is rolled back, and a failure is about to be recorded. -/
  | failed (id : String)

/-- The rows that a worker has locked. -/
def WorkerPhase.locks : WorkerPhase → List String
  | .selected _ ids => ids
  | _ => []

/-- The database, the workers, and how many calls of each worker took rows and returned. -/
structure System (k : ℕ) where
  db : Db
  workers : Fin k → WorkerPhase
  calls : Fin k → ℕ

variable {k : ℕ}

/-- Some worker has locked the row. -/
def System.locked (s : System k) (id : String) : Prop := ∃ w, id ∈ (s.workers w).locks

instance (s : System k) (id : String) : Decidable (s.locked id) :=
  inferInstanceAs (Decidable (∃ w, id ∈ (s.workers w).locks))

/-- The row is pending and due, and no worker has locked it. -/
def System.due (s : System k) (now : ℚ) (id : String) : Prop :=
  (s.db.delivery id).pending = true ∧ (s.db.delivery id).available_at ≤ now ∧ ¬ s.locked id

instance (s : System k) (now : ℚ) (id : String) : Decidable (s.due now id) :=
  inferInstanceAs (Decidable (_ ∧ _ ∧ _))

/-- The first rows that are due. -/
def System.batch (s : System k) (limits : Limits) (outbox : Outbox) (now : ℚ) : List String :=
  (outbox.ids.filter fun id => s.due now id).take limits.batch_size

/-- The worker returns from a call. -/
def System.returned (s : System k) (w : Fin k) (db : Db) : System k where
  db := db
  workers := Function.update s.workers w .idle
  calls := Function.update s.calls w (s.calls w + 1)

/-- The steps of the workers. The time is that of the transaction. -/
inductive Move (k : ℕ) where
  | select (w : Fin k) (now : ℚ)
  | finish (w : Fin k)
  | record (w : Fin k) (now : ℚ)

/-- One step of a worker. A failure is recorded once no other worker has locked its row. -/
def move (env : Env) (limits : Limits) (outbox : Outbox) (s : System k) : Move k → Option (System k)
  | .select w now =>
    match s.workers w with
    | .idle =>
      match s.batch limits outbox now with
      | [] => some s
      | id :: ids => some { s with workers := Function.update s.workers w (.selected now (id :: ids)) }
    | _ => none
  | .finish w =>
    match s.workers w with
    | .selected now ids =>
      match projectAll env outbox now s.db ids with
      | .ok db => some (s.returned w db)
      | .error id => some { s with workers := Function.update s.workers w (.failed id) }
    | _ => none
  | .record w now =>
    match s.workers w with
    | .failed id =>
      if s.locked id then none else some (s.returned w (recordFailure limits outbox now s.db id))
    | _ => none

end RickIntelligence.Audit
