import RickIntelligence.Knowledge.Identity
import RickIntelligence.Lib.Json
import RickIntelligence.Lib.Validated

/-!
# Receipts, checkpoints and documents

The records of `rick_knowledge/publication.py` and `rick_knowledge/models.py` that a publication is
decided on, and the checks that are made of them. A receipt says what became of one attempt of a job
to publish its document; a checkpoint says how far the attempt has come and whether it was cancelled.

A number of seconds is exact, and an integer is the same as the float with its value. What
`json.dumps` refuses and how long its text is, and the equality of arbitrary JSON values, are left to
the environment (`Env`).
-/

namespace RickIntelligence.Knowledge

open Lib

/-- The errors of the store: `ValueError`, `OwnershipLostError` and `KeyError`. -/
inductive StoreError where
  | value (message : String)
  | ownership (message : String)
  | key (name : String)
  deriving DecidableEq, Repr

/-! ## Jobs and snapshots -/

/-- A time as a caller gives it: a finite number of seconds, or something else. -/
inductive Instant where
  | seconds (t : ℚ)
  | invalid
  deriving DecidableEq, Repr

/-- `type(value) in (int, float)`, finite and not negative. -/
def Instant.ok : Instant → Bool
  | seconds t => decide (0 ≤ t)
  | invalid => false

/-- `a < b` of two times that are there. -/
def isBefore : Option Instant → Option Instant → Bool
  | some (.seconds a), some (.seconds b) => decide (a < b)
  | _, _ => false

/-- The values of the status of a job. -/
inductive JobStatus where
  | published
  | failed
  | cancelled
  | other (text : String)
  deriving DecidableEq, Repr

/-- What the store reads of `IngestionJob`. -/
structure Job where
  job_id : String
  tenant_id : String
  workspace_id : String
  collection_id : String
  document_id : Option String
  status : JobStatus
  attempt : ℤ
  created_at : Option Instant
  started_at : Option Instant
  finished_at : Option Instant
  cancel_requested : Bool
  metadata : Json.Members
  heartbeats : List Json

/-- The tenant, the workspace, the collection and the job: the key of a receipt and of a
checkpoint. -/
abbrev JobKey := String × String × String × String

/-- The key of a job. -/
def Job.key (job : Job) : JobKey := (job.tenant_id, job.workspace_id, job.collection_id, job.job_id)

/-- `job_snapshot`. -/
structure Snapshot where
  attempt : ℤ
  created_at : Option Instant
  started_at : Option Instant
  finished_at : Option Instant
  metadata : Json.Members
  heartbeats : List Json

/-- The outcomes of a receipt. -/
inductive Outcome where
  | pending
  | committed
  | failed
  | cancelled
  deriving DecidableEq, Repr

/-- A publication receipt. -/
structure Receipt where
  job_id : String
  tenant_id : String
  workspace_id : String
  collection_id : String
  document_id : String
  attempt_id : String
  document_attempt : String
  outcome : Outcome
  cancel_requested : Bool
  ready_count : ℤ
  job_snapshot : Snapshot

/-- The key of a receipt. -/
def Receipt.key (r : Receipt) : JobKey := (r.tenant_id, r.workspace_id, r.collection_id, r.job_id)

/-- The states of a checkpoint. -/
inductive CheckpointState where
  | active
  | committed
  | failed
  | cancelled
  deriving DecidableEq, Repr

/-- An ingestion checkpoint. -/
structure Checkpoint where
  job_id : String
  tenant_id : String
  workspace_id : String
  collection_id : String
  attempt_id : String
  document_id : Option String
  fingerprint : Option Json
  state : CheckpointState
  cancel_requested : Bool
  job_snapshot : Snapshot
  artifacts : Json.Members

/-- The key of a checkpoint. -/
def Checkpoint.key (c : Checkpoint) : JobKey :=
  (c.tenant_id, c.workspace_id, c.collection_id, c.job_id)

/-- The functions of Python's library that the store uses on JSON values. -/
structure Env where
  encode_metadata : Snapshot → Except StoreError Unit
  encode_checkpoint : Checkpoint → Except StoreError Unit
  encode_artifacts : Json.Members → Except StoreError Unit
  same : Json → Json → Bool

/-! ## Checks -/

/-- `require_publication_identities`; a value that is no text is left out. -/
def requirePublicationIdentities (values : List (Option String)) : Except StoreError Unit :=
  if values.all fun v => v.any fun s => strip s != "" && decide (s.toList.length ≤ 256) then .ok ()
  else .error (.value "publication identities must be nonblank bounded strings")

/-- `value == text`. -/
def isText (text : String) : Option Json → Bool
  | some (.str s) => s == text
  | _ => false

/-- `metadata.get('deduplicated') is True`. -/
def deduplicated (metadata : Json.Members) : Bool :=
  match Json.member? "deduplicated" metadata with
  | some (.bool true) => true
  | _ => false

/-- The owner of the document that a snapshot names is the one of the receipt. Without a document
attempt the snapshot is compared with its own. -/
def ownerOk (metadata : Json.Members) (attempt_id : String) : Option String → Bool
  | none => true
  | some document_attempt =>
    match Json.member? "published_document_attempt" metadata with
    | none => attempt_id == document_attempt
    | some (.str s) => s == document_attempt
    | some .null => deduplicated metadata && document_attempt == attempt_id
    | some _ => false

/-- The queue attempt that a snapshot names is its attempt. -/
def queueAttemptOk (metadata : Json.Members) (attempt : ℤ) : Bool :=
  match Json.member? "queue_attempt" metadata with
  | none => true
  | some (.int n) => n == attempt
  | some _ => false

/-- `validate_publication_snapshot`. -/
def validatePublicationSnapshot (env : Env) (s : Snapshot) (attempt_id : String)
    (document_attempt : Option String) : Except StoreError Unit := do
  raiseFirst [
    (!(decide (1 ≤ s.attempt) && decide (s.attempt ≤ 64)),
      .value "invalid publication attempt count"),
    (!(s.created_at.any Instant.ok && s.started_at.all Instant.ok && s.finished_at.all Instant.ok),
      .value "invalid publication timestamp"),
    (isBefore s.started_at s.created_at || isBefore s.finished_at (s.started_at <|> s.created_at),
      .value "publication timestamps are out of order"),
    (!isText attempt_id (Json.member? "publication_attempt" s.metadata),
      .ownership "publication snapshot attempt changed"),
    (!ownerOk s.metadata attempt_id document_attempt,
      .ownership "publication snapshot document attempt changed"),
    (!queueAttemptOk s.metadata s.attempt, .value "publication queue attempt changed")]
  env.encode_metadata s

/-- `metadata.setdefault(name, value)`. -/
def setDefault (name : String) (value : Json) (metadata : Json.Members) : Json.Members :=
  if (Json.member? name metadata).isSome then metadata else metadata ++ [(name, value)]

/-- The snapshot of a job. -/
def Job.snapshot (job : Job) (document_attempt : Option String) : Snapshot where
  attempt := job.attempt
  created_at := job.created_at
  started_at := job.started_at
  finished_at := job.finished_at
  metadata := match document_attempt with
    | some d =>
      if deduplicated job.metadata then
        setDefault "published_document_attempt" (.str d) job.metadata
      else job.metadata
    | none => job.metadata
  heartbeats := job.heartbeats

/-- `publication_snapshot`, with the attempt of the job. -/
def publicationSnapshot (env : Env) (job : Job) (attempt_id : String)
    (document_attempt : Option String) : Except StoreError Snapshot := do
  validatePublicationSnapshot env (job.snapshot document_attempt) attempt_id document_attempt
  return job.snapshot document_attempt

/-- `job.metadata['publication_attempt']`. -/
def Job.publicationAttempt (job : Job) : Except StoreError Json :=
  match Json.member? "publication_attempt" job.metadata with
  | none => .error (.key "publication_attempt")
  | some value => .ok value

/-- The attempt of a job, after its identities were checked together with others. -/
def Job.identities (job : Job) (others : List (Option String)) : Except StoreError String := do
  let attempt ← job.publicationAttempt
  requirePublicationIdentities ([some job.job_id, some job.tenant_id, some job.workspace_id,
    some job.collection_id, attempt.text?] ++ others)
  return attempt.text?.getD ""

/-- The attempt of a job is the given one. -/
def Job.isAttempt (job : Job) (attempt_id : String) : Except StoreError Bool := do
  let attempt ← job.publicationAttempt
  return isText attempt_id (some attempt)

/-- `_check_checkpoint_facts`. -/
def checkCheckpointFacts (current : Checkpoint) (job : Job) : Except StoreError Unit :=
  let saved := current.job_snapshot
  if job.attempt != saved.attempt || job.created_at != saved.created_at ||
      (saved.started_at.isSome && job.started_at != saved.started_at) then
    .error (.ownership "checkpoint attempt facts changed")
  else .ok ()

/-! ## Documents -/

/-- `DOCUMENT_STATUSES`, where `incomplete` is the status `partial`, and any other text. -/
inductive DocumentStatus where
  | draft
  | processing
  | published
  | unpublished
  | deleted
  | incomplete
  | failed
  | other (text : String)
  deriving DecidableEq, Repr

/-- `Document`. -/
structure Document where
  document_id : String
  workspace_id : String
  collection_id : String
  tenant_id : String
  document_version : String
  content_checksum : String
  filename : String
  display_filename : String
  title : String
  source_type : String
  mime_type : String
  language : Option String
  status : DocumentStatus
  parser_version : String
  chunker_version : String
  embedding_model : String
  embedding_version : String
  metadata : Json.Members
  ingestion_version : String
  object_ref : String
  created_at : Option String
  published_at : Option String

/-- `Chunk`. -/
structure Chunk where
  chunk_id : String
  document_id : String
  tenant_id : String
  parent_chunk_id : Option String
  chunk_index : ℤ
  text : String
  page_start : Option ℤ
  page_end : Option ℤ
  section_name : Option String
  heading : Option String
  token_count : ℤ
  checksum : String
  parser_version : String
  chunker_version : String
  embedding_version : String
  index_version : String
  metadata : Json.Members

/-- A reading of `utc_timestamp`. -/
abbrev Timestamp := { s : String // s ≠ "" ∧ strip s = s }

/-- A reading of the clock is not blank. -/
theorem Timestamp.not_blank (t : Timestamp) : strip t.1 ≠ "" := by
  rw [t.2.2]
  exact t.2.1

/-- `_timestamp_text`. -/
def timestampText : Option String → Except StoreError (Option String)
  | none => .ok none
  | some s =>
    if strip s = "" then .error (.value "lineage timestamps must be non-empty strings or datetimes")
    else .ok (some (strip s))

/-- `document.filename or document.display_filename or document.document_id`. -/
def Document.fallbackRef (d : Document) : String :=
  if d.filename != "" then d.filename
  else if d.display_filename != "" then d.display_filename else d.document_id

/-- The reference that `materialize_lineage` gives a document. -/
def Document.objectRef (d : Document) : String :=
  if strip d.object_ref != "" then strip d.object_ref
  else match Json.member? "object_key" d.metadata with
    | some (.str s) => if strip s != "" then strip s else strip d.fallbackRef
    | _ => strip d.fallbackRef

/-- `materialize_lineage`, with the two readings of `utc_timestamp` that it may make: whether it
raises, and the document as it leaves it. -/
def materializeLineage (created_now published_now : Timestamp) (isPublished : Bool) (d : Document) :
    Except StoreError Unit × Document :=
  match timestampText d.created_at with
  | .error e => (.error e, d)
  | .ok created =>
    let d := { d with created_at := some (created.getD created_now.1) }
    match timestampText d.published_at with
    | .error e => (.error e, d)
    | .ok published =>
      (.ok (), { d with
        published_at := if isPublished && published.isNone then some published_now.1 else published
        ingestion_version :=
          if strip d.ingestion_version = "" then d.document_version else strip d.ingestion_version
        object_ref := d.objectRef })

/-- The timestamps of a document are texts that are not blank, as `materialize_lineage` leaves
them. -/
structure Document.Dated (d : Document) : Prop where
  created : ∃ s, d.created_at = some s ∧ strip s ≠ ""
  published : ∀ s, d.published_at = some s → strip s ≠ ""

/-- `_publication_matches`. -/
def Receipt.matchesDocument (r : Receipt) (d : Document) : Bool :=
  r.document_id == d.document_id && r.tenant_id == d.tenant_id && r.workspace_id == d.workspace_id &&
    r.collection_id == d.collection_id &&
    isText r.document_attempt (Json.member? "_ingestion_attempt" d.metadata)

end RickIntelligence.Knowledge
