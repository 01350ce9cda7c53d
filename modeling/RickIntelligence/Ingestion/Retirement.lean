import RickIntelligence.Ingestion.Payload
import RickIntelligence.Ingestion.Points
import RickIntelligence.Lib.Dict

/-!
# Retiring a replaced document

`_retire_replacement` of `rick_ingestion/pipeline.py`, with `_snapshot_points` and `_rollback_replacement`.
When a new version of a document is published, the points of the old one are deleted and it is hidden. What
fails on the way is undone from a snapshot of the points; whether the old version is then shown again is
decided by their number.

The variables of the Python function that its handler reads are part of the state (`Frame`), since what an
exception finds in them is what was assigned before it.
-/

namespace RickIntelligence.Ingestion

open Lib Knowledge

/-! ## Snapshots -/

/-- `MAX_POINT_SNAPSHOT`. -/
def maxPointSnapshot : ℕ := 100000

/-- `MAX_POINT_SNAPSHOT_BYTES`. -/
def maxPointSnapshotBytes : ℕ := 64 * 1024 * 1024

/-- The loop of `_snapshot_points`: the points of the document among those that were read, by their number
and the bytes that they take as JSON, if they can be written so. -/
def collectPoints (encoded : Point → Option ℕ) (target : Target) :
    ℕ → ℕ → List Point → Except Failure (List Point)
  | _, _, [] => .ok []
  | index, total_bytes, point :: points =>
    if index = maxPointSnapshot then
      .error (.runtime "complete compensation snapshot exceeds read limit")
    else if !target.owns point then collectPoints encoded target (index + 1) total_bytes points
    else match encoded point with
      | none => .error (.runtime "compensation snapshot contains an invalid point")
      | some bytes =>
        if total_bytes + bytes > maxPointSnapshotBytes then
          .error (.runtime "complete compensation snapshot exceeds byte limit")
        else do
          let rest ← collectPoints encoded target (index + 1) (total_bytes + bytes) points
          return point :: rest

/-- The points that are read for a snapshot. -/
def readPoints (reader : Reader) (target : Target) (raises : Bool) : PointProc (List Point) := do
  let points : Points ← get
  match reader with
  | .missing => Proc.raise (.runtime "vector adapter cannot provide a compensation snapshot")
  | .snapshotDocument =>
    Proc.raiseIf raises (.runtime "could not obtain complete compensation snapshot")
    return points.entries.filter target.owns
  | .allPoints takes_limit =>
    Proc.raiseIf (raises || takes_limit && decide (maxPointSnapshot < points.entries.length))
      (.runtime "could not obtain complete compensation snapshot")
    return points.entries

/-- `_snapshot_points`. What is read are points with payloads. -/
def snapshotPoints (encoded : Point → Option ℕ) (reader : Reader) (target : Target) (raises : Bool) :
    PointProc (List Point) := do
  let points ← readPoints reader target raises
  Proc.lift (collectPoints encoded target 0 0 points)

/-! ## Frames -/

/-- The stores and the job, and the variables of a call that its handler reads. -/
structure Frame where
  knowledge : Store
  points : Points
  job : Job
  owners : Option (Document × Document)
  old_points : List Point
  retirement_started : Bool
  incomplete_snapshot : Bool

/-- The frame with another knowledge store. -/
def Frame.withKnowledge (f : Frame) (knowledge : Store) : Frame := { f with knowledge }

/-- The frame with another vector store. -/
def Frame.withPoints (f : Frame) (points : Points) : Frame := { f with points }

/-- A procedure of the pipeline. -/
abbrev FrameProc := Proc Frame Failure

/-- A call of the knowledge store. -/
def onKnowledge {α : Type} : StoreProc α → FrameProc α :=
  Proc.embed Frame.knowledge Frame.withKnowledge .knowledge

/-- A call of the vector store. -/
def onVectors {α : Type} : PointProc α → FrameProc α :=
  Proc.embed Frame.points Frame.withPoints id

/-- `job.metadata[name] = value`. -/
def note (name : String) (value : Json) : FrameProc Unit :=
  modify fun f => { f with job := { f.job with metadata := Json.setMember name value f.job.metadata } }

/-- The arguments of a call, what the stores do in it, and the readings of the clock. -/
structure Retirement where
  env : Env
  uuid5 : String → String
  encoded : Point → Option ℕ
  adapter : Adapter
  faults : Faults
  document_id : String
  tenant_id : String
  workspace_id : String
  collection_id : Option String
  clock : ℕ → Timestamp
  status_clock : ℕ → JobKey → Instant
  created_now : ℕ → Timestamp
  published_now : ℕ → Timestamp

namespace Retirement

variable (r : Retirement)

/-- The old document with its scope. -/
def target (collection_id : String) : Target :=
  ⟨r.document_id, collection_id, r.tenant_id, r.workspace_id⟩

/-- `normalize_collection_id(kwargs.get("collection_id", "rag_phase0"))`. -/
def normalizeCollection : FrameProc String :=
  Proc.lift ((normalizeCollectionId r.collection_id).mapError .value)

/-- `set_document_status` of the old document, with the readings of the clock for this call. -/
def setOldStatus (call : ℕ) (status : DocumentStatus) : FrameProc Unit :=
  onKnowledge (setDocumentStatus r.env (r.status_clock call) (r.created_now call) (r.published_now call)
    r.document_id status)

/-! ## Ownership -/

/-- `==` of what two dictionaries have under a name. -/
def sameMember (name : String) (m n : Json.Members) : Bool :=
  r.env.same ((Json.member? name m).getD .null) ((Json.member? name n).getD .null)

/-- The document is still the one that was saved. -/
def stillSaved (job_document_id : Option String) (saved : Document) (current : Document) : Bool :=
  (current.status == .published || current.status == .unpublished) &&
    !(some saved.document_id == job_document_id && current.status != .published) &&
    current.tenant_id == saved.tenant_id && current.workspace_id == saved.workspace_id &&
    current.collection_id == saved.collection_id &&
    current.content_checksum == saved.content_checksum &&
    current.document_version == saved.document_version && current.object_ref == saved.object_ref &&
    current.filename == saved.filename && r.sameMember "_ingestion_attempt" current.metadata saved.metadata

/-- The loop of `still_owned`. -/
def allOwned : List Document → FrameProc Bool
  | [] => pure true
  | saved :: rest => do
    let current ← onKnowledge (getDocument saved.document_id (some r.tenant_id) (some r.workspace_id))
    let f : Frame ← get
    if current.any (r.stillSaved f.job.document_id saved) then allOwned rest else return false

/-- `still_owned`. -/
def stillOwned : FrameProc Bool := do
  let f : Frame ← get
  match f.owners with
  | none => return true
  | some (old, new) => r.allOwned [old, new]

/-! ## Restoring -/

/-- `batch_size`. -/
def batchSize : ℕ :=
  match r.adapter.max_points with
  | none => 1000
  | some n => if 0 < n then min 1000 n.toNat else 1000

/-- The slices of a list, of a length. -/
def slices {α : Type} (size : ℕ) (l : List α) : List (List α) := l.toChunks size

/-- The batches in which points are restored. -/
def batches (points : List Point) : List (Batch points) :=
  match r.adapter.planner with
  | some planner => planner points
  | none => (slices r.batchSize points.attach).map .points

/-- The loop of `_rollback_replacement`: the number of points that were restored. -/
def restoreBatches (points : List Point) : ℕ → ℕ → List (Batch points) → FrameProc ℕ
  | _, restored_points, [] => pure restored_points
  | call, restored_points, .points batch :: rest => do
    Proc.raiseIf (batch.isEmpty || decide (batch.length > r.batchSize) ||
        decide (restored_points + batch.length > points.length))
      (.runtime "invalid compensation batch plan")
    let written ← onVectors (upsertPoints (r.faults.upsert call) (batch.map Subtype.val))
    Proc.raiseIf (written != batch.length) (.runtime "incomplete compensation write")
    restoreBatches points (call + 1) (restored_points + batch.length) rest
  | _, _, .malformed :: _ => Proc.raise (.runtime "invalid compensation batch plan")
  | _, _, .raises :: _ => Proc.raise .vectors

/-- The part of `_rollback_replacement` that may raise: whether all the points are there again. -/
def restore (collection_id : String) (old_points : List Point) : FrameProc Bool := do
  let restored_points ← r.restoreBatches old_points 0 0 (r.batches old_points)
  Proc.raiseIf (restored_points != old_points.length) (.runtime "incomplete compensation batch plan")
  let count ← onVectors (countForDocument r.adapter (r.target collection_id) r.faults.recount)
  return count == old_points.length

/-- The choice of the status in `_rollback_replacement`: whether the old document is published again. -/
def settle (restored : Bool) : FrameProc Bool :=
  Proc.handle (do
      r.setOldStatus 1 (if restored then .published else .unpublished)
      return restored)
    fun _ => do
      Proc.handle (r.setOldStatus 2 .unpublished) fun _ => pure ()
      return false

/-- `_rollback_replacement`. -/
def rollbackReplacement (collection_id : String) : FrameProc Unit := do
  let f : Frame ← get
  let restored ←
    if f.retirement_started && !f.old_points.isEmpty then
      Proc.handle (r.restore collection_id f.old_points) fun _ => pure false
    else pure !f.retirement_started
  let restored ← r.settle restored
  note "retirement_pending" (.bool true)
  note "retirement_deferred" (.str "storage_unavailable")
  note "retirement_error_after_commit" (.bool true)
  note "previous_document_id" (.str r.document_id)
  note "previous_publication_restored" (.bool restored)

/-! ## Retiring -/

/-- The names of the facts in which a payload has to be the one that is expected. -/
def sourceFields : List String :=
  ["chunk_id", "document_version", "ingestion_version", "checksum", "object_ref", "source", "text",
    "parser_version", "chunker_version", "embedding_model", "embedding_version"]

/-- The points are those of the chunks. -/
def sourcesAgree (expected : AList fun _ : String => Json.Members) (old_count : ℕ) (points : List Point) :
    Bool :=
  expected.entries.length == old_count && (points.map Sigma.fst).dedup.length == old_count &&
    points.all fun point => (expected.lookup point.1).any fun payload =>
      sourceFields.all fun name => r.sameMember name point.2.payload payload

/-- The check of the points against the chunks of the old document. Its lineage is filled in on the
way. -/
def checkSources (old_count : ℕ) : FrameProc Unit := do
  let f : Frame ← get
  match f.owners with
  | none => return ()
  | some (old, new) =>
    let left := Proc.exec
      (expectedPayloads r.uuid5 r.clock 0 (f.knowledge.getChunks r.document_id) ∅) old
    modify fun f => { f with owners := some (left.2, new) }
    let expected ← Proc.lift (left.1.mapError .knowledge)
    let f : Frame ← get
    if !r.sourcesAgree expected old_count f.old_points then do
      modify fun f => { f with incomplete_snapshot := true }
      Proc.raise (.runtime "compensation snapshot source facts changed")
    else return ()

/-- The `try` of `_retire_replacement`. -/
def attempt : FrameProc Unit := do
  let collection_id ← r.normalizeCollection
  let old_count ← onVectors (countForDocument r.adapter (r.target collection_id) r.faults.count)
  if old_count = 0 then do
    modify fun f => { f with incomplete_snapshot := f.owners.isSome }
    Proc.raise (.runtime "published replacement has no restorable vectors")
  else do
    let old_points ← onVectors
      (snapshotPoints r.encoded r.adapter.reader (r.target collection_id) r.faults.snapshot)
    modify fun f => { f with old_points }
    if old_points.length ≠ old_count then do
      modify fun f => { f with incomplete_snapshot := f.owners.isSome }
      Proc.raise (.runtime "compensation snapshot does not match scoped point count")
    else do
      r.checkSources old_count
      modify fun f => { f with retirement_started := true }
      onVectors (deleteDocument r.adapter (r.target collection_id) r.faults.delete)
      r.setOldStatus 0 .unpublished

/-- The handler of `_retire_replacement`. -/
def recover : FrameProc Unit := do
  let owned ← r.stillOwned
  if !owned then do
    note "retirement_pending" (.bool false)
    note "retirement_superseded" (.bool true)
  else do
    modify fun f =>
      if f.incomplete_snapshot then { f with old_points := [], retirement_started := true } else f
    let collection_id ← r.normalizeCollection
    r.rollbackReplacement collection_id

/-- The `try` of `_retire_replacement` with its handler: whether nothing was raised. -/
def attemptOrRecover : FrameProc Bool :=
  Proc.handle (do
      r.attempt
      return true)
    fun _ => do
      r.recover
      return false

/-- The frame of a call when its variables have been set. -/
def start (f : Frame) : Frame :=
  { f with old_points := [], retirement_started := false, incomplete_snapshot := false }

/-- `_retire_replacement`. -/
def retireReplacement : FrameProc Job := do
  let f : Frame ← get
  if f.job.status = .published then do
    modify start
    let retired ← r.attemptOrRecover
    if retired then note "retirement_pending" (.bool false) else pure ()
    let f : Frame ← get
    return f.job
  else return f.job

end Retirement

end RickIntelligence.Ingestion
