import RickIntelligence.Knowledge.Publication

/-!
# Documents and chunks in memory

The document operations of `InMemoryKnowledgeStore` in `rick_knowledge/store.py`, with the checks of
`rick_knowledge/fencing.py` on deleted documents. A document is a value: what a caller does to an
object that it has handed over is not modelled.

`set_document_status` is in `Publication`, since it also decides receipts.
-/

namespace RickIntelligence.Knowledge

open Lib

/-! ## Tombstones -/

/-- Two documents agree in every field but the status. -/
def Document.sameButStatus (env : Env) (a b : Document) : Bool :=
  a.document_id == b.document_id && a.workspace_id == b.workspace_id &&
    a.collection_id == b.collection_id && a.tenant_id == b.tenant_id &&
    a.document_version == b.document_version && a.content_checksum == b.content_checksum &&
    a.filename == b.filename && a.display_filename == b.display_filename && a.title == b.title &&
    a.source_type == b.source_type && a.mime_type == b.mime_type && a.language == b.language &&
    a.parser_version == b.parser_version && a.chunker_version == b.chunker_version &&
    a.embedding_model == b.embedding_model && a.embedding_version == b.embedding_version &&
    env.same (.obj a.metadata) (.obj b.metadata) && a.ingestion_version == b.ingestion_version &&
    a.object_ref == b.object_ref && a.created_at == b.created_at && a.published_at == b.published_at

/-- The error of a snapshot that is not that of the tombstone. -/
def tombstoneError : StoreError := .value "delete compensation snapshot does not match tombstone"

/-- The snapshot with what was left out of it resolved: `candidate` of
`require_unchanged_tombstone`, as it is compared. -/
def tombstoneCandidate (current snapshot candidate : Document) : Document :=
  let candidate :=
    if snapshot.filename = "" ∧ current.filename = candidate.object_ref then
      { candidate with filename := current.filename }
    else candidate
  if snapshot.published_at = none then { candidate with published_at := current.published_at }
  else candidate

/-- `require_unchanged_tombstone`, with the reading of the clock. -/
def requireUnchangedTombstone (env : Env) (now : Timestamp) (current : Option Document)
    (snapshot : Document) : Except StoreError Document := do
  match current with
  | none => throw tombstoneError
  | some current =>
    raiseFirst [(current.status != .deleted || snapshot.status.unknown?.isSome, tombstoneError)]
    let left := materializeLineage now now false snapshot
    left.1
    raiseFirst [(!current.sameButStatus env (tombstoneCandidate current snapshot left.2),
      tombstoneError)]
    return { current with status := snapshot.status }

/-- `require_deleted_snapshot`. -/
def requireDeletedSnapshot (env : Env) (now : Timestamp) (current : Option Document)
    (snapshot : Document) : Except StoreError Document := do
  raiseFirst [(snapshot.status == .deleted, tombstoneError)]
  requireUnchangedTombstone env now current snapshot

/-! ## Reads -/

/-- The document is deleted. -/
def Store.isDeleted (s : Store) (document_id : String) : Bool :=
  decide (document_id ∈ s.tombstones) ||
    (s.documents.lookup document_id).any fun d => d.status == .deleted

/-- `get_chunks`. -/
def Store.getChunks (s : Store) (document_id : String) : List Chunk :=
  (s.chunks.lookup document_id).getD []

/-- `get_document`. A document with a tombstone is marked as deleted when it is read. -/
def getDocument (document_id : String) (tenant_id workspace_id : Option String) :
    StoreProc (Option Document) := do
  let s : Store ← get
  match s.documents.lookup document_id with
  | none => return none
  | some document =>
    let document := if document_id ∈ s.tombstones then { document with status := .deleted } else document
    set { s with documents := s.documents.insert document_id document }
    if tenant_id.any (· != document.tenant_id) || workspace_id.any (· != document.workspace_id) then
      return none
    else return some document

/-- The arguments of `list_documents`. -/
structure DocumentQuery where
  workspace_id : String
  collection_id : Option String
  tenant_id : String
  after_document_id : Option String
  limit : Option ℤ
  statuses : Option (List DocumentStatus)
  allowed_collection_ids : Option (List String)

/-- The document is one of those that a query asks for, deleted ones aside. -/
def DocumentQuery.selects (q : DocumentQuery) (d : Document) : Bool :=
  d.workspace_id == q.workspace_id && d.tenant_id == strip q.tenant_id &&
    q.collection_id.all (· == d.collection_id) &&
    q.allowed_collection_ids.all (fun allowed => allowed.contains "*" ||
      allowed.contains d.collection_id) &&
    q.statuses.all (·.contains d.status)

/-- The documents in the order of their ids. -/
def sortedById (documents : List Document) : List Document :=
  documents.mergeSort fun a b => decide (a.document_id ≤ b.document_id)

/-- The documents in their order from an id on, and at most a number of them. -/
def paged (after_document_id : Option String) (limit : Option ℤ) (documents : List Document) :
    Except StoreError (List Document) := do
  let documents := match after_document_id with
    | none => documents
    | some after => documents.filter fun d => decide (after < d.document_id)
  match limit with
  | none => return documents
  | some limit =>
    raiseFirst [(decide (limit < 0), .value "limit must be a non-negative integer")]
    return documents.take limit.toNat

/-- `list_documents`. -/
def listDocuments (q : DocumentQuery) (s : Store) : Except StoreError (List Document) := do
  raiseFirst [(strip q.tenant_id == "", .value "tenant_id is required")]
  paged q.after_document_id q.limit (sortedById ((s.documents.entries.map Sigma.snd).filter fun d =>
    q.selects d && d.status != .deleted && decide (d.document_id ∉ s.tombstones)))

/-! ## Writes -/

/-- The error of a document that was deleted. -/
def deletedError : StoreError :=
  .value "deleted documents cannot transition; ingest a new version"

/-- The two documents are in one scope. -/
def Document.sameScope (a b : Document) : Bool :=
  a.tenant_id == b.tenant_id && a.workspace_id == b.workspace_id && a.collection_id == b.collection_id

/-- A document is stored, with a tombstone if it is deleted. -/
def Store.putDocument (s : Store) (d : Document) : Store :=
  { s with
    documents := s.documents.insert d.document_id d
    tombstones := if d.status = .deleted then insert d.document_id s.tombstones else s.tombstones }

/-- `upsert_document`, with the readings of the clock. -/
def upsertDocument (env : Env) (created_now published_now : Timestamp) (document : Document) :
    StoreProc Unit := do
  Proc.raiseIf document.status.unknown?.isSome
    (.value ("unknown document status: " ++ document.status.unknown?.getD ""))
  let s : Store ← get
  let existing := s.documents.lookup document.document_id
  Proc.raiseIf (s.isDeleted document.document_id && document.status != .deleted) deletedError
  Proc.raiseIf (existing.any fun e => !e.sameScope document) (.value "document scope cannot change")
  let left := materializeLineage created_now published_now (document.status == .published) document
  Proc.lift left.1
  let stored ← Proc.lift (if existing.any fun e => e.status == .deleted then
      requireUnchangedTombstone env created_now existing left.2
    else .ok left.2)
  set (s.putDocument stored)

/-- `delete_document`: the number of chunks that were there. -/
def deleteDocument (document_id : String) : StoreProc ℕ := do
  let s : Store ← get
  let chunks := s.getChunks document_id
  match s.documents.lookup document_id with
  | none => set { s with chunks := s.chunks.erase document_id }
  | some document =>
    set { s with
      chunks := s.chunks.erase document_id
      documents := s.documents.insert document_id { document with status := .deleted }
      tombstones := insert document_id s.tombstones }
  return chunks.length

/-- The checks of one chunk of a document. -/
def Chunk.check (document_id tenant_id : String) (c : Chunk) : Except StoreError Unit :=
  raiseFirst [
    (c.document_id != document_id, .value "chunk document_id does not match parent"),
    (c.tenant_id != tenant_id, .value "chunk tenant_id does not match parent")]

/-- `replace_document_chunks`. -/
def replaceDocumentChunks (document_id : String) (chunks : List Chunk) : StoreProc Unit := do
  let s : Store ← get
  match s.documents.lookup document_id with
  | none => Proc.raise (.key document_id)
  | some document =>
    Proc.raiseIf (s.isDeleted document_id && !chunks.isEmpty)
      (.value "deleted documents cannot receive chunks")
    Proc.lift (chunks.forM (Chunk.check document_id document.tenant_id))
    set { s with chunks := s.chunks.insert document_id chunks }

/-- `restore_deleted_document`, with the reading of the clock. If the chunks are refused, the
tombstone is put back. -/
def restoreDeletedDocument (env : Env) (now : Timestamp) (snapshot : Document)
    (chunks : List Chunk) : StoreProc Unit := do
  let current ← getDocument snapshot.document_id none none
  let restored ← Proc.lift (requireDeletedSnapshot env now current snapshot)
  let before : Store ← get
  let before_chunks := before.getChunks restored.document_id
  set { before with
    tombstones := before.tombstones.erase restored.document_id
    documents := before.documents.insert restored.document_id restored }
  Proc.handle (replaceDocumentChunks restored.document_id chunks) fun e => do
    let s : Store ← get
    set { s with
      documents := s.documents.insert restored.document_id (current.getD restored)
      chunks := s.chunks.insert restored.document_id before_chunks
      tombstones := insert restored.document_id s.tombstones }
    Proc.raise e

end RickIntelligence.Knowledge
