import RickIntelligence.Knowledge.Documents
import RickIntelligence.Lib.Tx

/-!
# Documents and chunks in SQLite

The document operations of `SQLiteKnowledgeStore` in `rick_knowledge/sqlite_store.py`. A row is kept in
its columns, and the metadata in its text. What a call has written when it raises is rolled back
(`Tx.commit`).

The receipts of publications are left out: there are none in a store on which only document operations
are called, and they are all that `set_document_status` does beside its update.
-/

namespace RickIntelligence.Knowledge.Sqlite

open Lib

/-! ## Rows -/

/-- `encode_metadata` and `decode_metadata`. -/
structure Codec where
  encode : Json.Members → Except StoreError String
  decode : String → Option Json.Members

/-- A row of `documents`. -/
structure DocumentRow where
  document_id : String
  workspace_id : String
  collection_id : String
  tenant_id : String
  document_version : String
  content_checksum : String
  filename : String
  display_filename : String
  title : String
  source_type : String
  mime_type : String
  language : Option String
  status : DocumentStatus
  parser_version : String
  chunker_version : String
  embedding_model : String
  embedding_version : String
  metadata_json : String
  ingestion_version : String
  object_ref : String
  created_at : Option String
  published_at : Option String

/-- The values that are inserted for a document. -/
def DocumentRow.of (d : Document) (metadata_json : String) : DocumentRow where
  document_id := d.document_id
  workspace_id := d.workspace_id
  collection_id := d.collection_id
  tenant_id := d.tenant_id
  document_version := d.document_version
  content_checksum := d.content_checksum
  filename := d.filename
  display_filename := d.display_filename
  title := d.title
  source_type := d.source_type
  mime_type := d.mime_type
  language := d.language
  status := d.status
  parser_version := d.parser_version
  chunker_version := d.chunker_version
  embedding_model := d.embedding_model
  embedding_version := d.embedding_version
  metadata_json
  ingestion_version := d.ingestion_version
  object_ref := d.object_ref
  created_at := d.created_at
  published_at := d.published_at

/-- `a or b` of texts. -/
def orText (a b : String) : String := if a = "" then b else a

/-- `_document`. -/
def DocumentRow.document (codec : Codec) (row : DocumentRow) : Option Document :=
  (codec.decode row.metadata_json).map fun metadata => {
    document_id := row.document_id
    workspace_id := row.workspace_id
    collection_id := row.collection_id
    tenant_id := row.tenant_id
    document_version := row.document_version
    content_checksum := row.content_checksum
    filename := row.filename
    display_filename := row.display_filename
    title := row.title
    source_type := row.source_type
    mime_type := row.mime_type
    language := row.language
    status := row.status
    parser_version := row.parser_version
    chunker_version := row.chunker_version
    embedding_model := row.embedding_model
    embedding_version := row.embedding_version
    metadata
    ingestion_version := orText row.ingestion_version row.document_version
    object_ref := orText row.object_ref (orText row.filename (orText row.display_filename
      row.document_id))
    created_at := row.created_at
    published_at := row.published_at }

/-- `ON CONFLICT(document_id) DO UPDATE`: the time of creation stays, and a time of publication that
is not given. -/
def DocumentRow.merge (old excluded : DocumentRow) (current_timestamp : String) : DocumentRow :=
  { excluded with
    created_at := old.created_at
    published_at := if excluded.status = .published then
        excluded.published_at <|> old.published_at <|> some current_timestamp
      else excluded.published_at <|> old.published_at }

/-- The row that the insert of a document leaves. -/
def DocumentRow.inserted (excluded : DocumentRow) (current_timestamp : String) :
    Option DocumentRow → DocumentRow
  | none => excluded
  | some old => old.merge excluded current_timestamp

/-- A row of `chunks`. -/
structure ChunkRow where
  chunk_id : String
  document_id : String
  tenant_id : String
  parent_chunk_id : Option String
  chunk_index : ℤ
  text : String
  page_start : Option ℤ
  page_end : Option ℤ
  section_name : Option String
  heading : Option String
  token_count : ℤ
  checksum : String
  parser_version : String
  chunker_version : String
  embedding_version : String
  index_version : String
  metadata_json : String

/-- The values that are inserted for a chunk. -/
def ChunkRow.of (c : Chunk) (metadata_json : String) : ChunkRow where
  chunk_id := c.chunk_id
  document_id := c.document_id
  tenant_id := c.tenant_id
  parent_chunk_id := c.parent_chunk_id
  chunk_index := c.chunk_index
  text := c.text
  page_start := c.page_start
  page_end := c.page_end
  section_name := c.section_name
  heading := c.heading
  token_count := c.token_count
  checksum := c.checksum
  parser_version := c.parser_version
  chunker_version := c.chunker_version
  embedding_version := c.embedding_version
  index_version := c.index_version
  metadata_json

/-- `_chunk`. -/
def ChunkRow.chunk (codec : Codec) (row : ChunkRow) : Option Chunk :=
  (codec.decode row.metadata_json).map fun metadata => {
    chunk_id := row.chunk_id
    document_id := row.document_id
    tenant_id := row.tenant_id
    parent_chunk_id := row.parent_chunk_id
    chunk_index := row.chunk_index
    text := row.text
    page_start := row.page_start
    page_end := row.page_end
    section_name := row.section_name
    heading := row.heading
    token_count := row.token_count
    checksum := row.checksum
    parser_version := row.parser_version
    chunker_version := row.chunker_version
    embedding_version := row.embedding_version
    index_version := row.index_version
    metadata }

/-- The tables `documents` and `chunks`. -/
structure Tables where
  documents : AList fun _ : String => DocumentRow
  chunks : List ChunkRow

/-- Tables without rows. -/
def Tables.empty : Tables := ⟨∅, []⟩

/-! ## Errors -/

/-- What a call raises: an error of the store, a key that is there already, or an integer that does
not fit a column. -/
inductive SqliteError where
  | store (error : StoreError)
  | integrity
  | overflow

/-- A transaction on the tables. -/
abbrev SqliteTx := Tx Tables SqliteError

/-- A computation of the store in a transaction. -/
def liftStore {α : Type} (x : Except StoreError α) : SqliteTx α := Tx.lift (x.mapError .store)

/-- A check of the store in a transaction. -/
def raiseStoreIf (c : Bool) (e : StoreError) : SqliteTx Unit := Tx.raiseIf c (.store e)

/-- The integer fits a column. -/
def fitsInteger (n : ℤ) : Bool := decide (-2 ^ 63 ≤ n ∧ n < 2 ^ 63)

/-- The integers of a chunk fit their columns. -/
def fitsColumns (c : Chunk) : Bool :=
  fitsInteger c.chunk_index && c.page_start.all fitsInteger && c.page_end.all fitsInteger &&
    fitsInteger c.token_count

/-! ## Writes -/

/-- `upsert_document`, with the readings of the clocks. -/
def upsertDocument (env : Env) (codec : Codec) (current_timestamp : String)
    (created_now published_now : Timestamp) (document : Document) : SqliteTx Unit := do
  raiseStoreIf document.status.unknown?.isSome
    (.value ("unknown document status: " ++ document.status.unknown?.getD ""))
  let left := materializeLineage created_now published_now (document.status == .published) document
  liftStore left.1
  let t : Tables ← get
  let previous := t.documents.lookup left.2.document_id
  raiseStoreIf (previous.any fun row => row.tenant_id != left.2.tenant_id ||
      row.workspace_id != left.2.workspace_id || row.collection_id != left.2.collection_id)
    (.value "document scope cannot change")
  raiseStoreIf ((previous.any fun row => row.status == .deleted) && left.2.status != .deleted)
    deletedError
  if previous.any fun row => row.status == .deleted then
    let _ ← liftStore (requireUnchangedTombstone env created_now
      (previous.bind (DocumentRow.document codec)) left.2)
  else
    let metadata_json ← liftStore (codec.encode left.2.metadata)
    set { t with
      documents := t.documents.insert left.2.document_id
        ((DocumentRow.of left.2 metadata_json).inserted current_timestamp previous) }

/-- `set_document_status`, with the reading of the clock. -/
def setDocumentStatus (published_now : Timestamp) (document_id : String) (status : DocumentStatus) :
    SqliteTx Unit := do
  raiseStoreIf status.unknown?.isSome
    (.value ("unknown document status: " ++ status.unknown?.getD ""))
  let t : Tables ← get
  match t.documents.lookup document_id with
  | none => Tx.raise (.store (.key document_id))
  | some row =>
    raiseStoreIf (row.status == .deleted && status != .deleted) deletedError
    set { t with documents := t.documents.insert document_id { row with
      status
      published_at := if status = DocumentStatus.published then row.published_at <|> some published_now.1
        else row.published_at } }

/-- `UPDATE documents SET status`. -/
def Tables.setStatus (t : Tables) (document_id : String) (status : DocumentStatus) : Tables :=
  match t.documents.lookup document_id with
  | none => t
  | some row => { t with documents := t.documents.insert document_id { row with status } }

/-- `delete_document`: the number of chunks that were there. -/
def deleteDocument (document_id : String) : SqliteTx ℕ := do
  let t : Tables ← get
  let deleted := t.setStatus document_id .deleted
  set { deleted with chunks := t.chunks.filter fun row => row.document_id != document_id }
  return (t.chunks.filter fun row => row.document_id == document_id).length

/-- The checks and the insert of one chunk of a document. -/
def insertChunk (codec : Codec) (document_id tenant_id : String) (c : Chunk) : SqliteTx Unit := do
  liftStore (c.check document_id tenant_id)
  let metadata_json ← liftStore (codec.encode c.metadata)
  Tx.raiseIf (!fitsColumns c) .overflow
  let t : Tables ← get
  Tx.raiseIf (t.chunks.any fun row => row.chunk_id == c.chunk_id) .integrity
  set { t with chunks := t.chunks ++ [ChunkRow.of c metadata_json] }

/-- `replace_document_chunks`. -/
def replaceDocumentChunks (codec : Codec) (document_id : String) (chunks : List Chunk) :
    SqliteTx Unit := do
  let t : Tables ← get
  match t.documents.lookup document_id with
  | none => Tx.raise (.store (.key document_id))
  | some row =>
    raiseStoreIf (row.status == .deleted && !chunks.isEmpty)
      (.value "deleted documents cannot receive chunks")
    set { t with chunks := t.chunks.filter fun row => row.document_id != document_id }
    chunks.forM (insertChunk codec document_id row.tenant_id)

/-! ## Reads -/

/-- `get_document`. -/
def Tables.getDocument (codec : Codec) (t : Tables) (document_id : String)
    (tenant_id workspace_id : Option String) : Option Document :=
  match t.documents.lookup document_id with
  | none => none
  | some row =>
    if tenant_id.all (· == row.tenant_id) && workspace_id.all (· == row.workspace_id) then
      row.document codec
    else none

/-- `restore_deleted_document`, with the reading of the clock. -/
def restoreDeletedDocument (env : Env) (codec : Codec) (now : Timestamp) (snapshot : Document)
    (chunks : List Chunk) : SqliteTx Unit := do
  let t : Tables ← get
  let restored ← liftStore (requireDeletedSnapshot env now
    (t.getDocument codec snapshot.document_id none none) snapshot)
  set (t.setStatus restored.document_id restored.status)
  replaceDocumentChunks codec restored.document_id chunks

/-- `ORDER BY chunk_index, chunk_id`. -/
def ChunkRow.before (a b : ChunkRow) : Bool :=
  decide (a.chunk_index < b.chunk_index ∨ a.chunk_index = b.chunk_index ∧ a.chunk_id ≤ b.chunk_id)

/-- `get_chunks`. -/
def Tables.getChunks (codec : Codec) (t : Tables) (document_id : String) : List Chunk :=
  ((t.chunks.filter fun row => row.document_id == document_id).mergeSort
    ChunkRow.before).filterMap (ChunkRow.chunk codec)

/-- The conditions of a query on a row. -/
def selectsRow (q : DocumentQuery) (row : DocumentRow) : Bool :=
  row.workspace_id == q.workspace_id && row.status != .deleted && row.tenant_id == strip q.tenant_id &&
    q.collection_id.all (· == row.collection_id) &&
    q.statuses.all (·.contains row.status) &&
    q.allowed_collection_ids.all (fun allowed => allowed.contains "*" ||
      allowed.contains row.collection_id) &&
    q.after_document_id.all fun after => decide (after < row.document_id)

/-- `list_documents`. A query for no status or no collection is answered before its limit is bound. -/
def Tables.listDocuments (codec : Codec) (q : DocumentQuery) (t : Tables) :
    Except SqliteError (List Document) := do
  raiseFirst [(strip q.tenant_id == "", .store (.value "tenant_id is required")),
    (q.limit.any fun limit => decide (limit < 0),
      .store (.value "limit must be a non-negative integer"))]
  if q.statuses == some [] || q.allowed_collection_ids == some [] then return []
  let rows := ((t.documents.entries.map Sigma.snd).filter (selectsRow q)).mergeSort
    fun a b => decide (a.document_id ≤ b.document_id)
  match q.limit with
  | none => return rows.filterMap (DocumentRow.document codec)
  | some limit =>
    raiseFirst [(!fitsInteger limit, .overflow)]
    return (rows.take limit.toNat).filterMap (DocumentRow.document codec)

end RickIntelligence.Knowledge.Sqlite
