import RickIntelligence.Knowledge.Documents
import RickIntelligence.Knowledge.Naming

/-!
# Payloads of points

`build_point_payload` of `rick_knowledge/payload.py`: what is stored beside the vector of a chunk. The
document that it is given is changed on the way, since its lineage is filled in.
-/

namespace RickIntelligence.Ingestion

open Lib Knowledge

/-- `x or y` of texts. -/
def orText (x y : String) : String := if x != "" then x else y

/-- `build_point_payload`, with the readings of the clock. The state is the document. -/
def buildPointPayload (created_now published_now : Timestamp) (chunk : Chunk) :
    Proc Document StoreError Json.Members := do
  let document : Document ← get
  let document_tenant ← Proc.lift ((normalizeTenantId (some document.tenant_id)).mapError .value)
  let chunk_tenant ← Proc.lift ((normalizeTenantId (some chunk.tenant_id)).mapError .value)
  Proc.raiseIf (document_tenant != chunk_tenant) (.value "document and chunk tenant_id must match")
  let left := materializeLineage created_now published_now (document.status == .published) document
  set left.2
  Proc.lift left.1
  let document := left.2
  return [
    ("schema_version", .str "rag-contract-v1"),
    ("tenant_id", .str document_tenant),
    ("workspace_id", .str document.workspace_id),
    ("collection_id", .str document.collection_id),
    ("document_id", .str document.document_id),
    ("document_version", .str document.document_version),
    ("ingestion_version", .str document.ingestion_version),
    ("chunk_id", .str chunk.chunk_id),
    ("parent_chunk_id", Json.ofOptionalText chunk.parent_chunk_id),
    ("chunk_index", .int chunk.chunk_index),
    ("text", .str chunk.text),
    ("source", .str (orText document.display_filename document.filename)),
    ("title", .str (orText document.title (orText document.display_filename document.filename))),
    ("page_start", chunk.page_start.elim .null .int),
    ("page_end", chunk.page_end.elim .null .int),
    ("section", Json.ofOptionalText chunk.section_name),
    ("checksum", .str (orText chunk.checksum document.content_checksum)),
    ("object_ref", .str document.object_ref),
    ("created_at", Json.ofOptionalText document.created_at),
    ("published_at", Json.ofOptionalText document.published_at),
    ("parser_version", .str (orText chunk.parser_version document.parser_version)),
    ("chunker_version", .str (orText chunk.chunker_version document.chunker_version)),
    ("embedding_model", .str document.embedding_model),
    ("embedding_version", .str (orText chunk.embedding_version document.embedding_version)),
    ("index_version", .str chunk.index_version),
    ("metadata", .obj chunk.metadata),
    ("document_filename", .str (orText document.display_filename document.filename)),
    ("qdrant_collection", .str document.collection_id),
    ("object_key", .str document.object_ref)]

/-- The payloads of some chunks under the ids of their points, the readings of the clock being numbered. -/
def expectedPayloads (uuid5 : String → String) (clock : ℕ → Timestamp) :
    ℕ → List Chunk → (AList fun _ : String => Json.Members) →
      Proc Document StoreError (AList fun _ : String => Json.Members)
  | _, [], expected => pure expected
  | i, chunk :: chunks, expected => do
    let payload ← buildPointPayload (clock (2 * i)) (clock (2 * i + 1)) chunk
    expectedPayloads uuid5 clock (i + 1) chunks
      (expected.insert (pointIdForChunk uuid5 chunk.chunk_id) payload)

end RickIntelligence.Ingestion
