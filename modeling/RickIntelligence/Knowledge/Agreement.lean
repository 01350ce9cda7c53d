import RickIntelligence.Knowledge.Checkpoints
import RickIntelligence.Knowledge.Deletion
import RickIntelligence.Knowledge.SqliteDocuments

/-!
# Two stores of documents

The store in memory and the one in SQLite, under the same document operations. The tables hold the
rows of the documents and of the chunks in memory (`Matches`), so that a call raises in both or in
neither, and what is read from one agrees with what is read from the other.

A document that replaces one in memory leaves nothing of it, while its row keeps the time of creation
and a time of publication that is not given. The two differ there, and where a row is read or written
in another way than the document; `stores_agree` is about the runs without such calls (`Alike`).
-/

namespace RickIntelligence.Knowledge

open Lib Sqlite

/-! ## Ids of chunks -/

/-- The digits of a number, with zeros before them up to a width. -/
def zeroPadded (width n : ℕ) : List Char :=
  List.replicate (width - (Nat.toDigits 10 n).length) '0' ++ Nat.toDigits 10 n

/-- The format `04d`. -/
def paddedIndex (n : ℤ) : List Char :=
  if n < 0 then '-' :: zeroPadded 3 n.natAbs else zeroPadded 4 n.natAbs

/-- `chunk_id_for_document`. -/
def chunkIdForDocument (document_id : String) (chunk_index : ℤ) : String :=
  String.ofList ("chunk_".toList ++ document_id.toList ++ '_' :: paddedIndex chunk_index)

/-- An index is written without underscores. -/
theorem underscore_notMem_paddedIndex (n : ℤ) : '_' ∉ paddedIndex n := by
  have hpadded : ∀ width n, '_' ∉ zeroPadded width n := by
    intro width n hmem
    rcases List.mem_append.mp hmem with hzero | hdigit
    · cases List.eq_of_mem_replicate hzero
    · exact Nat.underscore_not_in_toDigits hdigit
  unfold paddedIndex
  split
  · intro hmem
    rcases List.mem_cons.mp hmem with hsign | hdigit
    · cases hsign
    · exact hpadded _ _ hdigit
  · exact hpadded _ _

/-- What stands before the last of some separators. -/
theorem append_cons_inj_right {α : Type} {x : α} {l l' r r' : List α} (hr : x ∉ r) (hr' : x ∉ r')
    (h : l ++ x :: r = l' ++ x :: r') : l = l' := by
  rcases List.append_eq_append_iff.mp h with ⟨m, rfl, hm⟩ | ⟨m, rfl, hm⟩
  · cases m with
    | nil => exact (List.append_nil l).symm
    | cons y m =>
      rw [List.cons_append, List.cons.injEq] at hm
      exact absurd (hm.2 ▸ List.mem_append_right m List.mem_cons_self) hr
  · cases m with
    | nil => exact List.append_nil l'
    | cons y m =>
      rw [List.cons_append, List.cons.injEq] at hm
      exact absurd (hm.2 ▸ List.mem_append_right m List.mem_cons_self) hr'

/-- An id of a chunk is of one document. -/
theorem chunkIdForDocument_inj {d d' : String} {i i' : ℤ}
    (h : chunkIdForDocument d i = chunkIdForDocument d' i') : d = d' := by
  have hlist := append_cons_inj_right (underscore_notMem_paddedIndex i)
    (underscore_notMem_paddedIndex i') (String.ofList_injective h)
  exact String.toList_injective (List.append_cancel_left hlist)

/-! ## Rows of documents and chunks -/

/-- `materialize_lineage` changes the lineage only. -/
theorem materializeLineage_keeps (created_now published_now : Timestamp) (isPublished : Bool)
    (d : Document) : ∃ created_at published_at ingestion_version object_ref,
    (materializeLineage created_now published_now isPublished d).2 =
      { d with created_at, published_at, ingestion_version, object_ref } := by
  unfold materializeLineage
  cases timestampText d.created_at with
  | error e => exact ⟨_, _, _, _, rfl⟩
  | ok created =>
    cases hpublished : timestampText d.published_at with
    | error e =>
      simp only [hpublished]
      exact ⟨_, _, _, _, rfl⟩
    | ok published =>
      simp only [hpublished]
      exact ⟨_, _, _, _, rfl⟩

/-- The text of some metadata. -/
def Sqlite.Codec.text (codec : Codec) (m : Json.Members) : String :=
  match codec.encode m with
  | .ok text => text
  | .error _ => ""

/-- The metadata has a text. -/
def Sqlite.Codec.Encodes (codec : Codec) (m : Json.Members) : Prop := codec.encode m = .ok (codec.text m)

/-- The text of some metadata is that of an equal object. -/
def Sqlite.Codec.Faithful (env : Env) (codec : Codec) : Prop :=
  ∀ m, codec.Encodes m → ∃ m', codec.decode (codec.text m) = some m' ∧
    env.same (.obj m) (.obj m') = true

/-- The row of a document. -/
def Document.row (codec : Codec) (d : Document) : DocumentRow := .of d (codec.text d.metadata)

/-- The row of a chunk. -/
def Chunk.row (codec : Codec) (c : Chunk) : ChunkRow := .of c (codec.text c.metadata)

/-- Two documents are equal, with equal objects as their metadata. -/
structure Document.Agrees (env : Env) (a b : Document) : Prop where
  fields : b = { a with metadata := b.metadata }
  metadata : env.same (.obj a.metadata) (.obj b.metadata) = true

/-- Two chunks are equal, with equal objects as their metadata. -/
structure Chunk.Agrees (env : Env) (a b : Chunk) : Prop where
  fields : b = { a with metadata := b.metadata }
  metadata : env.same (.obj a.metadata) (.obj b.metadata) = true

/-- The row of a document is read as the document: its metadata has a text, and if it has no
reference, there is no name that would be read in its place. -/
structure Document.Readable (codec : Codec) (d : Document) : Prop where
  encodes : codec.Encodes d.metadata
  object : d.object_ref = "" → d.fallbackRef = ""

section Rows

variable {env : Env} {codec : Codec}

/-- A row is read as its document. -/
theorem row_document (hcodec : codec.Faithful env) {d : Document} (hfiled : d.Filed)
    (hd : d.Readable codec) : ∃ d', (d.row codec).document codec = some d' ∧ d.Agrees env d' := by
  obtain ⟨m, hm, hsame⟩ := hcodec d.metadata hd.encodes
  have hversion : orText d.ingestion_version d.document_version = d.ingestion_version := by
    unfold orText
    split
    case isTrue hblank =>
      refine (hfiled.version ?_).symm
      rw [hblank]
      rfl
    case isFalse => rfl
  have hfallback : orText d.filename (orText d.display_filename d.document_id) = d.fallbackRef := by
    unfold orText Document.fallbackRef
    by_cases hname : d.filename = ""
    · by_cases hdisplay : d.display_filename = ""
      · simp [hname, hdisplay]
      · simp [hname, hdisplay]
    · simp [hname]
  have hobject : orText d.object_ref d.fallbackRef = d.object_ref := by
    unfold orText
    split
    case isTrue hblank => rw [hd.object hblank, hblank]
    case isFalse => rfl
  refine ⟨{ d with metadata := m }, ?_, rfl, hsame⟩
  unfold DocumentRow.document Document.row DocumentRow.of
  rw [hm, Option.map_some, hversion, hfallback, hobject]

/-- A row is read as its chunk. -/
theorem row_chunk (hcodec : codec.Faithful env) {c : Chunk} (hc : codec.Encodes c.metadata) :
    ∃ c', (c.row codec).chunk codec = some c' ∧ c.Agrees env c' := by
  obtain ⟨m, hm, hsame⟩ := hcodec c.metadata hc
  refine ⟨{ c with metadata := m }, ?_, rfl, hsame⟩
  unfold ChunkRow.chunk Chunk.row ChunkRow.of
  rw [hm, Option.map_some]

end Rows

/-! ## Calls on the tables -/

/-- The transaction of a call. -/
def DocumentCall.transaction (env : Env) (codec : Codec) (current_timestamp : String) :
    DocumentCall → SqliteTx Unit
  | upsert created_now published_now document =>
    Sqlite.upsertDocument env codec current_timestamp created_now published_now document
  | setStatus _ _ published_now document_id status =>
    Sqlite.setDocumentStatus published_now document_id status
  | delete document_id => do
    let _ ← Sqlite.deleteDocument document_id
  | replaceChunks document_id chunks => Sqlite.replaceDocumentChunks codec document_id chunks
  | restore now snapshot chunks => Sqlite.restoreDeletedDocument env codec now snapshot chunks

/-- A call on the tables: its result, and the tables that it leaves. -/
def DocumentCall.execTables (env : Env) (codec : Codec) (current_timestamp : String)
    (c : DocumentCall) (t : Tables) : Except SqliteError Unit × Tables :=
  Tx.commit (c.transaction env codec current_timestamp) t

/-- The chunks are in the order of their indices, with the ids that these give them, and their
metadata has a text. -/
structure PlainChunks (codec : Codec) (chunks : List Chunk) : Prop where
  encodes : ∀ c ∈ chunks, codec.Encodes c.metadata
  ids : ∀ c ∈ chunks, c.chunk_id = chunkIdForDocument c.document_id c.chunk_index
  ordered : chunks.Pairwise fun a b => a.chunk_index ≤ b.chunk_index

/-- The tables hold the rows of the shelf. -/
structure Matches (codec : Codec) (h : Shelf) (t : Tables) : Prop where
  documents : ∀ id, t.documents.lookup id = (h.document id).map (Document.row codec)
  readable : ∀ id d, h.document id = some d → d.Readable codec
  chunks : ∀ id, t.chunks.filter (fun row => row.document_id == id) = (h.chunks id).map (Chunk.row codec)
  plain : ∀ id, PlainChunks codec (h.chunks id)

/-- A call is one that the stores are compared on: it does not restore a document, and its documents
and chunks are plain. -/
def DocumentCall.Plain (codec : Codec) : DocumentCall → Prop
  | upsert _ _ document => codec.Encodes document.metadata
  | replaceChunks _ chunks => PlainChunks codec chunks
  | restore .. => False
  | _ => True

/-- The two stores do the same in a call that is accepted. A document in the place of another one has
its time of creation, and its time of publication if it has none; it has a reference, if there is a
name for it. A status is given to a document whose version is filled already. Chunks have different
ids, and numbers that fit their columns. -/
def DocumentCall.Alike (env : Env) (h : Shelf) : DocumentCall → Prop
  | upsert created_now published_now document =>
    let d := (document.upserted created_now published_now).2
    document.UpsertAccepted env created_now published_now (h.document document.document_id) →
    (∀ e, h.document document.document_id = some e → e.status ≠ .deleted) →
    (d.object_ref = "" → d.fallbackRef = "") ∧
    ∀ e, h.document document.document_id = some e →
      d.created_at = e.created_at ∧ (d.published_at = none → e.published_at = none)
  | setStatus _ _ _ id status => StatusAccepted (h.document id) status →
    ∀ e, h.document id = some e →
      strip e.ingestion_version = e.ingestion_version ∨ strip e.ingestion_version = ""
  | replaceChunks id chunks => ChunksAccepted (h.document id) chunks →
    (chunks.map Chunk.chunk_id).Nodup ∧ ∀ c ∈ chunks, fitsColumns c = true
  | _ => True

section Steps

variable {env : Env} {codec : Codec} {h : Shelf} {t : Tables}

variable {t' : Tables} {created_now published_now : Timestamp} {document e d : Document} {s : Store} {id : String}
  {chunks : List Chunk}

variable {x : SqliteTx Unit} {current_timestamp : String} {now : Timestamp} {status : DocumentStatus}

/-- A transaction that returns. -/
theorem commit_of_ok (hx : x t = .ok ((), t')) :
    Tx.commit x t = (.ok (), t') := by
  unfold Tx.commit
  rw [hx]

/-- A transaction that does not return raises, and leaves the tables. -/
theorem commit_of_not_ok (hx : ∀ t', x t ≠ .ok ((), t')) :
    ∃ e, Tx.commit x t = (.error e, t) := by
  unfold Tx.commit
  cases hr : x t with
  | error e => exact ⟨e, rfl⟩
  | ok p => exact absurd hr (hx p.2)

/-- A check of the store that did not raise. -/
theorem raiseStoreIf_ok {c : Bool} {e : StoreError} {u : Unit} :
    raiseStoreIf c e t = .ok (u, t') ↔ c = false ∧ t = t' :=
  Tx.raiseIf_ok

/-- A computation of the store that did not raise. -/
theorem liftStore_ok {α : Type} {x : Except StoreError α} {a : α} :
    liftStore x t = .ok (a, t') ↔ x = .ok a ∧ t = t' := by
  unfold liftStore
  rw [Tx.lift_ok]
  cases x with
  | error e => simp [Except.mapError]
  | ok b => simp [Except.mapError]

/-- When `upsert_document` returns, and what it leaves. -/
theorem Sqlite.upsertDocument_ok :
    Sqlite.upsertDocument env codec current_timestamp created_now published_now document t =
        .ok ((), t') ↔
      document.status.unknown? = none ∧ (document.upserted created_now published_now).1 = .ok () ∧
      (∀ row, t.documents.lookup document.document_id = some row →
        row.tenant_id = document.tenant_id ∧ row.workspace_id = document.workspace_id ∧
          row.collection_id = document.collection_id ∧
        (row.status = .deleted → document.status = .deleted)) ∧
      if (t.documents.lookup document.document_id).any fun row => row.status == .deleted then
        (∃ d, requireUnchangedTombstone env created_now
          ((t.documents.lookup document.document_id).bind (DocumentRow.document codec))
          (document.upserted created_now published_now).2 = .ok d) ∧ t' = t
      else ∃ text, codec.encode document.metadata = .ok text ∧
        t' = { t with
          documents := t.documents.insert document.document_id
            ((DocumentRow.of (document.upserted created_now published_now).2 text).inserted
              current_timestamp (t.documents.lookup document.document_id)) } := by
  obtain ⟨created, published, version, object, hleft⟩ :=
    materializeLineage_keeps created_now published_now (document.status == .published) document
  unfold Sqlite.upsertDocument Document.upserted
  generalize materializeLineage created_now published_now (document.status == .published) document =
    left at hleft ⊢
  obtain ⟨raised, d⟩ := left
  simp only at hleft
  subst hleft
  simp only [Tx.bind_ok, raiseStoreIf_ok, liftStore_ok, Tx.get_ok]
  constructor
  · rintro ⟨_, _, ⟨hknown, rfl⟩, _, _, ⟨hok, rfl⟩, _, _, ⟨rfl, rfl⟩, _, _, ⟨hscope, rfl⟩, _, _,
      ⟨htransition, rfl⟩, hwrite⟩
    refine ⟨by simpa using hknown, hok, ?_, ?_⟩
    · intro row hrow
      rw [hrow] at hscope htransition
      simp only [Option.any_some, Bool.or_eq_false_iff, bne_eq_false_iff_eq] at hscope
      refine ⟨hscope.1.1, hscope.1.2, hscope.2, fun hdeleted => ?_⟩
      simpa [hdeleted] using htransition
    · split at hwrite
      case isTrue hdeleted =>
        rw [if_pos hdeleted]
        obtain ⟨d, _, hlift, hpure⟩ := Tx.bind_ok.mp hwrite
        obtain ⟨hd, rfl⟩ := liftStore_ok.mp hlift
        exact ⟨⟨d, hd⟩, (Tx.pure_ok.mp hpure).2.symm⟩
      case isFalse hdeleted =>
        rw [if_neg hdeleted]
        obtain ⟨text, _, hlift, hset⟩ := Tx.bind_ok.mp hwrite
        obtain ⟨htext, rfl⟩ := liftStore_ok.mp hlift
        exact ⟨text, htext, (Tx.set_ok.mp hset).symm⟩
  · rintro ⟨hknown, hok, hprevious, hwrite⟩
    refine ⟨(), t, ⟨by simpa using hknown, rfl⟩, (), t, ⟨hok, rfl⟩, t, t, ⟨rfl, rfl⟩, (), t,
      ⟨?_, rfl⟩, (), t, ⟨?_, rfl⟩, ?_⟩
    · cases hrow : t.documents.lookup document.document_id with
      | none => rfl
      | some row =>
        obtain ⟨htenant, hworkspace, hcollection, -⟩ := hprevious row hrow
        simp [htenant, hworkspace, hcollection]
    · cases hrow : t.documents.lookup document.document_id with
      | none => rfl
      | some row =>
        have hdeleted := (hprevious row hrow).2.2.2
        by_cases hstatus : row.status = .deleted
        · simp [hstatus, hdeleted hstatus]
        · simp [hstatus]
    · split
      case isTrue hdeleted =>
        rw [if_pos hdeleted] at hwrite
        obtain ⟨⟨d, hd⟩, rfl⟩ := hwrite
        exact Tx.bind_ok.mpr ⟨d, _, liftStore_ok.mpr ⟨hd, rfl⟩, rfl⟩
      case isFalse hdeleted =>
        rw [if_neg hdeleted] at hwrite
        obtain ⟨text, htext, rfl⟩ := hwrite
        exact Tx.bind_ok.mpr ⟨text, _, liftStore_ok.mpr ⟨htext, rfl⟩, rfl⟩

/-- When a document is accepted for that of a tombstone. -/
theorem requireUnchangedTombstone_some :
    (∃ x, requireUnchangedTombstone env now (some e) d = .ok x) ↔
      e.status = .deleted ∧ d.status.unknown? = none ∧
      (materializeLineage now now false d).1 = .ok () ∧
      e.sameButStatus env (tombstoneCandidate e d (materializeLineage now now false d).2) = true := by
  simp only [requireUnchangedTombstone, except_bind_ok, raiseFirst_ok, List.mem_singleton, forall_eq,
    Bool.or_eq_false_iff, bne_eq_false_iff_eq, pure, Except.pure, Except.ok.injEq]
  constructor
  · rintro ⟨_, _, ⟨hdeleted, hknown⟩, ⟨⟩, hlineage, _, hsame, -⟩
    exact ⟨hdeleted, by simpa using hknown, hlineage, by simpa using hsame⟩
  · rintro ⟨hdeleted, hknown, hlineage, hsame⟩
    exact ⟨_, (), ⟨hdeleted, by simpa using hknown⟩, (), hlineage, (), by simpa using hsame, rfl⟩

/-- Documents that agree are the same tombstone. -/
theorem requireUnchangedTombstone_agrees (henv : env.Equates) {e' : Document} (h : e.Agrees env e') :
    (∃ x, requireUnchangedTombstone env now (some e) d = .ok x) ↔
      ∃ x, requireUnchangedTombstone env now (some e') d = .ok x := by
  obtain ⟨hfields, hsame⟩ := h
  generalize e'.metadata = m at hfields hsame
  subst hfields
  have hmetadata : ∀ v, env.same (.obj e.metadata) v = env.same (.obj m) v := by
    intro v
    rw [Bool.eq_iff_iff]
    exact ⟨fun h => henv.trans _ _ _ (henv.symm _ _ hsame) h, fun h => henv.trans _ _ _ hsame h⟩
  rw [requireUnchangedTombstone_some, requireUnchangedTombstone_some]
  have hcandidate : ∀ c, tombstoneCandidate { e with metadata := m } d c = tombstoneCandidate e d c :=
    fun c => rfl
  rw [hcandidate]
  unfold Document.sameButStatus
  rw [hmetadata]

/-- The row of a document in the place of another one. -/
theorem merge_row (hcreated : d.created_at = e.created_at)
    (hpublished : d.published_at = none → e.published_at = none)
    (hstatus : d.status = .published → d.published_at ≠ none) :
    (e.row codec).merge (d.row codec) current_timestamp = d.row codec := by
  unfold DocumentRow.merge Document.row DocumentRow.of
  simp only
  rw [← hcreated]
  congr 1
  cases hd : d.published_at with
  | none =>
    rw [if_neg fun h => hstatus h hd, hpublished hd]
    rfl
  | some p =>
    split
    · rfl
    · rfl

/-- A published document has a time of publication. -/
theorem upserted_published (hlineage : (document.upserted created_now published_now).1 = .ok ())
    (hstatus : (document.upserted created_now published_now).2.status = .published) :
    (document.upserted created_now published_now).2.published_at ≠ none := by
  have hdocument : document.status = .published :=
    (materializeLineage_scope created_now published_now (document.status == .published)
      document).2.2.symm.trans hstatus
  unfold Document.upserted at hlineage ⊢
  rw [hdocument] at hlineage ⊢
  unfold materializeLineage at hlineage ⊢
  cases hcreated : timestampText document.created_at with
  | error e =>
    rw [hcreated] at hlineage
    cases hlineage
  | ok created =>
    rw [hcreated] at hlineage
    cases hpublished : timestampText document.published_at with
    | error e =>
      simp only [hpublished] at hlineage
      cases hlineage
    | ok published =>
      simp only [hpublished]
      cases published with
      | none => simp
      | some p => simp

/-- A document that is stored is stored in both. -/
theorem Matches.store (hm : Matches codec h t) (hd : d.Readable codec) :
    Matches codec (h.store d)
      { t with documents := t.documents.insert d.document_id (d.row codec) } := by
  refine ⟨fun id => ?_, fun id e he => ?_, hm.chunks, hm.plain⟩
  · rw [lookup_insert_cases]
    by_cases hid : id = d.document_id
    · rw [if_pos hid, h.store_document hid.symm]
      rfl
    · rw [if_neg hid, h.store_document_of_ne hid]
      exact hm.documents id
  · by_cases hid : id = d.document_id
    · rw [h.store_document hid.symm] at he
      cases he
      exact hd
    · rw [h.store_document_of_ne hid] at he
      exact hm.readable id e he

/-- `upsert_document` returns in both stores or in neither, and the tables hold the rows. -/
theorem upsertDocument_matches (hcodec : codec.Faithful env) (henv : env.Equates) (hs : s.shelf.Kept)
    (hm : Matches codec s.shelf t) (current_timestamp : String)
    (hplain : (DocumentCall.upsert created_now published_now document).Plain codec)
    (halike : (DocumentCall.upsert created_now published_now document).Alike env s.shelf) :
    Proc.Holds (upsertDocument env created_now published_now document) s fun r s' =>
      (r = .ok () ↔ (Tx.commit (Sqlite.upsertDocument env codec current_timestamp created_now
        published_now document) t).1 = .ok ()) ∧
      Matches codec s'.shelf (Tx.commit (Sqlite.upsertDocument env codec current_timestamp created_now
        published_now document) t).2 ∧ s'.publications = s.publications := by
  have hrow := hm.documents document.document_id
  -- The row of a tombstone is read as the tombstone.
  have htombstone : ∀ e, s.shelf.document document.document_id = some e →
      ((∃ x, requireUnchangedTombstone env created_now (some e)
        (document.upserted created_now published_now).2 = .ok x) ↔
      ∃ x, requireUnchangedTombstone env created_now
        ((t.documents.lookup document.document_id).bind (DocumentRow.document codec))
        (document.upserted created_now published_now).2 = .ok x) := by
    intro e he
    obtain ⟨e', he', hagrees⟩ := row_document hcodec (hs.filed _ e he).2 (hm.readable _ e he)
    rw [hrow, he, Option.map_some, Option.bind_some, he']
    exact requireUnchangedTombstone_agrees henv hagrees
  refine (upsertDocument_result hs created_now published_now document).imp ?_
  rintro r s' ⟨hpublications, ⟨x, rfl, hs', hrefused⟩ | ⟨rfl, haccepted, hs'⟩⟩
  · have hraises : ∀ t', Sqlite.upsertDocument env codec current_timestamp created_now published_now
        document t ≠ .ok ((), t') := by
      intro t' hok
      obtain ⟨hknown, hlineage, hprevious, hwrite⟩ := Sqlite.upsertDocument_ok.mp hok
      refine hrefused ⟨hknown, hlineage, fun e he => ?_⟩
      have he' : t.documents.lookup document.document_id = some (e.row codec) := by
        rw [hrow, show s.shelf.document document.document_id = some e from he]
        rfl
      obtain ⟨htenant, hworkspace, hcollection, hdeleted⟩ := hprevious _ he'
      refine ⟨?_, fun hedeleted => ⟨hdeleted hedeleted, ?_⟩⟩
      · simp only [Document.sameScope, Bool.and_eq_true, beq_iff_eq]
        exact ⟨⟨htenant, hworkspace⟩, hcollection⟩
      · rw [if_pos (by rw [he', Option.any_some]; exact beq_iff_eq.mpr hedeleted)] at hwrite
        exact (htombstone e he).mpr hwrite.1
    obtain ⟨y, hy⟩ := commit_of_not_ok hraises
    rw [hy, hs']
    exact ⟨by simp, hm, hpublications⟩
  · have hany : (t.documents.lookup document.document_id).any (fun row => row.status == .deleted) =
        (s.documents.lookup document.document_id).any fun e => e.status == .deleted := by
      rw [hrow]
      show Option.any _ ((s.documents.lookup document.document_id).map (Document.row codec)) = _
      rw [Option.any_map]
      rfl
    obtain ⟨hknown, hlineage, hexisting⟩ := haccepted
    have hprevious : ∀ row, t.documents.lookup document.document_id = some row →
        row.tenant_id = document.tenant_id ∧ row.workspace_id = document.workspace_id ∧
          row.collection_id = document.collection_id ∧
        (row.status = .deleted → document.status = .deleted) := by
      intro row hrow'
      rw [hrow] at hrow'
      obtain ⟨e, he, rfl⟩ := Option.map_eq_some_iff.mp hrow'
      obtain ⟨hscope, hdeleted⟩ := hexisting e he
      simp only [Document.sameScope, Bool.and_eq_true, beq_iff_eq] at hscope
      exact ⟨hscope.1.1, hscope.1.2, hscope.2, fun h => (hdeleted h).1⟩
    by_cases hdeleted : (s.documents.lookup document.document_id).any (fun e => e.status == .deleted) = true
    · obtain ⟨e, he, hedeleted⟩ := (Option.any_eq_true _ _).mp hdeleted
      have hok : Sqlite.upsertDocument env codec current_timestamp created_now published_now document t =
          .ok ((), t) := by
        refine Sqlite.upsertDocument_ok.mpr ⟨hknown, hlineage, hprevious, ?_⟩
        rw [hany, if_pos hdeleted]
        exact ⟨(htombstone e he).mp ((hexisting e he).2 (beq_iff_eq.mp hedeleted)).2, rfl⟩
      rw [commit_of_ok hok, hs', if_pos hdeleted]
      exact ⟨by simp, hm, hpublications⟩
    · have hnot : ∀ e, s.shelf.document document.document_id = some e → e.status ≠ .deleted := by
        intro e he hedeleted
        exact hdeleted ((Option.any_eq_true _ _).mpr ⟨e, he, beq_iff_eq.mpr hedeleted⟩)
      obtain ⟨hobject, hlike⟩ := halike ⟨hknown, hlineage, hexisting⟩ hnot
      have hid := (materializeLineage_scope created_now published_now
        (document.status == .published) document).1
      have hmetadata : (document.upserted created_now published_now).2.metadata =
          document.metadata := by
        obtain ⟨_, _, _, _, hkeeps⟩ := materializeLineage_keeps created_now published_now
          (document.status == .published) document
        unfold Document.upserted
        rw [hkeeps]
      have hpublished : (document.upserted created_now published_now).2.status = .published →
          (document.upserted created_now published_now).2.published_at ≠ none :=
        upserted_published hlineage
      have hok : Sqlite.upsertDocument env codec current_timestamp created_now published_now document t =
          .ok ((), { t with
            documents := t.documents.insert (document.upserted created_now published_now).2.document_id
              ((document.upserted created_now published_now).2.row codec) }) := by
        refine Sqlite.upsertDocument_ok.mpr ⟨hknown, hlineage, hprevious, ?_⟩
        rw [hany, if_neg hdeleted]
        refine ⟨codec.text document.metadata, hplain, ?_⟩
        rw [show (document.upserted created_now published_now).2.document_id = document.document_id
          from hid]
        congr 2
        have hrow' : DocumentRow.of (document.upserted created_now published_now).2
            (codec.text document.metadata) = (document.upserted created_now published_now).2.row
              codec := by
          unfold Document.row
          rw [hmetadata]
        rw [hrow', hrow]
        cases he : s.shelf.document document.document_id with
        | none => rfl
        | some e => exact (merge_row (hlike e he).1 (hlike e he).2 hpublished).symm
      have hreadable : (document.upserted created_now published_now).2.Readable codec := by
        refine ⟨?_, hobject⟩
        rw [hmetadata]
        exact hplain
      rw [commit_of_ok hok, hs', if_neg hdeleted]
      exact ⟨by simp, hm.store hreadable, hpublications⟩

/-- When `set_document_status` returns, and what it leaves. -/
theorem Sqlite.setDocumentStatus_ok :
    Sqlite.setDocumentStatus published_now id status t = .ok ((), t') ↔
      status.unknown? = none ∧ ∃ row, t.documents.lookup id = some row ∧
        (row.status = .deleted → status = .deleted) ∧
        t' = { t with
          documents := t.documents.insert id { row with
            status
            published_at := if status = DocumentStatus.published then
              row.published_at <|> some published_now.1 else row.published_at } } := by
  unfold Sqlite.setDocumentStatus
  simp only [Tx.bind_ok, raiseStoreIf_ok, Tx.get_ok]
  constructor
  · rintro ⟨_, _, ⟨hknown, rfl⟩, _, _, ⟨rfl, rfl⟩, hmatch⟩
    cases hrow : t.documents.lookup id with
    | none =>
      rw [hrow] at hmatch
      cases Tx.raise_ok.mp hmatch
    | some row =>
      simp only [hrow, Tx.bind_ok, raiseStoreIf_ok, Tx.set_ok] at hmatch
      obtain ⟨_, _, ⟨hdeleted, rfl⟩, hset⟩ := hmatch
      refine ⟨by simpa using hknown, row, rfl, fun hstatus => ?_, hset.symm⟩
      simpa [hstatus] using hdeleted
  · rintro ⟨hknown, row, hrow, hdeleted, rfl⟩
    refine ⟨(), t, ⟨by simpa using hknown, rfl⟩, t, t, ⟨rfl, rfl⟩, ?_⟩
    simp only [hrow, Tx.bind_ok, raiseStoreIf_ok, Tx.set_ok]
    refine ⟨(), t, ⟨?_, rfl⟩, trivial⟩
    by_cases hstatus : row.status = .deleted
    · simp [hstatus, hdeleted hstatus]
    · simp [hstatus]

/-- `set_document_status` returns in both stores or in neither, and the tables hold the rows. -/
theorem setDocumentStatus_matches (hs : s.shelf.Kept) (hnone : s.publications = ∅) (hm : Matches codec s.shelf t)
    {clock : JobKey → Instant}
    (halike : (DocumentCall.setStatus clock created_now published_now id status).Alike env s.shelf) :
    Proc.Holds (setDocumentStatus env clock created_now published_now id status) s fun r s' =>
      (r = .ok () ↔ (Tx.commit (Sqlite.setDocumentStatus published_now id status) t).1 = .ok ()) ∧
      Matches codec s'.shelf (Tx.commit (Sqlite.setDocumentStatus published_now id status) t).2 ∧
      s'.publications = ∅ := by
  have hrow := hm.documents id
  refine (setDocumentStatus_result hs clock created_now published_now id status).imp ?_
  rintro r s' ⟨hpublications, ⟨x, rfl, hs', hrefused⟩ | ⟨rfl, haccepted, hs'⟩⟩
  · have hraises : ∀ t', Sqlite.setDocumentStatus published_now id status t ≠ .ok ((), t') := by
      intro t' hok
      obtain ⟨hknown, row, hrow', hdeleted, -⟩ := Sqlite.setDocumentStatus_ok.mp hok
      rw [hrow] at hrow'
      obtain ⟨e, he, rfl⟩ := Option.map_eq_some_iff.mp hrow'
      exact hrefused hnone ⟨hknown, e, he, hdeleted⟩
    obtain ⟨y, hy⟩ := commit_of_not_ok hraises
    rw [hy, hs']
    exact ⟨by simp, hm, hpublications hnone⟩
  · obtain ⟨hknown, e, he, hdeleted⟩ := haccepted
    obtain ⟨hid, hfiled⟩ := hs.filed id e he
    subst hid
    have hversion := halike ⟨hknown, e, he, hdeleted⟩ e he
    have hreadable := hm.readable _ e he
    have hrestated : (e.restated created_now published_now status).2 = { e with
        status
        published_at := if status = DocumentStatus.published then
          e.published_at <|> some published_now.1 else e.published_at } := by
      unfold Document.restated
      rw [materializeLineage_of_filed (hfiled.withStatus status),
        filled_version (hfiled.withStatus status) hversion]
      by_cases hpublished : status = .published
      · subst hpublished
        cases hp : e.published_at with
        | none => rfl
        | some p => rfl
      · simp [hpublished]
    have hok : Sqlite.setDocumentStatus published_now e.document_id status t = .ok ((), { t with
        documents := t.documents.insert (e.restated created_now published_now status).2.document_id
          ((e.restated created_now published_now status).2.row codec) }) := by
      refine Sqlite.setDocumentStatus_ok.mpr ⟨hknown, e.row codec, ?_, hdeleted, ?_⟩
      · rw [hrow, show s.shelf.document e.document_id = some e from he]
        rfl
      · rw [hrestated]
        rfl
    rw [commit_of_ok hok, hs' e he]
    refine ⟨by simp, hm.store ?_, hpublications hnone⟩
    rw [hrestated]
    exact ⟨hreadable.encodes, hreadable.object⟩

/-- The rows of a document are removed. -/
theorem filter_other_rows (rows : List ChunkRow) (id id' : String) :
    (rows.filter fun row => row.document_id != id).filter (fun row => row.document_id == id') =
      if id' = id then [] else rows.filter fun row => row.document_id == id' := by
  rw [List.filter_filter]
  split
  case isTrue hid =>
    subst hid
    refine List.filter_eq_nil_iff.mpr fun row _ => ?_
    simp
  case isFalse hid =>
    refine List.filter_congr fun row _ => ?_
    by_cases hrow : row.document_id = id'
    · simp [hrow, hid]
    · simp [hrow]

/-- Chunks that are kept are kept in both. -/
theorem Matches.keep (hm : Matches codec h t) (id : String) (hplain : PlainChunks codec chunks)
    (hof : ∀ c ∈ chunks, c.document_id = id) :
    Matches codec (h.keep id chunks)
      { t with chunks := t.chunks.filter (fun row => row.document_id != id) ++
        chunks.map (Chunk.row codec) } := by
  refine ⟨hm.documents, hm.readable, fun id' => ?_, fun id' => ?_⟩
  · rw [List.filter_append, filter_other_rows]
    by_cases hid : id' = id
    · subst hid
      rw [if_pos rfl, List.nil_append, show (h.keep id' chunks).chunks id' = chunks from
        Function.update_self ..]
      refine List.filter_eq_self.mpr fun row hrow => ?_
      obtain ⟨c, hc, rfl⟩ := List.mem_map.mp hrow
      exact beq_iff_eq.mpr (hof c hc)
    · rw [if_neg hid, show (h.keep id chunks).chunks id' = h.chunks id' from
        Function.update_of_ne hid .., ← hm.chunks id']
      have hothers : (chunks.map (Chunk.row codec)).filter (fun row => row.document_id == id') = [] := by
        refine List.filter_eq_nil_iff.mpr fun row hrow => ?_
        obtain ⟨c, hc, rfl⟩ := List.mem_map.mp hrow
        have hother : (c.row codec).document_id ≠ id' := fun h => hid (h.symm.trans (hof c hc))
        simpa using hother
      rw [hothers, List.append_nil]
  · by_cases hid : id' = id
    · subst hid
      rw [show (h.keep id' chunks).chunks id' = chunks from Function.update_self ..]
      exact hplain
    · rw [show (h.keep id chunks).chunks id' = h.chunks id' from Function.update_of_ne hid ..]
      exact hm.plain id'

/-- `delete_document` returns in both stores, and the tables hold the rows. -/
theorem deleteDocument_matches (hs : s.shelf.Kept) (hm : Matches codec s.shelf t) (id : String) :
    Proc.Holds (do let _ ← deleteDocument id) s fun r s' =>
      r = .ok () ∧ (Tx.commit (do let _ ← Sqlite.deleteDocument id) t).1 = .ok () ∧
      Matches codec s'.shelf (Tx.commit (do let _ ← Sqlite.deleteDocument id) t).2 ∧
      s'.publications = s.publications := by
  refine (deleteDocument_result hs id).imp ?_
  rintro r s' ⟨rfl, hpublications, hnone, hsome⟩
  have hplain : PlainChunks codec [] := ⟨by simp, by simp, List.Pairwise.nil⟩
  have hrow := hm.documents id
  have hrun : (do let _ ← Sqlite.deleteDocument id : SqliteTx Unit) t = .ok ((),
      { t.setStatus id .deleted with
        chunks := t.chunks.filter fun row => row.document_id != id }) := rfl
  rw [commit_of_ok hrun]
  refine ⟨rfl, rfl, ?_, hpublications⟩
  cases he : s.documents.lookup id with
  | none =>
    rw [hnone he]
    have hkeep := hm.keep id hplain (by simp)
    rw [Shelf.keep_of_none hs he, List.map_nil, List.append_nil] at hkeep
    unfold Tables.setStatus
    rw [hrow, show s.shelf.document id = none from he]
    exact hkeep
  | some e =>
    have hid := (hs.filed id e he).1
    subst hid
    have hreadable := hm.readable _ e he
    have hstore := hm.store (d := { e with status := .deleted }) ⟨hreadable.encodes, hreadable.object⟩
    have hkeep := hstore.keep e.document_id hplain (by simp)
    rw [List.map_nil, List.append_nil] at hkeep
    rw [hsome e he]
    unfold Tables.setStatus
    rw [hrow, show s.shelf.document e.document_id = some e from he]
    exact hkeep

/-- The chunks of a document are inserted. If it returns, they are of the document; and it returns if
they are plain, with numbers that fit and ids that are not there. -/
theorem insertChunks_ok :
    (∀ t', chunks.forM (insertChunk codec d.document_id d.tenant_id) t = .ok ((), t') →
      ChunksOf d chunks) ∧
    (ChunksOf d chunks → (∀ c ∈ chunks, codec.Encodes c.metadata) →
      (∀ c ∈ chunks, fitsColumns c = true) → (chunks.map Chunk.chunk_id).Nodup →
      (∀ c ∈ chunks, ∀ row ∈ t.chunks, row.chunk_id ≠ c.chunk_id) →
      chunks.forM (insertChunk codec d.document_id d.tenant_id) t =
        .ok ((), { t with chunks := t.chunks ++ chunks.map (Chunk.row codec) })) := by
  have hcheck : ∀ c : Chunk, c.check d.document_id d.tenant_id = .ok () ↔
      c.document_id = d.document_id ∧ c.tenant_id = d.tenant_id := by
    intro c
    simp [Chunk.check, raiseFirst_ok]
  induction chunks generalizing t with
  | nil =>
    refine ⟨fun t' _ c hc => absurd hc List.not_mem_nil, fun _ _ _ _ _ => ?_⟩
    rw [List.map_nil, List.append_nil]
    rfl
  | cons c chunks ih =>
    have hcons : (c :: chunks).forM (insertChunk codec d.document_id d.tenant_id) =
        (insertChunk codec d.document_id d.tenant_id c >>= fun _ =>
          chunks.forM (insertChunk codec d.document_id d.tenant_id)) := rfl
    rw [hcons]
    constructor
    · intro t' hok
      obtain ⟨_, t₁, hfirst, hrest⟩ := Tx.bind_ok.mp hok
      unfold insertChunk at hfirst
      obtain ⟨_, _, hlift, -⟩ := Tx.bind_ok.mp hfirst
      have hc := (hcheck c).mp (liftStore_ok.mp hlift).1
      intro c' hc'
      rcases List.mem_cons.mp hc' with rfl | hmem
      · exact hc
      · exact ih.1 t' hrest c' hmem
    · intro hof hencodes hfits hids hfree
      have hfirst : insertChunk codec d.document_id d.tenant_id c t =
          .ok ((), { t with chunks := t.chunks ++ [c.row codec] }) := by
        unfold insertChunk
        simp only [Tx.bind_ok, liftStore_ok, Tx.raiseIf_ok, Tx.get_ok, Tx.set_ok]
        refine ⟨(), t, ⟨(hcheck c).mpr (hof c List.mem_cons_self), rfl⟩, codec.text c.metadata, t,
          ⟨hencodes c List.mem_cons_self, rfl⟩, (), t, ⟨?_, rfl⟩, t, t, ⟨rfl, rfl⟩, (), t, ⟨?_, rfl⟩, rfl⟩
        · rw [hfits c List.mem_cons_self]
          rfl
        · rw [List.any_eq_false]
          intro row hrow
          simpa using hfree c List.mem_cons_self row hrow
      rw [Tx.bind_of_ok hfirst]
      rw [List.map_cons, List.nodup_cons] at hids
      rw [ih.2 (fun c' hc' => hof c' (List.mem_cons_of_mem _ hc'))
        (fun c' hc' => hencodes c' (List.mem_cons_of_mem _ hc'))
        (fun c' hc' => hfits c' (List.mem_cons_of_mem _ hc')) hids.2 ?_]
      · rw [List.map_cons, List.append_assoc]
        rfl
      · intro c' hc' row hrow
        rcases List.mem_append.mp hrow with hold | hnew
        · exact hfree c' (List.mem_cons_of_mem _ hc') row hold
        · rw [List.mem_singleton.mp hnew]
          intro hsame
          refine hids.1 ?_
          rw [show c.chunk_id = c'.chunk_id from hsame]
          exact List.mem_map_of_mem hc'

/-- When `replace_document_chunks` returns, and what it leaves. -/
theorem Sqlite.replaceDocumentChunks_ok :
    Sqlite.replaceDocumentChunks codec id chunks t = .ok ((), t') ↔
      ∃ row, t.documents.lookup id = some row ∧ (row.status = .deleted → chunks = []) ∧
        chunks.forM (insertChunk codec id row.tenant_id)
          { t with chunks := t.chunks.filter fun row => row.document_id != id } = .ok ((), t') := by
  unfold Sqlite.replaceDocumentChunks
  simp only [Tx.bind_ok, Tx.get_ok]
  constructor
  · rintro ⟨_, _, ⟨rfl, rfl⟩, hmatch⟩
    cases hrow : t.documents.lookup id with
    | none =>
      rw [hrow] at hmatch
      cases Tx.raise_ok.mp hmatch
    | some row =>
      simp only [hrow, Tx.bind_ok, raiseStoreIf_ok, Tx.set_ok] at hmatch
      obtain ⟨_, _, ⟨hdeleted, rfl⟩, _, _, rfl, hinsert⟩ := hmatch
      refine ⟨row, rfl, fun hstatus => ?_, hinsert⟩
      simpa [hstatus] using hdeleted
  · rintro ⟨row, hrow, hdeleted, hinsert⟩
    refine ⟨t, t, ⟨rfl, rfl⟩, ?_⟩
    simp only [hrow, Tx.bind_ok, raiseStoreIf_ok, Tx.set_ok]
    refine ⟨(), t, ⟨?_, rfl⟩, ⟨⟩, _, rfl, hinsert⟩
    by_cases hstatus : row.status = .deleted
    · simp [hdeleted hstatus]
    · simp [hstatus]

/-- The ids of chunks of other documents are other ids. -/
theorem chunk_id_free (hm : Matches codec h t) {c : Chunk}
    (hc : c.chunk_id = chunkIdForDocument c.document_id c.chunk_index) (hid : c.document_id = id) {row : ChunkRow}
    (hrow : row ∈ t.chunks.filter fun row => row.document_id != id) :
    row.chunk_id ≠ c.chunk_id := by
  obtain ⟨hmem, hother⟩ := List.mem_filter.mp hrow
  have hrows : row ∈ (h.chunks row.document_id).map (Chunk.row codec) := by
    rw [← hm.chunks row.document_id]
    exact List.mem_filter.mpr ⟨hmem, by simp⟩
  obtain ⟨c', hc', hrow'⟩ := List.mem_map.mp hrows
  intro hsame
  have hids : chunkIdForDocument c'.document_id c'.chunk_index =
      chunkIdForDocument c.document_id c.chunk_index := by
    rw [← (hm.plain _).ids c' hc', ← hc, ← hsame, ← hrow']
    rfl
  have hdocument : row.document_id = c'.document_id := by
    rw [← hrow']
    rfl
  rw [bne_iff_ne] at hother
  exact hother (hdocument.trans ((chunkIdForDocument_inj hids).trans hid))

/-- `replace_document_chunks` returns in both stores or in neither, and the tables hold the rows. -/
theorem replaceDocumentChunks_matches (hs : s.shelf.Kept) (hm : Matches codec s.shelf t)
    (hplain : PlainChunks codec chunks) (halike : (DocumentCall.replaceChunks id chunks).Alike env s.shelf) :
    Proc.Holds (replaceDocumentChunks id chunks) s fun r s' =>
      (r = .ok () ↔ (Tx.commit (Sqlite.replaceDocumentChunks codec id chunks) t).1 = .ok ()) ∧
      Matches codec s'.shelf (Tx.commit (Sqlite.replaceDocumentChunks codec id chunks) t).2 ∧
      s'.publications = s.publications := by
  have hrow := hm.documents id
  refine (replaceDocumentChunks_result hs id chunks).imp ?_
  rintro r s' (⟨x, rfl, rfl, hrefused⟩ | ⟨rfl, haccepted, hs', hpublications⟩)
  · have hraises : ∀ t', Sqlite.replaceDocumentChunks codec id chunks t ≠ .ok ((), t') := by
      intro t' hok
      obtain ⟨row, hrow', hdeleted, hinsert⟩ := Sqlite.replaceDocumentChunks_ok.mp hok
      rw [hrow] at hrow'
      obtain ⟨e, he, rfl⟩ := Option.map_eq_some_iff.mp hrow'
      rw [← (hs.filed id e he).1] at hinsert
      exact hrefused ⟨e, he, hdeleted, insertChunks_ok.1 t' hinsert⟩
    obtain ⟨y, hy⟩ := commit_of_not_ok hraises
    rw [hy]
    exact ⟨by simp, hm, rfl⟩
  · obtain ⟨hids, hfits⟩ := halike haccepted
    obtain ⟨e, he, hdeleted, hof⟩ := haccepted
    have hid := (hs.filed id e he).1
    subst hid
    have hok : Sqlite.replaceDocumentChunks codec e.document_id chunks t = .ok ((), { t with
        chunks := t.chunks.filter (fun row => row.document_id != e.document_id) ++
          chunks.map (Chunk.row codec) }) := by
      refine Sqlite.replaceDocumentChunks_ok.mpr ⟨e.row codec, ?_, hdeleted, ?_⟩
      · rw [hrow, show s.shelf.document e.document_id = some e from he]
        rfl
      · exact insertChunks_ok.2 hof hplain.encodes hfits hids fun c hc row hrow =>
          chunk_id_free hm (hplain.ids c hc) (hof c hc).1 hrow
    rw [commit_of_ok hok, hs']
    exact ⟨by simp, hm.keep _ hplain fun c hc => (hof c hc).1, hpublications⟩

/-- A call returns in both stores or in neither, and the tables hold the rows. -/
theorem DocumentCall.matches_step (hcodec : codec.Faithful env) (henv : env.Equates) (hs : s.shelf.Kept)
    (hnone : s.publications = ∅) (hm : Matches codec s.shelf t) (current_timestamp : String) {c : DocumentCall}
    (hplain : c.Plain codec) (halike : c.Alike env s.shelf) :
    ((c.exec env s).1 = .ok () ↔ (c.execTables env codec current_timestamp t).1 = .ok ()) ∧
      Matches codec (c.exec env s).2.shelf (c.execTables env codec current_timestamp t).2 ∧
      (c.exec env s).2.publications = ∅ := by
  cases c with
  | upsert created_now published_now document =>
    obtain ⟨hok, hm', hpublications⟩ :=
      upsertDocument_matches hcodec henv hs hm current_timestamp hplain halike
    exact ⟨hok, hm', hpublications.trans hnone⟩
  | setStatus clock created_now published_now id status =>
    exact setDocumentStatus_matches hs hnone hm halike
  | delete id =>
    obtain ⟨hok, hok', hm', hpublications⟩ := deleteDocument_matches hs hm id
    exact ⟨⟨fun _ => hok', fun _ => hok⟩, hm', hpublications.trans hnone⟩
  | replaceChunks id chunks =>
    obtain ⟨hok, hm', hpublications⟩ := replaceDocumentChunks_matches hs hm hplain halike
    exact ⟨hok, hm', hpublications.trans hnone⟩
  | restore => exact hplain.elim

end Steps

/-! ## Reads -/

/-- Both calls raise, or both return and the results are related. -/
def AgreeResults {ε ε' α β : Type} (R : α → β → Prop) : Except ε α → Except ε' β → Prop
  | .ok a, .ok b => R a b
  | .error _, .error _ => True
  | _, _ => False

section Reads

variable {env : Env} {codec : Codec} {s : Store} {t : Tables}

/-- What is read of a list, if every element is read as one that is related to it. -/
theorem forall₂_filterMap {α β γ : Type} {R : α → β → Prop} {f : α → γ} {g : γ → Option β}
    {l : List α} (h : ∀ a ∈ l, ∃ b, g (f a) = some b ∧ R a b) :
    List.Forall₂ R l ((l.map f).filterMap g) := by
  induction l with
  | nil => exact .nil
  | cons a l ih =>
    obtain ⟨b, hb, hR⟩ := h a List.mem_cons_self
    rw [List.map_cons, List.filterMap_cons_some hb]
    exact .cons hR (ih fun a' ha' => h a' (List.mem_cons_of_mem _ ha'))

/-- The chunks of a document agree. -/
theorem getChunks_agree (hcodec : codec.Faithful env) (hs : s.shelf.Kept)
    (hm : Matches codec s.shelf t) (id : String) :
    List.Forall₂ (Chunk.Agrees env) (s.getChunks id) (t.getChunks codec id) := by
  have hplain := hm.plain id
  have hdocument : ∀ c ∈ s.getChunks id, c.document_id = id := by
    intro c hc
    obtain ⟨d, hd, hof⟩ := hs.chunks id (List.ne_nil_of_mem hc)
    exact (hof c hc).1.trans (hs.filed id d hd).1
  have hordered : ((s.getChunks id).map (Chunk.row codec)).Pairwise fun a b => a.before b = true := by
    rw [List.pairwise_map]
    refine hplain.ordered.imp_of_mem fun {a b} ha hb hab => ?_
    refine decide_eq_true ?_
    rcases Int.lt_or_eq_of_le hab with hlt | heq
    · exact .inl hlt
    · refine .inr ⟨heq, le_of_eq ?_⟩
      show a.chunk_id = b.chunk_id
      rw [hplain.ids a ha, hplain.ids b hb, hdocument a ha, hdocument b hb, heq]
  unfold Tables.getChunks
  rw [hm.chunks id, show s.shelf.chunks id = s.getChunks id from rfl,
    List.mergeSort_of_pairwise hordered]
  exact forall₂_filterMap fun c hc => row_chunk hcodec (hplain.encodes c hc)

/-- A document that is read agrees with its row. -/
theorem getDocument_agrees (hcodec : codec.Faithful env) (hs : s.shelf.Kept)
    (hm : Matches codec s.shelf t) (id : String) (tenant_id workspace_id : Option String) :
    ∃ d, (Proc.exec (getDocument id tenant_id workspace_id) s).1 = .ok d ∧
      Option.Rel (Document.Agrees env) d (t.getDocument codec id tenant_id workspace_id) := by
  refine ⟨_, (getDocument_shelf hs id tenant_id workspace_id).1, ?_⟩
  unfold Tables.getDocument
  rw [hm.documents id]
  cases he : s.documents.lookup id with
  | none =>
    rw [show s.shelf.document id = none from he]
    exact .none
  | some e =>
    obtain ⟨e', he', hagrees⟩ := row_document hcodec (hs.filed id e he).2 (hm.readable id e he)
    rw [show s.shelf.document id = some e from he, Option.filter_some]
    show Option.Rel _ _ (if (tenant_id.all (· == e.tenant_id) &&
      workspace_id.all (· == e.workspace_id)) = true then _ else _)
    split
    · rw [he']
      exact .some hagrees
    · exact .none

/-- The rows are those of the documents. -/
theorem rows_perm (hm : Matches codec s.shelf t) :
    (t.documents.entries.map Sigma.snd).Perm
      ((s.documents.entries.map Sigma.snd).map (Document.row codec)) := by
  let rowEntry : (Σ _ : String, Document) → Σ _ : String, DocumentRow :=
    Sigma.map id fun _ => Document.row codec
  have hentries : t.documents.entries.Perm (s.documents.entries.map rowEntry) := by
    refine List.lookup_ext t.documents.nodupKeys ?_ fun id row => ?_
    · have hkeys : (s.documents.entries.map rowEntry).keys = s.documents.entries.keys := by
        unfold List.keys
        rw [List.map_map]
        rfl
      show List.Nodup _
      rw [hkeys]
      exact s.documents.nodupKeys
    · have hrow := hm.documents id
      unfold AList.lookup at hrow
      rw [hrow]
      show _ ↔ row ∈ (s.documents.entries.map rowEntry).dlookup id
      rw [List.dlookup_map₂]
      rfl
  have hvalues := hentries.map Sigma.snd
  rw [List.map_map] at hvalues ⊢
  exact hvalues

/-- The documents of a query before its limit. -/
def Store.found (q : DocumentQuery) (s : Store) : List Document :=
  let documents := sortedById ((s.documents.entries.map Sigma.snd).filter fun d =>
    q.selects d && d.status != .deleted && decide (d.document_id ∉ s.tombstones))
  match q.after_document_id with
  | none => documents
  | some after => documents.filter fun d => decide (after < d.document_id)

/-- A document that is there is under its id, and has a tombstone exactly if it is deleted. -/
theorem mem_documents (hs : s.shelf.Kept) {d : Document} (hd : d ∈ s.documents.entries.map Sigma.snd) :
    s.documents.lookup d.document_id = some d ∧
      (d.document_id ∈ s.tombstones ↔ d.status = .deleted) := by
  obtain ⟨⟨id, d'⟩, hmem, rfl⟩ := List.mem_map.mp hd
  have hlookup := mem_entries.mp hmem
  have hid := (hs.filed id d' hlookup).1
  subst hid
  refine ⟨hlookup, (hs.tombstones _).trans ⟨?_, fun hdeleted => ⟨d', hlookup, hdeleted⟩⟩⟩
  rintro ⟨d, hd, hdeleted⟩
  cases hlookup.symm.trans hd
  exact hdeleted

/-- The documents of a query are those whose rows are selected. -/
theorem found_perm (codec : Codec) (hs : s.shelf.Kept) (q : DocumentQuery) :
    (s.found q).Perm ((s.documents.entries.map Sigma.snd).filter fun d => selectsRow q (d.row codec)) := by
  have hselects : ∀ d ∈ s.documents.entries.map Sigma.snd,
      (q.selects d && d.status != .deleted && decide (d.document_id ∉ s.tombstones) &&
        q.after_document_id.all fun after => decide (after < d.document_id)) =
          selectsRow q (d.row codec) := by
    intro d hd
    have htombstone := (mem_documents hs hd).2
    have hdecide : decide (d.document_id ∉ s.tombstones) = (d.status != .deleted) := by
      rw [Bool.eq_iff_iff, decide_eq_true_eq, bne_iff_ne]
      exact not_congr htombstone
    have hand : ∀ workspace tenant collection allowed status live after : Bool,
        (workspace && tenant && collection && allowed && status && live && live && after) =
          (workspace && live && tenant && collection && status && allowed && after) := by decide
    rw [hdecide]
    exact hand _ _ _ _ _ _ _
  have hsorted : (sortedById ((s.documents.entries.map Sigma.snd).filter fun d =>
      q.selects d && d.status != .deleted && decide (d.document_id ∉ s.tombstones))).Perm
        ((s.documents.entries.map Sigma.snd).filter fun d =>
          q.selects d && d.status != .deleted && decide (d.document_id ∉ s.tombstones)) :=
    List.mergeSort_perm ..
  unfold Store.found
  cases hafter : q.after_document_id with
  | none =>
    refine hsorted.trans (.of_eq (List.filter_congr fun d hd => ?_))
    rw [← hselects d hd, hafter, Option.all_none, Bool.and_true]
  | some after =>
    refine (hsorted.filter _).trans (.of_eq ?_)
    rw [List.filter_filter]
    refine List.filter_congr fun d hd => ?_
    rw [← hselects d hd, hafter, Option.all_some, Bool.and_comm]

/-- The documents of a query are in the order of their ids. -/
theorem found_sorted (q : DocumentQuery) (s : Store) :
    (s.found q).Pairwise fun a b => a.document_id ≤ b.document_id := by
  have hsorted : ∀ documents, (sortedById documents).Pairwise
      fun a b => a.document_id ≤ b.document_id := by
    intro documents
    have hpairwise := @List.pairwise_mergeSort Document (fun a b =>
      decide (a.document_id ≤ b.document_id))
      (fun a b c hab hbc => decide_eq_true (le_trans (of_decide_eq_true hab) (of_decide_eq_true hbc)))
      (fun a b => by
        simpa only [Bool.or_eq_true, decide_eq_true_eq] using le_total a.document_id b.document_id)
      documents
    exact hpairwise.imp of_decide_eq_true
  unfold Store.found
  cases q.after_document_id with
  | none => exact hsorted _
  | some after => exact (hsorted _).filter _

/-- The rows of a query are those of its documents. -/
theorem rows_eq_found (hs : s.shelf.Kept) (hm : Matches codec s.shelf t) (q : DocumentQuery) :
    ((t.documents.entries.map Sigma.snd).filter (selectsRow q)).mergeSort
      (fun a b => decide (a.document_id ≤ b.document_id)) = (s.found q).map (Document.row codec) := by
  have hperm : (((t.documents.entries.map Sigma.snd).filter (selectsRow q)).mergeSort
      (fun a b => decide (a.document_id ≤ b.document_id))).Perm
        ((s.found q).map (Document.row codec)) := by
    refine (List.mergeSort_perm ..).trans (((rows_perm hm).filter _).trans ?_)
    rw [List.filter_map]
    exact ((found_perm codec hs q).map _).symm
  have hmem : ∀ row ∈ (s.found q).map (Document.row codec), ∃ d, row = d.row codec ∧
      s.documents.lookup row.document_id = some d := by
    intro row hrow
    obtain ⟨d, hd, rfl⟩ := List.mem_map.mp hrow
    exact ⟨d, rfl, (mem_documents hs (List.mem_of_mem_filter
      ((found_perm codec hs q).mem_iff.mp hd))).1⟩
  refine @List.Perm.eq_of_pairwise DocumentRow (fun a b => a.document_id ≤ b.document_id) _ _ ?_ ?_ ?_ hperm
  · intro a b ha hb hab hba
    obtain ⟨d, rfl, hd⟩ := hmem a (hperm.mem_iff.mp ha)
    obtain ⟨e, rfl, he⟩ := hmem b hb
    rw [le_antisymm hab hba] at hd
    cases hd.symm.trans he
    rfl
  · have hpairwise := @List.pairwise_mergeSort DocumentRow (fun a b =>
      decide (a.document_id ≤ b.document_id))
      (fun a b c hab hbc => decide_eq_true (le_trans (of_decide_eq_true hab) (of_decide_eq_true hbc)))
      (fun a b => by
        simpa only [Bool.or_eq_true, decide_eq_true_eq] using le_total a.document_id b.document_id)
      ((t.documents.entries.map Sigma.snd).filter (selectsRow q))
    exact hpairwise.imp of_decide_eq_true
  · rw [List.pairwise_map]
    exact found_sorted q s

/-- The lists of documents agree, if the limit fits a column. -/
theorem listDocuments_agree (hcodec : codec.Faithful env) (hs : s.shelf.Kept)
    (hm : Matches codec s.shelf t) {q : DocumentQuery} (hlimit : q.limit.all fitsInteger = true) :
    AgreeResults (List.Forall₂ (Document.Agrees env)) (listDocuments q s)
      (t.listDocuments codec q) := by
  have hrows := rows_eq_found hs hm q
  have hread : ∀ d ∈ s.found q, ∃ d', (d.row codec).document codec = some d' ∧ d.Agrees env d' := by
    intro d hd
    have hlookup := (mem_documents hs (List.mem_of_mem_filter
      ((found_perm codec hs q).mem_iff.mp hd))).1
    exact row_document hcodec (hs.filed _ d hlookup).2 (hm.readable _ d hlookup)
  have hlist : listDocuments q s = (do
      raiseFirst [(strip q.tenant_id == "", .value "tenant_id is required")]
      paged none q.limit (s.found q)) := rfl
  have hempty : (q.statuses == some [] || q.allowed_collection_ids == some []) = true →
      s.found q = [] := by
    intro hnothing
    refine List.eq_nil_iff_forall_not_mem.mpr fun d hd => ?_
    have hselected := (List.mem_filter.mp ((found_perm codec hs q).mem_iff.mp hd)).2
    unfold selectsRow at hselected
    rw [Bool.or_eq_true, beq_iff_eq, beq_iff_eq] at hnothing
    rcases hnothing with hnothing | hnothing
    · rw [hnothing] at hselected
      simp at hselected
    · rw [hnothing] at hselected
      simp at hselected
  rw [hlist]
  unfold Tables.listDocuments
  rw [hrows]
  cases htenant : strip q.tenant_id == "" with
  | true => exact trivial
  | false =>
    cases hearly : q.statuses == some [] || q.allowed_collection_ids == some [] with
    | true =>
      rw [hempty hearly]
      cases hq : q.limit with
      | none => exact .nil
      | some limit =>
        cases hnegative : decide (limit < 0) with
        | true =>
          simp only [paged, Option.any_some, hnegative]
          exact trivial
        | false =>
          simp only [paged, Option.any_some, hnegative, List.take_nil]
          exact .nil
    | false =>
      cases hq : q.limit with
      | none => exact forall₂_filterMap hread
      | some limit =>
        cases hnegative : decide (limit < 0) with
        | true =>
          simp only [paged, Option.any_some, hnegative]
          exact trivial
        | false =>
          rw [hq, Option.all_some] at hlimit
          simp only [paged, Option.any_some, hnegative, ← List.map_take, hlimit]
          exact forall₂_filterMap fun d hd => hread d (List.mem_of_mem_take hd)

end Reads

/-! ## Runs -/

/-- The two stores after a call on both. -/
def AlikeStep (env : Env) (codec : Codec) (a b : Store × Tables) : Prop :=
  ∃ c : DocumentCall, ∃ current_timestamp, c.Plain codec ∧ c.Alike env a.1.shelf ∧
    b = ((c.exec env a.1).2, (c.execTables env codec current_timestamp a.2).2)

section Runs

variable {env : Env} {codec : Codec}

/-- Nothing is in either of two stores without records. -/
theorem matches_empty : Matches codec Store.empty.shelf Tables.empty := by
  refine ⟨fun id => rfl, fun id d hd => ?_, fun id => rfl, fun id => ?_⟩
  · cases hd
  · exact ⟨fun c hc => absurd hc List.not_mem_nil, fun c hc => absurd hc List.not_mem_nil, .nil⟩

/-- The tables hold the rows of the store in every run. -/
theorem run_matches (hcodec : codec.Faithful env) (henv : env.Equates) {a : Store × Tables}
    (h : Relation.ReflTransGen (AlikeStep env codec) (Store.empty, Tables.empty) a) :
    a.1.shelf.Kept ∧ a.1.publications = ∅ ∧ Matches codec a.1.shelf a.2 := by
  refine run_invariant (I := fun a : Store × Tables =>
    a.1.shelf.Kept ∧ a.1.publications = ∅ ∧ Matches codec a.1.shelf a.2) ?_
    ⟨kept_empty.1, rfl, matches_empty⟩ h
  rintro ⟨s, t⟩ b ⟨hs, hnone, hm⟩ ⟨c, current_timestamp, hplain, halike, rfl⟩
  obtain ⟨-, hm', hnone'⟩ := DocumentCall.matches_step hcodec henv hs hnone hm current_timestamp
    hplain halike
  exact ⟨c.kept hs, hnone', hm'⟩

end Runs

/-- **The stores agree.** In every run of document operations on an empty store in memory and on empty
tables, whose calls are alike: the next call raises in both or in neither, and the documents, the
lists of documents and the chunks that are read from the two agree. -/
theorem stores_agree (env : Env) (henv : env.Equates) (codec : Codec) (hcodec : codec.Faithful env)
    (s : Store) (t : Tables)
    (hrun : Relation.ReflTransGen (AlikeStep env codec) (Store.empty, Tables.empty) (s, t)) :
    (∀ (c : DocumentCall) current_timestamp, c.Plain codec → c.Alike env s.shelf →
      ((c.exec env s).1 = .ok () ↔ (c.execTables env codec current_timestamp t).1 = .ok ())) ∧
    (∀ id tenant_id workspace_id, ∃ d,
      (Proc.exec (getDocument id tenant_id workspace_id) s).1 = .ok d ∧
      Option.Rel (Document.Agrees env) d (t.getDocument codec id tenant_id workspace_id)) ∧
    (∀ q : DocumentQuery, q.limit.all fitsInteger = true →
      AgreeResults (List.Forall₂ (Document.Agrees env)) (listDocuments q s)
        (t.listDocuments codec q)) ∧
    ∀ id, List.Forall₂ (Chunk.Agrees env) (s.getChunks id) (t.getChunks codec id) := by
  obtain ⟨hs, hnone, hm⟩ := run_matches hcodec henv hrun
  refine ⟨fun c current_timestamp hplain halike => ?_, fun id tenant_id workspace_id => ?_,
    fun q hlimit => ?_, fun id => ?_⟩
  · exact (DocumentCall.matches_step hcodec henv hs hnone hm current_timestamp hplain halike).1
  · exact getDocument_agrees hcodec hs hm id tenant_id workspace_id
  · exact listDocuments_agree hcodec hs hm hlimit
  · exact getChunks_agree hcodec hs hm id

/-! ## A document that is stored again -/

/-- The object without members. -/
def emptyObject : Json → Bool
  | .obj [] => true
  | _ => false

/-- An environment in which texts and objects without members are compared. -/
def smallEnv : Env := { textEnv with
  same := fun a b => emptyObject a && emptyObject b || textEnv.same a b }

/-- Equality of texts and of objects without members. -/
theorem smallEnv_equates : smallEnv.Equates := by
  have htext : ∀ v w, emptyObject v = true → textEnv.same v w = false := by
    intro v w hv
    unfold emptyObject at hv
    split at hv
    · rfl
    · cases hv
  have hsymm : ∀ a b, smallEnv.same a b = true → smallEnv.same b a = true := by
    intro a b hab
    simp only [smallEnv, Bool.or_eq_true, Bool.and_eq_true] at hab ⊢
    exact hab.imp And.symm (textEnv_equates.symm a b)
  refine ⟨fun a b c hab hbc => ?_, hsymm, fun v old h => ?_⟩
  · simp only [smallEnv, Bool.or_eq_true, Bool.and_eq_true] at hab hbc ⊢
    rcases hab with ⟨ha, hb⟩ | hab
    · rcases hbc with ⟨-, hc⟩ | hbc
      · exact .inl ⟨ha, hc⟩
      · cases (htext b c hb).symm.trans hbc
    · rcases hbc with ⟨hb, -⟩ | hbc
      · cases (htext b a hb).symm.trans (textEnv_equates.symm a b hab)
      · exact .inr (textEnv_equates.trans a b c hab hbc)
  · simp only [smallEnv, Bool.or_eq_true, Bool.and_eq_true] at h
    rcases h with ⟨-, hold⟩ | h
    · cases hold
    · have hlist : textEnv.same (.arr old) v = false := rfl
      cases hlist.symm.trans (textEnv_equates.symm v _ h)

/-- The texts of objects without members. -/
def smallCodec : Codec where
  encode m := if m.isEmpty then .ok "\x7b\x7d" else .error (.value "metadata must be finite JSON")
  decode text := if text = "\x7b\x7d" then some [] else none

/-- The text of an object without members is read as one. -/
theorem smallCodec_faithful : smallCodec.Faithful smallEnv := by
  intro m hm
  cases m with
  | nil => exact ⟨[], rfl, rfl⟩
  | cons x m => cases hm

/-- The document of a guide at its creation. -/
def firstUpsert : DocumentCall := .upsert noon noon guide

/-- The document again, with another time of creation. -/
def secondUpsert : DocumentCall :=
  .upsert noon noon { guide with created_at := some "2026-02-01T00:00:00Z" }

/-- The tables with the document. -/
def shelvedTables : Tables := (firstUpsert.execTables smallEnv smallCodec "" Tables.empty).2

/-- The document is read from both stores. -/
theorem shelvedTables_agree : ∃ d,
    (Proc.exec (getDocument "document-1" none none) (firstUpsert.exec smallEnv Store.empty).2).1 =
      .ok d ∧
    Option.Rel (Document.Agrees smallEnv) d
      (shelvedTables.getDocument smallCodec "document-1" none none) := by
  have hstep : AlikeStep smallEnv smallCodec (Store.empty, Tables.empty)
      ((firstUpsert.exec smallEnv Store.empty).2, shelvedTables) := by
    refine ⟨firstUpsert, "", rfl, fun _ _ => ⟨?_, fun e he => ?_⟩, rfl⟩
    · have hobject : ((guide.upserted noon noon).2.object_ref == "") = false := by decide +kernel
      intro hblank
      simp [hblank] at hobject
    · cases he
  exact (stores_agree smallEnv smallEnv_equates smallCodec smallCodec_faithful _ _
    (.single hstep)).2.1 "document-1" none none

/-- **A second time of creation.** The document is stored again with another time of creation, which
replaces the first in memory and is dropped in the tables. -/
theorem creation_replaced :
    ((Proc.exec (getDocument "document-1" none none)
      (secondUpsert.exec smallEnv (firstUpsert.exec smallEnv Store.empty).2).2).1.toOption.bind
        fun d => d.bind Document.created_at) = some "2026-02-01T00:00:00Z" ∧
    ((secondUpsert.execTables smallEnv smallCodec "" shelvedTables).2.getDocument smallCodec
      "document-1" none none).bind Document.created_at = some "2026-01-01T00:00:00Z" := by
  decide +kernel

end RickIntelligence.Knowledge
