import RickIntelligence.Knowledge.Cancellation
import RickIntelligence.Knowledge.Documents

/-!
# Deleted documents

What the document operations in memory do to documents, chunks and tombstones (`Shelf`), and what
follows for documents that are deleted: they keep no chunks, are not listed, and stay as they are
until they are restored.

Only `delete_document` removes the chunks. A document that `set_document_status` or `upsert_document`
deletes keeps them, and `set_document_status` fills in the lineage of a document that was deleted
before. `deleted_stay_deleted` is about the runs in which neither matters (`Tidy`).
-/

namespace RickIntelligence.Knowledge

open Lib

/-! ## Lineage -/

/-- The lineage of a document as `materialize_lineage` leaves it. -/
structure Document.Filed (d : Document) : Prop where
  created : ∃ t, d.created_at = some t ∧ t ≠ "" ∧ strip t = t
  published : ∀ t, d.published_at = some t → t ≠ "" ∧ strip t = t
  object : d.objectRef = d.object_ref
  version : strip d.ingestion_version = "" → d.ingestion_version = d.document_version

section Lineage

variable {created_now published_now : Timestamp} {isPublished : Bool} {d d' : Document}

/-- What `_timestamp_text` makes of a text. -/
theorem timestampText_some (s : String) : timestampText (some s) = if strip s = "" then
    .error (.value "lineage timestamps must be non-empty strings or datetimes")
    else .ok (some (strip s)) := rfl

/-- The text of a timestamp is stripped and not empty. -/
theorem timestampText_ok {v v' : Option String} (h : timestampText v = .ok v') (t : String)
    (ht : v' = some t) : t ≠ "" ∧ strip t = t := by
  cases v with
  | none =>
    cases h
    cases ht
  | some s =>
    rw [timestampText_some] at h
    by_cases hblank : strip s = ""
    · rw [if_pos hblank] at h
      cases h
    · rw [if_neg hblank] at h
      cases h
      cases ht
      exact ⟨hblank, strip_strip s⟩

/-- A timestamp that is stripped stays. -/
theorem timestampText_stripped {t : String} (hne : t ≠ "") (hstrip : strip t = t) :
    timestampText (some t) = .ok (some t) := by
  rw [timestampText_some, hstrip, if_neg hne]

/-- A reference is stripped. -/
theorem strip_objectRef (d : Document) : strip d.objectRef = d.objectRef := by
  unfold Document.objectRef
  split
  · exact strip_strip _
  · split
    · split
      · exact strip_strip _
      · exact strip_strip _
    · exact strip_strip _

/-- The reference of a document that has its reference. -/
theorem objectRef_idem {d d' : Document} (hmetadata : d'.metadata = d.metadata)
    (hfallback : d'.fallbackRef = d.fallbackRef) (href : d'.object_ref = d.objectRef) :
    d'.objectRef = d'.object_ref := by
  rw [href]
  have hstrip := strip_objectRef d
  by_cases hblank : d.objectRef = ""
  · -- Nothing was given, and the reference is looked for in the same places.
    have hgiven : strip d.object_ref = "" := by
      by_contra hgiven
      have hvalue : d.objectRef = strip d.object_ref := by
        unfold Document.objectRef
        rw [if_pos (by simpa using hgiven)]
      exact hgiven (hvalue.symm.trans hblank)
    have hagain : strip d'.object_ref = "" := by
      rw [href, hstrip, hblank]
    unfold Document.objectRef
    rw [hagain, hgiven, hmetadata, hfallback]
  · have hgiven : (strip d'.object_ref != "") = true := by
      rw [href, hstrip]
      simpa using hblank
    show (if (strip d'.object_ref != "") = true then strip d'.object_ref else _) = _
    rw [if_pos hgiven, href, hstrip]

/-- A lineage that could be filled is filed. -/
theorem materializeLineage_filed (h : (materializeLineage created_now published_now isPublished d).1 =
      .ok ()) : (materializeLineage created_now published_now isPublished d).2.Filed := by
  unfold materializeLineage at h ⊢
  cases hcreated : timestampText d.created_at with
  | error e =>
    rw [hcreated] at h
    cases h
  | ok created =>
    rw [hcreated] at h
    cases hpublished : timestampText d.published_at with
    | error e =>
      simp only [hpublished] at h
      cases h
    | ok published =>
      simp only [hpublished]
      refine ⟨?_, ?_, ?_, ?_⟩
      · cases created with
        | none => exact ⟨created_now.1, rfl, created_now.2⟩
        | some t => exact ⟨t, rfl, timestampText_ok hcreated t rfl⟩
      · intro t ht
        by_cases hnow : (isPublished && published.isNone) = true
        · simp only [hnow, if_true, Option.some.injEq] at ht
          subst ht
          exact published_now.2
        · simp only [hnow, Bool.false_eq_true, if_false] at ht
          exact timestampText_ok hpublished t ht
      · exact objectRef_idem (d := d) rfl rfl rfl
      · intro hblank
        by_cases hversion : strip d.ingestion_version = ""
        · exact if_pos hversion
        · simp only [if_neg hversion, strip_strip] at hblank
          exact absurd hblank hversion

/-- What is done to a document that is filed. -/
theorem materializeLineage_of_filed (h : d.Filed) :
    materializeLineage created_now published_now isPublished d =
      (.ok (), { d with
        published_at := if isPublished && d.published_at.isNone then some published_now.1
          else d.published_at
        ingestion_version := if strip d.ingestion_version = "" then d.document_version
          else strip d.ingestion_version }) := by
  obtain ⟨⟨t, hcreated, hne, hstrip⟩, hpublished, hobject, -⟩ := h
  have hpublished' : timestampText d.published_at = .ok d.published_at := by
    cases hp : d.published_at with
    | none => rfl
    | some p => exact timestampText_stripped (hpublished p hp).1 (hpublished p hp).2
  have hobject' : Document.objectRef { d with created_at := some t } = d.object_ref := hobject
  unfold materializeLineage
  rw [hcreated, timestampText_stripped hne hstrip]
  simp only [Option.getD_some, hpublished', hobject']

/-- A version that is stripped or blank stays as it is. -/
theorem filled_version (h : d.Filed)
    (hversion : strip d.ingestion_version = d.ingestion_version ∨ strip d.ingestion_version = "") :
    (if strip d.ingestion_version = "" then d.document_version else strip d.ingestion_version) =
      d.ingestion_version := by
  by_cases hblank : strip d.ingestion_version = ""
  · rw [if_pos hblank, h.version hblank]
  · rw [if_neg hblank, hversion.resolve_right hblank]

/-- A filed document whose version is stripped or blank stays as it is. -/
theorem materializeLineage_eq_self (h : d.Filed)
    (hversion : strip d.ingestion_version = d.ingestion_version ∨ strip d.ingestion_version = "") :
    materializeLineage created_now published_now false d = (.ok (), d) := by
  rw [materializeLineage_of_filed h, filled_version h hversion, Bool.false_and, if_neg Bool.false_ne_true]

/-- The lineage is not what a document is about. -/
theorem materializeLineage_scope (created_now published_now : Timestamp) (isPublished : Bool)
    (d : Document) :
    (materializeLineage created_now published_now isPublished d).2.document_id = d.document_id ∧
      (materializeLineage created_now published_now isPublished d).2.tenant_id = d.tenant_id ∧
      (materializeLineage created_now published_now isPublished d).2.status = d.status := by
  unfold materializeLineage
  cases timestampText d.created_at with
  | error e => exact ⟨rfl, rfl, rfl⟩
  | ok created =>
    cases hpublished : timestampText d.published_at with
    | error e => simp only [hpublished, and_self]
    | ok published => simp only [hpublished, and_self]

end Lineage

/-! ## Documents, chunks and tombstones -/

/-- What a store holds of documents: the document and the chunks under each id, and the ids that have
a tombstone. -/
@[ext]
structure Shelf where
  document : String → Option Document
  chunks : String → List Chunk
  tombstones : Finset String

/-- The shelf of a store. -/
def Store.shelf (s : Store) : Shelf := ⟨fun id => s.documents.lookup id, s.getChunks, s.tombstones⟩

/-- A document under its id, with a tombstone exactly if it is deleted. -/
def Shelf.store (h : Shelf) (d : Document) : Shelf where
  document := Function.update h.document d.document_id (some d)
  chunks := h.chunks
  tombstones := if d.status = .deleted then insert d.document_id h.tombstones
    else h.tombstones.erase d.document_id

/-- Other chunks under an id. -/
def Shelf.keep (h : Shelf) (id : String) (chunks : List Chunk) : Shelf :=
  { h with chunks := Function.update h.chunks id chunks }

/-- The document that was stored. -/
theorem Shelf.store_document {d : Document} {id : String} (h : Shelf) (hid : d.document_id = id) :
    (h.store d).document id = some d := by
  subst hid
  exact Function.update_self ..

/-- The documents beside the one that was stored. -/
theorem Shelf.store_document_of_ne {d : Document} {id : String} (h : Shelf)
    (hid : id ≠ d.document_id) : (h.store d).document id = h.document id :=
  Function.update_of_ne hid ..

/-- The chunks are of the document. -/
def ChunksOf (d : Document) (chunks : List Chunk) : Prop :=
  ∀ c ∈ chunks, c.document_id = d.document_id ∧ c.tenant_id = d.tenant_id

/-- Documents are filed under their ids, the tombstones are those of the deleted documents, and chunks
are under the id of their document. -/
structure Shelf.Kept (h : Shelf) : Prop where
  filed : ∀ id d, h.document id = some d → d.document_id = id ∧ d.Filed
  tombstones : ∀ id, id ∈ h.tombstones ↔ ∃ d, h.document id = some d ∧ d.status = .deleted
  chunks : ∀ id, h.chunks id ≠ [] → ∃ d, h.document id = some d ∧ ChunksOf d (h.chunks id)

/-- A deleted document has no chunks. -/
def Shelf.Cleared (h : Shelf) : Prop :=
  ∀ id d, h.document id = some d → d.status = .deleted → h.chunks id = []

/-- A call of a document operation. -/
inductive DocumentCall where
  | upsert (created_now published_now : Timestamp) (document : Document)
  | setStatus (clock : JobKey → Instant) (created_now published_now : Timestamp)
      (document_id : String) (status : DocumentStatus)
  | delete (document_id : String)
  | replaceChunks (document_id : String) (chunks : List Chunk)
  | restore (now : Timestamp) (snapshot : Document) (chunks : List Chunk)

/-- The procedure of a call. -/
def DocumentCall.run (env : Env) : DocumentCall → StoreProc Unit
  | upsert created_now published_now document => upsertDocument env created_now published_now document
  | setStatus clock created_now published_now document_id status =>
    setDocumentStatus env clock created_now published_now document_id status
  | delete document_id => do
    let _ ← deleteDocument document_id
  | replaceChunks document_id chunks => replaceDocumentChunks document_id chunks
  | restore now snapshot chunks => restoreDeletedDocument env now snapshot chunks

/-- A call: its result, and the store that it leaves. -/
def DocumentCall.exec (env : Env) (c : DocumentCall) (s : Store) : Except StoreError Unit × Store :=
  Proc.exec (c.run env) s

/-- What a call may do to a shelf. -/
inductive DocumentCall.Effect (h : Shelf) : DocumentCall → Except StoreError Unit → Shelf → Prop
  | nothing (c : DocumentCall) (r : Except StoreError Unit) : Effect h c r h
  | upserts {created_now published_now : Timestamp} {document d : Document}
      (hid : d.document_id = document.document_id) (hstatus : d.status = document.status)
      (hfiled : d.Filed)
      (hscope : ∀ e, h.document document.document_id = some e → e.sameScope document = true)
      (hok : (materializeLineage created_now published_now (document.status == .published)
        document).1 = .ok ())
      (hold : ∀ e, h.document d.document_id = some e →
        e.tenant_id = d.tenant_id ∧ (e.status = .deleted → d = e)) :
      Effect h (.upsert created_now published_now document) (.ok ()) (h.store d)
  | sets {clock : JobKey → Instant} {created_now published_now : Timestamp} {id : String}
      {status : DocumentStatus} {e : Document} (he : h.document id = some e)
      (hdeleted : e.status = .deleted → status = .deleted)
      (hok : (materializeLineage created_now published_now (status == .published)
        { e with status }).1 = .ok ()) :
      Effect h (.setStatus clock created_now published_now id status) (.ok ())
        (h.store (materializeLineage created_now published_now (status == .published)
          { e with status }).2)
  | deletes {id : String} {e : Document} (he : h.document id = some e) :
      Effect h (.delete id) (.ok ()) ((h.store { e with status := .deleted }).keep id [])
  | replaces {id : String} {chunks : List Chunk} {e : Document} (he : h.document id = some e)
      (hdeleted : e.status = .deleted → chunks = []) (hchunks : ChunksOf e chunks) :
      Effect h (.replaceChunks id chunks) (.ok ()) (h.keep id chunks)
  | restores {now : Timestamp} {snapshot e : Document} {chunks : List Chunk}
      (he : h.document snapshot.document_id = some e) (hdeleted : e.status = .deleted)
      (hstatus : snapshot.status ≠ .deleted) (hchunks : ChunksOf e chunks) :
      Effect h (.restore now snapshot chunks) (.ok ())
        ((h.store { e with status := snapshot.status }).keep snapshot.document_id chunks)

section Effects

variable {env : Env} {s : Store}

/-- The shelf of a store with another document. -/
theorem shelf_document (s : Store) (d : Document) (tombstones : Finset String) :
    Store.shelf { s with documents := s.documents.insert d.document_id d, tombstones } =
      ⟨Function.update s.shelf.document d.document_id (some d), s.shelf.chunks, tombstones⟩ := by
  unfold Store.shelf Store.getChunks
  congr 1
  funext id
  rw [lookup_insert_cases]
  by_cases hid : id = d.document_id
  · rw [if_pos hid, hid, Function.update_self]
  · rw [if_neg hid, Function.update_of_ne hid]

/-- The shelf of a store with other chunks. -/
theorem shelf_chunks (s : Store) (id : String) (chunks : List Chunk) :
    Store.shelf { s with chunks := s.chunks.insert id chunks } = s.shelf.keep id chunks := by
  unfold Store.shelf Shelf.keep Store.getChunks
  congr 1
  funext id'
  show ((s.chunks.insert id chunks).lookup id').getD [] = _
  rw [lookup_insert_cases]
  by_cases hid : id' = id
  · rw [if_pos hid, hid, Function.update_self]
    rfl
  · rw [if_neg hid, Function.update_of_ne hid]

/-- A document is deleted if it has a tombstone or its status says so, which is the same. -/
theorem isDeleted_iff (hs : s.shelf.Kept) (id : String) :
    s.isDeleted id = true ↔ ∃ d, s.documents.lookup id = some d ∧ d.status = .deleted := by
  unfold Store.isDeleted
  rw [Bool.or_eq_true, decide_eq_true_eq]
  constructor
  · rintro (htombstone | hstatus)
    · exact (hs.tombstones id).mp htombstone
    · obtain ⟨d, hd, hdeleted⟩ := (Option.any_eq_true _ _).mp hstatus
      exact ⟨d, hd, by simpa using hdeleted⟩
  · rintro ⟨d, hd, hdeleted⟩
    exact .inl ((hs.tombstones id).mpr ⟨d, hd, hdeleted⟩)

variable {id : String} {d : Document} {h : Shelf}

/-- A document that is not deleted has no tombstone. -/
theorem erase_tombstone (hs : s.shelf.Kept) (h : s.isDeleted id ≠ true) :
    s.tombstones.erase id = s.tombstones := by
  refine Finset.erase_eq_of_notMem fun hmem => h ?_
  exact (isDeleted_iff hs id).mpr ((hs.tombstones id).mp hmem)

/-- A deleted document is compared with the one that is there, and kept. -/
theorem requireUnchangedTombstone_ok {now : Timestamp} {current : Option Document} {snapshot : Document}
    (h : requireUnchangedTombstone env now current snapshot = .ok d) :
    ∃ e, current = some e ∧ e.status = .deleted ∧ d = { e with status := snapshot.status } := by
  cases current with
  | none => cases h
  | some e =>
    simp only [requireUnchangedTombstone, except_bind_ok, raiseFirst_ok, List.mem_singleton,
      forall_eq, Bool.or_eq_false_iff, bne_eq_false_iff_eq, pure, Except.pure, Except.ok.injEq] at h
    obtain ⟨_, ⟨hdeleted, -⟩, _, -, _, -, hd⟩ := h
    exact ⟨e, rfl, hdeleted, hd.symm⟩

/-- The document that `upsert_document` stores. -/
def Document.upserted (created_now published_now : Timestamp) (document : Document) :
    Except StoreError Unit × Document :=
  materializeLineage created_now published_now (document.status == .published) document

/-- `upsert_document` accepts the document in the place of the one that is there. -/
def Document.UpsertAccepted (env : Env) (created_now published_now : Timestamp)
    (existing : Option Document) (document : Document) : Prop :=
  document.status.unknown? = none ∧ (document.upserted created_now published_now).1 = .ok () ∧
  ∀ e, existing = some e → e.sameScope document = true ∧ (e.status = .deleted →
    document.status = .deleted ∧ ∃ d, requireUnchangedTombstone env created_now (some e)
      (document.upserted created_now published_now).2 = .ok d)

variable {e : Document} {chunks : List Chunk}

/-- A deleted document that is stored again leaves the shelf. -/
theorem Shelf.store_deleted (hs : h.Kept) (he : h.document id = some e) (hdeleted : e.status = .deleted) :
    h.store e = h := by
  have hid := (hs.filed id e he).1
  subst hid
  unfold Shelf.store
  rw [if_pos hdeleted, ← he, Function.update_eq_self,
    Finset.insert_eq_of_mem ((hs.tombstones _).mpr ⟨e, he, hdeleted⟩)]

/-- The shelf of a store with a document that is deleted, or whose id is not that of a deleted one. -/
theorem putDocument_shelf (hs : s.shelf.Kept) (hd : d.status = .deleted ∨ s.isDeleted d.document_id ≠ true) :
    (s.putDocument d).shelf = s.shelf.store d := by
  unfold Store.putDocument Shelf.store
  rw [shelf_document]
  by_cases hstatus : d.status = .deleted
  · rw [if_pos hstatus, if_pos hstatus]
    rfl
  · rw [if_neg hstatus, if_neg hstatus]
    exact congrArg (Shelf.mk _ _) (erase_tombstone hs (hd.resolve_left hstatus)).symm

/-- What `upsert_document` does: it raises, or leaves the tombstone, or stores the document. -/
theorem upsertDocument_result (hs : s.shelf.Kept) (created_now published_now : Timestamp)
    (document : Document) :
    Proc.Holds (upsertDocument env created_now published_now document) s fun r s' =>
      s'.publications = s.publications ∧
      ((∃ x, r = .error x ∧ s'.shelf = s.shelf ∧ ¬ document.UpsertAccepted env created_now
        published_now (s.documents.lookup document.document_id)) ∨
      (r = .ok () ∧ document.UpsertAccepted env created_now published_now
        (s.documents.lookup document.document_id) ∧
        s'.shelf = if (s.documents.lookup document.document_id).any fun e => e.status == .deleted then
          s.shelf else s.shelf.store (document.upserted created_now published_now).2)) := by
  unfold upsertDocument
  refine Proc.holds_raiseIf_bind (fun hunknown => ⟨rfl, .inl ⟨_, rfl, rfl, fun h => ?_⟩⟩) fun hknown =>
    Proc.holds_get_bind ?_
  · rw [h.1] at hunknown
    cases hunknown
  refine Proc.holds_raiseIf_bind (fun hraised => ⟨rfl, .inl ⟨_, rfl, rfl, fun h => ?_⟩⟩)
    fun htransition => ?_
  · rw [Bool.and_eq_true, isDeleted_iff hs, bne_iff_ne] at hraised
    obtain ⟨⟨e, he, hdeleted⟩, hother⟩ := hraised
    exact hother ((h.2.2 e he).2 hdeleted).1
  refine Proc.holds_raiseIf_bind (fun hraised => ⟨rfl, .inl ⟨_, rfl, rfl, fun h => ?_⟩⟩)
    fun hscope => ?_
  · obtain ⟨e, he, hother⟩ := (Option.any_eq_true _ _).mp hraised
    rw [(h.2.2 e he).1] at hother
    cases hother
  refine Proc.holds_lift_bind (fun x hx => ⟨rfl, .inl ⟨_, rfl, rfl, fun h => ?_⟩⟩) fun _ hok => ?_
  · cases h.2.1.symm.trans hx
  have hknown' : document.status.unknown? = none := by simpa using hknown
  have hscope' : ∀ e, s.documents.lookup document.document_id = some e →
      e.sameScope document = true := by
    intro e he
    rw [he, Option.any_some, Bool.not_eq_false'] at hscope
    exact hscope
  have hkept : ∀ e, s.documents.lookup document.document_id = some e → e.status = .deleted →
      document.status = .deleted := by
    intro e he hdeleted
    rw [(isDeleted_iff hs document.document_id).mpr ⟨e, he, hdeleted⟩, Bool.true_and,
      bne_eq_false_iff_eq] at htransition
    exact htransition
  obtain ⟨hid, htenant, hstatus⟩ :=
    materializeLineage_scope created_now published_now (document.status == .published) document
  -- A store over a deleted document leaves it; any other is of a document that is not deleted.
  by_cases hdeleted : (s.documents.lookup document.document_id).any (fun e => e.status == .deleted) = true
  · obtain ⟨e, he, hedeleted⟩ := (Option.any_eq_true _ _).mp hdeleted
    rw [beq_iff_eq] at hedeleted
    rw [if_pos hdeleted]
    refine Proc.holds_lift_bind (fun x hx => ⟨rfl, .inl ⟨_, rfl, rfl, fun h => ?_⟩⟩) fun d hd =>
      Proc.holds_set ⟨rfl, .inr ⟨rfl, ⟨hknown', hok, fun e' he' => ⟨hscope' e' he', fun hdeleted' =>
        ⟨hkept e' he' hdeleted', d, he' ▸ hd⟩⟩⟩, ?_⟩⟩
    · obtain ⟨-, d, hd⟩ := (h.2.2 e he).2 hedeleted
      rw [← he] at hd
      cases hd.symm.trans hx
    obtain ⟨e', he', -, rfl⟩ := requireUnchangedTombstone_ok hd
    cases he.symm.trans he'
    have hself : ({ e with status := (materializeLineage created_now published_now
        (document.status == .published) document).2.status } : Document) = e := by
      rw [hstatus, hkept e he hedeleted, ← hedeleted]
    rw [hself, if_pos hdeleted, putDocument_shelf hs (.inl hedeleted)]
    exact Shelf.store_deleted hs he hedeleted
  · have hnot : ∀ e, s.documents.lookup document.document_id = some e → e.status ≠ .deleted := by
      intro e he hedeleted
      rw [he, Option.any_some, beq_iff_eq] at hdeleted
      exact hdeleted hedeleted
    rw [if_neg hdeleted]
    refine Proc.holds_lift_bind (fun x hx => by cases hx) fun d hd => Proc.holds_set ⟨rfl, .inr ⟨rfl,
      ⟨hknown', hok, fun e he => ⟨hscope' e he, fun hedeleted => absurd hedeleted (hnot e he)⟩⟩, ?_⟩⟩
    cases hd
    rw [if_neg hdeleted]
    refine putDocument_shelf hs (.inr fun his => ?_)
    rw [hid] at his
    obtain ⟨e, he, hedeleted⟩ := (isDeleted_iff hs _).mp his
    exact hnot e he hedeleted

/-- What `upsert_document` does to the shelf. -/
theorem upsertDocument_shelf (hs : s.shelf.Kept) (created_now published_now : Timestamp)
    (document : Document) :
    Proc.Holds (upsertDocument env created_now published_now document) s fun r s' =>
      DocumentCall.Effect s.shelf (.upsert created_now published_now document) r s'.shelf := by
  refine (upsertDocument_result hs created_now published_now document).imp ?_
  rintro r s' ⟨-, ⟨x, rfl, hs', -⟩ | ⟨rfl, ⟨-, hok, hexisting⟩, hs'⟩⟩
  · rw [hs']
    exact .nothing _ _
  obtain ⟨hid, htenant, hstatus⟩ :=
    materializeLineage_scope created_now published_now (document.status == .published) document
  rw [hs']
  split
  · exact .nothing _ _
  · rename_i hdeleted
    refine .upserts hid hstatus (materializeLineage_filed hok) (fun e he => (hexisting e he).1) hok ?_
    intro e he
    rw [show (document.upserted created_now published_now).2.document_id = document.document_id
      from hid] at he
    have hsame := (hexisting e he).1
    simp only [Document.sameScope, Bool.and_eq_true, beq_iff_eq] at hsame
    refine ⟨hsame.1.1.trans htenant.symm, fun hedeleted => absurd ?_ hdeleted⟩
    exact (Option.any_eq_true _ _).mpr ⟨e, he, by simpa using hedeleted⟩

/-- There are no chunks without a document. -/
theorem Shelf.keep_of_none (hs : h.Kept) (hid : h.document id = none) :
    h.keep id [] = h := by
  have hnone : h.chunks id = [] := by
    by_contra hsome
    obtain ⟨d, hd, -⟩ := hs.chunks id hsome
    cases hid.symm.trans hd
  unfold Shelf.keep
  rw [← hnone, Function.update_eq_self]

/-- What `delete_document` does: it never raises, and a document that is there loses its chunks. -/
theorem deleteDocument_result (hs : s.shelf.Kept) (id : String) :
    Proc.Holds (do let _ ← deleteDocument id) s fun r s' =>
      r = .ok () ∧ s'.publications = s.publications ∧
      (s.documents.lookup id = none → s'.shelf = s.shelf) ∧
      ∀ e, s.documents.lookup id = some e →
        s'.shelf = (s.shelf.store { e with status := .deleted }).keep id [] := by
  refine Proc.holds_bind ?_
  unfold deleteDocument
  refine Proc.holds_get_bind ?_
  have herase : ∀ documents tombstones,
      Store.shelf { s with documents, tombstones, chunks := s.chunks.erase id } =
        (Store.shelf { s with documents, tombstones }).keep id [] := by
    intro documents tombstones
    unfold Store.shelf Shelf.keep Store.getChunks
    congr 1
    funext id'
    show ((s.chunks.erase id).lookup id').getD [] = _
    by_cases hid : id' = id
    · rw [hid, AList.lookup_erase, Function.update_self]
      rfl
    · rw [AList.lookup_erase_ne hid, Function.update_of_ne hid]
  cases he : s.documents.lookup id with
  | none =>
    refine Proc.holds_set_bind (Proc.holds_pure ⟨rfl, rfl, fun _ => ?_, fun e he' => by cases he'⟩)
    show Store.shelf { s with chunks := s.chunks.erase id } = s.shelf
    rw [herase s.documents s.tombstones]
    exact Shelf.keep_of_none hs he
  | some e =>
    refine Proc.holds_set_bind (Proc.holds_pure ⟨rfl, rfl, fun he' => (by cases he'), ?_⟩)
    intro e' he'
    cases he'
    have hid := (hs.filed id e he).1
    subst hid
    have hshelf : Store.shelf { s with
        documents := s.documents.insert e.document_id { e with status := .deleted }
        tombstones := insert e.document_id s.tombstones } =
          s.shelf.store { e with status := .deleted } :=
      shelf_document s { e with status := .deleted } (insert e.document_id s.tombstones)
    show Store.shelf { s with
      chunks := s.chunks.erase e.document_id
      documents := s.documents.insert e.document_id { e with status := .deleted }
      tombstones := insert e.document_id s.tombstones } = _
    rw [herase, hshelf]

/-- What `delete_document` does to the shelf. -/
theorem deleteDocument_shelf (hs : s.shelf.Kept) (id : String) :
    Proc.Holds (do let _ ← deleteDocument id) s fun r s' =>
      DocumentCall.Effect s.shelf (.delete id) r s'.shelf := by
  refine (deleteDocument_result hs id).imp ?_
  rintro r s' ⟨rfl, -, hnone, hsome⟩
  cases he : s.documents.lookup id with
  | none =>
    rw [hnone he]
    exact .nothing _ _
  | some e =>
    rw [hsome e he]
    exact .deletes he

/-- A filed document has a lineage that can be filled. -/
theorem materializeLineage_ok {created_now published_now : Timestamp} {isPublished : Bool} (h : d.Filed) :
    (materializeLineage created_now published_now isPublished d).1 = .ok () := by
  rw [materializeLineage_of_filed h]

/-- A document with another status is filed. -/
theorem Document.Filed.withStatus (h : d.Filed) (status : DocumentStatus) :
    Document.Filed { d with status } :=
  ⟨h.created, h.published, h.object, h.version⟩

/-- The document that `set_document_status` leaves. -/
def Document.restated (created_now published_now : Timestamp) (status : DocumentStatus)
    (document : Document) : Except StoreError Unit × Document :=
  materializeLineage created_now published_now (status == .published) { document with status }

/-- `set_document_status` accepts the status. -/
def StatusAccepted (existing : Option Document) (status : DocumentStatus) : Prop :=
  status.unknown? = none ∧ ∃ e, existing = some e ∧ (e.status = .deleted → status = .deleted)

/-- What `set_document_status` does: it raises, or stores the document with the status. Without
receipts it raises only for the document and the status. -/
theorem setDocumentStatus_result (hs : s.shelf.Kept) (clock : JobKey → Instant)
    (created_now published_now : Timestamp) (id : String) (status : DocumentStatus) :
    Proc.Holds (setDocumentStatus env clock created_now published_now id status) s fun r s' =>
      (s.publications = ∅ → s'.publications = ∅) ∧
      ((∃ x, r = .error x ∧ s'.shelf = s.shelf ∧
        (s.publications = ∅ → ¬ StatusAccepted (s.documents.lookup id) status)) ∨
      (r = .ok () ∧ StatusAccepted (s.documents.lookup id) status ∧
        ∀ e, s.documents.lookup id = some e →
          s'.shelf = s.shelf.store (e.restated created_now published_now status).2)) := by
  unfold setDocumentStatus
  refine Proc.holds_raiseIf_bind (fun hraised => ⟨fun h => h, .inl ⟨_, rfl, rfl, fun _ h => ?_⟩⟩)
    fun hknown => Proc.holds_get_bind ?_
  · rw [h.1] at hraised
    cases hraised
  cases he : s.documents.lookup id with
  | none =>
    refine Proc.holds_raise ⟨fun h => h, .inl ⟨_, rfl, rfl, fun _ h => ?_⟩⟩
    obtain ⟨-, e, he', -⟩ := h
    cases he'
  | some e =>
    obtain ⟨hid, hfiled⟩ := hs.filed id e he
    subst hid
    refine Proc.holds_raiseIf_bind (fun hraised => ⟨fun h => h, .inl ⟨_, rfl, rfl, fun hnone _ => ?_⟩⟩)
      fun _ => ?_
    · rw [hnone] at hraised
      simp only [AList.empty_entries, List.any_nil, Bool.and_false] at hraised
      cases hraised
    refine Proc.holds_raiseIf_bind (fun hraised => ⟨fun h => h, .inl ⟨_, rfl, rfl, fun _ h => ?_⟩⟩)
      fun htransition => ?_
    · obtain ⟨-, e', he', hkeeps⟩ := h
      cases he'
      rw [Bool.and_eq_true, Bool.or_eq_true, decide_eq_true_eq, beq_iff_eq, bne_iff_ne] at hraised
      obtain ⟨hdeleted, hother⟩ := hraised
      refine hother (hkeeps (hdeleted.elim (fun hmem => ?_) id))
      obtain ⟨d, hd, hdeleted⟩ := (hs.tombstones _).mp hmem
      cases he.symm.trans hd
      exact hdeleted
    refine Proc.holds_lift_bind (fun x hx => ⟨fun h => h, .inl ⟨_, rfl, rfl, fun hnone _ => ?_⟩⟩)
      fun publications hpublications => ?_
    · rw [hnone] at hx
      by_cases hstatus : status = .published
      · rw [if_pos hstatus] at hx
        cases hx
      · rw [if_neg hstatus] at hx
        cases hx
    have hok : (materializeLineage created_now published_now (status == .published)
        { e with status }).1 = .ok () :=
      materializeLineage_ok (hfiled.withStatus status)
    refine Proc.holds_set_bind (Proc.holds_lift_bind (fun x hx => ?_) fun _ _ => Proc.holds_set
      ⟨fun hnone => ?_, .inr ⟨rfl, ⟨by simpa using hknown, e, rfl, ?_⟩, ?_⟩⟩)
    · cases hok.symm.trans hx
    · rw [hnone] at hpublications
      show publications = ∅
      by_cases hstatus : status = .published
      · rw [if_pos hstatus] at hpublications
        cases hpublications
        rfl
      · rw [if_neg hstatus] at hpublications
        cases hpublications
        rfl
    · intro hdeleted
      simp only [hdeleted, beq_self_eq_true, Bool.or_true, Bool.true_and,
        bne_eq_false_iff_eq] at htransition
      exact htransition
    · intro e' he'
      cases he'
      obtain ⟨hid, -, hstatus⟩ := materializeLineage_scope created_now published_now
        (status == .published) { e with status }
      have hput : (s.putDocument (e.restated created_now published_now status).2).shelf =
          s.shelf.store (e.restated created_now published_now status).2 := by
        refine putDocument_shelf hs ?_
        unfold Document.restated
        rw [hid, hstatus]
        by_cases hdeleted : e.status = .deleted
        · rw [hdeleted] at htransition
          simp only [beq_self_eq_true, Bool.or_true, Bool.true_and, bne_eq_false_iff_eq] at htransition
          exact .inl htransition
        · refine .inr fun his => hdeleted ?_
          obtain ⟨d, hd, hdd⟩ := (isDeleted_iff hs _).mp his
          cases he.symm.trans hd
          exact hdd
      rw [← hput]
      unfold Store.putDocument Document.restated
      rw [hid, hstatus]
      rfl

/-- What `set_document_status` does to the shelf. -/
theorem setDocumentStatus_shelf (hs : s.shelf.Kept) (clock : JobKey → Instant)
    (created_now published_now : Timestamp) (id : String) (status : DocumentStatus) :
    Proc.Holds (setDocumentStatus env clock created_now published_now id status) s fun r s' =>
      DocumentCall.Effect s.shelf (.setStatus clock created_now published_now id status) r
        s'.shelf := by
  refine (setDocumentStatus_result hs clock created_now published_now id status).imp ?_
  rintro r s' ⟨-, ⟨x, rfl, hs', -⟩ | ⟨rfl, ⟨-, e, he, hdeleted⟩, hs'⟩⟩
  · rw [hs']
    exact .nothing _ _
  · rw [hs' e he]
    exact .sets he hdeleted (materializeLineage_ok ((hs.filed id e he).2.withStatus status))

/-- Chunks pass their checks exactly if they are of the document. -/
theorem check_iff_chunksOf :
    chunks.forM (Chunk.check d.document_id d.tenant_id) = .ok () ↔ ChunksOf d chunks := by
  have hcheck : ∀ c : Chunk, c.check d.document_id d.tenant_id = .ok () ↔
      c.document_id = d.document_id ∧ c.tenant_id = d.tenant_id := by
    intro c
    simp [Chunk.check, raiseFirst_ok]
  unfold ChunksOf
  induction chunks with
  | nil => exact ⟨fun _ c hc => absurd hc List.not_mem_nil, fun _ => rfl⟩
  | cons c chunks ih =>
    rw [show (c :: chunks).forM (Chunk.check d.document_id d.tenant_id) =
      (c.check d.document_id d.tenant_id >>= fun _ =>
        chunks.forM (Chunk.check d.document_id d.tenant_id)) from rfl]
    simp only [except_bind_ok, hcheck, ih, List.forall_mem_cons, exists_const]

/-- `replace_document_chunks` accepts the chunks. -/
def ChunksAccepted (existing : Option Document) (chunks : List Chunk) : Prop :=
  ∃ e, existing = some e ∧ (e.status = .deleted → chunks = []) ∧ ChunksOf e chunks

/-- What `replace_document_chunks` does: it raises, or the chunks are of the document. -/
theorem replaceDocumentChunks_result (hs : s.shelf.Kept) (id : String) (chunks : List Chunk) :
    Proc.Holds (replaceDocumentChunks id chunks) s fun r s' =>
      (∃ x, r = .error x ∧ s' = s ∧ ¬ ChunksAccepted (s.documents.lookup id) chunks) ∨
      (r = .ok () ∧ ChunksAccepted (s.documents.lookup id) chunks ∧
        s'.shelf = s.shelf.keep id chunks ∧ s'.publications = s.publications) := by
  unfold replaceDocumentChunks
  refine Proc.holds_get_bind ?_
  cases he : s.documents.lookup id with
  | none =>
    refine Proc.holds_raise (.inl ⟨_, rfl, rfl, ?_⟩)
    rintro ⟨e, he', -⟩
    cases he'
  | some e =>
    have hid := (hs.filed id e he).1
    have hdeleted_iff : s.isDeleted id = true ↔ e.status = .deleted := by
      rw [isDeleted_iff hs, he]
      simp
    refine Proc.holds_raiseIf_bind (fun hraised => .inl ⟨_, rfl, rfl, ?_⟩) fun hdeleted => ?_
    · rintro ⟨e', he', hempty, -⟩
      cases he'
      rw [Bool.and_eq_true, hdeleted_iff] at hraised
      rw [hempty hraised.1] at hraised
      cases hraised.2
    refine Proc.holds_lift_bind (fun x hx => .inl ⟨_, rfl, rfl, ?_⟩) fun _ hchunks =>
      Proc.holds_set (.inr ⟨rfl, ⟨e, rfl, ?_, ?_⟩, shelf_chunks s id chunks, rfl⟩)
    · rintro ⟨e', he', -, hof⟩
      cases he'
      rw [← hid, check_iff_chunksOf.mpr hof] at hx
      cases hx
    · intro hstatus
      rw [hdeleted_iff.mpr hstatus] at hdeleted
      simpa using hdeleted
    · rw [← hid] at hchunks
      exact check_iff_chunksOf.mp hchunks

/-- A document that is read is left as it is. -/
theorem getDocument_shelf (hs : s.shelf.Kept) (id : String) (tenant_id workspace_id : Option String) :
    Proc.Holds (getDocument id tenant_id workspace_id) s fun r s' =>
      r = .ok ((s.documents.lookup id).filter fun d =>
        tenant_id.all (· == d.tenant_id) && workspace_id.all (· == d.workspace_id)) ∧
      s'.shelf = s.shelf := by
  have hnot : ∀ (given : Option String) (x : String), given.any (· != x) = !given.all (· == x) := by
    intro given x
    cases given with
    | none => rfl
    | some y => rfl
  unfold getDocument
  refine Proc.holds_get_bind ?_
  cases he : s.documents.lookup id with
  | none => exact Proc.holds_pure ⟨rfl, rfl⟩
  | some e =>
    have hself : (if id ∈ s.tombstones then { e with status := .deleted } else e) = e := by
      split
      case isTrue htombstone =>
        obtain ⟨d, hd, hdeleted⟩ := (hs.tombstones id).mp htombstone
        cases he.symm.trans hd
        rw [← hdeleted]
      case isFalse => rfl
    simp only [hself]
    have hid := (hs.filed id e he).1
    subst hid
    have hshelf := shelf_document s e s.tombstones
    rw [show some e = s.shelf.document e.document_id from he.symm, Function.update_eq_self] at hshelf
    refine Proc.holds_set_bind ?_
    rw [hnot, hnot, ← Bool.not_and, Option.filter_some]
    by_cases hscope : (tenant_id.all (· == e.tenant_id) && workspace_id.all (· == e.workspace_id)) = true
    · rw [hscope]
      exact Proc.holds_pure ⟨rfl, hshelf⟩
    · rw [Bool.not_eq_true] at hscope
      rw [hscope]
      exact Proc.holds_pure ⟨rfl, hshelf⟩

/-- A document that is stored keeps the shelf. -/
theorem Shelf.Kept.store (hs : h.Kept) (hfiled : d.Filed)
    (htenant : ∀ e, h.document d.document_id = some e → e.tenant_id = d.tenant_id) :
    (h.store d).Kept := by
  have hdocument : ∀ id e, (h.store d).document id = some e →
      id = d.document_id ∧ e = d ∨ id ≠ d.document_id ∧ h.document id = some e := by
    intro id e he
    by_cases hid : id = d.document_id
    · rw [h.store_document hid.symm] at he
      exact .inl ⟨hid, (Option.some.inj he).symm⟩
    · rw [h.store_document_of_ne hid] at he
      exact .inr ⟨hid, he⟩
  have hself := h.store_document (d := d) rfl
  have hother : ∀ id, id ≠ d.document_id → (h.store d).document id = h.document id :=
    fun id hid => h.store_document_of_ne hid
  refine ⟨?_, ?_, ?_⟩
  · intro id e he
    obtain ⟨rfl, rfl⟩ | ⟨-, he⟩ := hdocument id e he
    · exact ⟨rfl, hfiled⟩
    · exact hs.filed id e he
  · intro id
    by_cases hid : id = d.document_id
    · subst hid
      rw [hself]
      unfold Shelf.store
      by_cases hstatus : d.status = .deleted
      · simp [hstatus]
      · simp [hstatus]
    · rw [hother id hid, ← hs.tombstones id]
      unfold Shelf.store
      by_cases hstatus : d.status = .deleted
      · simp [hstatus, hid]
      · simp [hstatus, hid]
  · intro id hne
    obtain ⟨e, he, hchunks⟩ := hs.chunks id hne
    by_cases hid : id = d.document_id
    · subst hid
      refine ⟨d, hself, fun c hc => ?_⟩
      obtain ⟨hcid, hctenant⟩ := hchunks c hc
      exact ⟨hcid.trans (hs.filed _ e he).1, hctenant.trans (htenant e he)⟩
    · exact ⟨e, (hother id hid).trans he, hchunks⟩

/-- A document that is stored in the place of one of the same tenant keeps the shelf. -/
theorem Shelf.Kept.store_of (hs : h.Kept) (he : h.document id = some e) (hid : d.document_id = e.document_id)
    (htenant : d.tenant_id = e.tenant_id) (hfiled : d.Filed) :
    (h.store d).Kept := by
  refine hs.store hfiled ?_
  intro e' he'
  rw [hid, (hs.filed id e he).1] at he'
  cases he.symm.trans he'
  exact htenant.symm

/-- Chunks of a document keep the shelf. -/
theorem Shelf.Kept.keep (hs : h.Kept) (hchunks : chunks ≠ [] → ∃ d, h.document id = some d ∧ ChunksOf d chunks) :
    (h.keep id chunks).Kept := by
  refine ⟨hs.filed, hs.tombstones, ?_⟩
  intro id' hne
  by_cases hid : id' = id
  · subst hid
    have hself : (h.keep id' chunks).chunks id' = chunks := Function.update_self ..
    rw [hself] at hne ⊢
    exact hchunks hne
  · have hother : (h.keep id chunks).chunks id' = h.chunks id' := Function.update_of_ne hid ..
    rw [hother] at hne ⊢
    exact hs.chunks id' hne

/-- What `restore_deleted_document` does. If the chunks are refused, the shelf is put back. -/
theorem restoreDeletedDocument_shelf (hs : s.shelf.Kept) (now : Timestamp) (snapshot : Document)
    (chunks : List Chunk) :
    Proc.Holds (restoreDeletedDocument env now snapshot chunks) s fun r s' =>
      DocumentCall.Effect s.shelf (.restore now snapshot chunks) r s'.shelf := by
  unfold restoreDeletedDocument
  refine Proc.holds_bind ((getDocument_shelf hs snapshot.document_id none none).imp ?_)
  rintro _ s₁ ⟨rfl, hs₁⟩
  have hall : (s.documents.lookup snapshot.document_id).filter (fun d =>
      (none : Option String).all (· == d.tenant_id) && (none : Option String).all (· == d.workspace_id)) =
        s.documents.lookup snapshot.document_id := by
    cases s.documents.lookup snapshot.document_id with
    | none => rfl
    | some e => rfl
  rw [hall]
  refine Proc.holds_lift_bind (fun x _ => hs₁ ▸ .nothing _ _) fun restored hrestored => ?_
  simp only [requireDeletedSnapshot, except_bind_ok, raiseFirst_ok, List.mem_singleton, forall_eq,
    beq_eq_false_iff_ne] at hrestored
  obtain ⟨_, hstatus, hrestored⟩ := hrestored
  obtain ⟨e, he, hdeleted, rfl⟩ := requireUnchangedTombstone_ok hrestored
  obtain ⟨hid, hfiled⟩ := hs.filed _ e he
  refine Proc.holds_get_bind (Proc.holds_set_bind ?_)
  have hshelf : Store.shelf { s₁ with
      tombstones := s₁.tombstones.erase e.document_id
      documents := s₁.documents.insert e.document_id { e with status := snapshot.status } } =
        s.shelf.store { e with status := snapshot.status } := by
    have hshelf := shelf_document s₁ { e with status := snapshot.status }
      (s₁.tombstones.erase e.document_id)
    rw [hs₁] at hshelf
    unfold Shelf.store
    rw [if_neg hstatus]
    exact hshelf.trans (congrArg (fun h : Shelf => Shelf.mk _ _ (h.tombstones.erase e.document_id)) hs₁)
  have hkept := hs.store_of he (d := { e with status := snapshot.status }) rfl rfl
    (hfiled.withStatus _)
  rw [← hshelf] at hkept
  refine Proc.holds_handle ((replaceDocumentChunks_result hkept e.document_id chunks).imp ?_)
  rintro r s₂ (⟨x, rfl, rfl, -⟩ | ⟨rfl, ⟨e', he', hempty, hchunks⟩, hs₂, -⟩)
  · refine Proc.holds_get_bind (Proc.holds_set_bind (Proc.holds_raise ?_))
    have hback : Store.shelf { s₁ with
        documents := (s₁.documents.insert e.document_id
          { e with status := snapshot.status }).insert e.document_id e
        chunks := s₁.chunks.insert e.document_id (s₁.getChunks e.document_id)
        tombstones := insert e.document_id (s₁.tombstones.erase e.document_id) } = s.shelf := by
      have htombstone : e.document_id ∈ s₁.tombstones := by
        rw [show s₁.tombstones = s.tombstones from congrArg Shelf.tombstones hs₁]
        exact (hs.tombstones _).mpr ⟨e, by rw [hid]; exact he, hdeleted⟩
      rw [Finset.insert_erase htombstone, AList.insert_insert]
      have hdocument : some e = s₁.shelf.document e.document_id := by
        rw [hs₁, hid]
        exact he.symm
      have hchunks := shelf_chunks { s₁ with documents := s₁.documents.insert e.document_id e }
        e.document_id (s₁.getChunks e.document_id)
      rw [shelf_document s₁ e s₁.tombstones, hdocument, Function.update_eq_self] at hchunks
      unfold Shelf.keep at hchunks
      rw [show s₁.getChunks e.document_id = s₁.shelf.chunks e.document_id from rfl,
        Function.update_eq_self] at hchunks
      exact hchunks.trans hs₁
    rw [he, Option.getD_some]
    exact (congrArg (DocumentCall.Effect s.shelf (.restore now snapshot chunks) (.error x)) hback).mpr
      (.nothing _ _)
  · have heffect : ChunksOf e chunks → DocumentCall.Effect s.shelf (.restore now snapshot chunks)
        (.ok ()) ((s.shelf.store { e with status := snapshot.status }).keep snapshot.document_id
          chunks) := .restores he hdeleted hstatus
    rw [← hid, ← hshelf, ← hs₂] at heffect
    refine heffect ?_
    have hstored := congrArg (fun h : Shelf => h.document e.document_id) hshelf
    cases (s.shelf.store_document rfl).symm.trans (hstored.symm.trans he')
    exact hchunks

/-- What a call does. -/
theorem DocumentCall.effect (hs : s.shelf.Kept) (c : DocumentCall) :
    c.Effect s.shelf (c.exec env s).1 (c.exec env s).2.shelf := by
  cases c with
  | upsert created_now published_now document =>
    exact upsertDocument_shelf hs created_now published_now document
  | setStatus clock created_now published_now id status =>
    exact setDocumentStatus_shelf hs clock created_now published_now id status
  | delete id => exact deleteDocument_shelf hs id
  | replaceChunks id chunks =>
    show (replaceDocumentChunks id chunks).Holds s fun r s' =>
      Effect s.shelf (.replaceChunks id chunks) r s'.shelf
    refine (replaceDocumentChunks_result hs id chunks).imp ?_
    rintro r s' (⟨x, rfl, rfl, -⟩ | ⟨rfl, ⟨e, he, hdeleted, hchunks⟩, hs', -⟩)
    · exact .nothing _ _
    · rw [hs']
      exact .replaces he hdeleted hchunks
  | restore now snapshot chunks => exact restoreDeletedDocument_shelf hs now snapshot chunks

end Effects

/-! ## Tidy calls -/

/-- The call deletes no document that has chunks, and does not fill in the version of a document that
was deleted before. -/
def DocumentCall.Tidy (s : Store) : DocumentCall → Prop
  | upsert created_now published_now document =>
    document.status = .deleted →
    (∀ e, s.documents.lookup document.document_id = some e → e.sameScope document = true) →
    (materializeLineage created_now published_now false document).1 = .ok () →
    s.getChunks document.document_id = []
  | setStatus _ _ _ id status => status = .deleted → s.getChunks id = [] ∧
    ∀ e, s.documents.lookup id = some e → e.status = .deleted →
      strip e.ingestion_version = e.ingestion_version ∨ strip e.ingestion_version = ""
  | _ => True

/-- The call restores the document, and does not raise. -/
def DocumentCall.Restores (env : Env) (s : Store) (id : String) (c : DocumentCall) : Prop :=
  ∃ now snapshot chunks, c = .restore now snapshot chunks ∧ snapshot.document_id = id ∧
    (c.exec env s).1 = .ok ()

section Steps

variable {env : Env} {s : Store}

/-- The shelf is kept by every call. -/
theorem DocumentCall.kept (hs : s.shelf.Kept) (c : DocumentCall) : (c.exec env s).2.shelf.Kept := by
  have heffect : c.Effect s.shelf (c.exec env s).1 (c.exec env s).2.shelf := c.effect hs
  generalize (c.exec env s).1 = r, (c.exec env s).2.shelf = h at heffect ⊢
  cases heffect with
  | nothing => exact hs
  | upserts hid hstatus hfiled hscope hok hold => exact hs.store hfiled fun e he => (hold e he).1
  | @sets _ created_now published_now _ status e he hdeleted hok =>
    obtain ⟨hid, htenant, -⟩ := materializeLineage_scope created_now published_now
      (status == .published) { e with status }
    exact hs.store_of he hid htenant (materializeLineage_filed hok)
  | deletes he =>
    refine (hs.store_of he ?_ ?_ ((hs.filed _ _ he).2.withStatus _)).keep fun hne => absurd rfl hne
    · rfl
    · rfl
  | replaces he hdeleted hchunks => exact hs.keep fun _ => ⟨_, he, hchunks⟩
  | @restores _ snapshot e _ he hdeleted hstatus hchunks =>
    have hself := s.shelf.store_document (d := { e with status := snapshot.status })
      (hs.filed _ e he).1
    refine (hs.store_of he ?_ ?_ ((hs.filed _ _ he).2.withStatus _)).keep
      fun _ => ⟨_, hself, hchunks⟩
    · rfl
    · rfl

/-- A tidy call keeps no chunks of a deleted document. -/
theorem DocumentCall.cleared (hs : s.shelf.Kept) (hclear : s.shelf.Cleared) {c : DocumentCall}
    (hc : c.Tidy s) : (c.exec env s).2.shelf.Cleared := by
  have heffect : c.Effect s.shelf (c.exec env s).1 (c.exec env s).2.shelf := c.effect hs
  generalize (c.exec env s).1 = r, (c.exec env s).2.shelf = h at heffect ⊢
  -- A document that is stored is looked at on its own; the others are as they were.
  have hstored : ∀ d : Document, (d.status = .deleted → s.shelf.chunks d.document_id = []) →
      (s.shelf.store d).Cleared := by
    intro d hd id e he hdeleted
    by_cases hid : id = d.document_id
    · subst hid
      cases (s.shelf.store_document rfl).symm.trans he
      exact hd hdeleted
    · rw [s.shelf.store_document_of_ne hid] at he
      exact hclear id e he hdeleted
  cases heffect with
  | nothing => exact hclear
  | @upserts created_now published_now document d hid hstatus hfiled hscope hok hold =>
    refine hstored d fun hdeleted => ?_
    have hdocument := hstatus.symm.trans hdeleted
    rw [hid]
    refine hc hdocument hscope ?_
    rw [hdocument] at hok
    exact hok
  | @sets _ created_now published_now id status e he hdeleted hok =>
    obtain ⟨hid, -, hstatus⟩ := materializeLineage_scope created_now published_now
      (status == .published) { e with status }
    refine hstored _ fun hnow => ?_
    rw [hid, (hs.filed _ e he).1]
    exact (hc (hstatus.symm.trans hnow)).1
  | @deletes id e he =>
    intro id' d hd hdeleted
    by_cases hid : id' = id
    · subst hid
      exact Function.update_self ..
    · have hchunks : ((s.shelf.store { e with status := .deleted }).keep id []).chunks id' =
          s.shelf.chunks id' := Function.update_of_ne hid ..
      have hother : (s.shelf.store { e with status := .deleted }).document id' =
          s.shelf.document id' := by
        rw [← (hs.filed _ e he).1] at hid
        exact s.shelf.store_document_of_ne hid
      rw [hchunks]
      exact hclear id' d (hother.symm.trans hd) hdeleted
  | @replaces id chunks e he hdeleted hchunks =>
    intro id' d hd hdeleted'
    by_cases hid : id' = id
    · subst hid
      cases he.symm.trans hd
      have hself : (s.shelf.keep id' chunks).chunks id' = chunks := Function.update_self ..
      rw [hself]
      exact hdeleted hdeleted'
    · have hother : (s.shelf.keep id chunks).chunks id' = s.shelf.chunks id' :=
        Function.update_of_ne hid ..
      rw [hother]
      exact hclear id' d hd hdeleted'
  | @restores _ snapshot e chunks he hdeleted hstatus hchunks =>
    intro id d hd hdeleted'
    by_cases hid : id = e.document_id
    · have hself := s.shelf.store_document (d := { e with status := snapshot.status }) hid.symm
      cases hself.symm.trans hd
      exact absurd hdeleted' hstatus
    · have hother : (s.shelf.store { e with status := snapshot.status }).document id =
          s.shelf.document id := s.shelf.store_document_of_ne hid
      rw [(hs.filed _ e he).1] at hid
      have hchunks' : ((s.shelf.store { e with status := snapshot.status }).keep snapshot.document_id
          chunks).chunks id = s.shelf.chunks id := Function.update_of_ne hid ..
      rw [hchunks']
      exact hclear id d (hother.symm.trans hd) hdeleted'

/-- A tidy call that does not restore a deleted document leaves it as it is. -/
theorem DocumentCall.stays (hs : s.shelf.Kept) {c : DocumentCall} (hc : c.Tidy s) {d : Document}
    {id : String} (hd : s.shelf.document id = some d) (hdeleted : d.status = .deleted)
    (hrestores : ¬ c.Restores env s id) : (c.exec env s).2.shelf.document id = some d := by
  have heffect : c.Effect s.shelf (c.exec env s).1 (c.exec env s).2.shelf := c.effect hs
  have hid := (hs.filed id d hd).1
  have hstored : ∀ d' : Document, (d'.document_id = id → d' = d) →
      (s.shelf.store d').document id = some d := by
    intro d' hd'
    by_cases hid' : id = d'.document_id
    · rw [hd' hid'.symm]
      exact s.shelf.store_document hid
    · exact (s.shelf.store_document_of_ne hid').trans hd
  -- A document that is stored in the place of another one.
  have hsame : ∀ {id' : String} {e : Document}, s.shelf.document id' = some e → e.document_id = id →
      e = d := by
    intro id' e he hid'
    rw [(hs.filed _ e he).1] at hid'
    subst hid'
    exact Option.some.inj (he.symm.trans hd)
  unfold DocumentCall.Restores at hrestores
  generalize (c.exec env s).1 = r, (c.exec env s).2.shelf = h at heffect hrestores ⊢
  cases heffect with
  | nothing => exact hd
  | upserts hid' hstatus hfiled hscope hok hold =>
    refine hstored _ fun hid' => ?_
    subst hid'
    exact (hold d hd).2 hdeleted
  | @sets _ created_now published_now id' status e he hkeeps hok =>
    obtain ⟨hid', -, -⟩ := materializeLineage_scope created_now published_now
      (status == .published) { e with status }
    refine hstored _ fun hid'' => ?_
    cases hsame he (hid'.symm.trans hid'')
    have hnow := hkeeps hdeleted
    subst hnow
    have hfilled : { d with status := .deleted } = d := by rw [← hdeleted]
    rw [hfilled]
    have hid' : id' = id := (hs.filed _ d he).1.symm.trans hid
    rw [show (DocumentStatus.deleted == DocumentStatus.published) = false from rfl,
      materializeLineage_eq_self (hs.filed _ d hd).2 ((hc rfl).2 d he hdeleted)]
  | @deletes id' e he =>
    refine hstored _ fun hid' => ?_
    cases hsame he hid'
    rw [← hdeleted]
  | replaces => exact hd
  | @restores now snapshot e chunks he hdeleted' hstatus hchunks =>
    refine hstored _ fun hid' => absurd ⟨now, snapshot, chunks, rfl, ?_, rfl⟩ hrestores
    exact (hs.filed _ e he).1.symm.trans hid'

end Steps

/-! ## Runs -/

/-- One step of a run: a tidy call, or anything that leaves the shelf as it is. -/
def TidyStep (env : Env) (s t : Store) : Prop :=
  (∃ c : DocumentCall, c.Tidy s ∧ t = (c.exec env s).2) ∨ t.shelf = s.shelf

/-- A step that does not restore the document. -/
def UnrestoredStep (env : Env) (id : String) (s t : Store) : Prop :=
  (∃ c : DocumentCall, c.Tidy s ∧ ¬ c.Restores env s id ∧ t = (c.exec env s).2) ∨ t.shelf = s.shelf

section Runs

variable {env : Env} {s t : Store}

/-- Nothing is on the shelf of a store without records. -/
theorem kept_empty : Store.empty.shelf.Kept ∧ Store.empty.shelf.Cleared := by
  have hnone : ∀ id, Store.empty.shelf.document id = none := fun _ => rfl
  refine ⟨⟨fun id d hd => ?_, fun id => ⟨fun hid => ?_, ?_⟩, fun id hne => absurd rfl hne⟩, ?_⟩
  · cases (hnone id).symm.trans hd
  · cases hid
  · rintro ⟨d, hd, -⟩
    cases (hnone id).symm.trans hd
  · intro id d hd _
    cases (hnone id).symm.trans hd

/-- A step of a tidy run keeps the shelf. -/
theorem TidyStep.keeps (h : TidyStep env s t) (hs : s.shelf.Kept ∧ s.shelf.Cleared) :
    t.shelf.Kept ∧ t.shelf.Cleared := by
  obtain ⟨c, hc, rfl⟩ | hsame := h
  · exact ⟨c.kept hs.1, c.cleared hs.1 hs.2 hc⟩
  · rw [hsame]
    exact hs

/-- Every store of a tidy run is kept. -/
theorem tidy_run_kept (h : Relation.ReflTransGen (TidyStep env) Store.empty s) :
    s.shelf.Kept ∧ s.shelf.Cleared :=
  run_invariant (I := fun s : Store => s.shelf.Kept ∧ s.shelf.Cleared)
    (fun _ _ ha hab => hab.keeps ha) kept_empty h

variable {d : Document} {docs : List Document}

/-- A document stays deleted in a run that does not restore it. -/
theorem UnrestoredStep.stays {id : String} (h : UnrestoredStep env id s t)
    (hs : (s.shelf.Kept ∧ s.shelf.Cleared) ∧ s.shelf.document id = some d) (hdeleted : d.status = .deleted) :
    (t.shelf.Kept ∧ t.shelf.Cleared) ∧ t.shelf.document id = some d := by
  obtain ⟨hkept, hd⟩ := hs
  obtain ⟨c, hc, hrestores, rfl⟩ | hsame := h
  · exact ⟨TidyStep.keeps (.inl ⟨c, hc, rfl⟩) hkept, c.stays hkept.1 hc hd hdeleted hrestores⟩
  · rw [hsame]
    exact ⟨hkept, hd⟩

/-- A page is of documents that are there. -/
theorem mem_of_paged {after_document_id : Option String} {limit : Option ℤ} {documents : List Document}
    (h : paged after_document_id limit documents = .ok docs) (hd : d ∈ docs) : d ∈ documents := by
  have hshown : paged after_document_id none documents = .ok docs ∨
      ∃ shown n, paged after_document_id none documents = .ok shown ∧ docs = shown.take n := by
    cases limit with
    | none => exact .inl h
    | some limit =>
      simp only [paged, except_bind_ok] at h
      obtain ⟨_, -, h⟩ := h
      exact .inr ⟨_, limit.toNat, rfl, (Except.ok.inj h).symm⟩
  have hafter : ∀ shown, paged after_document_id none documents = .ok shown → d ∈ shown → d ∈ documents := by
    intro shown hshown hd
    cases after_document_id with
    | none =>
      cases hshown
      exact hd
    | some after =>
      cases hshown
      exact List.mem_of_mem_filter hd
  rcases hshown with hshown | ⟨shown, n, hshown, rfl⟩
  · exact hafter docs hshown hd
  · exact hafter shown hshown (List.mem_of_mem_take hd)

/-- What `list_documents` returns is not deleted. -/
theorem listDocuments_not_deleted {q : DocumentQuery} (h : listDocuments q s = .ok docs) (hd : d ∈ docs) :
    d.status ≠ .deleted ∧ d.document_id ∉ s.tombstones := by
  unfold listDocuments at h
  rw [except_bind_ok] at h
  obtain ⟨_, -, h⟩ := h
  have hfound := mem_of_paged h hd
  unfold sortedById at hfound
  rw [List.mem_mergeSort, List.mem_filter] at hfound
  simp only [Bool.and_eq_true, bne_iff_ne, decide_eq_true_eq] at hfound
  exact ⟨hfound.2.1.2, hfound.2.2⟩

/-- A restore that raises leaves the shelf. -/
theorem restore_error_shelf (hs : s.shelf.Kept) {now : Timestamp} {snapshot : Document}
    {chunks : List Chunk} {x : StoreError}
    (h : ((DocumentCall.restore now snapshot chunks).exec env s).1 = .error x) :
    ((DocumentCall.restore now snapshot chunks).exec env s).2.shelf = s.shelf := by
  have heffect : (DocumentCall.restore now snapshot chunks).Effect s.shelf
      ((DocumentCall.restore now snapshot chunks).exec env s).1
      ((DocumentCall.restore now snapshot chunks).exec env s).2.shelf := DocumentCall.effect hs _
  rw [h] at heffect
  generalize ((DocumentCall.restore now snapshot chunks).exec env s).2.shelf = h' at heffect ⊢
  cases heffect
  rfl

end Runs

/-- **Deleted documents stay deleted.** In every store of a run whose calls are tidy, a deleted document
has no chunks and is not listed; it stays as it is for as long as the run goes on without restoring
it; a restore that raises leaves the documents, the chunks and the tombstones as they were; and a
chunk is of a document that is there. -/
theorem deleted_stay_deleted (env : Env) (s : Store)
    (hrun : Relation.ReflTransGen (TidyStep env) Store.empty s) :
    (∀ id d, s.documents.lookup id = some d → d.status = .deleted →
      s.getChunks id = [] ∧
      (∀ q docs, listDocuments q s = .ok docs → ∀ d' ∈ docs, d'.document_id ≠ id) ∧
      ∀ t, Relation.ReflTransGen (UnrestoredStep env id) s t → t.documents.lookup id = some d) ∧
    (∀ now snapshot chunks x, ((DocumentCall.restore now snapshot chunks).exec env s).1 = .error x →
      ((DocumentCall.restore now snapshot chunks).exec env s).2.shelf = s.shelf) ∧
    ∀ id, ∀ c ∈ s.getChunks id, ∃ d, s.documents.lookup c.document_id = some d ∧
      d.document_id = c.document_id ∧ d.tenant_id = c.tenant_id := by
  have hkept := tidy_run_kept hrun
  refine ⟨fun id d hd hdeleted => ⟨hkept.2 id d hd hdeleted, ?_, ?_⟩, ?_, ?_⟩
  · intro q docs hdocs d' hd' hid
    refine (listDocuments_not_deleted hdocs hd').2 ?_
    rw [hid]
    exact (hkept.1.tombstones id).mpr ⟨d, hd, hdeleted⟩
  · intro t ht
    exact (run_invariant
      (I := fun t : Store => (t.shelf.Kept ∧ t.shelf.Cleared) ∧ t.shelf.document id = some d)
      (fun _ _ ha hab => hab.stays ha hdeleted) ⟨hkept, hd⟩ ht).2
  · intro now snapshot chunks x hx
    exact restore_error_shelf hkept.1 hx
  · intro id c hc
    obtain ⟨d, hd, hchunks⟩ := hkept.1.chunks id fun hnil => by
      rw [show s.getChunks id = [] from hnil] at hc
      cases hc
    obtain ⟨hcid, hctenant⟩ := hchunks c hc
    refine ⟨d, ?_, hcid.symm, hctenant.symm⟩
    rw [hcid, (hkept.1.filed id d hd).1]
    exact hd

/-! ## Chunks of a deleted document -/

/-- A document that is published. -/
def guide : Document := { plainDocument with status := .published, metadata := [] }

/-- A moment. -/
def noon : Timestamp := ⟨"2026-01-02T12:00:00Z", by decide +kernel⟩

/-- A chunk of the document. -/
def guideChunk : Chunk where
  chunk_id := "chunk_document-1_0000"
  document_id := "document-1"
  tenant_id := "tenant-1"
  parent_chunk_id := none
  chunk_index := 0
  text := "Cats sleep."
  page_start := none
  page_end := none
  section_name := none
  heading := none
  token_count := 2
  checksum := ""
  parser_version := ""
  chunker_version := ""
  embedding_version := ""
  index_version := ""
  metadata := []

/-- The store with the document. -/
def shelvedStore : Store := ((DocumentCall.upsert noon noon guide).exec plainEnv Store.empty).2

/-- The store with the document and its chunk. -/
def filledStore : Store :=
  ((DocumentCall.replaceChunks "document-1" [guideChunk]).exec plainEnv shelvedStore).2

/-- The store after the document was deleted. -/
def emptiedStore : Store := ((DocumentCall.delete "document-1").exec plainEnv filledStore).2

/-- A document that `delete_document` deletes has no chunks. -/
theorem emptiedStore_cleared :
    (emptiedStore.documents.lookup "document-1").map Document.status = some DocumentStatus.deleted ∧
      emptiedStore.getChunks "document-1" = [] := by
  have hstatus : (emptiedStore.documents.lookup "document-1").map Document.status = some DocumentStatus.deleted := by
    decide +kernel
  have hrun : Relation.ReflTransGen (TidyStep plainEnv) Store.empty emptiedStore := by
    refine .tail (.tail (.single (.inl ⟨.upsert noon noon guide, ?_, rfl⟩))
      (.inl ⟨.replaceChunks "document-1" [guideChunk], trivial, rfl⟩))
      (.inl ⟨.delete "document-1", trivial, rfl⟩)
    intro hdeleted
    cases hdeleted
  obtain ⟨d, hd, hdeleted⟩ := Option.map_eq_some_iff.mp hstatus
  exact ⟨hstatus, ((deleted_stay_deleted plainEnv emptiedStore hrun).1 "document-1" d hd hdeleted).1⟩

/-- **A status that deletes keeps the chunks.** The document is deleted through
`set_document_status`, and its chunk is still there. -/
theorem status_keeps_chunks :
    let s := ((DocumentCall.setStatus (fun _ => .seconds 0) noon noon "document-1" .deleted).exec
      plainEnv filledStore).2
    (s.documents.lookup "document-1").map Document.status = some DocumentStatus.deleted ∧
      (s.getChunks "document-1").map Chunk.chunk_id = ["chunk_document-1_0000"] := by
  decide +kernel

end RickIntelligence.Knowledge
