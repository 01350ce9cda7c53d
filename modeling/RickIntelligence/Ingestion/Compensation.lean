import RickIntelligence.Ingestion.Retirement
import RickIntelligence.Knowledge.Deletion

/-!
# Nothing is published with points missing

What `_retire_replacement` leaves, whatever the vector store does: the new version is still published, the
points of all other documents are as they were, and the old version is hidden, or published with exactly the
points that it had (`retired`).

Up to the deletion nothing changes. From then on some points of the old version may be missing (`Lacks`), and
a restored batch can only make it fewer; since the snapshot is complete, the number of points says whether
any is still missing.
-/

namespace RickIntelligence.Ingestion

open Lib Knowledge

/-! ## Calls of the stores -/

section Calls

variable {α β : Type} {f : Frame} {Q : Except Failure β → Frame → Prop}

/-- A call of the vector store, and what follows it. -/
theorem holds_onVectors_bind {x : PointProc α} {g : α → FrameProc β} {P : Except Failure α → Points → Prop}
    (hx : Proc.Holds x f.points P) (herror : ∀ e points, P (.error e) points → Q (.error e) (f.withPoints points))
    (hok : ∀ a points, P (.ok a) points → Proc.Holds (g a) (f.withPoints points) Q) :
    Proc.Holds (onVectors x >>= g) f Q := by
  refine Proc.holds_bind (Proc.holds_embed (hx.imp ?_))
  intro result points hresult
  cases result with
  | ok a => exact hok a points hresult
  | error e => exact herror e points hresult

/-- A call of the knowledge store, and what follows it. -/
theorem holds_onKnowledge_bind {x : StoreProc α} {g : α → FrameProc β}
    {P : Except StoreError α → Store → Prop} (hx : Proc.Holds x f.knowledge P)
    (herror : ∀ e knowledge, P (.error e) knowledge → Q (.error (.knowledge e)) (f.withKnowledge knowledge))
    (hok : ∀ a knowledge, P (.ok a) knowledge → Proc.Holds (g a) (f.withKnowledge knowledge) Q) :
    Proc.Holds (onKnowledge x >>= g) f Q := by
  refine Proc.holds_bind (Proc.holds_embed (hx.imp ?_))
  intro result knowledge hresult
  cases result with
  | ok a => exact hok a knowledge hresult
  | error e => exact herror e knowledge hresult

end Calls

/-! ## Snapshots are complete -/

section Snapshots

variable {encoded : Point → Option ℕ} {target : Target} {adapter : Adapter} {points : Points}

/-- What is collected are the points of the document. -/
theorem collectPoints_ok {index total_bytes : ℕ} {l l' : List Point}
    (h : collectPoints encoded target index total_bytes l = .ok l') : l' = l.filter target.owns := by
  induction l generalizing index total_bytes l' with
  | nil =>
    cases h
    rfl
  | cons point l ih =>
    unfold collectPoints at h
    split at h
    · cases h
    · split at h
      · next howns =>
        rw [Bool.not_eq_true'] at howns
        rw [List.filter_cons_of_neg (by rw [howns]; decide)]
        exact ih h
      · next howns =>
        rw [Bool.not_eq_true', Bool.not_eq_false] at howns
        split at h
        · cases h
        · split at h
          · cases h
          · obtain ⟨rest, hrest, heq⟩ := except_bind_ok.mp h
            cases heq
            rw [List.filter_cons_of_pos howns, ih hrest]

/-- A snapshot has the points of the document. -/
theorem snapshotPoints_spec (reader : Reader) (raises : Bool) :
    Proc.Holds (snapshotPoints encoded reader target raises) points fun result points' =>
      points' = points ∧ ∀ l, result = .ok l → l = points.entries.filter target.owns := by
  have hcollect : ∀ l : List Point, l.filter target.owns = points.entries.filter target.owns →
      Proc.Holds (Proc.lift (collectPoints encoded target 0 0 l)) points fun result points' =>
        points' = points ∧ ∀ l, result = .ok l → l = points.entries.filter target.owns := by
    intro l hl
    cases h : collectPoints encoded target 0 0 l with
    | error e =>
      refine Proc.holds_raise ⟨rfl, ?_⟩
      intro l' h'
      cases h'
    | ok l' =>
      refine Proc.holds_pure ⟨rfl, ?_⟩
      intro l'' h'
      cases h'
      exact (collectPoints_ok h).trans hl
  unfold snapshotPoints readPoints
  refine Proc.holds_bind (Proc.holds_get_bind ?_)
  cases reader with
  | missing => exact Proc.holds_raise ⟨rfl, fun l h => by cases h⟩
  | snapshotDocument =>
    refine Proc.holds_raiseIf_bind (fun _ => ⟨rfl, fun l h => by cases h⟩) fun _ => ?_
    exact Proc.holds_pure (hcollect _ (by rw [List.filter_filter]; simp only [Bool.and_self]))
  | allPoints takes_limit =>
    refine Proc.holds_raiseIf_bind (fun _ => ⟨rfl, fun l h => by cases h⟩) fun _ => ?_
    exact Proc.holds_pure (hcollect _ rfl)

/-- A point of the whole scope is one that the calls for the document are about. -/
theorem selects_of_owns {p : Point} (h : target.owns p = true) : adapter.selects target p = true := by
  unfold Adapter.selects
  split
  · exact h
  · unfold Target.owns at h
    rw [Bool.and_eq_true, Bool.and_eq_true] at h
    exact h.1.1

/-- If the snapshot has as many points as are counted, the points that are counted are those of the whole
scope. -/
theorem owns_of_count
    (h : (points.entries.filter target.owns).length = points.count (adapter.selects target)) {id : String}
    {body : Body} (hbody : points.lookup id = some body)
    (hselects : adapter.selects target ⟨id, body⟩ = true) : target.owns ⟨id, body⟩ = true := by
  have hsublist : (points.entries.filter target.owns).Sublist
      (points.entries.filter (adapter.selects target)) :=
    List.monotone_filter_right _ fun _ => selects_of_owns
  unfold Points.count at h
  rw [List.countP_eq_length_filter] at h
  have hmem : (⟨id, body⟩ : Point) ∈ points.entries.filter (adapter.selects target) :=
    List.mem_filter.mpr ⟨mem_entries.mpr hbody, hselects⟩
  rw [← hsublist.eq_of_length h] at hmem
  exact (List.mem_filter.mp hmem).2

end Snapshots

/-! ## The old document -/

/-- A status that is not the published one is set, if the document can have it. -/
theorem setDocumentStatus_returns {env : Env} {s : Store} (hs : s.shelf.Kept) (clock : JobKey → Instant)
    (created_now published_now : Timestamp) (id : String) {status : DocumentStatus}
    (haccepted : StatusAccepted (s.documents.lookup id) status) (hstatus : status ≠ .published) :
    Proc.Holds (setDocumentStatus env clock created_now published_now id status) s fun r _ =>
      r = .ok () := by
  obtain ⟨hknown, e, he, hdeleted⟩ := haccepted
  unfold setDocumentStatus
  refine Proc.holds_raiseIf_bind (fun hraised => ?_) fun _ => Proc.holds_get_bind ?_
  · rw [hknown] at hraised
    cases hraised
  rw [he]
  refine Proc.holds_raiseIf_bind (fun hraised => ?_) fun _ => ?_
  · rw [beq_false_of_ne hstatus, Bool.false_and] at hraised
    cases hraised
  refine Proc.holds_raiseIf_bind (fun hraised => ?_) fun _ => ?_
  · rw [Bool.and_eq_true, Bool.or_eq_true, decide_eq_true_eq, beq_iff_eq, bne_iff_ne] at hraised
    obtain ⟨hgone, hother⟩ := hraised
    refine absurd (hdeleted (hgone.elim (fun hmem => ?_) fun h => h)) hother
    obtain ⟨d, hd, hdd⟩ := (hs.tombstones _).mp hmem
    cases he.symm.trans hd
    exact hdd
  rw [if_neg hstatus]
  have hok : (materializeLineage created_now published_now (status == .published)
      { e with status }).1 = .ok () := materializeLineage_ok ((hs.filed id e he).2.withStatus status)
  refine Proc.holds_bind (Proc.holds_pure (Proc.holds_set_bind ?_))
  rw [hok]
  exact Proc.holds_bind (Proc.holds_pure (Proc.holds_set rfl))

/-- The facts by which a document is recognised are the same. -/
structure SameFacts (d d' : Document) : Prop where
  document_id : d'.document_id = d.document_id
  tenant_id : d'.tenant_id = d.tenant_id
  workspace_id : d'.workspace_id = d.workspace_id
  collection_id : d'.collection_id = d.collection_id
  content_checksum : d'.content_checksum = d.content_checksum
  document_version : d'.document_version = d.document_version
  object_ref : d'.object_ref = d.object_ref
  filename : d'.filename = d.filename
  metadata : d'.metadata = d.metadata

/-- The facts are those of the document itself. -/
theorem SameFacts.refl (d : Document) : SameFacts d d := ⟨rfl, rfl, rfl, rfl, rfl, rfl, rfl, rfl, rfl⟩

variable {d d' : Document}

/-- The facts stay when the lineage of a document that has one is filled in. -/
theorem SameFacts.materialize (h : SameFacts d d') (hfiled : d'.Filed) (created_now published_now : Timestamp)
    (isPublished : Bool) :
    SameFacts d (materializeLineage created_now published_now isPublished d').2 := by
  rw [materializeLineage_of_filed hfiled]
  exact ⟨h.document_id, h.tenant_id, h.workspace_id, h.collection_id, h.content_checksum,
    h.document_version, h.object_ref, h.filename, h.metadata⟩

/-- Building a payload keeps the facts of the document. -/
theorem buildPointPayload_facts (h : SameFacts d d') (hfiled : d'.Filed) (created_now published_now : Timestamp)
    (chunk : Chunk) :
    Proc.Holds (buildPointPayload created_now published_now chunk) d' fun _ d'' =>
      SameFacts d d'' ∧ d''.Filed := by
  have hok : (materializeLineage created_now published_now (d'.status == .published) d').1 = .ok () :=
    materializeLineage_ok hfiled
  refine Proc.holds_get_bind ?_
  refine Proc.holds_lift_bind (fun _ _ => ⟨h, hfiled⟩) fun _ _ => ?_
  refine Proc.holds_lift_bind (fun _ _ => ⟨h, hfiled⟩) fun _ _ => ?_
  refine Proc.holds_raiseIf_bind (fun _ => ⟨h, hfiled⟩) fun _ => Proc.holds_set_bind ?_
  have hleft := h.materialize hfiled created_now published_now (d'.status == .published)
  have hfiled' := materializeLineage_filed hok
  refine Proc.holds_lift_bind (fun _ _ => ⟨hleft, hfiled'⟩) fun _ _ => ?_
  exact Proc.holds_pure ⟨hleft, hfiled'⟩

/-- Building the payloads keeps the facts of the document. -/
theorem expectedPayloads_facts (h : SameFacts d d') (hfiled : d'.Filed) (uuid5 : String → String)
    (clock : ℕ → Timestamp) (i : ℕ) (chunks : List Chunk) (expected : AList fun _ : String => Json.Members) :
    Proc.Holds (expectedPayloads uuid5 clock i chunks expected) d' fun _ d'' => SameFacts d d'' := by
  induction chunks generalizing d' i expected with
  | nil => exact Proc.holds_pure h
  | cons chunk chunks ih =>
    refine Proc.holds_bind ((buildPointPayload_facts h hfiled _ _ chunk).imp ?_)
    rintro (e | payload) d'' ⟨hfacts, hfiled''⟩
    · exact hfacts
    · exact ih hfacts hfiled'' _ _

/-! ## Replaced documents -/

/-- What a replaced document is: both versions are stored under their ids, the new one is published, and
the owners that are given are these documents. Their attempts are equal to themselves. -/
structure Retirement.Ready (r : Retirement) (f : Frame) (new_id : String) (old new : Document) : Prop where
  kept : f.knowledge.shelf.Kept
  job : f.job.document_id = some new_id
  differ : new_id ≠ r.document_id
  old_stored : f.knowledge.documents.lookup r.document_id = some old
  new_stored : f.knowledge.documents.lookup new_id = some new
  old_status : old.status = .published ∨ old.status = .unpublished
  new_status : new.status = .published
  old_scope : old.tenant_id = r.tenant_id ∧ old.workspace_id = r.workspace_id
  new_scope : new.tenant_id = r.tenant_id ∧ new.workspace_id = r.workspace_id
  owners : ∀ saved, f.owners = some saved → saved = (old, new)
  old_attempt : r.sameMember "_ingestion_attempt" old.metadata old.metadata = true
  new_attempt : r.sameMember "_ingestion_attempt" new.metadata new.metadata = true

namespace Retirement

variable {r : Retirement} {f : Frame} {new_id : String} {old new : Document}

variable {s : Store} {status : DocumentStatus} {name : String} {value : Json} {whole : Points} {points : List Point}

/-- The old document can have any status that is known. -/
theorem Ready.accepted (h : r.Ready f new_id old new) (hs : s.shelf = f.knowledge.shelf)
    (hstatus : status.unknown? = none) :
    StatusAccepted (s.documents.lookup r.document_id) status := by
  have hold : s.documents.lookup r.document_id = some old := by
    have hlookup := congrFun (congrArg Shelf.document hs) r.document_id
    exact hlookup.trans h.old_stored
  refine ⟨hstatus, old, hold, ?_⟩
  intro hdeleted
  rcases h.old_status with hold | hold
  · rw [hold] at hdeleted
    cases hdeleted
  · rw [hold] at hdeleted
    cases hdeleted

/-- The old document has the status that was set. -/
def Restated (r : Retirement) (h h' : Shelf) (status : DocumentStatus) : Prop :=
  ∃ d, d.document_id = r.document_id ∧ d.status = status ∧ h' = h.store d

variable {f' : Frame} {target : Target} {collection_id message : String}

/-- The old document is set to a status, or a publication is refused and nothing is done. -/
theorem setOldStatus_spec (h : r.Ready f new_id old new) (hs : f'.knowledge.shelf = f.knowledge.shelf) (call : ℕ)
    (hstatus : status.unknown? = none) :
    Proc.Holds (r.setOldStatus call status) f' fun result f'' =>
      ∃ knowledge, f'' = f'.withKnowledge knowledge ∧
        (result = .ok () ∧ r.Restated f.knowledge.shelf knowledge.shelf status ∨
          (∃ e, result = .error e) ∧ knowledge.shelf = f.knowledge.shelf ∧ status = .published) := by
  have hkept : f'.knowledge.shelf.Kept := by
    rw [hs]
    exact h.kept
  have haccepted := h.accepted hs hstatus
  unfold setOldStatus onKnowledge
  refine Proc.holds_embed ?_
  have hresult := @setDocumentStatus_result r.env f'.knowledge hkept (r.status_clock call)
    (r.created_now call) (r.published_now call) r.document_id status
  have hreturns : status ≠ .published → Proc.Holds (setDocumentStatus r.env (r.status_clock call)
      (r.created_now call) (r.published_now call) r.document_id status) f'.knowledge
      fun result _ => result = .ok () :=
    setDocumentStatus_returns hkept _ _ _ _ haccepted
  unfold Proc.Holds at hresult hreturns ⊢
  generalize Proc.exec (setDocumentStatus r.env (r.status_clock call) (r.created_now call)
    (r.published_now call) r.document_id status) f'.knowledge = outcome at hresult hreturns ⊢
  refine ⟨outcome.2, rfl, ?_⟩
  rcases hresult.2 with ⟨e, herror, hshelf, -⟩ | ⟨hok, -, hstored⟩
  · right
    have hpublished : status = .published := by
      by_contra hne
      have hreturned := hreturns hne
      rw [herror] at hreturned
      cases hreturned
    rw [herror]
    exact ⟨⟨_, rfl⟩, hshelf.trans hs, hpublished⟩
  · left
    obtain ⟨-, e, he, -⟩ := haccepted
    obtain ⟨hid, -, hst⟩ := materializeLineage_scope (r.created_now call) (r.published_now call)
      (status == .published) { e with status }
    rw [hok]
    refine ⟨rfl, _, hid.trans (hkept.filed _ e he).1, hst, ?_⟩
    rw [hstored e he, hs]
    rfl

/-! ## Ownership -/

/-- The owners of a frame are those of another one, as far as their facts go. -/
def OwnersFrom (owners owners' : Option (Document × Document)) : Prop :=
  owners' = owners ∨ ∃ old new old', owners = some (old, new) ∧ owners' = some (old', new) ∧
    SameFacts old old'

/-- A document that is stored with the scope of the call is read, and nothing changes. -/
theorem getDocument_stored {id : String} {d : Document} (hs : s.shelf.Kept) (hd : s.documents.lookup id = some d)
    {tenant_id workspace_id : String} (hscope : d.tenant_id = tenant_id ∧ d.workspace_id = workspace_id) :
    Proc.Holds (getDocument id (some tenant_id) (some workspace_id)) s fun result s' =>
      result = .ok (some d) ∧ s'.shelf = s.shelf := by
  refine (getDocument_shelf hs id _ _).imp ?_
  rintro result s' ⟨rfl, hshelf⟩
  refine ⟨?_, hshelf⟩
  rw [hd, Option.filter_some, hscope.1, hscope.2]
  simp

/-- A document with the same facts is still the one that was saved. -/
theorem stillSaved_of_facts {job_document_id : Option String} {saved current : Document}
    (hfacts : SameFacts current saved)
    (hattempt : r.sameMember "_ingestion_attempt" current.metadata current.metadata = true)
    (hstatus : current.status = .published ∨ current.status = .unpublished)
    (hjob : some saved.document_id = job_document_id → current.status = .published) :
    r.stillSaved job_document_id saved current = true := by
  have hshown : (current.status == .published || current.status == .unpublished) = true := by
    rw [Bool.or_eq_true, beq_iff_eq, beq_iff_eq]
    exact hstatus
  have hnew : (some saved.document_id == job_document_id && current.status != .published) = false := by
    rw [← Bool.not_eq_true, Bool.and_eq_true, beq_iff_eq, bne_iff_ne]
    rintro ⟨hid, hne⟩
    exact hne (hjob hid)
  have hmember : r.sameMember "_ingestion_attempt" current.metadata saved.metadata = true := by
    rw [hfacts.metadata]
    exact hattempt
  unfold stillSaved
  rw [hshown, hnew, hmember, hfacts.tenant_id, hfacts.workspace_id, hfacts.collection_id,
    hfacts.content_checksum, hfacts.document_version, hfacts.object_ref, hfacts.filename]
  simp only [beq_self_eq_true, Bool.not_false, Bool.and_self]

/-- Both documents are still owned. -/
theorem stillOwned_spec (h : r.Ready f new_id old new) (hs : f'.knowledge.shelf = f.knowledge.shelf)
    (hjob : f'.job = f.job) (howners : OwnersFrom f.owners f'.owners) :
    Proc.Holds r.stillOwned f' fun result f'' => result = .ok true ∧
      ∃ knowledge, f'' = f'.withKnowledge knowledge ∧ knowledge.shelf = f.knowledge.shelf := by
  have hlookup : ∀ (s : Store) (id : String), s.shelf = f.knowledge.shelf →
      s.documents.lookup id = f.knowledge.documents.lookup id :=
    fun s id hs => congrFun (congrArg Shelf.document hs) id
  unfold stillOwned
  refine Proc.holds_get_bind ?_
  cases hf : f'.owners with
  | none => exact Proc.holds_pure ⟨rfl, f'.knowledge, rfl, hs⟩
  | some saved =>
    obtain ⟨old', new'⟩ := saved
    have hfacts : SameFacts old old' ∧ new' = new := by
      rcases howners with heq | ⟨o, n, o', hfrom, hto, hfacts⟩
      · have hpair := h.owners _ (heq.symm.trans hf)
        cases hpair
        exact ⟨SameFacts.refl _, rfl⟩
      · have hpair := h.owners _ hfrom
        cases hpair
        rw [hf] at hto
        cases hto
        exact ⟨hfacts, rfl⟩
    obtain ⟨hfacts, rfl⟩ := hfacts
    have hkept : f'.knowledge.shelf.Kept := by
      rw [hs]
      exact h.kept
    have hid : old.document_id = r.document_id := (h.kept.filed _ old h.old_stored).1
    have hnewid : new'.document_id = new_id := (h.kept.filed _ new' h.new_stored).1
    have hold : f'.knowledge.documents.lookup old'.document_id = some old := by
      rw [hfacts.document_id, hid, hlookup _ _ hs]
      exact h.old_stored
    dsimp only [allOwned]
    refine holds_onKnowledge_bind (getDocument_stored hkept hold h.old_scope) ?_ ?_
    · rintro e knowledge ⟨hresult, -⟩
      cases hresult
    rintro current knowledge ⟨hcurrent, hshelf⟩
    cases hcurrent
    refine Proc.holds_get_bind ?_
    have hsaved : r.stillSaved (f'.withKnowledge knowledge).job.document_id old' old = true := by
      refine stillSaved_of_facts hfacts h.old_attempt h.old_status ?_
      intro heq
      have hnew_id : (f'.withKnowledge knowledge).job.document_id = some new_id := by
        rw [← h.job, ← hjob]
        rfl
      rw [hnew_id, hfacts.document_id, hid] at heq
      exact absurd (Option.some.inj heq).symm h.differ
    rw [Option.any_some, hsaved, if_pos rfl]
    have hkept' : knowledge.shelf.Kept := by
      rw [hshelf]
      exact hkept
    have hnew : knowledge.documents.lookup new'.document_id = some new' := by
      rw [hnewid, hlookup _ _ (hshelf.trans hs)]
      exact h.new_stored
    refine holds_onKnowledge_bind (f := f'.withKnowledge knowledge)
      (getDocument_stored hkept' hnew h.new_scope) ?_ ?_
    · rintro e knowledge' ⟨hresult, -⟩
      cases hresult
    rintro current knowledge' ⟨hcurrent, hshelf'⟩
    cases hcurrent
    refine Proc.holds_get_bind ?_
    rw [Option.any_some, stillSaved_of_facts (SameFacts.refl new') h.new_attempt (.inl h.new_status)
      fun _ => h.new_status, if_pos rfl]
    exact Proc.holds_pure ⟨rfl, knowledge', rfl, (hshelf'.trans hshelf).trans hs⟩

/-! ## Rolling back -/

/-- What was settled: the old document is published with all its points, or hidden, and no other points
are missing. -/
def Settled (r : Retirement) (target : Target) (f f' : Frame) : Prop :=
  Lacks target.owns f.points f'.points ∧
    (r.Restated f.knowledge.shelf f'.knowledge.shelf .published ∧
        (∀ id, f'.points.lookup id = f.points.lookup id) ∨
      r.Restated f.knowledge.shelf f'.knowledge.shelf .unpublished)

/-- Something is noted of the job, and then something else is done. -/
theorem holds_note_bind {β : Type} {g : Unit → FrameProc β} {f : Frame} {Q : Except Failure β → Frame → Prop}
    (h : ∀ job, Proc.Holds (g ()) { f with job } Q) :
    Proc.Holds (note name value >>= g) f Q :=
  Proc.holds_bind (Proc.holds_modify (h _))

/-- Something is noted of the job. -/
theorem holds_note {f : Frame} {Q : Except Failure Unit → Frame → Prop} (h : ∀ job, Q (.ok ()) { f with job }) :
    Proc.Holds (note name value) f Q :=
  Proc.holds_modify (h _)

/-- Batches of points that were there make no others missing. -/
theorem restoreBatches_spec {test : Point → Bool} (hpoints : ∀ p ∈ points, whole.lookup p.1 = some p.2) {f : Frame}
    (h : Lacks test whole f.points) (call restored_points : ℕ) (plan : List (Batch points)) :
    Proc.Holds (r.restoreBatches points call restored_points plan) f fun _ f' =>
      ∃ left, f' = f.withPoints left ∧ Lacks test whole left := by
  induction plan generalizing f call restored_points with
  | nil => exact Proc.holds_pure ⟨f.points, rfl, h⟩
  | cons batch plan ih =>
    cases batch with
    | malformed => exact Proc.holds_raise ⟨f.points, rfl, h⟩
    | raises => exact Proc.holds_raise ⟨f.points, rfl, h⟩
    | points batch =>
      refine Proc.holds_raiseIf_bind (fun _ => ⟨f.points, rfl, h⟩) fun _ => ?_
      have hbatch : ∀ p ∈ batch.map Subtype.val, whole.lookup p.1 = some p.2 := by
        intro p hp
        obtain ⟨q, -, rfl⟩ := List.mem_map.mp hp
        exact hpoints q.1 q.2
      refine holds_onVectors_bind (upsertPoints_spec _ h hbatch) ?_ ?_
      · intro e left hleft
        exact ⟨left, rfl, hleft⟩
      · intro n left hleft
        refine Proc.holds_raiseIf_bind (fun _ => ⟨left, rfl, hleft⟩) fun _ => ?_
        exact ih (f := f.withPoints left) hleft _ _

/-- A restoration makes no other points missing, and if it says so, none is missing. -/
theorem restore_spec (htarget : r.target collection_id = target)
    (hpoints : ∀ p ∈ points, whole.lookup p.1 = some p.2)
    (hlength : points.length = whole.count (r.adapter.selects target)) {f : Frame}
    (h : Lacks target.owns whole f.points) :
    Proc.Holds (r.restore collection_id points) f fun result f' =>
      ∃ left, f' = f.withPoints left ∧ Lacks target.owns whole left ∧
        (result = .ok true → ∀ id, left.lookup id = whole.lookup id) := by
  unfold restore
  refine Proc.holds_bind ((restoreBatches_spec hpoints h 0 0 _).imp ?_)
  rintro (e | restored_points) f' ⟨left, rfl, hleft⟩
  · refine ⟨left, rfl, hleft, ?_⟩
    intro hresult
    cases hresult
  · refine Proc.holds_raiseIf_bind (fun _ => ⟨left, rfl, hleft, fun hresult => by cases hresult⟩)
      fun _ => ?_
    rw [htarget]
    refine holds_onVectors_bind (f := f.withPoints left) (countForDocument_spec _) ?_ ?_
    · rintro e left ⟨rfl, -⟩
      refine ⟨left, rfl, hleft, ?_⟩
      intro hresult
      cases hresult
    · rintro n left ⟨rfl, hn⟩
      refine Proc.holds_pure ⟨left, rfl, hleft, ?_⟩
      intro hresult
      have hcount : n = points.length := beq_iff_eq.mp (Except.ok.inj hresult)
      refine hleft.eq_of_count (g := r.adapter.selects target) (fun p => selects_of_owns) ?_
      calc left.count (r.adapter.selects target) = n := (hn n rfl).symm
        _ = whole.count (r.adapter.selects target) := hcount.trans hlength

/-- The old document is published if its points are there, or hidden. -/
theorem settle_spec (h : r.Ready f new_id old new) (hs : f'.knowledge.shelf = f.knowledge.shelf) (restored : Bool) :
    Proc.Holds (r.settle restored) f' fun result f'' => (∃ b, result = .ok b) ∧
      ∃ knowledge, f'' = f'.withKnowledge knowledge ∧
        (r.Restated f.knowledge.shelf knowledge.shelf .published ∧ restored = true ∨
          r.Restated f.knowledge.shelf knowledge.shelf .unpublished) := by
  have hknown : (if restored then DocumentStatus.published else .unpublished).unknown? = none := by
    cases restored <;> rfl
  refine Proc.holds_handle (Proc.holds_bind ((setOldStatus_spec h hs 1 hknown).imp ?_))
  rintro result f'' ⟨knowledge, rfl, ⟨rfl, hrestated⟩ | ⟨⟨e, rfl⟩, hshelf, -⟩⟩
  · refine Proc.holds_pure ⟨⟨_, rfl⟩, knowledge, rfl, ?_⟩
    cases restored with
    | true => exact .inl ⟨hrestated, rfl⟩
    | false => exact .inr hrestated
  · refine Proc.holds_bind (Proc.holds_handle
      ((setOldStatus_spec h (show (f'.withKnowledge knowledge).knowledge.shelf = _ from hshelf) 2
        (show DocumentStatus.unpublished.unknown? = none from rfl)).imp ?_))
    rintro result f'' ⟨knowledge', rfl, ⟨rfl, hrestated⟩ | ⟨-, -, hpublished⟩⟩
    · exact Proc.holds_pure ⟨⟨_, rfl⟩, knowledge', rfl, .inr hrestated⟩
    · cases hpublished

/-- A rollback settles the old document. -/
theorem rollbackReplacement_spec (htarget : r.target collection_id = target) (h : r.Ready f new_id old new)
    (hs : f'.knowledge.shelf = f.knowledge.shelf) (hlacks : Lacks target.owns f.points f'.points)
    (hunstarted : f'.retirement_started = false → ∀ id, f'.points.lookup id = f.points.lookup id)
    (hstarted : f'.retirement_started = true → f'.old_points ≠ [] → f'.old_points.length = f.points.count (r.adapter.selects target) ∧ ∀ p ∈ f'.old_points, f.points.lookup p.1 = some p.2) :
    Proc.Holds (r.rollbackReplacement collection_id) f' fun result f'' =>
      result = .ok () ∧ r.Settled target f f'' := by
  -- What is done once it is known whether the points are there.
  have hend : ∀ (restored : Bool) (left : Points), Lacks target.owns f.points left →
      (restored = true → ∀ id, left.lookup id = f.points.lookup id) →
      Proc.Holds (do
        let restored ← r.settle restored
        note "retirement_pending" (.bool true)
        note "retirement_deferred" (.str "storage_unavailable")
        note "retirement_error_after_commit" (.bool true)
        note "previous_document_id" (.str r.document_id)
        note "previous_publication_restored" (.bool restored)) (f'.withPoints left) fun result f'' =>
        result = .ok () ∧ r.Settled target f f'' := by
    intro restored left hleft hall
    have hleft_shelf : (f'.withPoints left).knowledge.shelf = f.knowledge.shelf := hs
    refine Proc.holds_bind ((settle_spec h hleft_shelf restored).imp ?_)
    rintro result f'' ⟨⟨b, rfl⟩, knowledge, rfl, hstatus⟩
    refine holds_note_bind fun _ => holds_note_bind fun _ => holds_note_bind fun _ =>
      holds_note_bind fun _ => holds_note fun _ => ⟨rfl, hleft, ?_⟩
    rcases hstatus with ⟨hpublished, hrestored⟩ | hhidden
    · exact .inl ⟨hpublished, hall hrestored⟩
    · exact .inr hhidden
  unfold rollbackReplacement
  refine Proc.holds_get_bind ?_
  by_cases hrestore : (f'.retirement_started && !f'.old_points.isEmpty) = true
  · rw [if_pos hrestore]
    rw [Bool.and_eq_true, Bool.not_eq_true', List.isEmpty_eq_false_iff] at hrestore
    obtain ⟨hlength, hpoints⟩ := hstarted hrestore.1 hrestore.2
    refine Proc.holds_bind (Proc.holds_handle ((restore_spec htarget hpoints hlength hlacks).imp ?_))
    rintro (e | restored) f'' ⟨left, rfl, hleft, hall⟩
    · refine Proc.holds_pure (hend false left hleft ?_)
      intro hfalse
      cases hfalse
    · refine hend restored left hleft ?_
      rintro rfl
      exact hall rfl
  · rw [if_neg hrestore]
    refine Proc.holds_bind (Proc.holds_pure (hend _ f'.points hlacks ?_))
    intro hnot
    rw [Bool.not_eq_true'] at hnot
    exact hunstarted hnot

/-! ## Retiring -/

/-- What an exception finds: the old document is as it was, and so are the points, unless the retirement had
started with a complete snapshot. -/
structure Held (r : Retirement) (target : Target) (f f' : Frame) : Prop where
  shelf : f'.knowledge.shelf = f.knowledge.shelf
  job : f'.job = f.job
  owners : OwnersFrom f.owners f'.owners
  lacks : Lacks target.owns f.points f'.points
  unstarted : f'.retirement_started = false → f'.points = f.points
  started : f'.retirement_started = true → f'.incomplete_snapshot = false ∧
    f'.old_points.length = f.points.count (r.adapter.selects target) ∧
    ∀ p ∈ f'.old_points, f.points.lookup p.1 = some p.2

/-- Before the retirement starts, nothing has changed. -/
theorem Held.of_unstarted (hshelf : f'.knowledge.shelf = f.knowledge.shelf) (hjob : f'.job = f.job)
    (howners : OwnersFrom f.owners f'.owners) (hpoints : f'.points = f.points)
    (hstarted : f'.retirement_started = false) : r.Held target f f' where
  shelf := hshelf
  job := hjob
  owners := howners
  lacks := by
    rw [hpoints]
    exact Lacks.refl _ _
  unstarted := fun _ => hpoints
  started := by
    intro h
    rw [hstarted] at h
    cases h

/-- The check of the points reads, fills in the lineage of the old document, and may find the snapshot
incomplete. -/
theorem checkSources_spec (h : r.Ready f new_id old new) (howners : f'.owners = f.owners) (old_count : ℕ) :
    Proc.Holds (r.checkSources old_count) f' fun result f'' =>
      ∃ owners incomplete_snapshot, f'' = { f' with owners, incomplete_snapshot } ∧
        OwnersFrom f.owners owners ∧
        (result = .ok () → incomplete_snapshot = f'.incomplete_snapshot) := by
  unfold checkSources
  refine Proc.holds_get_bind ?_
  cases hf : f'.owners with
  | none =>
    refine Proc.holds_pure ⟨none, f'.incomplete_snapshot, ?_, .inl (hf.symm.trans howners), fun _ => rfl⟩
    rw [← hf]
  | some saved =>
    obtain ⟨o, n⟩ := saved
    have hsaved := h.owners _ (howners.symm.trans hf)
    cases hsaved
    have hfacts := expectedPayloads_facts (SameFacts.refl old) (h.kept.filed _ old h.old_stored).2 r.uuid5
      r.clock 0 (f'.knowledge.getChunks r.document_id) ∅
    unfold Proc.Holds at hfacts
    have hfrom : OwnersFrom f.owners (some ((Proc.exec (expectedPayloads r.uuid5 r.clock 0
        (f'.knowledge.getChunks r.document_id) ∅) old).2, new)) :=
      .inr ⟨old, new, _, howners.symm.trans hf, rfl, hfacts⟩
    dsimp only
    refine Proc.holds_modify_bind ?_
    refine Proc.holds_lift_bind ?_ ?_
    · intro e _
      refine ⟨_, f'.incomplete_snapshot, rfl, hfrom, ?_⟩
      intro hresult
      cases hresult
    · intro expected _
      refine Proc.holds_get_bind ?_
      split
      · refine Proc.holds_modify_bind (Proc.holds_raise ⟨_, true, rfl, hfrom, ?_⟩)
        intro hresult
        cases hresult
      · exact Proc.holds_pure ⟨_, f'.incomplete_snapshot, rfl, hfrom, fun _ => rfl⟩

/-- The attempt hides the old document, or raises and leaves what can be settled. -/
theorem attempt_spec (hcollection : normalizeCollectionId r.collection_id = .ok collection_id)
    (h : r.Ready f new_id old new) (hstarted : f.retirement_started = false)
    (hcomplete : f.incomplete_snapshot = false) :
    Proc.Holds r.attempt f fun result f' => match result with
      | .ok _ => r.Settled (r.target collection_id) f f'
      | .error _ => r.Held (r.target collection_id) f f' := by
  unfold attempt normalizeCollection
  rw [hcollection]
  refine Proc.holds_bind (Proc.holds_pure ?_)
  refine holds_onVectors_bind (countForDocument_spec _) ?_ ?_
  · rintro e points ⟨rfl, -⟩
    exact Held.of_unstarted rfl rfl (.inl rfl) rfl hstarted
  rintro old_count points ⟨rfl, hcount⟩
  have hcount := hcount old_count rfl
  split
  · exact Proc.holds_modify_bind (Proc.holds_raise
      (Held.of_unstarted rfl rfl (.inl rfl) rfl hstarted))
  refine holds_onVectors_bind (f := f.withPoints f.points) (snapshotPoints_spec _ _) ?_ ?_
  · rintro e points ⟨rfl, -⟩
    exact Held.of_unstarted rfl rfl (.inl rfl) rfl hstarted
  rintro old_points points ⟨hsame, hsnapshot⟩
  have hsnapshot := hsnapshot old_points rfl
  change points = f.points at hsame
  subst hsame
  change old_points = f.points.entries.filter (r.target collection_id).owns at hsnapshot
  refine Proc.holds_modify_bind ?_
  split
  · exact Proc.holds_modify_bind (Proc.holds_raise
      (Held.of_unstarted rfl rfl (.inl rfl) rfl hstarted))
  next hlength =>
  rw [ne_eq, not_not, hcount] at hlength
  have howners : Frame.owners { f with old_points } = f.owners := rfl
  refine Proc.holds_bind ((checkSources_spec h howners _).imp ?_)
  rintro (e | checked) f' ⟨owners, incomplete_snapshot, rfl, hfrom, hincomplete⟩
  · exact Held.of_unstarted rfl rfl hfrom rfl hstarted
  have hincomplete : incomplete_snapshot = false := (hincomplete rfl).trans hcomplete
  subst hincomplete
  have hpoints : ∀ p ∈ old_points, f.points.lookup p.1 = some p.2 := by
    intro p hp
    rw [hsnapshot] at hp
    exact mem_entries.mp (List.mem_filter.mp hp).1
  rw [hsnapshot] at hlength
  refine Proc.holds_modify_bind ?_
  refine holds_onVectors_bind (deleteDocument_spec _ (Lacks.refl _ f.points)
    fun id body hbody hselects => owns_of_count hlength hbody hselects) ?_ ?_
  · intro e points hlacks
    refine ⟨rfl, rfl, hfrom, hlacks, ?_, ?_⟩
    · intro hnot
      cases hnot
    · intro _
      refine ⟨rfl, ?_, hpoints⟩
      show old_points.length = _
      rw [hsnapshot]
      exact hlength
  · intro deleted points hlacks
    refine (setOldStatus_spec h (by rfl) 0 (by rfl : DocumentStatus.unpublished.unknown? = none)).imp ?_
    rintro result f' ⟨knowledge, rfl, ⟨rfl, hrestated⟩ | ⟨-, -, hpublished⟩⟩
    · exact ⟨hlacks, .inr hrestated⟩
    · cases hpublished

/-- The handler settles the old document. -/
theorem recover_spec (hcollection : normalizeCollectionId r.collection_id = .ok collection_id)
    (h : r.Ready f new_id old new) (hheld : r.Held (r.target collection_id) f f') :
    Proc.Holds r.recover f' fun result f'' =>
      result = .ok () ∧ r.Settled (r.target collection_id) f f'' := by
  unfold recover normalizeCollection
  rw [hcollection]
  refine Proc.holds_bind ((stillOwned_spec h hheld.shelf hheld.job hheld.owners).imp ?_)
  rintro result f'' ⟨rfl, knowledge, rfl, hshelf⟩
  refine Proc.holds_modify_bind (Proc.holds_bind (Proc.holds_pure ?_))
  by_cases hincomplete : f'.incomplete_snapshot = true
  · have hunstarted : f'.points = f.points := by
      refine hheld.unstarted ?_
      rw [← Bool.not_eq_true]
      intro hstarted
      have hcomplete := (hheld.started hstarted).1
      rw [hincomplete] at hcomplete
      cases hcomplete
    change Proc.Holds _ (if f'.incomplete_snapshot = true then _ else _) _
    rw [if_pos hincomplete]
    refine rollbackReplacement_spec rfl h hshelf hheld.lacks ?_ ?_
    · intro hnot
      cases hnot
    · intro _ hne
      exact absurd rfl hne
  · change Proc.Holds _ (if f'.incomplete_snapshot = true then _ else _) _
    rw [if_neg hincomplete]
    refine rollbackReplacement_spec rfl h hshelf hheld.lacks ?_ ?_
    · intro hnot id
      have hpoints := hheld.unstarted hnot
      exact congrArg (fun points : Points => points.lookup id) hpoints
    · intro hstarted _
      exact (hheld.started hstarted).2

/-- What is left of a replaced document: the new version is published, the points of all others are as they
were, and the old version is published with all its points, or hidden. -/
structure Retired (r : Retirement) (f f' : Frame) (new_id : String) : Prop where
  new : ∃ d, f'.knowledge.documents.lookup new_id = some d ∧ d.status = .published
  others : ∀ collection_id, normalizeCollectionId r.collection_id = .ok collection_id →
    ∀ id body, (r.target collection_id).owns ⟨id, body⟩ = false →
      (f'.points.lookup id = some body ↔ f.points.lookup id = some body)
  old : ∃ d, f'.knowledge.documents.lookup r.document_id = some d ∧
    (d.status = .published ∧ (∀ id, f'.points.lookup id = f.points.lookup id) ∨ d.status = .unpublished)

/-- What was settled leaves a replaced document as it should be. -/
theorem Settled.retired (hcollection : normalizeCollectionId r.collection_id = .ok collection_id)
    (h : r.Ready f new_id old new) (hsettled : r.Settled (r.target collection_id) f f') :
    r.Retired f f' new_id := by
  obtain ⟨hlacks, hstatus⟩ := hsettled
  -- Whichever status was set, it is that of the old document, and the new one is not touched.
  have hstored : ∀ {status : DocumentStatus}, r.Restated f.knowledge.shelf f'.knowledge.shelf status →
      (∃ d, f'.knowledge.documents.lookup r.document_id = some d ∧ d.status = status) ∧
        f'.knowledge.documents.lookup new_id = some new := by
    rintro status ⟨d, hid, hst, hshelf⟩
    have hlookup : ∀ id, f'.knowledge.documents.lookup id = (f.knowledge.shelf.store d).document id :=
      fun id => congrFun (congrArg Shelf.document hshelf) id
    refine ⟨⟨d, (hlookup _).trans (Shelf.store_document _ hid), hst⟩, ?_⟩
    rw [hlookup, Shelf.store_document_of_ne _ (by rw [hid]; exact h.differ)]
    exact h.new_stored
  constructor
  · rcases hstatus with ⟨hpublished, -⟩ | hhidden
    · exact ⟨new, (hstored hpublished).2, h.new_status⟩
    · exact ⟨new, (hstored hhidden).2, h.new_status⟩
  · intro collection_id' hcollection' id body hother
    cases hcollection.symm.trans hcollection'
    rcases hlacks id with heq | ⟨hnone, body', hbody', howns⟩
    · rw [heq]
    · rw [hnone, hbody']
      constructor
      · intro hmissing
        cases hmissing
      · intro hbody
        cases hbody
        rw [hother] at howns
        cases howns
  · rcases hstatus with ⟨hpublished, hall⟩ | hhidden
    · obtain ⟨⟨d, hd, hst⟩, -⟩ := hstored hpublished
      exact ⟨d, hd, .inl ⟨hst, hall⟩⟩
    · obtain ⟨⟨d, hd, hst⟩, -⟩ := hstored hhidden
      exact ⟨d, hd, .inr hst⟩

/-- What has not been touched is as it should be. -/
theorem Ready.retired (h : r.Ready f new_id old new) : r.Retired f f new_id where
  new := ⟨new, h.new_stored, h.new_status⟩
  others := fun _ _ _ _ _ => Iff.rfl
  old := by
    refine ⟨old, h.old_stored, ?_⟩
    rcases h.old_status with hpublished | hhidden
    · exact .inl ⟨hpublished, fun _ => rfl⟩
    · exact .inr hhidden

/-- A call of which the collection has no name changes nothing before it raises. -/
theorem attempt_refused (hcollection : normalizeCollectionId r.collection_id = .error message) :
    Proc.Holds r.attempt f fun result f' => result = .error (.value message) ∧ f' = f := by
  unfold attempt normalizeCollection
  rw [hcollection]
  exact Proc.holds_bind (Proc.holds_raise ⟨rfl, rfl⟩)

/-- The handler raises as well if the collection has no name. -/
theorem recover_refused (hcollection : normalizeCollectionId r.collection_id = .error message)
    (h : r.Ready f new_id old new) :
    Proc.Holds r.recover f fun result _ => result = .error (.value message) := by
  unfold recover normalizeCollection
  rw [hcollection]
  refine Proc.holds_bind ((stillOwned_spec h rfl rfl (.inl rfl)).imp ?_)
  rintro result f' ⟨rfl, -⟩
  exact Proc.holds_modify_bind (Proc.holds_bind (Proc.holds_raise rfl))

/-- A call of which the collection has no name raises. -/
theorem attemptOrRecover_refused (hcollection : normalizeCollectionId r.collection_id = .error message)
    (h : r.Ready f new_id old new) :
    Proc.Holds r.attemptOrRecover f fun result _ => result = .error (.value message) := by
  unfold attemptOrRecover
  refine Proc.holds_handle (Proc.holds_bind ((attempt_refused hcollection).imp ?_))
  rintro result f' ⟨rfl, rfl⟩
  refine Proc.holds_bind ((recover_refused hcollection h).imp ?_)
  rintro result f'' rfl
  rfl

/-- The attempt and its handler settle the old document. -/
theorem attemptOrRecover_spec (hcollection : normalizeCollectionId r.collection_id = .ok collection_id)
    (h : r.Ready f new_id old new) (hstarted : f.retirement_started = false)
    (hcomplete : f.incomplete_snapshot = false) :
    Proc.Holds r.attemptOrRecover f fun result f' =>
      (∃ b, result = .ok b) ∧ r.Settled (r.target collection_id) f f' := by
  unfold attemptOrRecover
  refine Proc.holds_handle (Proc.holds_bind ((attempt_spec hcollection h hstarted hcomplete).imp ?_))
  rintro (e | done) f' hattempt
  · refine Proc.holds_bind ((recover_spec hcollection h hattempt).imp ?_)
    rintro result f'' ⟨rfl, hsettled⟩
    exact Proc.holds_pure ⟨⟨_, rfl⟩, hsettled⟩
  · exact Proc.holds_pure ⟨⟨_, rfl⟩, hattempt⟩

/-- A replaced document is never left published with points missing, whichever calls of the vector store
fail, and however far they have come by then. -/
theorem retireReplacement_retired (h : r.Ready f new_id old new) :
    Proc.Holds r.retireReplacement f fun result f' =>
      ((∃ collection_id, normalizeCollectionId r.collection_id = .ok collection_id) →
        ∃ job, result = .ok job) ∧
      ((∃ job, result = .ok job) → r.Retired f f' new_id) := by
  have h' : r.Ready (start f) new_id old new :=
    ⟨h.kept, h.job, h.differ, h.old_stored, h.new_stored, h.old_status, h.new_status, h.old_scope,
      h.new_scope, h.owners, h.old_attempt, h.new_attempt⟩
  unfold retireReplacement
  refine Proc.holds_get_bind ?_
  split
  case isFalse => exact Proc.holds_pure ⟨fun _ => ⟨_, rfl⟩, fun _ => h.retired⟩
  refine Proc.holds_modify_bind ?_
  cases hcollection : normalizeCollectionId r.collection_id with
  | error message =>
    refine Proc.holds_bind ((attemptOrRecover_refused hcollection h').imp ?_)
    rintro result f' rfl
    constructor
    · rintro ⟨collection_id, hok⟩
      cases hok
    · rintro ⟨job, hjob⟩
      cases hjob
  | ok collection_id =>
    refine Proc.holds_bind ((attemptOrRecover_spec hcollection h' rfl rfl).imp ?_)
    rintro result f' ⟨⟨retired, rfl⟩, hsettled⟩
    have hsettled : r.Settled (r.target collection_id) f f' := hsettled
    cases retired with
    | true =>
      show Proc.Holds (note "retirement_pending" (.bool false) >>= fun _ =>
        (get : FrameProc Frame) >>= fun f => pure f.job) f' _
      refine holds_note_bind fun job => Proc.holds_get_bind ?_
      refine Proc.holds_pure ⟨fun _ => ⟨_, rfl⟩, fun _ => ?_⟩
      have hnoted : r.Settled (r.target collection_id) f { f' with job } := hsettled
      exact hnoted.retired hcollection h
    | false =>
      show Proc.Holds ((get : FrameProc Frame) >>= fun f => pure f.job) f' _
      refine Proc.holds_get_bind ?_
      refine Proc.holds_pure ⟨fun _ => ⟨_, rfl⟩, fun _ => ?_⟩
      exact hsettled.retired hcollection h

end Retirement

/-! ### A deletion that is not acknowledged -/

/-- A version of a document. -/
def sampleDocument (document_id : String) : Document where
  document_id := document_id
  workspace_id := "workspace-1"
  collection_id := "rag_phase0"
  tenant_id := "tenant-1"
  document_version := "v1"
  content_checksum := "c1"
  filename := "f.txt"
  display_filename := ""
  title := ""
  source_type := ""
  mime_type := ""
  language := none
  status := .published
  parser_version := "p1"
  chunker_version := "k1"
  embedding_model := "m1"
  embedding_version := "e1"
  metadata := [("_ingestion_attempt", .str document_id)]
  ingestion_version := "v1"
  object_ref := "f.txt"
  created_at := some "now"
  published_at := some "now"

/-- The chunk of a version. -/
def sampleChunk (document_id : String) : Chunk where
  chunk_id := document_id
  document_id := document_id
  tenant_id := "tenant-1"
  parent_chunk_id := none
  chunk_index := 0
  text := "A fact."
  page_start := none
  page_end := none
  section_name := none
  heading := none
  token_count := 2
  checksum := ""
  parser_version := ""
  chunker_version := ""
  embedding_version := ""
  index_version := ""
  metadata := []

/-- A text that the clock may give. -/
theorem now_reading : "now" ≠ "" ∧ strip "now" = "now" := by decide +kernel

/-- The point of a version. -/
def sampleBody (document_id : String) : Body where
  payload := ((Proc.exec (buildPointPayload ⟨"now", now_reading⟩ ⟨"now", now_reading⟩
    (sampleChunk document_id)) (sampleDocument document_id)).1.toOption).getD []
  rest := [("vector", .arr [.int 1])]

/-- Two versions of a document, of which the second one was just published. -/
def sampleFrame : Frame where
  knowledge := {
    publications := ∅
    checkpoints := ∅
    documents := AList.insert "new" (sampleDocument "new") (AList.insert "old" (sampleDocument "old") ∅)
    chunks := AList.insert "old" [sampleChunk "old"] ∅
    tombstones := ∅ }
  points := AList.insert "point:new" (sampleBody "new") (AList.insert "point:old" (sampleBody "old") ∅)
  job := { plainJob [] with document_id := some "new", status := .published }
  owners := some (sampleDocument "old", sampleDocument "new")
  old_points := []
  retirement_started := false
  incomplete_snapshot := false

/-- The old version is retired, and the vector store raises when it has deleted its points. -/
def sampleRetirement : Retirement where
  env := { plainEnv with same := Json.equal }
  uuid5 := id
  encoded _ := some 100
  adapter := ⟨true, .snapshotDocument, some 10, none⟩
  faults := ⟨false, false, some fun _ => true, fun _ => .returns 1, false⟩
  document_id := "old"
  tenant_id := "tenant-1"
  workspace_id := "workspace-1"
  collection_id := some "rag_phase0"
  clock _ := ⟨"now", now_reading⟩
  status_clock _ _ := .seconds 102
  created_now _ := ⟨"now", now_reading⟩
  published_now _ := ⟨"now", now_reading⟩

/-- The documents under each id. -/
theorem sampleFrame_document {id : String} {d : Document}
    (h : sampleFrame.knowledge.documents.lookup id = some d) :
    (id = "old" ∨ id = "new") ∧ d = sampleDocument id := by
  have hlookup : sampleFrame.knowledge.documents.lookup id =
      if id = "new" then some (sampleDocument "new")
      else if id = "old" then some (sampleDocument "old") else none := by
    unfold sampleFrame
    rw [lookup_insert_cases, lookup_insert_cases, AList.lookup_empty]
  rw [hlookup] at h
  split at h
  · next hid =>
    cases h
    exact ⟨.inr hid, by rw [hid]⟩
  · split at h
    · next hid =>
      cases h
      exact ⟨.inl hid, by rw [hid]⟩
    · cases h

/-- The document is one that is replaced. -/
theorem sample_ready : sampleRetirement.Ready sampleFrame "new" (sampleDocument "old")
    (sampleDocument "new") where
  kept := {
    filed := by
      intro id d h
      obtain ⟨-, rfl⟩ := sampleFrame_document h
      refine ⟨rfl, ⟨"now", rfl, by decide, by decide +kernel⟩, ?_, ?_, ?_⟩
      · intro t ht
        cases ht
        decide +kernel
      · show (if (strip "f.txt" != "") = true then strip "f.txt" else _) = "f.txt"
        rw [if_pos (by decide +kernel)]
        decide +kernel
      · intro hblank
        rfl
    tombstones := by
      intro id
      constructor
      · intro hmem
        exact absurd hmem (Finset.notMem_empty id)
      · rintro ⟨d, hd, hdeleted⟩
        obtain ⟨-, rfl⟩ := sampleFrame_document hd
        cases hdeleted
    chunks := by
      intro id hchunks
      have hlookup : sampleFrame.knowledge.getChunks id = if id = "old" then [sampleChunk "old"] else [] := by
        unfold Store.getChunks sampleFrame
        rw [lookup_insert_cases, AList.lookup_empty]
        split <;> rfl
      change sampleFrame.knowledge.getChunks id ≠ [] at hchunks
      rw [hlookup] at hchunks
      split at hchunks
      · next hid =>
        subst hid
        refine ⟨sampleDocument "old", rfl, ?_⟩
        intro c hc
        change c ∈ sampleFrame.knowledge.getChunks "old" at hc
        rw [hlookup, if_pos rfl, List.mem_singleton] at hc
        rw [hc]
        exact ⟨rfl, rfl⟩
      · exact absurd rfl hchunks }
  job := rfl
  differ := by decide
  old_stored := rfl
  new_stored := rfl
  old_status := .inl rfl
  new_status := rfl
  old_scope := ⟨rfl, rfl⟩
  new_scope := ⟨rfl, rfl⟩
  owners := by
    intro saved h
    cases h
    rfl
  old_attempt := by decide +kernel
  new_attempt := by decide +kernel

/-- The old version is published with its point, or hidden. -/
theorem retireReplacement_sample : sampleRetirement.Retired sampleFrame
    (Proc.exec sampleRetirement.retireReplacement sampleFrame).2 "new" := by
  obtain ⟨hreturns, hretired⟩ := Retirement.retireReplacement_retired sample_ready
  have hcollection : normalizeCollectionId (some "rag_phase0") = .ok "rag_phase0" := by decide +kernel
  exact hretired (hreturns ⟨_, hcollection⟩)

/-- It is published again. -/
example : (((Proc.exec sampleRetirement.retireReplacement sampleFrame).2.knowledge.documents.lookup "old").map
    (·.status), (Proc.exec sampleRetirement.retireReplacement sampleFrame).2.points.keys) =
      (some .published, ["point:old", "point:new"]) := by
  decide +kernel

end RickIntelligence.Ingestion
