import RickIntelligence.Knowledge.Receipts
import RickIntelligence.Lib.Embed

/-!
# Points that may not be written

The vector store as `rick_ingestion/pipeline.py` uses it: the points under their ids, and the calls that
delete and count the points of a document and write a batch. A call may raise, and may have done any part
of what it was to do by then; which calls raise, and what they have done, is given by the `Faults`. A call
that returns has done all of it.

What can be missing after such calls is described by `Lacks`, which knows nothing of documents.
-/

namespace RickIntelligence.Ingestion

open Lib Knowledge

/-! ## Points -/

/-- A point without its id: its payload, and its vector with whatever else it has. -/
structure Body where
  payload : Json.Members
  rest : Json.Members

/-- A point under its id. -/
abbrev Point := Sigma fun _ : String => Body

/-- The points of a store. -/
abbrev Points := AList fun _ : String => Body

/-- The points that a test lets through. -/
def Points.keep (f : Point → Bool) (points : Points) : Points :=
  ⟨points.entries.filter f, points.nodupKeys.sublist List.filter_sublist⟩

/-- The points with those of a batch. -/
def Points.put (points : Points) (batch : List Point) : Points :=
  batch.foldl (fun points p => points.insert p.1 p.2) points

/-- How many points pass a test. -/
def Points.count (f : Point → Bool) (points : Points) : ℕ := points.entries.countP f

/-- The points are those of another store, but that some of those that pass a test are missing. -/
def Lacks (f : Point → Bool) (whole points : Points) : Prop :=
  ∀ id, points.lookup id = whole.lookup id ∨
    points.lookup id = none ∧ ∃ body, whole.lookup id = some body ∧ f ⟨id, body⟩ = true

section Lacks

variable {f g : Point → Bool} {whole points : Points}

/-- A point that is kept is one that was there and passes the test. -/
theorem lookup_keep {id : String} {body : Body} : (points.keep f).lookup id = some body ↔
    points.lookup id = some body ∧ f ⟨id, body⟩ = true := by
  rw [← mem_entries, ← mem_entries]
  exact List.mem_filter

/-- Nothing is missing of a store itself. -/
theorem Lacks.refl (f : Point → Bool) (whole : Points) : Lacks f whole whole := fun _ => .inl rfl

/-- What is taken away is missing. -/
theorem Lacks.keep (h : Lacks f whole points)
    (hg : ∀ id body, whole.lookup id = some body → g ⟨id, body⟩ = false → f ⟨id, body⟩ = true) :
    Lacks f whole (points.keep g) := by
  intro id
  cases hkept : (points.keep g).lookup id with
  | some body =>
    obtain ⟨hbody, -⟩ := lookup_keep.mp hkept
    rcases h id with heq | ⟨hnone, -⟩
    · exact .inl (hbody.symm.trans heq)
    · rw [hnone] at hbody
      cases hbody
  | none =>
    rcases h id with heq | ⟨hnone, hmissing⟩
    · cases hbody : points.lookup id with
      | none => exact .inl (hbody.symm.trans heq)
      | some body =>
        refine .inr ⟨rfl, body, heq.symm.trans hbody, hg _ _ (heq.symm.trans hbody) ?_⟩
        rw [← Bool.not_eq_true]
        intro hpass
        rw [lookup_keep.mpr ⟨hbody, hpass⟩] at hkept
        cases hkept
    · exact .inr ⟨rfl, hmissing⟩

/-- What is put back is no longer missing. -/
theorem Lacks.put (h : Lacks f whole points) {batch : List Point}
    (hbatch : ∀ p ∈ batch, whole.lookup p.1 = some p.2) : Lacks f whole (points.put batch) := by
  induction batch generalizing points with
  | nil => exact h
  | cons p batch ih =>
    refine ih ?_ fun q hq => hbatch q (List.mem_cons_of_mem _ hq)
    intro id
    rw [lookup_insert_cases]
    split
    · next hid =>
      rw [hid]
      exact .inl (hbatch p List.mem_cons_self).symm
    · exact h id

/-- The points that pass the test are among those of the whole. -/
theorem Lacks.subset (h : Lacks f whole points) : points.entries ⊆ whole.entries := by
  intro p hp
  have hlookup := mem_entries.mp hp
  rcases h p.1 with heq | ⟨hnone, -⟩
  · exact mem_entries.mpr (heq.symm.trans hlookup)
  · rw [hnone] at hlookup
    cases hlookup

/-- If as many points pass a weaker test as in the whole, nothing is missing. -/
theorem Lacks.eq_of_count (h : Lacks f whole points) (hg : ∀ p, f p = true → g p = true)
    (hcount : points.count g = whole.count g) (id : String) : points.lookup id = whole.lookup id := by
  rcases h id with heq | ⟨hnone, body, hbody, hf⟩
  · exact heq
  · have hnodup : (points.entries.filter g).Nodup := points.nodupKeys.nodup.filter g
    have hsub : points.entries.filter g ⊆ whole.entries.filter g := by
      intro p hp
      rw [List.mem_filter] at hp ⊢
      exact ⟨h.subset hp.1, hp.2⟩
    have hlength : (whole.entries.filter g).length ≤ (points.entries.filter g).length := by
      rw [← List.countP_eq_length_filter, ← List.countP_eq_length_filter]
      exact hcount.ge
    have hperm := (List.subperm_of_subset hnodup hsub).perm_of_length_le hlength
    have hmem : (⟨id, body⟩ : Point) ∈ whole.entries.filter g :=
      List.mem_filter.mpr ⟨mem_entries.mpr hbody, hg _ hf⟩
    have hthere := mem_entries.mp (List.mem_filter.mp (hperm.symm.subset hmem)).1
    rw [hnone] at hthere
    cases hthere

end Lacks

/-! ## The adapter -/

/-- What is raised: by the vector store, by the knowledge store, or by the pipeline itself. -/
inductive Failure where
  | vectors
  | knowledge (e : StoreError)
  | value (message : String)
  | runtime (message : String)

/-- The document whose points are meant, with its scope. -/
structure Target where
  document_id : String
  collection_id : String
  tenant_id : String
  workspace_id : String

/-- The payload has the document and the collection. -/
def Target.names (target : Target) (p : Point) : Bool :=
  isText target.document_id (Json.member? "document_id" p.2.payload) &&
    isText target.collection_id (Json.member? "collection_id" p.2.payload)

/-- The payload has the document and its whole scope. -/
def Target.owns (target : Target) (p : Point) : Bool :=
  target.names p && isText target.tenant_id (Json.member? "tenant_id" p.2.payload) &&
    isText target.workspace_id (Json.member? "workspace_id" p.2.payload)

/-- How points can be read: those of one document, all of them (with or without a limit that is given),
or not at all. -/
inductive Reader where
  | snapshotDocument
  | allPoints (takes_limit : Bool)
  | missing

/-- A batch of a plan: some of the points, or what is no list. A plan may also raise when it is asked for
its next batch. -/
inductive Batch (points : List Point) where
  | points (batch : List {p // p ∈ points})
  | malformed
  | raises

/-- What a vector store offers: whether it is called with the scope, how its points can be read,
`limits.max_points` if that is a whole number, and `plan_upsert_batches`. -/
structure Adapter where
  is_scoped : Bool
  reader : Reader
  max_points : Option ℤ
  planner : Option ((points : List Point) → List (Batch points))

/-- The points that the calls for a document are about. -/
def Adapter.selects (adapter : Adapter) (target : Target) (p : Point) : Bool :=
  if adapter.is_scoped then target.owns p else target.names p

/-- The end of a write: it returns a number, or it raises when it has written some of the points. -/
inductive Write where
  | returns (n : ℤ)
  | raises (written : Point → Bool)

/-- Which calls raise, and what they have done by then. The deletion raises when it has removed some of
the points; the writes are numbered. -/
structure Faults where
  count : Bool
  snapshot : Bool
  delete : Option (Point → Bool)
  upsert : ℕ → Write
  recount : Bool

/-- A procedure of the vector store. -/
abbrev PointProc := Proc Points Failure

variable (adapter : Adapter) (target : Target)

/-- `count_for_document`. -/
def countForDocument (raises : Bool) : PointProc ℕ := do
  Proc.raiseIf raises .vectors
  let points : Points ← get
  return points.count (adapter.selects target)

/-- `delete_document`. -/
def deleteDocument (fault : Option (Point → Bool)) : PointProc Unit := do
  let points : Points ← get
  match fault with
  | none => set (points.keep fun p => !adapter.selects target p)
  | some removed =>
    set (points.keep fun p => !(adapter.selects target p && removed p))
    Proc.raise .vectors

/-- `upsert_points`. -/
def upsertPoints (write : Write) (batch : List Point) : PointProc ℤ := do
  let points : Points ← get
  match write with
  | .returns n =>
    set (points.put batch)
    return n
  | .raises written =>
    set (points.put (batch.filter written))
    Proc.raise .vectors

section Calls

variable {adapter target} {whole : Points} {f : Point → Bool} {points : Points}

/-- The number of points is read. -/
theorem countForDocument_spec (raises : Bool) : Proc.Holds (countForDocument adapter target raises) points
    fun r points' => points' = points ∧ ∀ n, r = .ok n → n = points.count (adapter.selects target) := by
  refine Proc.holds_raiseIf_bind (fun _ => ⟨rfl, fun n h => by cases h⟩) fun _ => ?_
  refine Proc.holds_get_bind (Proc.holds_pure ⟨rfl, fun n h => ?_⟩)
  cases h
  rfl

/-- What is deleted is missing. -/
theorem deleteDocument_spec (fault : Option (Point → Bool)) (h : Lacks f whole points)
    (hselects : ∀ id body, whole.lookup id = some body → adapter.selects target ⟨id, body⟩ = true →
      f ⟨id, body⟩ = true) :
    Proc.Holds (deleteDocument adapter target fault) points fun _ points' => Lacks f whole points' := by
  refine Proc.holds_get_bind ?_
  cases fault with
  | none =>
    refine Proc.holds_set (h.keep fun id body hbody hdeleted => hselects id body hbody ?_)
    rwa [Bool.not_eq_false'] at hdeleted
  | some removed =>
    refine Proc.holds_set_bind (Proc.holds_raise (h.keep fun id body hbody hdeleted => ?_))
    rw [Bool.not_eq_false', Bool.and_eq_true] at hdeleted
    exact hselects id body hbody hdeleted.1

/-- What is written of points of the whole is not missing. -/
theorem upsertPoints_spec (write : Write) {batch : List Point} (h : Lacks f whole points)
    (hbatch : ∀ p ∈ batch, whole.lookup p.1 = some p.2) :
    Proc.Holds (upsertPoints write batch) points fun _ points' => Lacks f whole points' := by
  refine Proc.holds_get_bind ?_
  cases write with
  | returns n => exact Proc.holds_set_bind (Proc.holds_pure (h.put hbatch))
  | raises written =>
    refine Proc.holds_set_bind (Proc.holds_raise (h.put fun p hp => ?_))
    exact hbatch p (List.mem_filter.mp hp).1

end Calls

end RickIntelligence.Ingestion
