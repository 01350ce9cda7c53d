import RickIntelligence.Knowledge.Identity
import RickIntelligence.Lib.Json
import RickIntelligence.Lib.Run
import RickIntelligence.Lib.Tx

/-!
# The catalog of collections

The collections of `InMemoryKnowledgeStore` in `rick_knowledge/store.py`, with the alias rules of
`rick_knowledge/fencing.py`. Several rows may stand for the canonical collection, one under each of
its names. A read selects one of them, archived rows first; a write is redirected to the row that a
read selects.

An archive is permanent for every name of the collection, and no call is seen in another tenant,
workspace or family of names (`archive_permanent`).
-/

namespace RickIntelligence.Knowledge

open Lib

/-! ## Rows -/

/-- The values of `status`. A caller may write any text there. -/
inductive CollectionStatus where
  | active
  | archived
  | other (text : String)
  deriving DecidableEq, Repr

/-- `Collection`. -/
structure Collection where
  workspace_id : String
  collection_id : String
  tenant_id : String
  title : String
  description : String
  status : CollectionStatus
  version : ℤ
  metadata : Json.Members

/-- The key of `_collections`: the tenant, the workspace and the collection. -/
abbrev CollectionKey := String × String × String

/-- The key of a row. -/
def Collection.key (c : Collection) : CollectionKey := (c.tenant_id, c.workspace_id, c.collection_id)

variable {name c : String}

/-- A key has the three parts of the row. -/
theorem Collection.key_eq {t w : String} {c : Collection} (h : (t, w, name) = c.key) :
    t = c.tenant_id ∧ w = c.workspace_id ∧ name = c.collection_id := by
  unfold Collection.key at h
  simpa only [Prod.mk.injEq] using h

/-- `_collections`. -/
abbrev Catalog := AList fun _ : CollectionKey => Collection

/-- `ValueError`, with its message. -/
structure CatalogError where
  message : String
  deriving DecidableEq, Repr

/-! ## Selection -/

/-- `catalog_collection_ids`. -/
def catalogCollectionIds (collection_id : String) : List String :=
  let canonical := canonicalCatalogId collection_id
  canonical :: ((collectionAliases.filter fun p => p.2 == canonical && p.1 != canonical).map
    Prod.fst).insertionSort (· ≤ ·)

/-- The order in which `select_catalog_collection` prefers the rows. -/
def selectionRank (keys : List String) (c : Collection) : Bool ×ₗ ℕ :=
  toLex (c.status != .archived, keys.idxOf c.collection_id)

/-- `select_catalog_collection`. -/
def selectCatalogCollection (collections : List (Option Collection)) (collection_id : String) :
    Option Collection :=
  let keys := catalogCollectionIds collection_id
  let candidates := (collections.filterMap id).filter fun c => keys.contains c.collection_id
  candidates.argmin (selectionRank keys)

/-- The rows of a collection, under each of its names. -/
def Catalog.rows (s : Catalog) (tenant_id workspace_id collection_id : String) :
    List (Option Collection) :=
  (catalogCollectionIds collection_id).map fun key => s.lookup (tenant_id, workspace_id, key)

/-- `get_collection`. -/
def getCollection (s : Catalog) (workspace_id collection_id tenant_id : String) :
    Except CatalogError (Option Collection) :=
  if strip tenant_id = "" then .error ⟨"tenant_id is required"⟩
  else .ok (selectCatalogCollection (s.rows (strip tenant_id) workspace_id collection_id)
    collection_id)

/-! ## Writes -/

/-- A change of the catalog. -/
abbrev CatalogTx := Tx Catalog CatalogError

/-- The methods that `collection_mutation` decorates. -/
inductive CatalogMethod where
  | ensure
  | upsert
  deriving DecidableEq, Repr

/-- The body of `ensure_collection`. -/
def ensureBody (collection : Collection) : CatalogTx (Option Collection) := do
  let s : Catalog ← get
  match s.lookup collection.key with
  | some row => return some row
  | none =>
    Tx.raiseIf (collection.status != .active && collection.status != .archived)
      ⟨"unknown collection status"⟩
    set (s.insert collection.key collection)
    return some collection

/-- The body of `upsert_collection`. -/
def upsertBody (collection : Collection) : CatalogTx (Option Collection) := do
  Tx.raiseIf (collection.status != .active && collection.status != .archived)
    ⟨"unknown collection status"⟩
  let s : Catalog ← get
  set (s.insert collection.key collection)
  return none

/-- The method that is decorated. -/
def CatalogMethod.body : CatalogMethod → Collection → CatalogTx (Option Collection)
  | ensure => ensureBody
  | upsert => upsertBody

/-- What `collection_mutation` does with the row that a read selects: `ensure_collection` returns it,
or a copy of it under the canonical name is written; another write goes to its key. -/
def redirect (method : CatalogMethod) (canonical : String) (existing : Option Collection)
    (collection : Collection) : CatalogTx (Option Collection) :=
  match method, existing with
  | .ensure, some row =>
    if row.status = .archived ∨ row.collection_id = canonical then return some row
    else method.body { row with collection_id := canonical }
  | _, some row => do
    Tx.raiseIf (row.status == .archived && collection.status == .active)
      ⟨"archived collection cannot be reactivated by upsert"⟩
    method.body { collection with collection_id := row.collection_id }
  | _, none => method.body { collection with collection_id := canonical }

/-- `collection_mutation`, with the check of `collection_guard_key`. -/
def collectionMutation (method : CatalogMethod) (collection : Collection) :
    CatalogTx (Option Collection) := do
  Tx.raiseIf ([collection.tenant_id, collection.workspace_id, collection.collection_id].any
    fun value => strip value == "") ⟨"collection guard requires a complete scope"⟩
  let canonical := canonicalCatalogId collection.collection_id
  if 1 < (catalogCollectionIds canonical).length then
    let s : Catalog ← get
    let existing ← Tx.lift (getCollection s collection.workspace_id canonical collection.tenant_id)
    redirect method canonical existing collection
  else method.body collection

/-! ## Runs -/

/-- A call of a method that writes. -/
structure CatalogCall where
  method : CatalogMethod
  collection : Collection

/-- A call that raises leaves the catalog as it was. -/
def CatalogCall.exec (call : CatalogCall) (s : Catalog) : Catalog :=
  ((collectionMutation call.method call.collection).commit s).2

/-- One call. -/
def CatalogStep (s s' : Catalog) : Prop := ∃ call : CatalogCall, s' = call.exec s

/-- The catalogs that calls lead to from an empty one. -/
def CatalogReachable : Catalog → Prop := Relation.ReflTransGen CatalogStep ∅

/-! ## Families of names -/

/-- The names of the canonical collection are stripped. -/
theorem strip_alias (h : name ∈ aliasNames) : strip name = name := by
  have hall : ∀ n ∈ aliasNames, strip n = n := by decide +kernel
  exact hall name h

/-- The canonical collection has its names for spellings. -/
theorem strip_mem (h : name ∈ aliasNames) : strip name ∈ aliasNames := by
  rw [strip_alias h]
  exact h

/-- The catalog folds the aliases, with or without spaces around them. -/
theorem canonicalCatalogId_eq (c : String) :
    canonicalCatalogId c = if strip c ∈ aliasNames then canonicalCollectionId else c :=
  aliasOr_eq c (strip c)

/-- A name of the family of the canonical collection is a spelling of an alias. -/
theorem catalogCollectionIds_alias (h : strip c ∈ aliasNames) :
    catalogCollectionIds c = ["rag_phase0", "cvg_master_rag", "rickvet_documents"] := by
  unfold catalogCollectionIds
  rw [canonicalCatalogId_eq, if_pos h]
  decide +kernel

/-- Another name is alone in its family. -/
theorem catalogCollectionIds_other (h : strip c ∉ aliasNames) :
    catalogCollectionIds c = [c] := by
  have hne : c ≠ canonicalCollectionId := by
    rintro rfl
    exact h (strip_mem canonical_mem)
  have hnone : (collectionAliases.filter fun p => p.2 == c && p.1 != c) = [] := by
    apply List.filter_eq_nil_iff.mpr
    intro p hp
    rw [alias_value p hp, beq_false_of_ne hne.symm]
    simp
  unfold catalogCollectionIds
  simp only [canonicalCatalogId_eq, if_neg h, hnone]
  rfl

/-- The names in the family of a spelling of an alias are the aliases. -/
theorem mem_catalogCollectionIds_alias (h : strip c ∈ aliasNames) :
    name ∈ catalogCollectionIds c ↔ name ∈ aliasNames := by
  have hperm : ["rag_phase0", "cvg_master_rag", "rickvet_documents"].Perm aliasNames := by
    decide +kernel
  rw [catalogCollectionIds_alias h, hperm.mem_iff]

/-- A name is in the family of another exactly when the catalog folds the two alike. -/
theorem canonicalCatalogId_of_mem (h : name ∈ catalogCollectionIds c) :
    canonicalCatalogId name = canonicalCatalogId c := by
  by_cases hc : strip c ∈ aliasNames
  · have hname := (mem_catalogCollectionIds_alias hc).mp h
    rw [canonicalCatalogId_eq, canonicalCatalogId_eq, if_pos hc, if_pos (strip_mem hname)]
  · rw [catalogCollectionIds_other hc] at h
    rw [List.mem_singleton.mp h]

/-- The canonical name of a family is in it. -/
theorem canonicalCatalogId_mem (c : String) : canonicalCatalogId c ∈ catalogCollectionIds c :=
  List.mem_cons_self

/-- Folding twice is folding once. -/
theorem canonicalCatalogId_idem (c : String) :
    canonicalCatalogId (canonicalCatalogId c) = canonicalCatalogId c :=
  canonicalCatalogId_of_mem (canonicalCatalogId_mem c)

/-- The family of a name is that of its canonical name. -/
theorem catalogCollectionIds_canonical (c : String) :
    catalogCollectionIds (canonicalCatalogId c) = catalogCollectionIds c := by
  unfold catalogCollectionIds
  rw [canonicalCatalogId_idem]

/-- A family of more than one name is that of the aliases. -/
theorem family_length (c : String) :
    1 < (catalogCollectionIds (canonicalCatalogId c)).length ↔ strip c ∈ aliasNames := by
  rw [catalogCollectionIds_canonical]
  by_cases hc : strip c ∈ aliasNames
  · simp [catalogCollectionIds_alias hc, hc]
  · simp [catalogCollectionIds_other hc, hc]

/-! ## What a read selects -/

/-- Every row is under its own key, with a status that the writes accept. -/
def Catalog.WellFormed (s : Catalog) : Prop :=
  ∀ k row, s.lookup k = some row → row.key = k ∧ (row.status = .active ∨ row.status = .archived)

section

variable {s : Catalog} {t w c : String}

variable {row : Collection} {r : Option Collection} {s' : Catalog}

/-- The rows of a family that a read chooses from. -/
theorem mem_candidates (hs : s.WellFormed) :
    row ∈ ((s.rows t w c).filterMap id).filter (fun r =>
      (catalogCollectionIds c).contains r.collection_id) ↔
    row.collection_id ∈ catalogCollectionIds c ∧ s.lookup (t, w, row.collection_id) = some row := by
  simp only [Catalog.rows, List.filterMap_map, List.mem_filter, List.mem_filterMap, Function.comp,
    id, List.contains_iff_mem]
  constructor
  · rintro ⟨⟨name, hname, hrow⟩, hmem⟩
    have hid : row.collection_id = name := (Collection.key_eq (hs _ _ hrow).1.symm).2.2.symm
    exact ⟨hmem, hid ▸ hrow⟩
  · rintro ⟨hmem, hrow⟩
    exact ⟨⟨row.collection_id, hmem, hrow⟩, hmem⟩

/-- A selected row is one of the family. -/
theorem select_mem (hs : s.WellFormed) (h : selectCatalogCollection (s.rows t w c) c = some row) :
    row.collection_id ∈ catalogCollectionIds c ∧ s.lookup (t, w, row.collection_id) = some row :=
  (mem_candidates hs).mp (List.argmin_mem h)

/-- An archived row of the family is there. -/
def Catalog.Archived (s : Catalog) (t w c : String) : Prop :=
  ∃ name ∈ catalogCollectionIds c, ∃ row, s.lookup (t, w, name) = some row ∧ row.status = .archived

/-- A read selects an archived row exactly when the family has one. -/
theorem select_archived (hs : s.WellFormed) :
    (∃ row, selectCatalogCollection (s.rows t w c) c = some row ∧ row.status = .archived) ↔
      s.Archived t w c := by
  constructor
  · rintro ⟨row, hrow, harchived⟩
    obtain ⟨hmem, hlookup⟩ := select_mem hs hrow
    exact ⟨row.collection_id, hmem, row, hlookup, harchived⟩
  · rintro ⟨name, hname, row, hlookup, harchived⟩
    have hid : row.collection_id = name := (Collection.key_eq (hs _ _ hlookup).1.symm).2.2.symm
    have hcandidate := (mem_candidates (c := c) hs).mpr ⟨hid ▸ hname, hid ▸ hlookup⟩
    cases hselected : selectCatalogCollection (s.rows t w c) c with
    | none =>
      rw [List.argmin_eq_none.mp hselected] at hcandidate
      cases hcandidate
    | some selected =>
      refine ⟨selected, rfl, ?_⟩
      -- A row that is not archived would rank behind the archived one.
      by_contra hne
      refine List.not_lt_of_mem_argmin hcandidate hselected ?_
      unfold selectionRank
      rw [Prod.Lex.toLex_lt_toLex]
      left
      have hselected : (selected.status != .archived) = true := by simpa using hne
      rw [harchived, hselected]
      exact Bool.false_lt_true

/-! ## What a call writes -/

/-- A call leaves the catalog as it was, or writes one row of its own family with a status that is
accepted, which is archived if the family of the aliases has an archived row. -/
structure CatalogCall.Writes (call : CatalogCall) (s : Catalog) (row : Collection) : Prop where
  status : row.status = .active ∨ row.status = .archived
  tenant : strip row.tenant_id = strip call.collection.tenant_id
  workspace : row.workspace_id = call.collection.workspace_id
  family : row.collection_id ∈ catalogCollectionIds call.collection.collection_id
  archived : strip call.collection.collection_id ∈ aliasNames →
    s.Archived (strip call.collection.tenant_id) call.collection.workspace_id
      call.collection.collection_id → row.status = .archived

/-- The body of a method leaves the catalog as it was, or writes its row. -/
theorem body_cases (method : CatalogMethod) {collection : Collection} (h : method.body collection s = .ok (r, s')) :
    s' = s ∨ s' = s.insert collection.key collection ∧
      (collection.status = .active ∨ collection.status = .archived) := by
  have hstatus : ∀ {st : CollectionStatus}, (st != .active && st != .archived) = false →
      st = .active ∨ st = .archived := by
    intro st hst
    rcases Bool.and_eq_false_iff.mp hst with h | h
    · exact .inl (by simpa using h)
    · exact .inr (by simpa using h)
  cases method with
  | ensure =>
    simp only [CatalogMethod.body, ensureBody, Tx.bind_ok, Tx.get_ok] at h
    obtain ⟨_, _, ⟨rfl, rfl⟩, h⟩ := h
    cases hlookup : s.lookup collection.key with
    | some row =>
      simp only [hlookup, Tx.pure_ok] at h
      exact .inl h.2.symm
    | none =>
      simp only [hlookup, Tx.bind_ok, Tx.raiseIf_ok, Tx.set_ok, Tx.pure_ok] at h
      obtain ⟨_, _, ⟨hst, rfl⟩, _, _, rfl, -, rfl⟩ := h
      exact .inr ⟨rfl, hstatus hst⟩
  | upsert =>
    simp only [CatalogMethod.body, upsertBody, Tx.bind_ok, Tx.raiseIf_ok, Tx.get_ok, Tx.set_ok,
      Tx.pure_ok] at h
    obtain ⟨_, _, ⟨hst, rfl⟩, _, _, ⟨rfl, rfl⟩, _, _, rfl, -, rfl⟩ := h
    exact .inr ⟨rfl, hstatus hst⟩

/-- The redirection of a call to the aliases writes a row of the family. -/
theorem redirect_cases (hs : s.WellFormed) {call : CatalogCall}
    (hc : strip call.collection.collection_id ∈ aliasNames)
    (h : redirect call.method (canonicalCatalogId call.collection.collection_id)
      (selectCatalogCollection (s.rows (strip call.collection.tenant_id) call.collection.workspace_id
        (canonicalCatalogId call.collection.collection_id))
        (canonicalCatalogId call.collection.collection_id)) call.collection s = .ok (r, s')) :
    s' = s ∨ ∃ row, s' = s.insert row.key row ∧ call.Writes s row := by
  obtain ⟨method, collection⟩ := call
  simp only at hc h ⊢
  have hrows : s.rows (strip collection.tenant_id) collection.workspace_id
      (canonicalCatalogId collection.collection_id) =
      s.rows (strip collection.tenant_id) collection.workspace_id collection.collection_id := by
    unfold Catalog.rows
    rw [catalogCollectionIds_canonical]
  have hselect : ∀ rows, selectCatalogCollection rows (canonicalCatalogId collection.collection_id) =
      selectCatalogCollection rows collection.collection_id := by
    intro rows
    unfold selectCatalogCollection
    rw [catalogCollectionIds_canonical]
  rw [hrows, hselect] at h
  have hcanonical := canonicalCatalogId_mem collection.collection_id
  cases hexisting : selectCatalogCollection (s.rows (strip collection.tenant_id)
      collection.workspace_id collection.collection_id) collection.collection_id with
  | none =>
    -- There is no row of the family, and so no archived one.
    have hnone : ¬ s.Archived (strip collection.tenant_id) collection.workspace_id
        collection.collection_id := by
      intro harchived
      obtain ⟨row, hrow, -⟩ := (select_archived hs).mpr harchived
      rw [hexisting] at hrow
      cases hrow
    have hbody : method.body { collection with
        collection_id := canonicalCatalogId collection.collection_id } s = .ok (r, s') := by
      rw [hexisting] at h
      cases method <;> exact h
    rcases body_cases _ hbody with hsame | ⟨hs', hstatus⟩
    · exact .inl hsame
    · exact .inr ⟨_, hs', hstatus, rfl, rfl, hcanonical, fun _ hold => absurd hold hnone⟩
  | some row =>
    obtain ⟨hmem, hlookup⟩ := select_mem hs hexisting
    obtain ⟨htenant, hworkspace, -⟩ := Collection.key_eq (hs _ _ hlookup).1.symm
    have harchived : s.Archived (strip collection.tenant_id) collection.workspace_id
        collection.collection_id → row.status = .archived := by
      intro hold
      obtain ⟨row', hrow', hst⟩ := (select_archived hs).mpr hold
      rw [hexisting] at hrow'
      cases hrow'
      exact hst
    rw [hexisting] at h
    cases method with
    | ensure =>
      simp only [redirect] at h
      split at h
      · exact .inl (Tx.pure_ok.mp h).2.symm
      · next hnot =>
        rcases body_cases .ensure h with hsame | ⟨hs', hstatus⟩
        · exact .inl hsame
        · refine .inr ⟨_, hs', hstatus, ?_, hworkspace.symm, hcanonical, ?_⟩
          · show strip row.tenant_id = strip collection.tenant_id
            rw [← htenant, strip_strip]
          · intro _ hold
            exact absurd (.inl (harchived hold)) hnot
    | upsert =>
      simp only [redirect, Tx.bind_ok, Tx.raiseIf_ok] at h
      obtain ⟨_, _, ⟨hraise, rfl⟩, h⟩ := h
      rcases body_cases .upsert h with hsame | ⟨hs', hstatus⟩
      · exact .inl hsame
      · refine .inr ⟨_, hs', hstatus, rfl, rfl, hmem, ?_⟩
        intro _ hold
        -- The selected row is archived, so the status of the call is not active.
        rcases hstatus with hactive | harch
        · have hactive' : collection.status = .active := hactive
          rw [harchived hold, hactive'] at hraise
          cases hraise
        · exact harch

/-- A call leaves the catalog as it was, or writes one row of its family. -/
theorem exec_cases (hs : s.WellFormed) (call : CatalogCall) :
    call.exec s = s ∨ ∃ row, call.exec s = s.insert row.key row ∧ call.Writes s row := by
  unfold CatalogCall.exec Tx.commit
  cases hrun : collectionMutation call.method call.collection s with
  | error e => exact .inl rfl
  | ok p =>
    obtain ⟨r, s'⟩ := p
    simp only
    simp only [collectionMutation, Tx.bind_ok, Tx.raiseIf_ok] at hrun
    obtain ⟨_, _, ⟨-, rfl⟩, hrun⟩ := hrun
    by_cases hc : strip call.collection.collection_id ∈ aliasNames
    · rw [if_pos ((family_length _).mpr hc)] at hrun
      simp only [Tx.bind_ok, Tx.get_ok, Tx.lift_ok] at hrun
      obtain ⟨_, _, ⟨rfl, rfl⟩, existing, _, ⟨hget, rfl⟩, hrun⟩ := hrun
      unfold getCollection at hget
      split at hget
      · cases hget
      · cases hget
        exact redirect_cases hs hc hrun
    · rw [if_neg fun hlength => hc ((family_length _).mp hlength)] at hrun
      rcases body_cases _ hrun with hsame | ⟨hs', hstatus⟩
      · exact .inl hsame
      · refine .inr ⟨_, hs', hstatus, rfl, rfl, ?_, fun hmem => absurd hmem hc⟩
        rw [catalogCollectionIds_other hc]
        exact List.mem_singleton_self _

/-- A call keeps every row under its own key. -/
theorem exec_wellFormed (hs : s.WellFormed) (call : CatalogCall) : (call.exec s).WellFormed := by
  rcases exec_cases hs call with hsame | ⟨row, hrow, hwrites⟩
  · rw [hsame]
    exact hs
  · rw [hrow]
    intro k x hx
    by_cases hk : k = row.key
    · rw [hk, AList.lookup_insert] at hx
      cases hx
      exact ⟨hk.symm, hwrites.status⟩
    · rw [AList.lookup_insert_ne hk] at hx
      exact hs k x hx

/-- A call keeps the archive of the aliases. -/
theorem exec_archived (hs : s.WellFormed) (call : CatalogCall) (ht : strip t = t)
    (hc : strip c ∈ aliasNames) (h : s.Archived t w c) : (call.exec s).Archived t w c := by
  rcases exec_cases hs call with hsame | ⟨row, hrow, hwrites⟩
  · rw [hsame]
    exact h
  obtain ⟨name, hname, old, hold, harchived⟩ := h
  by_cases hkey : (t, w, name) = row.key
  · -- The call writes over the archived row, which is one of its own family.
    refine ⟨name, hname, row, by rw [hrow, hkey, AList.lookup_insert], ?_⟩
    obtain ⟨hrt, hrw, hid⟩ := Collection.key_eq hkey
    have htenant : t = strip call.collection.tenant_id := by rw [← hwrites.tenant, ← hrt, ht]
    have hworkspace : w = call.collection.workspace_id := hrw.trans hwrites.workspace
    have halias : strip call.collection.collection_id ∈ aliasNames := by
      by_contra hother
      have hfamily := hwrites.family
      rw [catalogCollectionIds_other hother] at hfamily
      rw [← List.mem_singleton.mp hfamily, ← hid] at hother
      exact hother (strip_mem ((mem_catalogCollectionIds_alias hc).mp hname))
    refine hwrites.archived halias ⟨name, ?_, old, ?_, harchived⟩
    · rw [catalogCollectionIds_alias halias, ← catalogCollectionIds_alias hc]
      exact hname
    · rw [← htenant, ← hworkspace]
      exact hold
  · exact ⟨name, hname, old, by rw [hrow, AList.lookup_insert_ne hkey]; exact hold, harchived⟩

/-- A call is not seen in another tenant, workspace or family of names. -/
theorem exec_frame (hs : s.WellFormed) (call : CatalogCall)
    (h : ¬ (strip t = strip call.collection.tenant_id ∧ w = call.collection.workspace_id ∧
      canonicalCatalogId c = canonicalCatalogId call.collection.collection_id)) :
    getCollection (call.exec s) w c t = getCollection s w c t := by
  have hrows : (call.exec s).rows (strip t) w c = s.rows (strip t) w c := by
    rcases exec_cases hs call with hsame | ⟨row, hrow, hwrites⟩
    · rw [hsame]
    · unfold Catalog.rows
      apply List.map_congr_left
      intro name hname
      rw [hrow]
      apply AList.lookup_insert_ne
      intro hkey
      apply h
      obtain ⟨hrt, hrw, hid⟩ := Collection.key_eq hkey
      refine ⟨?_, hrw.trans hwrites.workspace, ?_⟩
      · rw [← hwrites.tenant, ← hrt, strip_strip]
      · rw [← canonicalCatalogId_of_mem hname, hid, canonicalCatalogId_of_mem hwrites.family]
  unfold getCollection
  rw [hrows]

/-! ## Runs of calls -/

/-- A read of the aliases returns an archived row exactly when the family has one. -/
theorem getCollection_archived (hs : s.WellFormed) :
    (∃ row, getCollection s w c t = .ok (some row) ∧ row.status = .archived) ↔
      strip t ≠ "" ∧ s.Archived (strip t) w c := by
  rw [← select_archived hs]
  unfold getCollection
  by_cases ht : strip t = ""
  · simp [ht]
  · simp [ht]

/-- The rows of a catalog that calls lead to are under their own keys. -/
theorem CatalogReachable.wellFormed (hs : CatalogReachable s) : s.WellFormed := by
  refine run_invariant (I := Catalog.WellFormed) ?_ ?_ hs
  · rintro a _ ha ⟨call, rfl⟩
    exact exec_wellFormed ha call
  · intro k row hrow
    rw [AList.lookup_empty] at hrow
    cases hrow

/-- Calls keep the archive of the aliases. -/
theorem run_archived (hs : s.WellFormed) (h : Relation.ReflTransGen CatalogStep s s') (ht : strip t = t)
    (hc : strip c ∈ aliasNames) (harchived : s.Archived t w c) :
    s'.WellFormed ∧ s'.Archived t w c := by
  refine run_invariant (I := fun a => a.WellFormed ∧ a.Archived t w c) ?_ ⟨hs, harchived⟩ h
  rintro a _ ⟨ha, hold⟩ ⟨call, rfl⟩
  exact ⟨exec_wellFormed ha call, exec_archived ha call ht hc hold⟩

end

/-- **An archive is permanent for all names of the collection.** Once a read of the canonical
collection under one spelling returns an archived row, every later read under any spelling does, in
the same tenant and workspace; and no call changes what a read returns in another tenant, workspace
or family of names. A tenant is what a read takes it for, the text without the spaces around it. -/
theorem archive_permanent (s : Catalog) (hs : CatalogReachable s) :
    (∀ (s' : Catalog) (t w c c' : String) (row : Collection),
      Relation.ReflTransGen CatalogStep s s' → strip c ∈ aliasNames → strip c' ∈ aliasNames →
      getCollection s w c t = .ok (some row) → row.status = .archived →
      ∃ row', getCollection s' w c' t = .ok (some row') ∧ row'.status = .archived) ∧
    ∀ (call : CatalogCall) (t w c : String),
      ¬ (strip t = strip call.collection.tenant_id ∧ w = call.collection.workspace_id ∧
        canonicalCatalogId c = canonicalCatalogId call.collection.collection_id) →
      getCollection (call.exec s) w c t = getCollection s w c t := by
  constructor
  · intro s' t w c c' row hrun hc hc' hget harchived
    obtain ⟨ht, hold⟩ := (getCollection_archived hs.wellFormed).mp ⟨row, hget, harchived⟩
    obtain ⟨hs', hnew⟩ := run_archived hs.wellFormed hrun (strip_strip t) hc hold
    refine (getCollection_archived hs').mpr ⟨ht, ?_⟩
    -- Every spelling has the same family.
    unfold Catalog.Archived at hnew ⊢
    rw [catalogCollectionIds_alias hc', ← catalogCollectionIds_alias hc]
    exact hnew
  · intro call t w c h
    exact exec_frame hs.wellFormed call h

/-- A collection of one tenant. -/
def plainCollection (collection_id : String) (status : CollectionStatus) : Collection where
  workspace_id := "workspace-1"
  collection_id := collection_id
  tenant_id := "tenant-1"
  title := ""
  description := ""
  status := status
  version := 1
  metadata := []

/-- The catalog after an alias was archived. -/
def archivedCatalog : Catalog :=
  CatalogCall.exec ⟨.upsert, plainCollection "cvg_master_rag" .archived⟩ ∅

/-- The archive of an alias is seen under the other alias, after a call that would write an active
row. -/
theorem archivedCatalog_permanent :
    ∃ row', getCollection (CatalogCall.exec ⟨.upsert, plainCollection "rag_phase0" .active⟩
      archivedCatalog) "workspace-1" " rickvet_documents" "tenant-1" = .ok (some row') ∧
      row'.status = .archived := by
  have hreachable : CatalogReachable archivedCatalog := .tail .refl ⟨_, rfl⟩
  have harchived : ((getCollection archivedCatalog "workspace-1" "rag_phase0" "tenant-1").toOption.join.map
      Collection.status) = some .archived := by decide +kernel
  obtain ⟨row, hrow, hstatus⟩ := Option.map_eq_some_iff.mp harchived
  refine (archive_permanent archivedCatalog hreachable).1 _ _ _ "rag_phase0" _ row
    (.tail .refl ⟨_, rfl⟩) (by decide +kernel) (by decide +kernel) ?_ hstatus
  cases hget : getCollection archivedCatalog "workspace-1" "rag_phase0" "tenant-1" with
  | error e =>
    rw [hget] at hrow
    cases hrow
  | ok selected =>
    rw [hget] at hrow
    exact congrArg Except.ok hrow

end RickIntelligence.Knowledge
