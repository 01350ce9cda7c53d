import RickIntelligence.Grounding.Evidence

/-!
# Evidence bundles

The items of evidence of one scope under one id, of `rick_evidence/models.py`. The model accepts a bundle
only if its items are of its scope, no two of them have one id, its citations are those of the items, and
its id is derived (`accepted_iff`), so that a bundle that was built can be read off as such (`Bundle.spec`).
-/

namespace RickIntelligence.Grounding

open Lib Lib.JsonText

/-! ## Scopes -/

/-- `EvidenceScope`, as it is given. -/
structure ScopeRecord where
  tenant_id : String
  workspace_id : String
  collection_id : String
  deriving DecidableEq

/-- `EvidenceScope.model_validate`. -/
def ScopeRecord.modelValidate (scope : ScopeRecord) : Except String ScopeRecord := do
  let tenant_id ← tokenField "tenant_id" scope.tenant_id
  let workspace_id ← tokenField "workspace_id" scope.workspace_id
  let collection_id ← tokenField "collection_id" scope.collection_id
  return ⟨tenant_id, workspace_id, collection_id⟩

/-- The fields of a scope that is accepted. -/
theorem scope_ok {scope scope' : ScopeRecord} : scope.modelValidate = .ok scope' ↔
    tokenField "tenant_id" scope.tenant_id = .ok scope'.tenant_id ∧
      tokenField "workspace_id" scope.workspace_id = .ok scope'.workspace_id ∧
      tokenField "collection_id" scope.collection_id = .ok scope'.collection_id := by
  simp only [ScopeRecord.modelValidate, except_bind_ok, pure, Except.pure, Except.ok.injEq]
  constructor
  · rintro ⟨_, h1, _, h2, _, h3, rfl⟩
    exact ⟨h1, h2, h3⟩
  · rintro ⟨h1, h2, h3⟩
    exact ⟨_, h1, _, h2, _, h3, rfl⟩

instance : Normalises ScopeRecord.modelValidate where
  idem := by
    intro scope scope' h
    obtain ⟨h1, h2, h3⟩ := scope_ok.mp h
    exact scope_ok.mpr ⟨tokenField_idem h1, tokenField_idem h2, tokenField_idem h3⟩

/-- `EvidenceScope`. -/
abbrev EvidenceScope := Validated ScopeRecord.modelValidate

/-- The scope that an item says it is of. -/
def Provenance.scope (p : Provenance) : ScopeRecord := ⟨p.tenant_id, p.workspace_id, p.collection_id⟩

/-! ## Bundles -/

-- What makes an item acceptable plays no part in the records that hold items.
attribute [local irreducible] EvidenceRecord.modelValidate

/-- `EvidenceBundle`, as it is given. -/
structure BundleRecord (env : Env) where
  bundle_id : String
  tenant_id : String
  workspace_id : String
  collection_id : String
  query : String
  evidence : List (Evidence env)
  citation_map : List (String × String)

variable {env : Env}

/-- The scope that a bundle says it is of. -/
def BundleRecord.scope (b : BundleRecord env) : ScopeRecord :=
  ⟨b.tenant_id, b.workspace_id, b.collection_id⟩

/-- The ids of the items. -/
def BundleRecord.ids (b : BundleRecord env) : List String := b.evidence.map (·.val.evidence_id)

/-- `_canonical_json` of what a bundle is identified by. -/
def BundleRecord.canonicalJson (b : BundleRecord env) : List Char :=
  dumpObject
    [("collection_id", quoted b.collection_id), ("evidence_ids", dumpArray (b.ids.map quoted)),
      ("query", quoted b.query), ("tenant_id", quoted b.tenant_id),
      ("workspace_id", quoted b.workspace_id)]

/-- `server_bundle_id`. -/
def serverBundleId (b : BundleRecord env) : String :=
  String.ofList ("eb_".toList ++ (env.hexdigest b.canonicalJson).take 32)

/-- The citations of some ids. -/
def citationMap (ids : List String) : List (String × String) :=
  ids.dedup.map fun identifier => (identifier, "[cite:" ++ identifier ++ "]")

/-- `==` of dictionaries. -/
def sameDict (m n : List (String × String)) : Bool :=
  m.all (fun e => n.lookup e.1 == m.lookup e.1) && n.all fun e => n.lookup e.1 == m.lookup e.1

/-- The check of the whole bundle, `validate_scope_citations_and_identity`. -/
def BundleRecord.check (b : BundleRecord env) : Except String (BundleRecord env) :=
  if b.evidence.any fun item => item.val.provenance.scope != b.scope then
    .error "all evidence must share the bundle scope"
  else if ¬ b.ids.Nodup then .error "duplicate evidence identifiers are not allowed"
  else if !sameDict b.citation_map (citationMap b.ids) then
    .error "citation_map must be server-generated from bundle evidence"
  else if b.bundle_id ≠ serverBundleId b then .error "bundle_id must be server-generated"
  else .ok b

/-- `EvidenceBundle.model_validate`. -/
def BundleRecord.modelValidate (b : BundleRecord env) : Except String (BundleRecord env) :=
  if !idPattern "eb_".toList b.bundle_id then .error "bundle_id has an invalid format"
  else if b.evidence.length > 100 ∨ b.citation_map.length > 100 then .error "too many items"
  else do
    let scope ← b.scope.modelValidate
    let query ← textField "query" 20000 b.query
    BundleRecord.check { b with
      tenant_id := scope.tenant_id
      workspace_id := scope.workspace_id
      collection_id := scope.collection_id
      query }

/-- What holds of a bundle that the model accepts. -/
structure BundleRecord.WellFormed (b : BundleRecord env) : Prop where
  count : b.evidence.length ≤ 100
  citations : b.citation_map.length ≤ 100
  scope : b.scope.modelValidate = .ok b.scope
  query : textField "query" 20000 b.query = .ok b.query
  scopes : ∀ item ∈ b.evidence, item.val.provenance.scope = b.scope
  nodup : b.ids.Nodup
  map : sameDict b.citation_map (citationMap b.ids) = true
  id : b.bundle_id = serverBundleId b

/-- The check of a whole bundle. -/
theorem check_ok {b b' : BundleRecord env} : b.check = .ok b' ↔ b = b' ∧
    (∀ item ∈ b.evidence, item.val.provenance.scope = b.scope) ∧ b.ids.Nodup ∧
    sameDict b.citation_map (citationMap b.ids) = true ∧ b.bundle_id = serverBundleId b := by
  have hscopes : (b.evidence.any fun item => item.val.provenance.scope != b.scope) = true ↔
      ¬ ∀ item ∈ b.evidence, item.val.provenance.scope = b.scope := by
    simp
  unfold BundleRecord.check
  split
  · next h =>
    rw [hscopes] at h
    constructor
    · intro heq
      cases heq
    · intro hall
      exact absurd hall.2.1 h
  · next h =>
    rw [hscopes, not_not] at h
    split
    · next hdup =>
      constructor
      · intro heq
        cases heq
      · intro hall
        exact absurd hall.2.2.1 hdup
    · next hdup =>
      rw [not_not] at hdup
      split
      · next hmap =>
        rw [Bool.not_eq_true'] at hmap
        constructor
        · intro heq
          cases heq
        · intro hall
          rw [hall.2.2.2.1] at hmap
          cases hmap
      · next hmap =>
        rw [Bool.not_eq_true', Bool.not_eq_false] at hmap
        split
        · next hid =>
          constructor
          · intro heq
            cases heq
          · intro hall
            exact absurd hall.2.2.2.2 hid
        · next hid =>
          rw [not_not] at hid
          rw [Except.ok.injEq]
          constructor
          · intro heq
            exact ⟨heq, h, hdup, hmap, hid⟩
          · intro hall
            exact hall.1

/-- The id of a bundle that is derived has the form of one. -/
theorem idPattern_bundle (b : BundleRecord env) :
    idPattern "eb_".toList (serverBundleId b) = true := idPattern_digest env _ _

/-- The model accepts the bundles that are well formed. -/
theorem accepted_iff {b : BundleRecord env} : b.modelValidate = .ok b ↔ b.WellFormed := by
  unfold BundleRecord.modelValidate
  constructor
  · intro h
    split at h
    · cases h
    · split at h
      · cases h
      · next hcount =>
        simp only [except_bind_ok, check_ok] at h
        obtain ⟨scope, hscope, query, hquery, hsame, hscopes, hnodup, hmap, hid⟩ := h
        rw [hsame] at hscopes hnodup hmap hid
        have hs : scope = b.scope := congrArg BundleRecord.scope hsame
        have hq : query = b.query := congrArg BundleRecord.query hsame
        rw [not_or, not_lt, not_lt] at hcount
        rw [hs] at hscope
        rw [hq] at hquery
        exact ⟨hcount.1, hcount.2, hscope, hquery, hscopes, hnodup, hmap, hid⟩
  · intro h
    have hpattern : ¬ (!idPattern "eb_".toList b.bundle_id) = true := by
      rw [h.id, idPattern_bundle]
      decide
    have hcount : ¬ (b.evidence.length > 100 ∨ b.citation_map.length > 100) := by
      rw [not_or, not_lt, not_lt]
      exact ⟨h.count, h.citations⟩
    rw [if_neg hpattern, if_neg hcount]
    simp only [except_bind_ok, check_ok]
    exact ⟨b.scope, h.scope, b.query, h.query, rfl, h.scopes, h.nodup, h.map, h.id⟩

/-- What the model returns is well formed. -/
theorem wellFormed_of_modelValidate {b b' : BundleRecord env} (h : b.modelValidate = .ok b') :
    b'.WellFormed := by
  unfold BundleRecord.modelValidate at h
  split at h
  · cases h
  · split at h
    · cases h
    · next hcount =>
      simp only [except_bind_ok, check_ok] at h
      obtain ⟨scope, hscope, query, hquery, rfl, hscopes, hnodup, hmap, hid⟩ := h
      rw [not_or, not_lt, not_lt] at hcount
      have hscope' : scope.modelValidate = .ok scope := Normalises.idem hscope
      exact ⟨hcount.1, hcount.2, hscope', textField_idem hquery, hscopes, hnodup, hmap, hid⟩

instance : Normalises (@BundleRecord.modelValidate env) where
  idem h := accepted_iff.mpr (wellFormed_of_modelValidate h)

variable (env) in
/-- `EvidenceBundle`. -/
abbrev EvidenceBundle := Validated (@BundleRecord.modelValidate env)

/-- A bundle that was built is well formed. -/
theorem EvidenceBundle.spec (b : EvidenceBundle env) : b.val.WellFormed := accepted_iff.mp b.accepted

/-- `EvidenceBundle.scope`. -/
def EvidenceBundle.scope (b : EvidenceBundle env) : EvidenceScope := ⟨b.val.scope, b.spec.scope⟩

/-- What `build` is given. -/
structure BuildArgs (env : Env) where
  tenant_id : Arg
  workspace_id : Arg
  collection_id : Arg
  query : Arg
  evidence : List (Evidence env)

/-- `EvidenceBundle.build`. -/
def build (args : BuildArgs env) : Except String (EvidenceBundle env) := do
  let tenant_id ← token "tenant_id" args.tenant_id
  let workspace_id ← token "workspace_id" args.workspace_id
  let collection_id ← token "collection_id" args.collection_id
  let query ← boundedText "query" 20000 args.query
  let payload : BundleRecord env := { bundle_id := "", tenant_id, workspace_id, collection_id, query,
                                      evidence := args.evidence, citation_map := [] }
  Validated.make { payload with
    bundle_id := serverBundleId payload
    citation_map := citationMap payload.ids }

/-- A bundle that is built has the items that it was built from, and the normalised scope. -/
theorem build_ok {args : BuildArgs env} {b : EvidenceBundle env} (h : build args = .ok b) :
    b.val.evidence = args.evidence ∧ token "tenant_id" args.tenant_id = .ok b.val.tenant_id ∧
      token "workspace_id" args.workspace_id = .ok b.val.workspace_id ∧
      token "collection_id" args.collection_id = .ok b.val.collection_id := by
  simp only [build, except_bind_ok] at h
  obtain ⟨tenant_id, h1, workspace_id, h2, collection_id, h3, query, -, hmake⟩ := h
  have hmodel := Validated.make_ok.mp hmake
  unfold BundleRecord.modelValidate at hmodel
  split at hmodel
  · cases hmodel
  · split at hmodel
    · cases hmodel
    · simp only [except_bind_ok, check_ok] at hmodel
      obtain ⟨scope, hscope, query', -, hsame, -⟩ := hmodel
      obtain ⟨hs1, hs2, hs3⟩ := Grounding.scope_ok.mp hscope
      have ht := Except.ok.inj ((tokenField_ok h1).symm.trans hs1)
      have hw := Except.ok.inj ((tokenField_ok h2).symm.trans hs2)
      have hc := Except.ok.inj ((tokenField_ok h3).symm.trans hs3)
      rw [← hsame, h1, h2, h3]
      exact ⟨rfl, congrArg _ ht, congrArg _ hw, congrArg _ hc⟩

end RickIntelligence.Grounding
