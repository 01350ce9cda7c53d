import RickIntelligence.Knowledge.Identity
import RickIntelligence.Lib.Validated

/-!
# Grants of collections

The part of `rick_authorization/policy.py` that decides which collections a user may read and write:
roles, the grants of a user, the check of one collection and the context of a retrieval. The package
folds the aliases of the canonical collection by a rule of its own (`normalizeGrant`), which does not
look at the case of a name, and the knowledge packages by theirs (`Knowledge.normalizeCollectionId`),
which does. The two name the same collection exactly for the requests of `same_collection_iff`.
-/

namespace RickIntelligence.Authorization

open Lib Knowledge

/-! ## Roles and grants -/

/-- `CANONICAL_ROLES`. -/
inductive Role where
  | platformAdmin
  | knowledgeManager
  | veterinarian
  deriving DecidableEq, Repr

/-- `LEGACY_ROLE_ALIASES`. -/
def legacyRoleAliases : List (String × Role) :=
  [("platform_admin", .platformAdmin), ("super_admin", .platformAdmin), ("admin", .platformAdmin),
    ("knowledge_manager", .knowledgeManager), ("admin_rag", .knowledgeManager),
    ("operator", .knowledgeManager), ("veterinarian", .veterinarian), ("viewer", .veterinarian),
    ("auditor", .veterinarian)]

/-- `canonical_role`. -/
def canonicalRole (role : Option String) : Role :=
  (legacyRoleAliases.lookup (lower (strip (textOr "viewer" role)))).getD .veterinarian

/-- `_normalize_collection_id` of the policy. -/
def normalizeGrant (value : String) : Except String String :=
  let candidate := strip value
  if candidate = "" then .error "empty collection id"
  else if ["cvg_master_rag", "rickvet_documents", "rag_phase0"].contains (lower candidate) then
    .ok canonicalCollectionId
  else .ok candidate

/-- The field `authorized_collection_ids` of a user: it may be left out, be no collection at all, or
hold items of which some are no text. -/
inductive RawGrants where
  | omitted
  | malformed
  | items (l : List (Option String))

/-- What the policy reads of a user. -/
structure User where
  role : Option String
  authorized_collection_ids : RawGrants
  authorization_state : Option String

/-- One item of the loop of `allowed_collection_ids_for_user`. -/
def grantOf : Option String → Option String
  | none => none
  | some item =>
    if strip item = "" then none
    else if strip item = "*" then some "*"
    else (normalizeGrant item).toOption

/-- `allowed_collection_ids_for_user`. -/
def allowedCollectionIdsForUser (user : User) : List String :=
  match user.authorized_collection_ids with
  | .omitted =>
    if user.authorization_state.any (· != "LEGACY_UNMIGRATED") then []
    else match canonicalRole user.role with
      | .platformAdmin | .knowledgeManager => ["*"]
      | .veterinarian => [canonicalCollectionId]
  | .malformed => []
  | .items l => l.filterMap grantOf

/-- `can_access_collection`. -/
def canAccessCollection (allowed : List String) (collection_id : Option String) : Bool :=
  match normalizeGrant (textOr "" collection_id) with
  | .error _ => false
  | .ok resolved => allowed.contains "*" || allowed.contains resolved

/-- `can_access_workspace`. -/
def canAccessWorkspace (session_workspace : Option String) (requested_workspace : String)
    (role : Option String) : Bool :=
  match session_workspace with
  | none => false
  | some workspace =>
    if strip workspace = "" then false
    else if strip requested_workspace = "" then false
    else if requested_workspace = workspace then true
    else canonicalRole role == .platformAdmin

/-- `AuthorizationError`, with its code. -/
structure AuthorizationError where
  code : String
  deriving DecidableEq, Repr

/-- The arguments of `build_retrieval_context`. -/
structure ContextRequest where
  user_id : Option String
  session_workspace : Option String
  requested_workspace : String
  allowed_collection_ids : List String
  permissions : List String
  role : Option String
  requested_collection_id : Option String
  tenant_id : String

/-- The result of `build_retrieval_context`. -/
structure RetrievalContext where
  user_id : Option String
  tenant_id : String
  workspace_id : String
  allowed_collection_ids : List String
  permissions : List String
  deriving DecidableEq, Repr

/-- The collections of a context: those of the user, or the one that was asked for. -/
def narrowed (allowed : List String) (requested_collection_id : Option String) :
    Except AuthorizationError (List String) :=
  match requested_collection_id with
  | none => .ok allowed
  | some requested =>
    if requested = "" then .ok allowed
    else match normalizeGrant requested with
      | .error _ => .error ⟨"forbidden"⟩
      | .ok name =>
        if !allowed.contains "*" && !allowed.contains name then .error ⟨"forbidden"⟩
        else .ok [name]

/-- `build_retrieval_context`. -/
def buildRetrievalContext (r : ContextRequest) : Except AuthorizationError RetrievalContext := do
  raiseFirst [
    (!canAccessWorkspace r.session_workspace r.requested_workspace r.role, ⟨"forbidden"⟩),
    (strip r.tenant_id = "" || decide (128 < (strip r.tenant_id).toList.length), ⟨"forbidden"⟩)]
  let allowed ← narrowed r.allowed_collection_ids r.requested_collection_id
  return { user_id := r.user_id, tenant_id := strip r.tenant_id,
           workspace_id := r.requested_workspace, allowed_collection_ids := allowed,
           permissions := r.permissions }

/-! ## Two rules for one name -/

/-- The names that the policy folds are the aliases. -/
theorem folded_perm : ["cvg_master_rag", "rickvet_documents", "rag_phase0"].Perm aliasNames := by
  decide +kernel

/-- The policy folds the aliases in any case. -/
theorem normalizeGrant_eq {value : String} (h : strip value ≠ "") :
    normalizeGrant value = .ok (if lower (strip value) ∈ aliasNames then canonicalCollectionId
      else strip value) := by
  unfold normalizeGrant
  simp only [if_neg h, List.contains_iff_mem, folded_perm.mem_iff]
  split <;> rfl

/-- A name that is an alias in another case, and so not an alias. -/
def OtherCase (c : String) : Prop := lower (strip c) ∈ aliasNames ∧ strip c ∉ aliasNames

instance (c : String) : Decidable (OtherCase c) := inferInstanceAs (Decidable (_ ∧ _))

variable {c name : String} {allowed : List String}

/-- The policy and the knowledge packages give a request that both accept the same name, unless it is
an alias in another case. -/
theorem normalizeGrant_iff {id : String} (hc : c ≠ "") (hid : normalizeCollectionId (some c) = .ok id) :
    ∃ name, normalizeGrant c = .ok name ∧ (name = id ↔ ¬ OtherCase c) ∧
      (OtherCase c → name = canonicalCollectionId) := by
  obtain ⟨hname, rfl⟩ := (normalizeCollectionId_ok hc).mp hid
  have hne : strip c ≠ "" := by
    intro hempty
    rw [hempty] at hname
    cases hname
  refine ⟨_, normalizeGrant_eq hne, ?_, ?_⟩
  · unfold OtherCase
    by_cases hmem : strip c ∈ aliasNames
    · rw [if_pos hmem, if_pos (by rwa [lower_alias hmem])]
      simp [hmem]
    · by_cases hlower : lower (strip c) ∈ aliasNames
      · -- The policy folds the name, and the canonical name is not the request.
        rw [if_pos hlower, if_neg hmem]
        simp only [hlower, hmem, not_false_eq_true, and_self, not_true_eq_false, iff_false]
        intro heq
        exact hmem (heq ▸ canonical_mem)
      · simp [hmem, hlower]
  · intro hother
    exact if_pos hother.1

/-! ## Access -/

/-- Access under the name that the policy gives a request. -/
theorem canAccessCollection_iff (hc : c ≠ "") (h : normalizeGrant c = .ok name) :
    canAccessCollection allowed (some c) = true ↔ "*" ∈ allowed ∨ name ∈ allowed := by
  unfold canAccessCollection textOr
  simp only [if_neg hc, h, Bool.or_eq_true, List.contains_iff_mem]

/-- The empty request is refused. -/
theorem canAccessCollection_empty (allowed : List String) :
    canAccessCollection allowed (some "") = false := by
  have h : normalizeGrant "" = .error "empty collection id" := by decide +kernel
  unfold canAccessCollection textOr
  simp only [if_true, h]

/-- A context is narrowed to the name that the policy gives the request. -/
theorem narrowed_ok {l : List String} (hc : c ≠ "") (h : normalizeGrant c = .ok name) :
    narrowed allowed (some c) = .ok l ↔ ("*" ∈ allowed ∨ name ∈ allowed) ∧ l = [name] := by
  unfold narrowed
  simp only [if_neg hc, h]
  by_cases hmem : "*" ∈ allowed ∨ name ∈ allowed
  · rw [if_neg (by rcases hmem with hmem | hmem <;> simp [hmem])]
    simp [hmem, eq_comm]
  · rw [if_pos (by simpa [not_or] using hmem)]
    simp [hmem]

/-- The checks of `build_retrieval_context` that are not about the collection. -/
def ContextRequest.Admitted (r : ContextRequest) : Prop :=
  canAccessWorkspace r.session_workspace r.requested_workspace r.role = true ∧
    strip r.tenant_id ≠ "" ∧ (strip r.tenant_id).toList.length ≤ 128

/-- A context is built for the collections that it is narrowed to. -/
theorem buildRetrievalContext_ok {r : ContextRequest} {ctx : RetrievalContext} :
    buildRetrievalContext r = .ok ctx ↔ r.Admitted ∧
      ∃ allowed, narrowed r.allowed_collection_ids r.requested_collection_id = .ok allowed ∧
        ctx = ⟨r.user_id, strip r.tenant_id, r.requested_workspace, allowed, r.permissions⟩ := by
  unfold buildRetrievalContext ContextRequest.Admitted
  simp only [except_bind_ok, raiseFirst_ok, List.mem_cons, List.not_mem_nil, or_false, forall_eq_or_imp,
    forall_eq, Bool.not_eq_false', Bool.or_eq_false_iff, decide_eq_false_iff_not, not_lt, exists_const,
    pure, Except.pure, Except.ok.injEq]
  constructor
  · rintro ⟨⟨hworkspace, hblank, hlength⟩, allowed, hallowed, rfl⟩
    exact ⟨⟨hworkspace, hblank, hlength⟩, allowed, hallowed, rfl⟩
  · rintro ⟨⟨hworkspace, hblank, hlength⟩, allowed, hallowed, rfl⟩
    exact ⟨⟨hworkspace, hblank, hlength⟩, allowed, hallowed, rfl⟩

/-- The policy decides on the collection `id` for the request `c`: access is to `id`, and a context
that is narrowed to `c` has `id` for its collections. -/
structure Decides (c id : String) (grants : List String) : Prop where
  access : canAccessCollection grants (some c) = true ↔ "*" ∈ grants ∨ id ∈ grants
  context : ∀ (r : ContextRequest) (ctx : RetrievalContext), r.allowed_collection_ids = grants →
    r.requested_collection_id = some c →
    (buildRetrievalContext r = .ok ctx ↔ r.Admitted ∧ ("*" ∈ grants ∨ id ∈ grants) ∧
      ctx = ⟨r.user_id, strip r.tenant_id, r.requested_workspace, [id], r.permissions⟩)

/-- The policy decides on the name that it gives the request. -/
theorem decides_of_normalizeGrant (hc : c ≠ "") (h : normalizeGrant c = .ok name) (grants : List String) :
    Decides c name grants := by
  refine ⟨canAccessCollection_iff hc h, ?_⟩
  intro r ctx hgrants hrequested
  rw [buildRetrievalContext_ok, hgrants, hrequested]
  simp only [narrowed_ok hc h]
  constructor
  · rintro ⟨hadmitted, allowed, ⟨haccess, rfl⟩, rfl⟩
    exact ⟨hadmitted, haccess, rfl⟩
  · rintro ⟨hadmitted, haccess, rfl⟩
    exact ⟨hadmitted, [name], ⟨haccess, rfl⟩, rfl⟩

/-- A user with the grants that a legacy record inherits. -/
def legacyUser : User := ⟨none, .omitted, none⟩

/-- The legacy user is granted the canonical collection. -/
theorem legacyUser_grants : allowedCollectionIdsForUser legacyUser = [canonicalCollectionId] := by
  decide +kernel

/-- **The policy and the catalog name the same collection exactly for the requests that are not empty
and not an alias in another case.** The request is one that the knowledge packages accept, and `id`
is the collection that they read and write for it; the grants are those of any user. -/
theorem same_collection_iff (c id : String) (hid : normalizeCollectionId (some c) = .ok id) :
    (∀ user, Decides c id (allowedCollectionIdsForUser user)) ↔ c ≠ "" ∧ ¬ OtherCase c := by
  constructor
  · intro hsame
    obtain ⟨haccess, -⟩ := hsame legacyUser
    rw [legacyUser_grants] at haccess
    have hstar : ("*" : String) ∉ [canonicalCollectionId] := by decide +kernel
    have hc : c ≠ "" := by
      rintro rfl
      have hcanonical : normalizeCollectionId (some "") = .ok canonicalCollectionId := by
        decide +kernel
      cases hid.symm.trans hcanonical
      rw [canAccessCollection_empty] at haccess
      exact absurd (haccess.mpr (.inr List.mem_cons_self)) (by simp)
    refine ⟨hc, ?_⟩
    intro hother
    -- The legacy user may access the request, and the catalog has another collection for it.
    obtain ⟨name, hname, hiff, hcanonical⟩ := normalizeGrant_iff hc hid
    obtain rfl := hcanonical hother
    rw [canAccessCollection_iff hc hname] at haccess
    rcases haccess.mp (.inr List.mem_cons_self) with h | h
    · exact hstar h
    · exact hiff.mp (List.mem_singleton.mp h).symm hother
  · rintro ⟨hc, hother⟩ user
    obtain ⟨name, hname, hiff, -⟩ := normalizeGrant_iff hc hid
    obtain rfl := hiff.mpr hother
    exact decides_of_normalizeGrant hc hname _

/-- An alias with spaces around it names the canonical collection in both packages. -/
theorem alias_decides :
    Decides " cvg_master_rag " "rag_phase0" (allowedCollectionIdsForUser legacyUser) :=
  (same_collection_iff " cvg_master_rag " "rag_phase0" (by decide +kernel)).mpr
    ⟨by decide +kernel, by decide +kernel⟩ legacyUser

/-- The legacy user may access the canonical collection in capital letters, for which the knowledge
packages read and write a collection that is not granted. -/
theorem capitals_mismatch :
    normalizeCollectionId (some "RAG_PHASE0") = .ok "RAG_PHASE0" ∧
    canAccessCollection (allowedCollectionIdsForUser legacyUser) (some "RAG_PHASE0") = true ∧
    "*" ∉ allowedCollectionIdsForUser legacyUser ∧
    "RAG_PHASE0" ∉ allowedCollectionIdsForUser legacyUser := by
  decide +kernel

end RickIntelligence.Authorization
