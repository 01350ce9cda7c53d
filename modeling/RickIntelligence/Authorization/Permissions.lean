import RickIntelligence.Authorization.Policy
import RickIntelligence.Lib.Dict

/-!
# Permissions

The part of `rick_authorization/policy.py` that resolves the permissions of a user: the defaults of a
role, the overrides of a user, and the meet of two lists of grants (`intersectGrants`). A list with a
wildcard grants everything (`Grants`), and the meet of two lists grants what both of them do
(`grants_intersectGrants`).

A user is a dictionary with values of any kind. A role that is no text is read as a text by `str`,
which is never the name of a role, so it counts as none.
-/

namespace RickIntelligence.Authorization

open Lib

/-! ## The registry -/

/-- The name of a role. -/
def Role.name : Role → String
  | .platformAdmin => "PLATFORM_ADMIN"
  | .knowledgeManager => "KNOWLEDGE_MANAGER"
  | .veterinarian => "VETERINARIAN"

/-- `CANONICAL_ROLES`. -/
def canonicalRoles : List String := ["PLATFORM_ADMIN", "KNOWLEDGE_MANAGER", "VETERINARIAN"]

/-- `CANONICAL_PERMISSION_IDS`. -/
def canonicalPermissionIds : List String :=
  ["audit.read", "cases.feedback", "cases.manage", "cases.read", "cases.review", "chat.query",
    "collections.manage", "collections.read", "corpus.audit", "corpus.repair", "documents.manage",
    "documents.read", "documents.upload", "history.read", "ingestion.run", "library.browse",
    "observability.read", "reindex.run", "runtime.manage", "sessions.revoke", "sources.read",
    "tenants.read", "tenants.manage", "users.manage"]

/-- `ROLE_PERMISSIONS`. -/
def rolePermissions : Role → List String
  | .platformAdmin => ["*"]
  | .knowledgeManager =>
    ["cases.feedback", "cases.manage", "cases.read", "cases.review", "chat.query", "history.read",
      "library.browse", "documents.read", "documents.upload", "documents.manage", "sources.read",
      "collections.read", "collections.manage", "ingestion.run", "reindex.run",
      "observability.read", "audit.read", "corpus.audit", "corpus.repair"]
  | .veterinarian =>
    ["cases.feedback", "cases.manage", "cases.read", "chat.query", "history.read", "sources.read",
      "collections.read"]

/-- `LEGACY_PERMISSION_ALIASES`. -/
def legacyPermissionAliases : List (String × String) :=
  [("search.execute", "chat.query"), ("query.execute", "chat.query"),
    ("documents.search", "chat.query"), ("documents.query", "chat.query"),
    ("chat.history.read", "history.read"), ("queries.history.read", "history.read"),
    ("library.read", "library.browse")]

/-- `legacy_role_label`. -/
def legacyRoleLabel (role : Option String) : String :=
  match canonicalRole role with
  | .platformAdmin => "super_admin"
  | .knowledgeManager => "admin_rag"
  | .veterinarian => "viewer"

/-! ## Permissions of a role -/

/-- `sorted(set(items))`. -/
def sortedSet (items : List String) : List String := items.dedup.insertionSort (· ≤ ·)

/-- `permission_alias`. -/
def permissionAlias (permission : String) : String :=
  (legacyPermissionAliases.lookup (lower (strip permission))).getD (lower (strip permission))

/-- `normalize_permissions`. -/
def normalizePermissions (permissions : List String) : List String :=
  sortedSet ((permissions.map permissionAlias).filter (· ≠ ""))

/-- The overrides of a user. -/
structure Overrides where
  add : List String
  remove : List String
  deriving DecidableEq, Repr

/-- `values` of `normalize_permission_overrides`: a text counts as a list of one. -/
def overrideValues (payload : Json.Members) (key : String) : List String :=
  match Json.member? key payload with
  | some (.str s) => normalizePermissions [s]
  | some (.arr items) => normalizePermissions (items.filterMap Json.text?)
  | _ => []

/-- `normalize_permission_overrides`. -/
def normalizePermissionOverrides (overrides : Option Json) : Overrides :=
  let payload := match overrides with
    | some (.obj ms) => ms
    | _ => []
  let removals := overrideValues payload "remove"
  let additions := (overrideValues payload "add").filter (· ∉ removals)
  { add := sortedSet additions, remove := sortedSet removals }

/-- Overrides as the dictionary that they are handed on as. -/
def Overrides.toJson (overrides : Overrides) : Json :=
  .obj [("add", .arr (overrides.add.map .str)), ("remove", .arr (overrides.remove.map .str))]

/-- `permissions_for_role`. -/
def permissionsForRole (role : Option String) (overrides : Option Json) : List String :=
  let base := normalizePermissions (rolePermissions (canonicalRole role))
  let normalized := normalizePermissionOverrides overrides
  let additions := normalized.add
  let removals := normalized.remove
  if "*" ∈ removals then
    sortedSet ((base ++ additions).filter fun p => p ≠ "*" ∧ p ∉ removals)
  else if "*" ∈ base ∨ "*" ∈ additions then
    if removals.filter (· ≠ "*") = [] then ["*"]
    else sortedSet
      ((canonicalPermissionIds ++ additions.filter (· ≠ "*")).filter (· ∉ removals))
  else sortedSet ((base ++ additions).filter fun p => p ≠ "*" ∧ p ∉ removals)

/-- `intersect_grants`. -/
def intersectGrants (previous current : List String) : List String :=
  if "*" ∈ previous then sortedSet current
  else if "*" ∈ current then sortedSet previous
  else sortedSet (previous.filter (· ∈ current))

/-! ## Users as dictionaries -/

/-- A role as a text. -/
def roleText (role : Option Json) : Option String := role.bind Json.text?

/-- The field `authorized_collection_ids` of a dictionary. -/
def rawGrants : Option Json → RawGrants
  | none => .omitted
  | some (.arr items) => .items (items.map Json.text?)
  | some _ => .malformed

/-- The field `authorization_state` of a dictionary: a value that is no text is no state that the
policy knows. -/
def stateText : Option Json → Option String
  | none | some .null => none
  | some (.str s) => some s
  | some _ => some ""

/-- What the policy reads of a dictionary. -/
def userOf (user : Json.Members) : User :=
  { role := roleText (Json.member? "role" user)
    authorized_collection_ids := rawGrants (Json.member? "authorized_collection_ids" user)
    authorization_state := stateText (Json.member? "authorization_state" user) }

/-- Permissions and collections. -/
structure GrantSet where
  permissions : List String
  allowed_collection_ids : List String
  deriving DecidableEq, Repr

/-- The overrides of a user, if they are a dictionary. -/
def mappingOnly : Option Json → Option Json
  | some (.obj ms) => some (.obj ms)
  | _ => none

/-- `authorization_grants_for_user`. -/
def authorizationGrantsForUser (user : Json.Members) : GrantSet :=
  { permissions := permissionsForRole (roleText (Json.member? "role" user))
      (mappingOnly (Json.member? "permission_overrides" user))
    allowed_collection_ids := allowedCollectionIdsForUser (userOf user) }

/-! ## What a list grants -/

/-- A list of grants covers `x`: it has `x`, or the wildcard. -/
def Grants (l : List String) (x : String) : Prop := "*" ∈ l ∨ x ∈ l

/-- Sorting and removing the copies keeps the items. -/
@[simp]
theorem mem_sortedSet {x : String} {l : List String} : x ∈ sortedSet l ↔ x ∈ l := by
  unfold sortedSet
  rw [List.mem_insertionSort, List.mem_dedup]

/-- Sorting and removing the copies keeps what is granted. -/
@[simp]
theorem grants_sortedSet {l : List String} {x : String} : Grants (sortedSet l) x ↔ Grants l x := by
  unfold Grants
  rw [mem_sortedSet, mem_sortedSet]

/-- The meet of two lists grants what both of them grant. -/
theorem grants_intersectGrants (a b : List String) (x : String) :
    Grants (intersectGrants a b) x ↔ Grants a x ∧ Grants b x := by
  unfold intersectGrants
  by_cases ha : "*" ∈ a
  · rw [if_pos ha, grants_sortedSet]
    exact (and_iff_right (.inl ha)).symm
  · rw [if_neg ha]
    by_cases hb : "*" ∈ b
    · rw [if_pos hb, grants_sortedSet]
      exact (and_iff_left (.inl hb)).symm
    · rw [if_neg hb, grants_sortedSet]
      unfold Grants
      simp [ha, hb]

/-- A role is known under its name. -/
theorem canonicalRole_name (role : Role) : canonicalRole (some role.name) = role := by
  cases role <;> decide +kernel

end RickIntelligence.Authorization
