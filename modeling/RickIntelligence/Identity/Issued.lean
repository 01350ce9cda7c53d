import RickIntelligence.Authorization.Granted
import RickIntelligence.Identity.Authority

/-!
# Validating an issued session

A login derives a session from the record of a user, and a validation checks the session and the record
again, by rules of its own: texts have bounds, lists have bounds, the role must be a known one, and the
tenant and the workspace are compared as they stand where the login takes the spaces around them away.
A session that was just issued validates exactly when the record passes these checks (`Validatable`),
and then it carries the grants of the user.
-/

namespace RickIntelligence.Identity

open Lib Authorization Knowledge

variable {cfg : Config} {s s' : State} {user : Record} {call : LoginCall}

/-! ## Grants of an issued session -/

/-- Lists with the same items are sorted to the same list. -/
theorem sortedSet_congr {l m : List String} (h : ∀ x, x ∈ l ↔ x ∈ m) : sortedSet l = sortedSet m := by
  have hperm : l.dedup.Perm m.dedup := by
    rw [List.perm_ext_iff_of_nodup (List.nodup_dedup l) (List.nodup_dedup m)]
    intro x
    rw [List.mem_dedup, List.mem_dedup]
    exact h x
  unfold sortedSet
  exact List.Perm.eq_of_pairwise' (List.pairwise_insertionSort (· ≤ ·) _)
    (List.pairwise_insertionSort (· ≤ ·) _)
    ((List.perm_insertionSort _ _).trans (hperm.trans (List.perm_insertionSort _ _).symm))

/-- A list that is sorted and has no copies stays as it is. -/
theorem sortedSet_sortedSet (l : List String) : sortedSet (sortedSet l) = sortedSet l :=
  sortedSet_congr fun _ => mem_sortedSet

/-- The texts of a list of texts. -/
theorem filterMap_text (l : List String) : (l.map Json.str).filterMap Json.text? = l := by
  induction l with
  | nil => rfl
  | cons a l ih =>
    rw [List.map_cons, List.filterMap_cons, ih]
    rfl

/-- Overrides that are no dictionary are none. -/
theorem overrides_payload (overrides : Option Json) : ∃ payload,
    normalizePermissionOverrides overrides = normalizePermissionOverrides (some (.obj payload)) := by
  cases overrides with
  | none => exact ⟨[], rfl⟩
  | some value =>
    cases value with
    | obj payload => exact ⟨payload, rfl⟩
    | _ => exact ⟨[], rfl⟩

/-- Two overrides whose additions and removals have the same items are one. -/
theorem overrides_ext {payload : Json.Members} {first : Overrides}
    (hadd : ∀ p, p ∈ (normalizePermissionOverrides (some (.obj payload))).add ↔ p ∈ first.add)
    (hremove : ∀ p, p ∈ (normalizePermissionOverrides (some (.obj payload))).remove ↔ p ∈ first.remove)
    (hsorted : sortedSet first.add = first.add ∧ sortedSet first.remove = first.remove) :
    normalizePermissionOverrides (some (.obj payload)) = first := by
  have hown : ∀ o : Option Json, sortedSet (normalizePermissionOverrides o).add =
      (normalizePermissionOverrides o).add ∧
      sortedSet (normalizePermissionOverrides o).remove = (normalizePermissionOverrides o).remove :=
    fun _ => ⟨sortedSet_sortedSet _, sortedSet_sortedSet _⟩
  have hadd' : (normalizePermissionOverrides (some (.obj payload))).add = first.add := by
    rw [← (hown _).1, ← hsorted.1]
    exact sortedSet_congr hadd
  have hremove' : (normalizePermissionOverrides (some (.obj payload))).remove = first.remove := by
    rw [← (hown _).2, ← hsorted.2]
    exact sortedSet_congr hremove
  generalize normalizePermissionOverrides (some (.obj payload)) = o at hadd' hremove'
  cases o
  cases first
  simp only at hadd' hremove'
  rw [hadd', hremove']

/-- The overrides that a login hands on are those of the user. -/
theorem overrides_again (overrides : Option Json) :
    normalizePermissionOverrides (some (normalizePermissionOverrides overrides).toJson) =
      normalizePermissionOverrides overrides := by
  obtain ⟨payload, hpayload⟩ := overrides_payload overrides
  rw [hpayload]
  generalize hfirst : normalizePermissionOverrides (some (.obj payload)) = first
  have hmem : ∀ p, (p ∈ first.add → Normal p ∧ p ∉ first.remove) ∧ (p ∈ first.remove → Normal p) := by
    intro p
    rw [← hfirst, mem_add, mem_remove]
    exact ⟨fun h => ⟨normal_overrideValues h.1, h.2⟩, fun h => normal_overrideValues h⟩
  have hvalues : ∀ l : List String, (∀ p ∈ l, Normal p) → ∀ p,
      p ∈ normalizePermissions ((l.map Json.str).filterMap Json.text?) ↔ p ∈ l := by
    intro l hl p
    rw [filterMap_text]
    exact mem_normalizePermissions_of_normal hl p
  have hremove : ∀ p, p ∈ overrideValues
      [("add", .arr (first.add.map .str)), ("remove", .arr (first.remove.map .str))] "remove" ↔
        p ∈ first.remove := hvalues first.remove fun p => (hmem p).2
  have hadd : ∀ p, p ∈ overrideValues
      [("add", .arr (first.add.map .str)), ("remove", .arr (first.remove.map .str))] "add" ↔
        p ∈ first.add := hvalues first.add fun p hp => ((hmem p).1 hp).1
  apply overrides_ext
  · intro p
    rw [mem_add, hadd, hremove]
    exact and_iff_left_of_imp fun hp => ((hmem p).1 hp).2
  · intro p
    rw [mem_remove, hremove]
  · rw [← hfirst]
    exact ⟨sortedSet_sortedSet _, sortedSet_sortedSet _⟩

/-- Resolved permissions are sorted and have no copies. -/
theorem sortedSet_permissionsForRole (role : Option String) (overrides : Option Json) :
    sortedSet (permissionsForRole role overrides) = permissionsForRole role overrides := by
  unfold permissionsForRole
  simp only
  split_ifs
  · exact sortedSet_sortedSet _
  · rfl
  · exact sortedSet_sortedSet _
  · exact sortedSet_sortedSet _

/-- What is met with itself is sorted. -/
theorem intersectGrants_self (l : List String) : intersectGrants l l = sortedSet l := by
  unfold intersectGrants
  split_ifs
  · rfl
  · congr 1
    exact List.filter_eq_self.mpr fun p hp => decide_eq_true hp

/-- A login records the permissions that the user has. -/
theorem permissions_issued (user : Record) :
    permissionsForRole (some (canonicalRole (roleText (Json.member? "role" user))).name)
        (some (normalizePermissionOverrides (Json.member? "permission_overrides" user)).toJson) =
      (authorizationGrantsForUser user).permissions := by
  have hmapping : normalizePermissionOverrides (mappingOnly (Json.member? "permission_overrides" user)) =
      normalizePermissionOverrides (Json.member? "permission_overrides" user) := by
    cases Json.member? "permission_overrides" user with
    | none => rfl
    | some value => cases value <;> rfl
  unfold authorizationGrantsForUser permissionsForRole
  simp only [canonicalRole_name, overrides_again, hmapping]

/-! ## The record of an issued session -/

/-- A value that equals a text is that text. -/
theorem equal_str {value : Json} {t : String} : value.equal (.str t) = true ↔ value = .str t := by
  cases value <;> simp [Json.equal, Json.numeric?]

/-- The record that the session store makes of an issued one. -/
def storedRecord (cfg : Config) (record : Record) (token : String) (now : ℚ) : Record :=
  Json.merge record [
    ("session_id", .str (cfg.sessionIdForToken token)), ("created_at", .float now),
    ("last_seen_at", .float now), ("expires_at", .float (now + cfg.ttl_seconds)),
    ("revoked_at", .null), ("revoke_reason", .null)]

/-- The fields that the session store writes. -/
def storeFields : List String :=
  ["session_id", "created_at", "last_seen_at", "expires_at", "revoked_at", "revoke_reason"]

/-- A field that the session store does not write is that of the issued record. -/
theorem getD_stored {record : Record} {token k : String} {now : ℚ} {d : Json} (hk : k ∉ storeFields) :
    getD k d (storedRecord cfg record token now) = getD k d record := by
  unfold getD storedRecord
  rw [Json.member?_merge_other hk]

/-- A record is stored under its own identifier, which is a text. -/
def UserStore.Stored (users : UserStore) (user : Record) : Prop :=
  ∃ id, Json.member? "user_id" user = some (.str id) ∧ users.getById (.str id) = .ok (some user)

/-- A text has no spaces around it. -/
def trimmed (value : Json) : Bool :=
  match value.text? with
  | some s => strip s == s
  | none => false

/-- The record of a user passes the checks of a validation. A version equals itself unless it is not a
number that a comparison knows. -/
structure Validatable (user : Record) : Prop where
  email : boundedText (getD "email" .null user) 256 = true
  role : knownRole (getD "role" .null user) = true
  permissions : textList (ofTexts (authorizationGrantsForUser user).permissions) 256 128 = true
  collections : textList (ofTexts (authorizationGrantsForUser user).allowed_collection_ids) 128 256 = true
  tenant : trimmed (getD "tenant_id" .null user) = true
  workspace : trimmed (getD "workspace_id" (.str "default") user) = true
  password_version : (getD "password_version" (.int 1) user).equal
    (getD "password_version" (.int 1) user) = true
  role_version : (getD "role_version" (.int 1) user).equal (getD "role_version" (.int 1) user) = true

/-- A session is valid and carries the grants of the user. -/
def Authentic (cfg : Config) (s : State) (token : String) (reads : Reads) (user : Record) : Prop :=
  ∃ snapshot s', validateSession cfg s (some token) reads = (.ok snapshot, s') ∧
    snapshot.authenticated = true ∧
    snapshot.permissions = (authorizationGrantsForUser user).permissions ∧
    snapshot.allowed_collection_ids = sortedSet (authorizationGrantsForUser user).allowed_collection_ids

/-- What a login leaves. -/
structure Issued (cfg : Config) (s s' : State) (call : LoginCall) (result : LoginResult) (user : Record)
    (user_id : Json) (tenant workspace : String) : Prop where
  token : result.session_token = call.token
  users : s'.users = s.users
  record : s'.sessions.lookup call.token =
    some (storedRecord cfg (issuedRecord user user_id tenant workspace call) call.token call.now)
  id : Json.member? "user_id" user = some user_id
  active : UserStore.active user = true
  asked : requiredId call.tenant_id = .ok tenant
  tenant : requiredId (getD "tenant_id" .null user) = .ok tenant
  workspace : requiredId (getD "workspace_id" (.str "default") user) = .ok workspace

/-- A login of a user issues a session. -/
theorem login_issued {result : LoginResult}
    (huser : s.users.getByEmailForTenant call.email call.tenant_id = some user)
    (h : login cfg s call = .ok (result, s')) :
    ∃ user_id tenant workspace, Issued cfg s s' call result user user_id tenant workspace := by
  unfold login issueSession at h
  rw [huser] at h
  have hid : ∀ {x : Option Json} {e : Raised} {a : Json}, x.elim (Except.error e) Except.ok = .ok a ↔
      x = some a := by
    intro x e a
    cases x <;> simp
  have hrecord : ∀ {x : Option Record} {e : Raised} {a : Record}, x.elim (Except.error e) Except.ok = .ok a ↔
      x = some a := by
    intro x e a
    cases x <;> simp
  simp only [except_bind_ok, raiseFirst_ok, hid, hrecord, pure, Except.pure, Except.ok.injEq, Prod.mk.injEq,
    List.mem_singleton, forall_eq, Bool.not_eq_false', Bool.or_eq_false_iff, bne_eq_false_iff_eq] at h
  obtain ⟨found, hfound, -, hactive, asked, hasked, tenant, htenant, -, ⟨hsame, -⟩, user_id, huser_id,
    workspace, hworkspace, rfl, rfl⟩ := h
  obtain ⟨hfound, -⟩ := Option.filter_eq_some_iff.mp hfound
  obtain rfl := Option.some.inj hfound
  obtain rfl := hsame
  exact ⟨user_id, tenant, workspace, rfl, rfl, AList.lookup_insert _, huser_id, hactive, hasked, htenant,
    hworkspace⟩

/-! ## Checks of an issued record -/

section Checks

variable {user_id : Json} {tenant workspace : String}

/-- The record of an issued session. -/
def sessionRecord (cfg : Config) (user : Record) (user_id : Json) (tenant workspace : String)
    (call : LoginCall) : Record :=
  storedRecord cfg (issuedRecord user user_id tenant workspace call) call.token call.now

/-- A field that the session store does not write. -/
theorem member?_session {k : String} (hk : k ∉ storeFields) :
    Json.member? k (sessionRecord cfg user user_id tenant workspace call) =
      Json.member? k (issuedRecord user user_id tenant workspace call) :=
  Json.member?_merge_other hk

/-- The labels of the roles are known and belong to the roles. -/
theorem role_label (role : Role) :
    boundedText (.str (legacyRoleLabel (some role.name))) 64 = true ∧
      boundedText (.str role.name) 64 = true ∧
      knownRole (.str (legacyRoleLabel (some role.name))) = true ∧
      canonicalRoles.contains role.name = true ∧
      (canonicalRole (some (legacyRoleLabel (some role.name)))).name = role.name := by
  cases role <;> decide +kernel

/-- An issued record is no legacy one. -/
theorem legacySnapshot_session :
    legacySnapshot (sessionRecord cfg user user_id tenant workspace call) = false := by
  have hpermissions : Json.has "permissions" (sessionRecord cfg user user_id tenant workspace call) = true := by
    unfold Json.has
    rw [member?_session (by decide)]
    rfl
  unfold legacySnapshot
  rw [hpermissions, Bool.true_or, if_pos rfl]

/-- The permissions of an issued record are those of the user. -/
theorem permissions_session :
    Json.member? "permissions" (sessionRecord cfg user user_id tenant workspace call) =
      some (ofTexts (authorizationGrantsForUser user).permissions) := by
  rw [member?_session (by decide), ← permissions_issued]
  rfl

/-- The collections of an issued record are those of the user. -/
theorem collections_session :
    Json.member? "allowed_collection_ids" (sessionRecord cfg user user_id tenant workspace call) =
      some (ofTexts (authorizationGrantsForUser user).allowed_collection_ids) := by
  rw [member?_session (by decide)]
  rfl

/-- The snapshot of an issued record is valid when its texts and lists are within their bounds. -/
theorem validAuthorizationSnapshot_session :
    validAuthorizationSnapshot (sessionRecord cfg user user_id tenant workspace call) = true ↔
      boundedText (getD "email" .null user) 256 = true ∧
        textList (ofTexts (authorizationGrantsForUser user).permissions) 256 128 = true ∧
        textList (ofTexts (authorizationGrantsForUser user).allowed_collection_ids) 128 256 = true := by
  obtain ⟨hlabel, hname, hknown, hcanonical, hsame⟩ :=
    role_label (canonicalRole (roleText (Json.member? "role" user)))
  have hemail : Json.member? "email" (sessionRecord cfg user user_id tenant workspace call) =
      some (getD "email" .null user) := by
    rw [member?_session (by decide)]
    rfl
  have hrole : Json.member? "role" (sessionRecord cfg user user_id tenant workspace call) =
      some (.str (legacyRoleLabel (some (canonicalRole (roleText (Json.member? "role" user))).name))) := by
    rw [member?_session (by decide)]
    rfl
  have hcanonicalRole : Json.member? "canonical_role"
      (sessionRecord cfg user user_id tenant workspace call) =
      some (.str (canonicalRole (roleText (Json.member? "role" user))).name) := by
    rw [member?_session (by decide)]
    rfl
  have hpermissions : Json.member? "permissions" (sessionRecord cfg user user_id tenant workspace call) = _ :=
    permissions_session
  have hcollections : Json.member? "allowed_collection_ids"
      (sessionRecord cfg user user_id tenant workspace call) = _ := collections_session
  have hversion : currentVersion (Json.member? "authorization_snapshot_version"
      (sessionRecord cfg user user_id tenant workspace call)) = true := by
    rw [member?_session (by decide)]
    rfl
  have hstate : getD "authorization_state" .null
      (sessionRecord cfg user user_id tenant workspace call) = .str "AUTHORITATIVE" := by
    unfold getD
    rw [member?_session (by decide)]
    rfl
  have hmodern : modernSnapshot (sessionRecord cfg user user_id tenant workspace call) =
      (textList (ofTexts (authorizationGrantsForUser user).permissions) 256 128 &&
        textList (ofTexts (authorizationGrantsForUser user).allowed_collection_ids) 128 256) := by
    unfold modernSnapshot ifPresent
    unfold getD at hstate ⊢
    rw [hstate, hcanonicalRole, hversion, hrole, hpermissions, hcollections]
    simp only [Json.text?, Option.getD_some, Option.all_some, hsame, hcanonical, beq_self_eq_true,
      Bool.and_true]
    rfl
  have hlegacy : legacySnapshot (sessionRecord cfg user user_id tenant workspace call) = false :=
    legacySnapshot_session
  generalize sessionRecord cfg user user_id tenant workspace call = r at *
  unfold validAuthorizationSnapshot boundedFields ifPresent
  rw [hlegacy, hmodern]
  simp only [List.all_cons, List.all_nil, hemail, hrole, hcanonicalRole, hcollections, Option.all_some,
    hlabel, hname, hknown, Bool.and_true, Bool.false_or, Bool.and_eq_true]
  constructor
  · rintro ⟨⟨hemail, -⟩, hpermissions, hcollections⟩
    exact ⟨hemail, hpermissions, hcollections⟩
  · rintro ⟨hemail, hpermissions, hcollections⟩
    exact ⟨⟨hemail, hcollections⟩, hpermissions, hcollections⟩

/-- An identifier that a login accepts has no spaces around it. -/
theorem requiredId_ok {value : Json} {id : String} (h : requiredId value = .ok id) :
    id ≠ "" ∧ strip id = id ∧ (value = .str id ↔ trimmed value = true) := by
  unfold requiredId at h
  cases value with
  | str t =>
    simp only [Json.text?] at h
    split at h
    · cases h
    · obtain rfl := Except.ok.inj h
      refine ⟨‹_›, strip_strip t, ?_⟩
      unfold trimmed
      simp only [Json.text?, beq_iff_eq, Json.str.injEq]
      exact eq_comm
  | _ => cases h

/-- A text with no spaces around it that is not empty is an identifier. -/
theorem boundId_text {id : String} (hne : id ≠ "") (hstrip : strip id = id) :
    boundId (.str id) = .ok id := by
  unfold boundId requiredId
  simp only [Json.text?, hstrip, if_neg hne]
  rfl

/-- The user of an issued session is found again when the tenant and the workspace of the record have no
spaces around them, the versions are as they were and the role is known. -/
theorem scopedUser_session {users : UserStore} {id : String} {found : Record}
    (hid : Json.member? "user_id" user = some (.str id))
    (hstored : users.getById (.str id) = .ok (some user)) (hactive : UserStore.active user = true)
    (htenant : requiredId (getD "tenant_id" .null user) = .ok tenant)
    (hworkspace : requiredId (getD "workspace_id" (.str "default") user) = .ok workspace) :
    scopedUser users (sessionRecord cfg user (.str id) tenant workspace call) = .ok found ↔
      found = user ∧ trimmed (getD "tenant_id" .null user) = true ∧
        trimmed (getD "workspace_id" (.str "default") user) = true ∧
        (getD "password_version" (.int 1) user).equal (getD "password_version" (.int 1) user) = true ∧
        (getD "role_version" (.int 1) user).equal (getD "role_version" (.int 1) user) = true ∧
        knownRole (getD "role" .null user) = true := by
  obtain ⟨htne, htstrip, httrimmed⟩ := requiredId_ok htenant
  obtain ⟨hwne, hwstrip, hwtrimmed⟩ := requiredId_ok hworkspace
  have htenantField : getD "tenant_id" .null (sessionRecord cfg user (.str id) tenant workspace call) =
      .str tenant := by
    unfold sessionRecord
    rw [getD_stored (by decide)]
    rfl
  have hworkspaceField : getD "workspace_id" (.str "default")
      (sessionRecord cfg user (.str id) tenant workspace call) = .str workspace := by
    unfold sessionRecord
    rw [getD_stored (by decide)]
    rfl
  have hidField : getD "user_id" .null (sessionRecord cfg user (.str id) tenant workspace call) =
      .str id := by
    unfold sessionRecord
    rw [getD_stored (by decide)]
    rfl
  have hpassword : getD "password_version" (.int 1)
      (sessionRecord cfg user (.str id) tenant workspace call) =
      getD "password_version" (.int 1) user := by
    unfold sessionRecord
    rw [getD_stored (by decide)]
    rfl
  have hroleVersion : getD "role_version" (.int 1)
      (sessionRecord cfg user (.str id) tenant workspace call) = getD "role_version" (.int 1) user := by
    unfold sessionRecord
    rw [getD_stored (by decide)]
    rfl
  have hlookup : (if (Json.str id).truthy then Json.str id else .str "") = .str id := by
    by_cases hempty : id = ""
    · rw [hempty]
      rfl
    · rw [if_pos]
      simpa [Json.truthy] using hempty
  have hboundTenant : boundId (getD "tenant_id" .null user) = .ok tenant := by
    unfold boundId
    rw [htenant]
    rfl
  have hboundWorkspace : boundId (getD "workspace_id" (.str "default") user) = .ok workspace := by
    unfold boundId
    rw [hworkspace]
    rfl
  have hfind : ∀ o : Option Record, users.getByIdForTenantWorkspace (.str id) tenant workspace = .ok o ↔
      o = if trimmed (getD "tenant_id" .null user) && trimmed (getD "workspace_id" (.str "default") user)
        then some user else none := by
    intro o
    have hmatch : ((getD "tenant_id" .null user).equal (.str tenant) &&
        (getD "workspace_id" (.str "default") user).equal (.str workspace)) =
        (trimmed (getD "tenant_id" .null user) && trimmed (getD "workspace_id" (.str "default") user)) := by
      rw [Bool.eq_iff_iff, Bool.and_eq_true, Bool.and_eq_true, equal_str, equal_str, httrimmed, hwtrimmed]
    unfold UserStore.getByIdForTenantWorkspace
    simp only [hstored, except_bind_ok, Except.ok.injEq, exists_eq_left', pure, Except.pure]
    rw [Option.filter_some, hmatch]
    exact eq_comm
  unfold scopedUser
  simp only [htenantField, hworkspaceField, hidField, hpassword, hroleVersion, hlookup, hfind,
    boundId_text htne htstrip, boundId_text hwne hwstrip, except_bind_ok, elim_ok, raising, mapError_ok,
    raiseFirst_ok, List.mem_cons, List.not_mem_nil, or_false, forall_eq_or_imp, forall_eq, pure, Except.pure,
    Except.ok.injEq, Bool.not_eq_false', bne_eq_false_iff_eq, exists_eq_left', exists_eq_left,
    Option.ite_none_right_eq_some, Option.some.injEq, Bool.and_eq_true, exists_const]
  constructor
  · rintro ⟨_, ⟨⟨htrimmed, hwtrimmed⟩, rfl⟩, -, _, -, -, _, -, ⟨-, hp, hv, hrole⟩, rfl⟩
    exact ⟨rfl, htrimmed, hwtrimmed, hp, hv, hrole⟩
  · rintro ⟨rfl, htrimmed, hwtrimmed, hp, hv, hrole⟩
    exact ⟨_, ⟨⟨htrimmed, hwtrimmed⟩, rfl⟩, hactive, _, hboundTenant, rfl, _, hboundWorkspace,
      ⟨rfl, hp, hv, hrole⟩, rfl⟩

/-- An issued session lasts for the configured time. -/
theorem ended_session {now : ℚ} (h : now < call.now + cfg.ttl_seconds) :
    ended (sessionRecord cfg user user_id tenant workspace call) now = .ok false := by
  have hrevoked : Json.member? "revoked_at" (sessionRecord cfg user user_id tenant workspace call) =
      some .null := by
    unfold sessionRecord storedRecord
    rw [Json.member?_merge]
    rfl
  have hexpires : getD "expires_at" (.int 0) (sessionRecord cfg user user_id tenant workspace call) =
      .float (call.now + cfg.ttl_seconds) := by
    unfold sessionRecord storedRecord getD
    rw [Json.member?_merge]
    rfl
  unfold ended
  rw [hrevoked, hexpires]
  show Except.ok (decide (call.now + cfg.ttl_seconds ≤ now)) = _
  rw [decide_eq_false (not_le.mpr h)]

variable {result : LoginResult} {id : String}

/-- The checks of a validation on an issued session. -/
theorem liveSession_session {now : ℚ} {x : String × Record × Record}
    (hissued : Issued cfg s s' call result user (.str id) tenant workspace)
    (hstored : s.users.getById (.str id) = .ok (some user)) (htoken : call.token ≠ "")
    (hnow : now < call.now + cfg.ttl_seconds) :
    liveSession s' (some call.token) now = .ok x ↔ Validatable user ∧
      x = (call.token, sessionRecord cfg user (.str id) tenant workspace call, user) := by
  have hfilter : (some call.token).filter (· ≠ "") = some call.token := by
    rw [Option.filter_some, if_pos (by simpa using htoken)]
  have hrecord : s'.sessions.lookup call.token =
      some (sessionRecord cfg user (.str id) tenant workspace call) := hissued.record
  have husers : s'.users.getById (.str id) = .ok (some user) := by rw [hissued.users, hstored]
  have hscoped : ∀ found, scopedUser s'.users (sessionRecord cfg user (.str id) tenant workspace call) =
      .ok found ↔ _ := fun _ =>
    scopedUser_session hissued.id husers hissued.active hissued.tenant hissued.workspace
  unfold liveSession
  simp only [hfilter, hrecord, ended_session hnow, except_bind_ok, elim_ok, raising, mapError_ok,
    raiseFirst_ok, List.mem_singleton, forall_eq, pure, Except.pure, Except.ok.injEq, Option.some.injEq,
    exists_eq_left', Bool.not_eq_false', validAuthorizationSnapshot_session, hscoped, exists_const]
  constructor
  · rintro ⟨⟨hemail, hpermissions, hcollections⟩, -, _, ⟨rfl, htenant, hworkspace, hp, hv, hrole⟩, rfl⟩
    exact ⟨⟨hemail, hrole, hpermissions, hcollections, htenant, hworkspace, hp, hv⟩, rfl⟩
  · rintro ⟨h, rfl⟩
    exact ⟨⟨h.email, h.permissions, h.collections⟩, trivial, _,
      ⟨rfl, h.tenant, h.workspace, h.password_version, h.role_version, h.role⟩, rfl⟩

/-- The record of an issued session carries the role of the user and is not migrated. -/
theorem ceilingRecord_session {token : String} {now : ℚ} :
    ceilingRecord s token (sessionRecord cfg user user_id tenant workspace call) user now =
      .ok (sessionRecord cfg user user_id tenant workspace call, s.sessions) := by
  have hrole : getD "canonical_role" .null (sessionRecord cfg user user_id tenant workspace call) =
      .str (canonicalRole (roleText (Json.member? "role" user))).name := by
    unfold sessionRecord
    rw [getD_stored (by decide)]
    rfl
  unfold ceilingRecord
  rw [if_neg (by rw [legacySnapshot_session]; exact Bool.false_ne_true), hrole]
  simp only [equal_str.mpr rfl]
  rfl

/-- The grants of an issued session are those of the user. -/
theorem presentGrants_session :
    presentGrants (sessionRecord cfg user user_id tenant workspace call) user =
      ⟨(authorizationGrantsForUser user).permissions,
        sortedSet (authorizationGrantsForUser user).allowed_collection_ids⟩ := by
  have hpermissions : textsOf "permissions" (sessionRecord cfg user user_id tenant workspace call) =
      (authorizationGrantsForUser user).permissions := by
    unfold textsOf
    rw [permissions_session, Option.bind_some, texts?_ofTexts, Option.getD_some]
  have hcollections : textsOf "allowed_collection_ids"
      (sessionRecord cfg user user_id tenant workspace call) =
      (authorizationGrantsForUser user).allowed_collection_ids := by
    unfold textsOf
    rw [collections_session, Option.bind_some, texts?_ofTexts, Option.getD_some]
  unfold presentGrants
  simp only [hpermissions, hcollections, intersectGrants_self]
  rw [show sortedSet (authorizationGrantsForUser user).permissions =
    (authorizationGrantsForUser user).permissions from sortedSet_permissionsForRole _ _]

/-- A validation of an issued session whose checks pass. -/
theorem authenticate_session {reads : Reads}
    (hlive : liveSession s (some call.token) reads.now =
      .ok (call.token, sessionRecord cfg user user_id tenant workspace call, user)) :
    ∃ record s', authenticate cfg s (some call.token) reads = .ok (snapshotOf record
      ⟨(authorizationGrantsForUser user).permissions,
        sortedSet (authorizationGrantsForUser user).allowed_collection_ids⟩, s') := by
  refine ⟨sessionRecord cfg user user_id tenant workspace call,
    { s with sessions := touch cfg s.sessions call.token reads.touch }, ?_⟩
  unfold authenticate
  rw [except_bind_ok]
  refine ⟨_, hlive, ?_⟩
  rw [except_bind_ok]
  refine ⟨_, ceilingRecord_session, ?_⟩
  have hgrants : presentGrants (sessionRecord cfg user user_id tenant workspace call) user = _ :=
    presentGrants_session
  rw [← hgrants]
  generalize sessionRecord cfg user user_id tenant workspace call = record
  rfl

end Checks

/-- A manager with two collections. -/
def plainManager : Record :=
  [("user_id", .str "u1"), ("email", .str "Ana@clinic.test"), ("role", .str "operator"),
    ("tenant_id", .str "t1"), ("authorized_collection_ids", .arr [.str "notes", .str "rag_phase0"])]

/-- The manager with a space after the name of the workspace. -/
def spacedManager : Record := ("workspace_id", .str "main ") :: plainManager

/-- The store with one user. -/
def storeWith (user : Record) : State := ⟨⟨[(0, user)], [("ana@clinic.test", 0)], [(.str "u1", 0)]⟩, ∅, []⟩

/-- The manager logs in. -/
def managerLogin : LoginCall :=
  { email := some "ana@clinic.test", password := "", tenant_id := .str "t1", ip := none,
    user_agent := none, token := "tok", now := 0 }

/-- A configuration with the tenant policy of the provider. -/
def tenantConfig : Config :=
  ⟨fun _ _ => true, fun user tenant => (getD "tenant_id" .null user).equal (.str tenant), 3600,
    fun token => token⟩

end RickIntelligence.Identity
