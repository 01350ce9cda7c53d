import RickIntelligence.Authorization.Permissions

/-!
# Users and sessions

The stores of `rick_identity/stores.py` in memory, the snapshots of `rick_identity/snapshots.py` and the
provider of `rick_identity/provider.py`. A user and a session are dictionaries with values of any kind.
The user store holds references to the dictionaries that were saved (`UserStore.objects`), since the
same dictionary may be changed and saved again. Every reading of the clock is an argument.
-/

namespace RickIntelligence.Identity

open Lib Authorization Knowledge

/-- A user or a session. -/
abbrev Record := Json.Members

/-- What a call may raise: an `IdentityError` with its code, or an error of the language. -/
inductive Raised where
  | identity (code : String)
  | keyError
  | typeError
  | attributeError
  deriving DecidableEq, Repr

/-- `record.get(name, default)`. -/
def getD (name : String) (default : Json) (record : Record) : Json :=
  (Json.member? name record).getD default

/-- `AUTHORIZATION_SNAPSHOT_VERSION`. -/
def authorizationSnapshotVersion : ℤ := 1

/-! ## Snapshots -/

/-- `bounded_text`. -/
def boundedText (value : Json) (maximum : ℕ) : Bool :=
  match value.text? with
  | none => false
  | some s => strip s != "" && decide (s.toList.length ≤ maximum) &&
      !s.toList.any fun c => decide (c.toNat < 0x20) || c.toNat == 0x7f

/-- `text_list`. -/
def textList (value : Json) (maximumItems maximumLength : ℕ) : Bool :=
  match value with
  | .arr items => decide (items.length ≤ maximumItems) && items.all (boundedText · maximumLength)
  | _ => false

/-- The upper case of one character, as far as it is one ASCII letter: that of the dotless i and of the
long s is. -/
def upperChar (c : Char) : Char :=
  if c.toNat = 0x131 then 'I' else if c.toNat = 0x17f then 'S' else c.toUpper

/-- `str.upper`, compared with names in ASCII. -/
def upper (s : String) : String := String.ofList (s.toList.map upperChar)

/-- `known_role`. -/
def knownRole (value : Json) : Bool :=
  boundedText value 64 && match value.text? with
    | none => false
    | some s => canonicalRoles.contains (upper (strip s)) ||
        (legacyRoleAliases.lookup (lower (strip s))).isSome

/-- `type(version) is int and version == AUTHORIZATION_SNAPSHOT_VERSION`. -/
def currentVersion : Option Json → Bool
  | some (.int n) => n == authorizationSnapshotVersion
  | _ => false

/-- `legacy_snapshot`. -/
def legacySnapshot (record : Record) : Bool :=
  if Json.has "permissions" record || Json.has "canonical_role" record then false
  else if (getD "authorization_state" .null record).equal (.str "LEGACY_UNMIGRATED") then
    !Json.has "authorization_snapshot_version" record ||
      currentVersion (Json.member? "authorization_snapshot_version" record)
  else !(Json.has "authorization_state" record || Json.has "authorization_snapshot_version" record)

/-- The fields of a snapshot that are texts, with their bounds. -/
def boundedFields : List (String × ℕ) := [("email", 256), ("role", 64), ("canonical_role", 64)]

/-- A member of the record, if it has one with the name, meets the condition. -/
def ifPresent (name : String) (ok : Json → Bool) (record : Record) : Bool :=
  (Json.member? name record).all ok

/-- The part of `valid_authorization_snapshot` on a record that is not a legacy one. -/
def modernSnapshot (record : Record) : Bool :=
  match (getD "authorization_state" .null record).text?, (getD "canonical_role" .null record).text? with
  | some state, some role =>
    ["AUTHORITATIVE", "MIGRATED"].contains state &&
      currentVersion (Json.member? "authorization_snapshot_version" record) &&
      canonicalRoles.contains role &&
      ifPresent "role" (fun r => (canonicalRole r.text?).name == role) record &&
      textList (getD "permissions" .null record) 256 128 &&
      textList (getD "allowed_collection_ids" .null record) 128 256
  | _, _ => false

/-- `valid_authorization_snapshot`. -/
def validAuthorizationSnapshot (record : Record) : Bool :=
  boundedFields.all (fun f => ifPresent f.1 (boundedText · f.2) record) &&
    ifPresent "role" knownRole record &&
    ifPresent "allowed_collection_ids" (textList · 128 256) record &&
    (legacySnapshot record || modernSnapshot record)

/-- `SNAPSHOT_FIELDS`. -/
def snapshotFields : List String :=
  ["email", "role", "canonical_role", "permissions", "authorization_snapshot_version",
    "authorization_state", "allowed_collection_ids"]

/-- `snapshot_payload`. -/
def snapshotPayload (record : Record) : Record := Json.restrict snapshotFields record

/-! ## The user store -/

/-- `InMemoryUserStore`. -/
structure UserStore where
  /-- The dictionaries that the store refers to. -/
  objects : List (ℕ × Record)
  by_email : List (String × ℕ)
  by_id : List (Json × ℕ)

/-- A key of a dictionary is no list and no dictionary. -/
def hashable : Json → Bool
  | .arr _ | .obj _ => false
  | _ => true

namespace UserStore

/-- The dictionary of a reference. -/
def deref (users : UserStore) (ref : ℕ) : Option Record := users.objects.lookup ref

/-- `get_by_id`. -/
def getById (users : UserStore) (user_id : Json) : Except Raised (Option Record) :=
  if hashable user_id then
    .ok ((users.by_id.find? fun e => e.1.equal user_id).bind fun e => users.deref e.2)
  else .error .typeError

/-- The user has an active account and membership. -/
def active (record : Record) : Bool :=
  (getD "status" (.str "active") record).equal (.str "active") &&
    (getD "membership_status" (.str "active") record).equal (.str "active")

/-- `get_by_email_for_tenant`. -/
def getByEmailForTenant (users : UserStore) (email : Option String) (tenant_id : Json) :
    Option Record :=
  let record := (users.by_email.lookup (lower (strip (textOr "" email)))).bind users.deref
  record.filter fun r => (getD "tenant_id" .null r).equal tenant_id && active r

/-- `get_by_id_for_tenant_workspace`. -/
def getByIdForTenantWorkspace (users : UserStore) (user_id : Json) (tenant_id workspace_id : String) :
    Except Raised (Option Record) := do
  let record ← users.getById user_id
  return record.filter fun r => (getD "tenant_id" .null r).equal (.str tenant_id) &&
    (getD "workspace_id" (.str "default") r).equal (.str workspace_id)

/-- `(record.get("email") or "").strip().lower()`. -/
def emailKey (record : Record) : Except Raised String :=
  let email := getD "email" .null record
  if email.truthy then
    match email.text? with
    | some s => .ok (lower (strip s))
    | none => .error .attributeError
  else .ok ""

/-- The address of the user that was saved before is given up, if it is still that user's. -/
def releaseEmail (users : UserStore) (user_id : Json) : Except Raised UserStore :=
  match users.by_id.find? fun e => e.1.equal user_id with
  | none => .ok users
  | some e =>
    match users.deref e.2 with
    | none => .ok users
    | some previous => do
      let email ← emailKey previous
      return if email ≠ "" ∧ users.by_email.lookup email = some e.2 then
        { users with by_email := users.by_email.filter (·.1 ≠ email) }
      else users

/-- `d[key] = ref` on one of the two indexes. -/
def index {κ : Type} (same : κ → Bool) (key : κ) (ref : ℕ) (entries : List (κ × ℕ)) :
    List (κ × ℕ) :=
  entries.filter (fun e => !same e.1) ++ [(key, ref)]

/-- `save`, of the dictionary `ref` with its present contents. The errors leave what was done before
them. -/
def save (users : UserStore) (ref : ℕ) (record : Record) : UserStore × Except Raised Unit :=
  let users := { users with objects := (ref, record) :: users.objects.filter (·.1 ≠ ref) }
  match Json.member? "user_id" record with
  | none => (users, .error .keyError)
  | some user_id =>
    if hashable user_id = false then (users, .error .typeError)
    else match users.releaseEmail user_id with
      | .error e => (users, .error e)
      | .ok released =>
        match emailKey record with
        | .error e => (released, .error e)
        | .ok email =>
          ({ released with
              by_email := index (· == email) email ref released.by_email
              by_id := index (Json.equal · user_id) user_id ref released.by_id }, .ok ())

end UserStore

/-! ## The session store -/

/-- The stores, and the tokens that were ever drawn. -/
structure State where
  users : UserStore
  sessions : AList fun _ : String => Record
  drawn : List String

/-- The parts of the provider that are configured. -/
structure Config where
  verify : Record → String → Bool
  tenant_policy : Record → String → Bool
  ttl_seconds : ℚ
  sessionIdForToken : String → String

/-- `create` of the session store, with a new token. -/
def createSession (cfg : Config) (sessions : AList fun _ : String => Record) (record : Record)
    (token : String) (now : ℚ) : AList fun _ : String => Record :=
  sessions.insert token (Json.merge record [
    ("session_id", .str (cfg.sessionIdForToken token)), ("created_at", .float now),
    ("last_seen_at", .float now), ("expires_at", .float (now + cfg.ttl_seconds)),
    ("revoked_at", .null), ("revoke_reason", .null)])

/-- `record.get("revoked_at") is not None or now >= record.get("expires_at", 0)`. -/
def ended (record : Record) (now : ℚ) : Except Raised Bool :=
  match Json.member? "revoked_at" record with
  | none | some .null =>
    match (getD "expires_at" (.int 0) record).numeric? with
    | some expires_at => .ok (decide (expires_at ≤ now))
    | none => .error .typeError
  | some _ => .ok true

/-- `update_authorization_snapshot`: the sessions with the snapshot, or nothing if it is not stored. -/
def updateAuthorizationSnapshot (sessions : AList fun _ : String => Record) (token : String)
    (expected snapshot : Record) (now : ℚ) :
    Except Raised (Option (AList fun _ : String => Record)) :=
  match sessions.lookup token with
  | none => .ok none
  | some record =>
    if (Json.obj record).equal (.obj expected) && legacySnapshot record then do
      let isOver ← ended record now
      return if !isOver &&
          (getD "authorization_state" .null snapshot).equal (.str "MIGRATED") &&
          validAuthorizationSnapshot (Json.merge record snapshot) then
        some (sessions.insert token (Json.merge record (snapshotPayload snapshot)))
      else none
    else .ok none

/-- `touch`. -/
def touch (cfg : Config) (sessions : AList fun _ : String => Record) (token : String) (now : ℚ) :
    AList fun _ : String => Record :=
  match sessions.lookup token with
  | none => sessions
  | some record =>
    sessions.insert token (Json.setMember "expires_at" (.float (now + cfg.ttl_seconds))
      (Json.setMember "last_seen_at" (.float now) record))

/-! ## Login -/

/-- `_required_tenant_id` and `_required_workspace_id`, which have one body. -/
def requiredId (value : Json) : Except Raised String :=
  match value.text? with
  | some s => if strip s = "" then .error (.identity "forbidden") else .ok (strip s)
  | none => .error (.identity "forbidden")

/-- The arguments of `login`, the token that is drawn and the time. -/
structure LoginCall where
  email : Option String
  password : String
  tenant_id : Json
  ip : Option String
  user_agent : Option String
  token : String
  now : ℚ

/-- The result of `login`. -/
structure LoginResult where
  session_token : String
  session_id : String
  user_id : Json

/-- A list of texts as a value. -/
def ofTexts (l : List String) : Json := .arr (l.map .str)

/-- The record of `_issue_session`. -/
def issuedRecord (user : Record) (user_id : Json) (tenant_id workspace_id : String)
    (call : LoginCall) : Record :=
  let role := (canonicalRole (roleText (Json.member? "role" user))).name
  let overrides := normalizePermissionOverrides (Json.member? "permission_overrides" user)
  [("user_id", user_id), ("email", getD "email" .null user),
    ("role", .str (legacyRoleLabel (some role))), ("canonical_role", .str role),
    ("permissions", ofTexts (permissionsForRole (some role) (some overrides.toJson))),
    ("authorization_snapshot_version", .int authorizationSnapshotVersion),
    ("authorization_state", .str "AUTHORITATIVE"), ("tenant_id", .str tenant_id),
    ("workspace_id", .str workspace_id),
    ("allowed_collection_ids", ofTexts (allowedCollectionIdsForUser (userOf user))),
    ("password_version", getD "password_version" (.int 1) user),
    ("role_version", getD "role_version" (.int 1) user),
    ("ip", Json.ofOptionalText call.ip),
    ("user_agent", match call.user_agent with
      | none => .null
      | some agent => if agent = "" then .null else .str (String.ofList (agent.toList.take 256)))]

/-- `_issue_session`. -/
def issueSession (cfg : Config) (s : State) (user : Record) (tenant_id : String) (call : LoginCall) :
    Except Raised (LoginResult × State) := do
  let user_id ← (Json.member? "user_id" user).elim (.error .keyError) .ok
  let workspace_id ← requiredId (getD "workspace_id" (.str "default") user)
  let record := issuedRecord user user_id tenant_id workspace_id call
  return (⟨call.token, cfg.sessionIdForToken call.token, user_id⟩,
    { s with
      sessions := createSession cfg s.sessions record call.token call.now
      drawn := call.token :: s.drawn })

/-- `login`. -/
def login (cfg : Config) (s : State) (call : LoginCall) : Except Raised (LoginResult × State) := do
  let user ← ((s.users.getByEmailForTenant call.email call.tenant_id).filter
    (cfg.verify · call.password)).elim (.error (.identity "unauthorized")) .ok
  raiseFirst [(!UserStore.active user, .identity "forbidden")]
  let requested ← requiredId call.tenant_id
  let tenant ← requiredId (getD "tenant_id" .null user)
  raiseFirst [(tenant != requested || !cfg.tenant_policy user requested, .identity "forbidden")]
  issueSession cfg s user requested call

/-! ## Validation -/

/-- The result of `validate_session`. -/
structure Snapshot where
  authenticated : Bool
  session_state : String
  user_id : Json
  email : Json
  role : Json
  canonical_role : Json
  permissions : List String
  authorization_snapshot_version : Json
  authorization_state : Json
  tenant_id : Json
  workspace_id : Json
  session_id : Json
  allowed_collection_ids : List String

/-- `_anonymous_snapshot`. -/
def anonymousSnapshot : Snapshot where
  authenticated := false
  session_state := "anonymous"
  user_id := .null
  email := .null
  role := .null
  canonical_role := .null
  permissions := []
  authorization_snapshot_version := .int authorizationSnapshotVersion
  authorization_state := .str "AUTHORITATIVE"
  tenant_id := .null
  workspace_id := .null
  session_id := .null
  allowed_collection_ids := []

/-- A field of a record that is a list of texts. -/
def textsOf (name : String) (record : Record) : List String :=
  ((Json.member? name record).bind Json.texts?).getD []

/-- `_snapshot`. -/
def snapshotOf (record : Record) (grants : GrantSet) : Snapshot where
  authenticated := true
  session_state := "active"
  user_id := getD "user_id" .null record
  email := getD "email" .null record
  role := getD "role" .null record
  canonical_role := getD "canonical_role" .null record
  permissions := grants.permissions
  authorization_snapshot_version :=
    getD "authorization_snapshot_version" (.int authorizationSnapshotVersion) record
  authorization_state := getD "authorization_state" (.str "AUTHORITATIVE") record
  tenant_id := getD "tenant_id" .null record
  workspace_id := getD "workspace_id" (.str "default") record
  session_id := getD "session_id" .null record
  allowed_collection_ids := grants.allowed_collection_ids

/-- How a validation ends early: with the anonymous snapshot, or with an error. -/
inductive Stop where
  | anonymous
  | raised (e : Raised)

/-- The result of a validation that ends early. -/
def Stop.result : Stop → Except Raised Snapshot
  | .anonymous => .ok anonymousSnapshot
  | .raised e => .error e

/-- An error of the language ends a validation. -/
def raising {α : Type} (x : Except Raised α) : Except Stop α := x.mapError .raised

/-- A missing identifier ends a validation with the anonymous snapshot. -/
def boundId (value : Json) : Except Stop String := (requiredId value).mapError fun _ => .anonymous

/-- The user that a session is bound to. -/
def scopedUser (users : UserStore) (record : Record) : Except Stop Record := do
  let tenant ← boundId (getD "tenant_id" .null record)
  let workspace ← boundId (getD "workspace_id" (.str "default") record)
  let user_id := getD "user_id" .null record
  let found ← raising (users.getByIdForTenantWorkspace
    (if user_id.truthy then user_id else .str "") tenant workspace)
  let user ← found.elim (.error .anonymous) .ok
  raiseFirst [(!UserStore.active user, .anonymous)]
  let userTenant ← boundId (getD "tenant_id" .null user)
  raiseFirst [(tenant != userTenant, .anonymous)]
  let userWorkspace ← boundId (getD "workspace_id" (.str "default") user)
  raiseFirst [
    (userWorkspace != workspace, .anonymous),
    (!(getD "password_version" (.int 1) user).equal (getD "password_version" (.int 1) record),
      .anonymous),
    (!(getD "role_version" (.int 1) user).equal (getD "role_version" (.int 1) record), .anonymous),
    (!knownRole (getD "role" .null user), .anonymous)]
  return user

/-- The checks of a validation before the migration: the session and its user. -/
def liveSession (s : State) (token : Option String) (now : ℚ) : Except Stop (String × Record × Record) := do
  let token ← (token.filter (· ≠ "")).elim (.error .anonymous) .ok
  let record ← (s.sessions.lookup token).elim (.error .anonymous) .ok
  raiseFirst [(!validAuthorizationSnapshot record, .anonymous)]
  let isOver ← raising (ended record now)
  raiseFirst [(isOver, .anonymous)]
  let user ← scopedUser s.users record
  return (token, record, user)

/-- `_migrate_legacy_record`. -/
def migrateLegacyRecord (record user : Record) : Record :=
  let role := (canonicalRole (roleText (Json.member? "role" user))).name
  let overrides := normalizePermissionOverrides (Json.member? "permission_overrides" user)
  let permissions := permissionsForRole (some role) (some overrides.toJson)
  let permissions := match Json.member? "role" record with
    | some old => intersectGrants (permissionsForRole old.text? none) permissions
    | none => permissions
  let collections := allowedCollectionIdsForUser (userOf user)
  let collections := match Json.member? "allowed_collection_ids" record with
    | some old => intersectGrants
        (allowedCollectionIdsForUser (userOf [("authorized_collection_ids", old)])) collections
    | none => collections
  [("role", .str (legacyRoleLabel (some role))), ("canonical_role", .str role),
    ("permissions", ofTexts permissions),
    ("authorization_snapshot_version", .int authorizationSnapshotVersion),
    ("authorization_state", .str "MIGRATED"), ("allowed_collection_ids", ofTexts collections),
    ("password_version", getD "password_version" (.int 1) user),
    ("role_version", getD "role_version" (.int 1) user)]

/-- A legacy session whose role has fewer defaults than the present role of the user. -/
def promoted (record user : Record) : Bool :=
  match Json.member? "role" record with
  | none => false
  | some old =>
    let current_role := (canonicalRole (roleText (Json.member? "role" user))).name
    let current_defaults := permissionsForRole (some current_role) none
    intersectGrants (permissionsForRole old.text? none) current_defaults != current_defaults

/-- The three readings of the clock of one validation. -/
structure Reads where
  now : ℚ
  persist : ℚ
  touch : ℚ

/-- The record that a validation goes on with, and the sessions after a migration. -/
def ceilingRecord (s : State) (token : String) (record user : Record) (now : ℚ) :
    Except Stop (Record × AList fun _ : String => Record) :=
  if legacySnapshot record then do
    raiseFirst [(promoted record user, .anonymous)]
    let migrated := migrateLegacyRecord record user
    let stored ← raising (updateAuthorizationSnapshot s.sessions token record migrated now)
    let sessions ← stored.elim (.error .anonymous) .ok
    return (Json.merge record migrated, sessions)
  else do
    let current_role := (canonicalRole (roleText (Json.member? "role" user))).name
    raiseFirst [(!(getD "canonical_role" .null record).equal (.str current_role), .anonymous)]
    return (record, s.sessions)

/-- The grants of a validation: those of the record that the user still has. -/
def presentGrants (record user : Record) : GrantSet :=
  let current := authorizationGrantsForUser user
  { permissions := intersectGrants (textsOf "permissions" record) current.permissions
    allowed_collection_ids :=
      intersectGrants (textsOf "allowed_collection_ids" record) current.allowed_collection_ids }

/-- A validation that is not ended early: the snapshot and the sessions after it. -/
def authenticate (cfg : Config) (s : State) (token : Option String) (reads : Reads) :
    Except Stop (Snapshot × State) := do
  let (token, record, user) ← liveSession s token reads.now
  let (record, sessions) ← ceilingRecord s token record user reads.persist
  return (snapshotOf record (presentGrants record user),
    { s with sessions := touch cfg sessions token reads.touch })

/-- `validate_session`. -/
def validateSession (cfg : Config) (s : State) (token : Option String) (reads : Reads) :
    Except Raised Snapshot × State :=
  match authenticate cfg s token reads with
  | .ok (snapshot, s') => (.ok snapshot, s')
  | .error stop => (stop.result, s)

/-! ## The machine -/

/-- The calls on the provider and its stores. -/
inductive Event where
  | login (call : LoginCall)
  | saveUser (ref : ℕ) (record : Record)
  | validate (token : Option String) (reads : Reads)
  | deleteSession (token : String)

/-- One call. A token that was drawn before is not drawn again. -/
def exec (cfg : Config) (s : State) : Event → Option State
  | .login call =>
    if call.token ∈ s.drawn then none
    else match login cfg s call with
      | .ok (_, s') => some s'
      | .error _ => some s
  | .saveUser ref record => some { s with users := (s.users.save ref record).1 }
  | .validate token reads => some (validateSession cfg s token reads).2
  | .deleteSession token => some { s with sessions := s.sessions.erase token }

end RickIntelligence.Identity
