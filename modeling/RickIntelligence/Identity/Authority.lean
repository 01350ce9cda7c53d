import RickIntelligence.Identity.Sessions
import RickIntelligence.Lib.Trace

/-!
# The authority of a session

The record of a session has fields that never change, fields that are its ceiling, and the times of its
last use. In a run the ceiling changes once at most, when a legacy record is migrated (`Evolves`), and
the migrated ceiling is within the one that the legacy record stands for. A validation grants what the
ceiling and the user grant, so what it grants was granted when the session was issued
(`session_authority`).
-/

namespace RickIntelligence.Identity

open Lib Authorization

variable {cfg : Config} {s s' : State} {r r' r'' user : Record} {t : String}

/-! ## Ceilings -/

/-- The fields of a session that say what it may be granted. -/
def ceilingFields : List String :=
  ["role", "canonical_role", "permissions", "authorization_snapshot_version", "authorization_state",
    "allowed_collection_ids"]

/-- The fields of a session with the times of its last use. -/
def usageFields : List String := ["last_seen_at", "expires_at"]

/-- Two records have the same ceiling. -/
def SameCeiling (r r' : Record) : Prop :=
  ∀ k ∈ ceilingFields, Json.member? k r' = Json.member? k r

/-- Two records agree but for the ceiling and the times of the last use. -/
def SameIdentity (r r' : Record) : Prop :=
  ∀ k, k ∉ ceilingFields → k ∉ usageFields → Json.member? k r' = Json.member? k r

/-- The permissions that a record stands for: those that were recorded, or the defaults of the role of
a legacy record that has one. -/
def recordedPermissions (r : Record) : Option (List String) :=
  if legacySnapshot r then
    (Json.member? "role" r).map fun old => permissionsForRole old.text? none
  else some (textsOf "permissions" r)

/-- The collections that a record stands for: those that were recorded, or the list of a legacy record
that has one. -/
def recordedCollections (r : Record) : Option (List String) :=
  if legacySnapshot r then
    (Json.member? "allowed_collection_ids" r).map fun old =>
      allowedCollectionIdsForUser (userOf [("authorized_collection_ids", old)])
  else some (textsOf "allowed_collection_ids" r)

/-- The record is a migrated one, within what the legacy record stands for. -/
structure MigratedFrom (r r' : Record) : Prop where
  legacy : legacySnapshot r = true
  modern : legacySnapshot r' = false
  state : Json.member? "authorization_state" r' = some (.str "MIGRATED")
  permissions : ∀ l, recordedPermissions r = some l →
    ∀ x, Grants (textsOf "permissions" r') x → Grants l x
  collections : ∀ l, recordedCollections r = some l →
    ∀ x, Grants (textsOf "allowed_collection_ids" r') x → Grants l x

/-- What may become of the record of a session. -/
structure Evolves (r r' : Record) : Prop where
  identity : SameIdentity r r'
  ceiling : SameCeiling r r' ∨ MigratedFrom r r'

/-- Two records with the same ceiling are both legacy or both not. -/
theorem SameCeiling.legacySnapshot (h : SameCeiling r r') :
    legacySnapshot r' = legacySnapshot r := by
  unfold Identity.legacySnapshot getD Json.has
  rw [h "permissions" (by decide), h "canonical_role" (by decide),
    h "authorization_state" (by decide), h "authorization_snapshot_version" (by decide)]

/-- Two records with the same ceiling stand for the same permissions. -/
theorem SameCeiling.recordedPermissions (h : SameCeiling r r') :
    recordedPermissions r' = recordedPermissions r := by
  unfold Identity.recordedPermissions textsOf
  rw [h.legacySnapshot, h "permissions" (by decide), h "role" (by decide)]

/-- Two records with the same ceiling stand for the same collections. -/
theorem SameCeiling.recordedCollections (h : SameCeiling r r') :
    recordedCollections r' = recordedCollections r := by
  unfold Identity.recordedCollections textsOf
  rw [h.legacySnapshot, h "allowed_collection_ids" (by decide)]

/-- A record that is not a legacy one stands for the permissions that it has. -/
theorem recordedPermissions_modern (h : legacySnapshot r = false) :
    recordedPermissions r = some (textsOf "permissions" r) := by
  unfold recordedPermissions
  rw [h]
  rfl

/-- A record that is not a legacy one stands for the collections that it has. -/
theorem recordedCollections_modern (h : legacySnapshot r = false) :
    recordedCollections r = some (textsOf "allowed_collection_ids" r) := by
  unfold recordedCollections
  rw [h]
  rfl

/-- A record is a state of itself. -/
theorem Evolves.refl (r : Record) : Evolves r r := ⟨fun _ _ _ => rfl, .inl fun _ _ => rfl⟩

/-- A migrated record keeps its ceiling. -/
theorem Evolves.sameCeiling (h : Evolves r r') (hmodern : legacySnapshot r = false) :
    SameCeiling r r' := by
  rcases h.ceiling with hsame | hmigrated
  · exact hsame
  · rw [hmigrated.legacy] at hmodern
    cases hmodern

/-- A migrated record with the same ceiling is a migrated one. -/
theorem MigratedFrom.of_sameCeiling (h : MigratedFrom r r') (hsame : SameCeiling r' r'') :
    MigratedFrom r r'' := by
  have htexts : ∀ k ∈ ceilingFields, textsOf k r'' = textsOf k r' := by
    intro k hk
    unfold textsOf
    rw [hsame k hk]
  refine ⟨h.legacy, hsame.legacySnapshot.trans h.modern, ?_, ?_, ?_⟩
  · rw [hsame "authorization_state" (by decide)]
    exact h.state
  · rw [htexts "permissions" (by decide)]
    exact h.permissions
  · rw [htexts "allowed_collection_ids" (by decide)]
    exact h.collections

/-- A record that has become of another becomes what is to become of that. -/
theorem Evolves.trans (h : Evolves r r') (h' : Evolves r' r'') : Evolves r r'' := by
  refine ⟨fun k hk hu => (h'.identity k hk hu).trans (h.identity k hk hu), ?_⟩
  rcases h.ceiling with hsame | hmigrated
  · rcases h'.ceiling with hsame' | hmigrated'
    · exact .inl fun k hk => (hsame' k hk).trans (hsame k hk)
    · -- The migration starts from the same ceiling.
      right
      refine ⟨hsame.legacySnapshot.symm.trans hmigrated'.legacy, hmigrated'.modern,
        hmigrated'.state, ?_, ?_⟩
      · rw [← hsame.recordedPermissions]
        exact hmigrated'.permissions
      · rw [← hsame.recordedCollections]
        exact hmigrated'.collections
  · exact .inr (hmigrated.of_sameCeiling (h'.sameCeiling hmigrated.modern))

/-- What a later record grants was granted by the one before. -/
theorem Evolves.permissions (h : Evolves r r') (hmodern : legacySnapshot r' = false) {l : List String}
    (hl : recordedPermissions r = some l) {x : String} (hx : Grants (textsOf "permissions" r') x) :
    Grants l x := by
  rcases h.ceiling with hsame | hmigrated
  · have heq := hsame.recordedPermissions
    rw [recordedPermissions_modern hmodern, hl] at heq
    cases heq
    exact hx
  · exact hmigrated.permissions l hl x hx

/-- What a later record grants of the collections was granted by the one before. -/
theorem Evolves.collections (h : Evolves r r') (hmodern : legacySnapshot r' = false) {l : List String}
    (hl : recordedCollections r = some l) {x : String}
    (hx : Grants (textsOf "allowed_collection_ids" r') x) : Grants l x := by
  rcases h.ceiling with hsame | hmigrated
  · have heq := hsame.recordedCollections
    rw [recordedCollections_modern hmodern, hl] at heq
    cases heq
    exact hx
  · exact hmigrated.collections l hl x hx

/-! ## Migration -/

/-- A list of texts is read back. -/
@[simp]
theorem texts?_ofTexts (l : List String) : (ofTexts l).texts? = some l := by
  show (l.map Json.str).mapM Json.text? = some l
  induction l with
  | nil => rfl
  | cons a l ih =>
    rw [List.map_cons, List.mapM_cons, ih]
    rfl

/-- The migrated permissions of a legacy session. -/
def migratedPermissions (record user : Record) : List String :=
  let role := (canonicalRole (roleText (Json.member? "role" user))).name
  let overrides := normalizePermissionOverrides (Json.member? "permission_overrides" user)
  let permissions := permissionsForRole (some role) (some overrides.toJson)
  match Json.member? "role" record with
  | some old => intersectGrants (permissionsForRole old.text? none) permissions
  | none => permissions

/-- The migrated collections of a legacy session. -/
def migratedCollections (record user : Record) : List String :=
  let collections := allowedCollectionIdsForUser (userOf user)
  match Json.member? "allowed_collection_ids" record with
  | some old => intersectGrants
      (allowedCollectionIdsForUser (userOf [("authorized_collection_ids", old)])) collections
  | none => collections

/-- A dictionary with the fields of a migration. -/
def migration (role canonical permissions version state collections password roleVersion : Json) :
    Record :=
  [("role", role), ("canonical_role", canonical), ("permissions", permissions),
    ("authorization_snapshot_version", version), ("authorization_state", state),
    ("allowed_collection_ids", collections), ("password_version", password),
    ("role_version", roleVersion)]

/-- The fields of a migration. -/
theorem migrateLegacyRecord_eq (r user : Record) : ∃ role canonical password roleVersion,
    migrateLegacyRecord r user = migration role canonical (ofTexts (migratedPermissions r user))
      (.int authorizationSnapshotVersion) (.str "MIGRATED")
      (ofTexts (migratedCollections r user)) password roleVersion := ⟨_, _, _, _, rfl⟩

/-- The payload of a migration is its ceiling. -/
theorem snapshotPayload_migration (a b c d e f g h : Json) :
    snapshotPayload (migration a b c d e f g h) = (migration a b c d e f g h).take 6 := rfl

/-- The record that a migration stores. -/
def migratedRecord (r user : Record) : Record :=
  Json.merge r (snapshotPayload (migrateLegacyRecord r user))

variable {k : String} {now : ℚ} {token : Option String} {snapshot : Snapshot} {e : Event} {es : List Event}

/-- The ceiling of a migrated record, as it is stored and as the validation goes on with it. -/
theorem member?_migrated (r user : Record) (hk : k ∈ ceilingFields) :
    Json.member? k (migratedRecord r user) = Json.member? k (migrateLegacyRecord r user) ∧
    Json.member? k (Json.merge r (migrateLegacyRecord r user)) =
      Json.member? k (migrateLegacyRecord r user) := by
  obtain ⟨a, b, g, h, heq⟩ := migrateLegacyRecord_eq r user
  unfold migratedRecord
  rw [heq, snapshotPayload_migration, Json.member?_merge, Json.member?_merge]
  simp only [ceilingFields, List.mem_cons, List.not_mem_nil, or_false] at hk
  rcases hk with rfl | rfl | rfl | rfl | rfl | rfl <;> exact ⟨rfl, rfl⟩

/-- A migration stores nothing but the ceiling. -/
theorem member?_migratedRecord_other (r user : Record) (hk : k ∉ ceilingFields) :
    Json.member? k (migratedRecord r user) = Json.member? k r := by
  obtain ⟨a, b, g, h, heq⟩ := migrateLegacyRecord_eq r user
  unfold migratedRecord
  rw [heq, snapshotPayload_migration]
  exact Json.member?_merge_other hk

/-- The record that a validation goes on with has the versions of the user besides. -/
theorem member?_merged_other (r user : Record) (hk : k ∉ ceilingFields) (hp : k ≠ "password_version")
    (hr : k ≠ "role_version") :
    Json.member? k (Json.merge r (migrateLegacyRecord r user)) = Json.member? k r := by
  obtain ⟨a, b, g, h, heq⟩ := migrateLegacyRecord_eq r user
  rw [heq]
  apply Json.member?_merge_other
  intro hmem
  have hmem : k ∈ ceilingFields ++ ["password_version", "role_version"] := hmem
  simp only [List.mem_append, List.mem_cons, List.not_mem_nil, or_false] at hmem
  rcases hmem with hmem | hmem | hmem
  · exact hk hmem
  · exact hp hmem
  · exact hr hmem

/-- The permissions of a migrated record. -/
theorem textsOf_permissions_migrated (r user : Record) :
    textsOf "permissions" (migratedRecord r user) = migratedPermissions r user := by
  obtain ⟨a, b, g, h, heq⟩ := migrateLegacyRecord_eq r user
  unfold textsOf
  rw [(member?_migrated r user (by decide)).1, heq]
  show ((ofTexts (migratedPermissions r user)).texts?).getD [] = _
  rw [texts?_ofTexts]
  rfl

/-- The collections of a migrated record. -/
theorem textsOf_collections_migrated (r user : Record) :
    textsOf "allowed_collection_ids" (migratedRecord r user) = migratedCollections r user := by
  obtain ⟨a, b, g, h, heq⟩ := migrateLegacyRecord_eq r user
  unfold textsOf
  rw [(member?_migrated r user (by decide)).1, heq]
  show ((ofTexts (migratedCollections r user)).texts?).getD [] = _
  rw [texts?_ofTexts]
  rfl

/-- A migration stays within what the legacy record stands for. -/
theorem migratedRecord_migratedFrom (hlegacy : legacySnapshot r = true) (user : Record) :
    MigratedFrom r (migratedRecord r user) := by
  obtain ⟨a, b, g, h, heq⟩ := migrateLegacyRecord_eq r user
  have hfield : ∀ k ∈ ceilingFields, Json.member? k (migratedRecord r user) =
      Json.member? k (migrateLegacyRecord r user) := fun k hk => (member?_migrated r user hk).1
  refine ⟨hlegacy, ?_, ?_, ?_, ?_⟩
  · unfold legacySnapshot Json.has
    rw [hfield "permissions" (by decide), heq]
    rfl
  · rw [hfield "authorization_state" (by decide), heq]
    rfl
  · intro l hl x hx
    rw [textsOf_permissions_migrated] at hx
    unfold recordedPermissions at hl
    rw [hlegacy, if_pos rfl] at hl
    obtain ⟨old, hold, rfl⟩ := Option.map_eq_some_iff.mp hl
    unfold migratedPermissions at hx
    rw [hold] at hx
    exact ((grants_intersectGrants _ _ x).mp hx).1
  · intro l hl x hx
    rw [textsOf_collections_migrated] at hx
    unfold recordedCollections at hl
    rw [hlegacy, if_pos rfl] at hl
    obtain ⟨old, hold, rfl⟩ := Option.map_eq_some_iff.mp hl
    unfold migratedCollections at hx
    rw [hold] at hx
    exact ((grants_intersectGrants _ _ x).mp hx).1

/-! ## One validation -/

/-- What a validation takes for the ceiling: the record, or what a legacy record is migrated to. -/
def Settles (r user r' : Record) : Prop :=
  legacySnapshot r = false ∧ r' = r ∨ legacySnapshot r = true ∧ r' = migratedRecord r user

/-- A record is settled to one that may become of it. -/
theorem Settles.evolves (h : Settles r user r') : Evolves r r' := by
  rcases h with ⟨-, rfl⟩ | ⟨hlegacy, rfl⟩
  · exact Evolves.refl _
  · exact ⟨fun k hk _ => member?_migratedRecord_other r user hk,
      .inr (migratedRecord_migratedFrom hlegacy user)⟩

/-- A settled record is not a legacy one. -/
theorem Settles.modern (h : Settles r user r') : legacySnapshot r' = false := by
  rcases h with ⟨hmodern, rfl⟩ | ⟨hlegacy, rfl⟩
  · exact hmodern
  · exact (migratedRecord_migratedFrom hlegacy user).modern

/-- The record with the times of its last use. -/
def touched (cfg : Config) (now : ℚ) (r : Record) : Record :=
  Json.setMember "expires_at" (.float (now + cfg.ttl_seconds))
    (Json.setMember "last_seen_at" (.float now) r)

/-- The use of a session changes the times of its last use. -/
theorem member?_touched (hk : k ∉ usageFields) :
    Json.member? k (touched cfg now r) = Json.member? k r := by
  have hk : k ≠ "last_seen_at" ∧ k ≠ "expires_at" := by
    simpa [usageFields] using hk
  unfold touched
  rw [Json.member?_setMember, if_neg hk.2, Json.member?_setMember, if_neg hk.1]

/-- The use of a session keeps its ceiling and its identity. -/
theorem evolves_touched (now : ℚ) (r : Record) : Evolves r (touched cfg now r) := by
  refine ⟨fun k _ hu => member?_touched hu, .inl fun k hk => member?_touched ?_⟩
  intro hu
  simp only [ceilingFields, usageFields, List.mem_cons, List.not_mem_nil, or_false] at hk hu
  rcases hu with rfl | rfl <;> simp at hk

/-- A missing value ends a computation. -/
theorem elim_ok {α : Type} {x : Option α} {a : α} {stop : Stop} :
    x.elim (Except.error stop) Except.ok = .ok a ↔ x = some a := by
  cases x <;> simp

/-- What the checks before the migration found. -/
theorem liveSession_ok {x : String × Record × Record} (h : liveSession s token now = .ok x) :
    token = some x.1 ∧ s.sessions.lookup x.1 = some x.2.1 ∧ scopedUser s.users x.2.1 = .ok x.2.2 := by
  unfold liveSession at h
  simp only [except_bind_ok, elim_ok, pure, Except.pure, Except.ok.injEq] at h
  obtain ⟨t, ht, record, hrecord, -, -, isOver, -, -, -, user, huser, rfl⟩ := h
  exact ⟨(Option.filter_eq_some_iff.mp ht).1, hrecord, huser⟩

/-- What a snapshot is stored over. -/
theorem updateAuthorizationSnapshot_some {sessions sessions' : AList fun _ : String => Record}
    {expected snapshot : Record}
    (h : updateAuthorizationSnapshot sessions t expected snapshot now = .ok (some sessions'))
    (hr : sessions.lookup t = some r) :
    sessions' = sessions.insert t (Json.merge r (snapshotPayload snapshot)) := by
  unfold updateAuthorizationSnapshot at h
  simp only [hr] at h
  split at h
  · simp only [except_bind_ok, pure, Except.pure, Except.ok.injEq] at h
    obtain ⟨isOver, -, h⟩ := h
    split at h
    · exact (Option.some.inj h).symm
    · cases h
  · cases h

/-- What a validation goes on with: the settled record, up to the versions of the user. -/
structure Proceeds (s : State) (t : String) (r user : Record)
    (x : Record × AList fun _ : String => Record) (r' : Record) : Prop where
  settles : Settles r user r'
  stored : x.2.lookup t = some r'
  others : ∀ t', t' ≠ t → x.2.lookup t' = s.sessions.lookup t'
  ceiling : SameCeiling r' x.1
  identity : ∀ k, k ∉ ceilingFields → k ≠ "password_version" → k ≠ "role_version" →
    Json.member? k x.1 = Json.member? k r

/-- What a validation goes on with. -/
theorem ceilingRecord_ok {x : Record × AList fun _ : String => Record} (hr : s.sessions.lookup t = some r)
    (h : ceilingRecord s t r user now = .ok x) :
    ∃ r', Proceeds s t r user x r' := by
  unfold ceilingRecord at h
  by_cases hlegacy : legacySnapshot r = true
  · rw [if_pos hlegacy] at h
    simp only [except_bind_ok, elim_ok, raising, mapError_ok, pure, Except.pure, Except.ok.injEq] at h
    obtain ⟨-, -, stored, hstored, sessions, rfl, rfl⟩ := h
    obtain rfl := updateAuthorizationSnapshot_some hstored hr
    refine ⟨migratedRecord r user, .inr ⟨hlegacy, rfl⟩, AList.lookup_insert _, ?_, ?_, ?_⟩
    · intro t' ht
      exact AList.lookup_insert_ne ht
    · intro k hk
      exact (member?_migrated r user hk).2.trans (member?_migrated r user hk).1.symm
    · intro k hk hp hv
      exact member?_merged_other r user hk hp hv
  · rw [if_neg hlegacy] at h
    simp only [except_bind_ok, pure, Except.pure, Except.ok.injEq] at h
    obtain ⟨-, -, rfl⟩ := h
    exact ⟨r, .inl ⟨by simpa using hlegacy, rfl⟩, hr, fun _ _ => rfl, fun _ _ => rfl,
      fun _ _ _ _ => rfl⟩

/-- A validation that is not ended early, of the session `t`. -/
structure Authenticates (cfg : Config) (s : State) (t : String) (r user r' : Record)
    (snapshot : Snapshot) (s' : State) : Prop where
  session : s.sessions.lookup t = some r
  bound : scopedUser s.users r = .ok user
  settles : Settles r user r'
  permissions : snapshot.permissions = (presentGrants r' user).permissions
  collections : snapshot.allowed_collection_ids = (presentGrants r' user).allowed_collection_ids
  tenant : snapshot.tenant_id = getD "tenant_id" .null r
  workspace : snapshot.workspace_id = getD "workspace_id" (.str "default") r
  users : s'.users = s.users
  drawn : s'.drawn = s.drawn
  stored : ∃ now, s'.sessions.lookup t = some (touched cfg now r')
  others : ∀ t', t' ≠ t → s'.sessions.lookup t' = s.sessions.lookup t'

/-- Records with the same ceiling have the same grants of a user. -/
theorem SameCeiling.presentGrants (h : SameCeiling r r') (user : Record) :
    presentGrants r' user = presentGrants r user := by
  unfold Identity.presentGrants textsOf
  rw [h "permissions" (by decide), h "allowed_collection_ids" (by decide)]

/-- What a validation that is not ended early does. -/
theorem authenticate_ok {reads : Reads} (h : authenticate cfg s token reads = .ok (snapshot, s')) :
    ∃ t r user r', token = some t ∧ Authenticates cfg s t r user r' snapshot s' := by
  unfold authenticate at h
  simp only [except_bind_ok, pure, Except.pure, Except.ok.injEq, Prod.mk.injEq] at h
  obtain ⟨⟨t, r, user⟩, hlive, ⟨record, sessions⟩, hceiling, rfl, rfl⟩ := h
  obtain ⟨ht, hr, huser⟩ := liveSession_ok hlive
  obtain ⟨r', hproceeds⟩ := ceilingRecord_ok hr hceiling
  have hsessions : touch cfg sessions t reads.touch =
      sessions.insert t (touched cfg reads.touch r') := by
    unfold touch
    rw [hproceeds.stored]
    rfl
  refine ⟨t, r, user, r', ht, hr, huser, hproceeds.settles, ?_, ?_, ?_, ?_, rfl, rfl, ?_, ?_⟩
  · exact congrArg GrantSet.permissions (hproceeds.ceiling.presentGrants user)
  · exact congrArg GrantSet.allowed_collection_ids (hproceeds.ceiling.presentGrants user)
  · show getD "tenant_id" .null record = getD "tenant_id" .null r
    unfold getD
    rw [hproceeds.identity "tenant_id" (by decide) (by decide) (by decide)]
  · show getD "workspace_id" (.str "default") record = getD "workspace_id" (.str "default") r
    unfold getD
    rw [hproceeds.identity "workspace_id" (by decide) (by decide) (by decide)]
  · refine ⟨reads.touch, ?_⟩
    show (touch cfg sessions t reads.touch).lookup t = _
    rw [hsessions, AList.lookup_insert]
  · intro t' hne
    show (touch cfg sessions t reads.touch).lookup t' = _
    rw [hsessions, AList.lookup_insert_ne hne]
    exact hproceeds.others t' hne

/-- An authenticated snapshot comes of a validation that is not ended early. -/
theorem validateSession_authenticated {reads : Reads} (h : validateSession cfg s token reads = (.ok snapshot, s'))
    (hauth : snapshot.authenticated = true) :
    ∃ t r user r', token = some t ∧ Authenticates cfg s t r user r' snapshot s' := by
  unfold validateSession at h
  cases hresult : authenticate cfg s token reads with
  | ok x =>
    rw [hresult] at h
    obtain ⟨snapshot', s''⟩ := x
    cases h
    exact authenticate_ok hresult
  | error stop =>
    rw [hresult] at h
    cases stop with
    | anonymous =>
      cases h
      cases hauth
    | raised e => cases h

/-- A validation that is ended early changes nothing. -/
theorem validateSession_cases (cfg : Config) (s : State) (token : Option String) (reads : Reads) :
    (validateSession cfg s token reads).2 = s ∨ ∃ t r user r' snapshot, token = some t ∧
      Authenticates cfg s t r user r' snapshot (validateSession cfg s token reads).2 := by
  unfold validateSession
  cases hresult : authenticate cfg s token reads with
  | ok x =>
    obtain ⟨snapshot, s'⟩ := x
    obtain ⟨t, r, user, r', ht, hauth⟩ := authenticate_ok hresult
    exact .inr ⟨t, r, user, r', snapshot, ht, hauth⟩
  | error stop => exact .inl rfl

/-! ## Runs -/

/-- Every session has a token that was drawn. -/
def State.Drawn (s : State) : Prop := ∀ t r, s.sessions.lookup t = some r → t ∈ s.drawn

/-- The session `t` is one that was drawn, and its record has become of `r`. -/
def Follows (t : String) (r : Record) (s : State) : Prop :=
  t ∈ s.drawn ∧ ∀ r', s.sessions.lookup t = some r' → Evolves r r'

/-- A login changes nothing, or adds the session of a new token. -/
theorem exec_login {call : LoginCall} (h : exec cfg s (.login call) = some s') :
    s' = s ∨ call.token ∉ s.drawn ∧ ∃ r, s' =
      { s with sessions := s.sessions.insert call.token r, drawn := call.token :: s.drawn } := by
  simp only [exec] at h
  by_cases hdrawn : call.token ∈ s.drawn
  · rw [if_pos hdrawn] at h
    cases h
  · rw [if_neg hdrawn] at h
    cases hlogin : login cfg s call with
    | error e =>
      rw [hlogin] at h
      exact .inl (Option.some.inj h).symm
    | ok x =>
      rw [hlogin] at h
      obtain ⟨result, s''⟩ := x
      cases h
      unfold login issueSession at hlogin
      simp only [except_bind_ok, pure, Except.pure, Except.ok.injEq, Prod.mk.injEq] at hlogin
      obtain ⟨user, -, -, -, requested, -, tenant, -, -, -, user_id, -, workspace, -, -, rfl⟩ := hlogin
      exact .inr ⟨hdrawn, _, rfl⟩

/-- The change of one call to the sessions: a session of a new token, sessions that became of those
before, or fewer sessions. -/
theorem exec_sessions (h : exec cfg s e = some s') :
    (∀ t ∈ s.drawn, t ∈ s'.drawn) ∧
    ∀ t r', s'.sessions.lookup t = some r' →
      (t ∉ s.drawn ∧ t ∈ s'.drawn) ∨ ∃ r, s.sessions.lookup t = some r ∧ Evolves r r' := by
  cases e with
  | login call =>
    rcases exec_login h with rfl | ⟨hdrawn, r, rfl⟩
    · exact ⟨fun _ ht => ht, fun t r' hr => .inr ⟨r', hr, Evolves.refl r'⟩⟩
    · refine ⟨fun _ ht => List.mem_cons_of_mem _ ht, ?_⟩
      intro t r' hr
      by_cases ht : t = call.token
      · subst ht
        exact .inl ⟨hdrawn, List.mem_cons_self⟩
      · refine .inr ⟨r', ?_, Evolves.refl r'⟩
        rw [← hr]
        exact (AList.lookup_insert_ne ht).symm
  | saveUser ref record =>
    cases h
    exact ⟨fun _ ht => ht, fun t r' hr => .inr ⟨r', hr, Evolves.refl r'⟩⟩
  | validate token reads =>
    cases h
    rcases validateSession_cases cfg s token reads with heq | ⟨t, r, user, r', snapshot, -, hauth⟩
    · rw [heq]
      exact ⟨fun _ ht => ht, fun t r' hr => .inr ⟨r', hr, Evolves.refl r'⟩⟩
    · rw [hauth.drawn]
      refine ⟨fun _ ht => ht, ?_⟩
      intro t' r'' hr''
      by_cases ht : t' = t
      · subst ht
        obtain ⟨now, hstored⟩ := hauth.stored
        rw [hstored] at hr''
        cases hr''
        exact .inr ⟨r, hauth.session, hauth.settles.evolves.trans (evolves_touched now r')⟩
      · rw [hauth.others t' ht] at hr''
        exact .inr ⟨r'', hr'', Evolves.refl r''⟩
  | deleteSession token =>
    cases h
    refine ⟨fun _ ht => ht, ?_⟩
    intro t r' hr
    have hne : t ≠ token := by
      rintro rfl
      simp only [AList.lookup_erase] at hr
      cases hr
    simp only [AList.lookup_erase_ne hne] at hr
    exact .inr ⟨r', hr, Evolves.refl r'⟩

/-- Calls keep the tokens drawn. -/
theorem exec_drawn (h : exec cfg s e = some s') (hs : s.Drawn) : s'.Drawn := by
  obtain ⟨hkeep, hsessions⟩ := exec_sessions h
  intro t r' hr'
  rcases hsessions t r' hr' with ⟨-, ht⟩ | ⟨r, hr, -⟩
  · exact ht
  · exact hkeep t (hs t r hr)

/-- Calls keep the record of a session one that has become of an earlier record. -/
theorem exec_follows (h : exec cfg s e = some s') (hs : Follows t r s) :
    Follows t r s' := by
  obtain ⟨hkeep, hsessions⟩ := exec_sessions h
  refine ⟨hkeep t hs.1, ?_⟩
  intro r'' hr''
  rcases hsessions t r'' hr'' with ⟨ht, -⟩ | ⟨r', hr', hevolves⟩
  · exact absurd hs.1 ht
  · exact (hs.2 r' hr').trans hevolves

/-- A property that every call keeps is kept by a run. -/
theorem execAll_invariant {I : State → Prop} (hI : ∀ s e s', exec cfg s e = some s' → I s → I s')
    (h : execAll (exec cfg) s es = some s') (hs : I s) : I s' :=
  trace_invariant (I := fun _ s => I s) hs (fun _ u e u' _ hu he => hI u e u' he hu) h

/-- In a run the record of a session becomes of the one that it had. -/
theorem run_follows (h : execAll (exec cfg) s es = some s') (hdrawn : s.Drawn) (hr : s.sessions.lookup t = some r)
    (hr' : s'.sessions.lookup t = some r') : Evolves r r' := by
  have hstart : Follows t r s := by
    refine ⟨hdrawn t r hr, ?_⟩
    intro r' hr'
    rw [hr] at hr'
    cases hr'
    exact Evolves.refl r
  exact (execAll_invariant (fun _ _ _ he hs => exec_follows he hs) h hstart).2 r' hr'

/-- The event saves a user. -/
def Event.IsSave : Event → Prop
  | .saveUser _ _ => True
  | _ => False

/-- A call that does not save a user keeps the users. -/
theorem exec_users (h : exec cfg s e = some s') (he : ¬ e.IsSave) :
    s'.users = s.users := by
  cases e with
  | login call =>
    rcases exec_login h with rfl | ⟨-, r, rfl⟩
    · rfl
    · rfl
  | saveUser ref record => exact absurd trivial he
  | validate token reads =>
    cases h
    rcases validateSession_cases cfg s token reads with heq | ⟨t, r, user, r', snapshot, -, hauth⟩
    · rw [heq]
    · exact hauth.users
  | deleteSession token =>
    cases h
    rfl

/-- A run without a user that is saved keeps the users. -/
theorem run_users (h : execAll (exec cfg) s es = some s') (hes : ∀ e ∈ es, ¬ e.IsSave) : s'.users = s.users := by
  induction es generalizing s with
  | nil =>
    cases h
    rfl
  | cons e es ih =>
    obtain ⟨u, hu, hrest⟩ := Option.bind_eq_some_iff.mp h
    rw [ih hrest fun e he => hes e (List.mem_cons_of_mem _ he)]
    exact exec_users hu (hes e List.mem_cons_self)

/-- The user of a session is found by the fields that identify the session. -/
theorem scopedUser_unique {users : UserStore} {user user' : Record} (hsame : SameIdentity r r')
    (h : scopedUser users r = .ok user) (h' : scopedUser users r' = .ok user') : user' = user := by
  unfold scopedUser at h h'
  have hfield : ∀ k d, k ∉ ceilingFields → k ∉ usageFields → getD k d r' = getD k d r := by
    intro k d hk hu
    unfold getD
    rw [hsame k hk hu]
  rw [hfield "tenant_id" _ (by decide) (by decide), hfield "workspace_id" _ (by decide) (by decide),
    hfield "user_id" _ (by decide) (by decide)] at h'
  simp only [except_bind_ok, elim_ok, pure, Except.pure, Except.ok.injEq] at h h'
  obtain ⟨tenant, htenant, workspace, hworkspace, found, hfound, user₁, huser, -, -, -, -, -, -, -, -,
    -, -, rfl⟩ := h
  obtain ⟨tenant', htenant', workspace', hworkspace', found', hfound', user₂, huser', -, -, -, -, -, -,
    -, -, -, -, rfl⟩ := h'
  cases htenant.symm.trans htenant'
  cases hworkspace.symm.trans hworkspace'
  cases hfound.symm.trans hfound'
  exact Option.some.inj (huser'.symm.trans huser)

/-- The identifier under which the user of a session is looked up. -/
def sessionUserId (r : Record) : Json :=
  if (getD "user_id" .null r).truthy then getD "user_id" .null r else .str ""

/-- The user of a session is the one that the store has under the identifier of the session. -/
theorem scopedUser_getById {users : UserStore} (h : scopedUser users r = .ok user) :
    users.getById (sessionUserId r) = .ok (some user) := by
  unfold scopedUser at h
  simp only [except_bind_ok, elim_ok, raising, mapError_ok, pure, Except.pure, Except.ok.injEq] at h
  obtain ⟨tenant, -, workspace, -, found, hfound, user₁, rfl, -, -, -, -, -, -, -, -, -, -, rfl⟩ := h
  unfold UserStore.getByIdForTenantWorkspace at hfound
  simp only [except_bind_ok, pure, Except.pure, Except.ok.injEq] at hfound
  obtain ⟨record, hrecord, hfilter⟩ := hfound
  rw [(Option.filter_eq_some_iff.mp hfilter).1] at hrecord
  exact hrecord

/-- What a snapshot grants is granted by the user and by what the record stands for. -/
structure Within (snapshot : Snapshot) (user r : Record) : Prop where
  currentPermissions : ∀ x, Grants snapshot.permissions x →
    Grants (authorizationGrantsForUser user).permissions x
  currentCollections : ∀ x, Grants snapshot.allowed_collection_ids x →
    Grants (authorizationGrantsForUser user).allowed_collection_ids x
  issuedPermissions : ∀ l, recordedPermissions r = some l →
    ∀ x, Grants snapshot.permissions x → Grants l x
  issuedCollections : ∀ l, recordedCollections r = some l →
    ∀ x, Grants snapshot.allowed_collection_ids x → Grants l x

/-- A validation grants what the user has and what an earlier record stands for. -/
theorem Authenticates.within {r₀ : Record} (h : Authenticates cfg s t r user r' snapshot s')
    (hevolves : Evolves r₀ r) :
    Within snapshot user r₀ := by
  have hsettled := hevolves.trans h.settles.evolves
  refine ⟨?_, ?_, ?_, ?_⟩
  · intro x hx
    rw [h.permissions] at hx
    exact ((grants_intersectGrants _ _ x).mp hx).2
  · intro x hx
    rw [h.collections] at hx
    exact ((grants_intersectGrants _ _ x).mp hx).2
  · intro l hl x hx
    rw [h.permissions] at hx
    exact hsettled.permissions h.settles.modern hl ((grants_intersectGrants _ _ x).mp hx).1
  · intro l hl x hx
    rw [h.collections] at hx
    exact hsettled.collections h.settles.modern hl ((grants_intersectGrants _ _ x).mp hx).1

/-- Two validations of one session without a user that is saved between them grant the same. -/
theorem Authenticates.repeated {s₄ s₅ : State} {r₄ user₄ r₅ : Record} {snapshot' : Snapshot}
    (h : Authenticates cfg s t r user r' snapshot s') (hdrawn : s'.Drawn)
    (hrun : execAll (exec cfg) s' es = some s₄) (hes : ∀ e ∈ es, ¬ e.IsSave)
    (h' : Authenticates cfg s₄ t r₄ user₄ r₅ snapshot' s₅) :
    snapshot'.permissions = snapshot.permissions ∧
    snapshot'.allowed_collection_ids = snapshot.allowed_collection_ids := by
  obtain ⟨now, hstored⟩ := h.stored
  have hlater : Evolves r' r₄ :=
    (evolves_touched now r').trans (run_follows hrun hdrawn hstored h'.session)
  -- After the first validation the ceiling is settled, so the second takes the same record.
  have hceiling : SameCeiling r' r₄ := hlater.sameCeiling h.settles.modern
  have hmodern : legacySnapshot r₄ = false := hceiling.legacySnapshot.trans h.settles.modern
  have hsettled : r₅ = r₄ := by
    rcases h'.settles with ⟨-, heq⟩ | ⟨hlegacy, -⟩
    · exact heq
    · rw [hmodern] at hlegacy
      cases hlegacy
  have huser : user₄ = user := by
    have hbound := h'.bound
    rw [run_users hrun hes, h.users] at hbound
    exact scopedUser_unique (h.settles.evolves.trans hlater).identity h.bound hbound
  have hgrants : presentGrants r₅ user₄ = presentGrants r' user := by
    rw [hsettled, huser]
    exact hceiling.presentGrants user
  exact ⟨by rw [h'.permissions, h.permissions, hgrants], by rw [h'.collections, h.collections, hgrants]⟩

/-- **The authority of a session never widens.** In every run, and for every session that has the
record `r₁` at some point of it: its ceiling later is the same or a migrated one, and changes only
once; and what a validation grants is granted by the user that the store then has, and by what the
record `r₁` stands for. The tenant and the workspace are those of the session, and validations without
a user that is saved between them grant the same. -/
theorem session_authority (cfg : Config) (s₀ s₁ s₂ : State) (es₁ es₂ : List Event) (t : String)
    (r₁ : Record) (hstart : s₀.Drawn) (h₁ : execAll (exec cfg) s₀ es₁ = some s₁)
    (h₂ : execAll (exec cfg) s₁ es₂ = some s₂) (hr₁ : s₁.sessions.lookup t = some r₁) :
    (∀ r₂, s₂.sessions.lookup t = some r₂ →
      (SameCeiling r₁ r₂ ∨ legacySnapshot r₁ = true ∧ legacySnapshot r₂ = false ∧
        Json.member? "authorization_state" r₂ = some (.str "MIGRATED")) ∧
      ∀ es₃ s₃ r₃, execAll (exec cfg) s₂ es₃ = some s₃ → s₃.sessions.lookup t = some r₃ →
        ¬ SameCeiling r₁ r₂ → SameCeiling r₂ r₃) ∧
    ∀ reads snapshot s₃, validateSession cfg s₂ (some t) reads = (.ok snapshot, s₃) →
      snapshot.authenticated = true →
      (∃ user, s₂.users.getById (sessionUserId r₁) = .ok (some user) ∧ Within snapshot user r₁) ∧
      snapshot.tenant_id = getD "tenant_id" .null r₁ ∧
      snapshot.workspace_id = getD "workspace_id" (.str "default") r₁ ∧
      ∀ es₃ s₄ reads' snapshot' s₅, (∀ e ∈ es₃, ¬ e.IsSave) → execAll (exec cfg) s₃ es₃ = some s₄ →
        validateSession cfg s₄ (some t) reads' = (.ok snapshot', s₅) →
        snapshot'.authenticated = true →
        snapshot'.permissions = snapshot.permissions ∧
        snapshot'.allowed_collection_ids = snapshot.allowed_collection_ids := by
  have hdrawn₁ : s₁.Drawn := execAll_invariant (fun _ _ _ he hs => exec_drawn he hs) h₁ hstart
  have hdrawn₂ : s₂.Drawn := execAll_invariant (fun _ _ _ he hs => exec_drawn he hs) h₂ hdrawn₁
  constructor
  · intro r₂ hr₂
    have hevolves := run_follows h₂ hdrawn₁ hr₁ hr₂
    constructor
    · rcases hevolves.ceiling with hsame | hmigrated
      · exact .inl hsame
      · exact .inr ⟨hmigrated.legacy, hmigrated.modern, hmigrated.state⟩
    · intro es₃ s₃ r₃ h₃ hr₃ hchanged
      have hmigrated := hevolves.ceiling.resolve_left hchanged
      exact (run_follows h₃ hdrawn₂ hr₂ hr₃).sameCeiling hmigrated.modern
  · intro reads snapshot s₃ hvalidate hauth
    obtain ⟨t', r, user, r', ht, hfirst⟩ := validateSession_authenticated hvalidate hauth
    cases ht
    have hevolves := run_follows h₂ hdrawn₁ hr₁ hfirst.session
    have hfield : ∀ k d, k ∉ ceilingFields → k ∉ usageFields → getD k d r = getD k d r₁ := by
      intro k d hk hu
      unfold getD
      rw [hevolves.identity k hk hu]
    refine ⟨⟨user, ?_, hfirst.within hevolves⟩, ?_, ?_, ?_⟩
    · have hfound := scopedUser_getById hfirst.bound
      unfold sessionUserId at hfound ⊢
      rw [hfield "user_id" _ (by decide) (by decide)] at hfound
      exact hfound
    · exact hfirst.tenant.trans (hfield "tenant_id" _ (by decide) (by decide))
    · exact hfirst.workspace.trans (hfield "workspace_id" _ (by decide) (by decide))
    · intro es₃ s₄ reads' snapshot' s₅ hes h₃ hvalidate' hauth'
      obtain ⟨t', r₄, user₄, r₅, ht, hsecond⟩ := validateSession_authenticated hvalidate' hauth'
      cases ht
      have hstep : exec cfg s₂ (.validate (some t) reads) = some s₃ := by
        show some (validateSession cfg s₂ (some t) reads).2 = some s₃
        rw [hvalidate]
      exact hfirst.repeated (exec_drawn hstep hdrawn₂) h₃ hes hsecond

/-- A configuration in which every password is right. -/
def openConfig : Config := ⟨fun _ _ => true, fun _ _ => true, 3600, fun token => token⟩

/-- A legacy session of a manager, with two collections. -/
def legacySession : Record :=
  [("user_id", .str "u1"), ("role", .str "admin_rag"), ("tenant_id", .str "t1"),
    ("allowed_collection_ids", .arr [.str "rickvet_documents", .str "notes"]), ("expires_at", .int 10)]

/-- The store with the legacy session. -/
def legacyState : State := ⟨⟨[], [], []⟩, AList.insert "tok" legacySession ∅, ["tok"]⟩

/-- The user of the legacy session, with one collection. -/
def legacyManager : Record :=
  [("user_id", .str "u1"), ("role", .str "operator"), ("tenant_id", .str "t1"),
    ("authorized_collection_ids", .arr [.str "rag_phase0"])]

/-- A legacy session is migrated and stays within its role and its collections. -/
theorem legacy_session_within : ∃ snapshot s₃,
    validateSession openConfig { legacyState with users := (legacyState.users.save 0 legacyManager).1 }
      (some "tok") ⟨5, 5, 5⟩ = (.ok snapshot, s₃) ∧ snapshot.authenticated = true ∧
    snapshot.allowed_collection_ids = ["rag_phase0"] ∧
    ∃ user, Within snapshot user legacySession := by
  have hresult : ((validateSession openConfig
      { legacyState with users := (legacyState.users.save 0 legacyManager).1 }
      (some "tok") ⟨5, 5, 5⟩).1.toOption.any fun snapshot => snapshot.authenticated &&
        snapshot.allowed_collection_ids == ["rag_phase0"]) = true := by decide +kernel
  generalize hvalidate : validateSession openConfig
      { legacyState with users := (legacyState.users.save 0 legacyManager).1 }
      (some "tok") ⟨5, 5, 5⟩ = x at hresult
  obtain ⟨result, s₃⟩ := x
  cases result with
  | error e => cases hresult
  | ok snapshot =>
    simp only [Except.toOption, Option.any_some, Bool.and_eq_true, beq_iff_eq] at hresult
    refine ⟨snapshot, s₃, rfl, hresult.1, hresult.2, ?_⟩
    have hdrawn : legacyState.Drawn := by
      intro t r hr
      by_cases ht : t = "tok"
      · subst ht
        exact List.mem_cons_self
      · rw [show legacyState.sessions.lookup t = _ from AList.lookup_insert_ne ht] at hr
        cases hr
    obtain ⟨-, hvalid⟩ := session_authority openConfig legacyState legacyState _ []
      [.saveUser 0 legacyManager] "tok" legacySession hdrawn rfl rfl (AList.lookup_insert _)
    obtain ⟨⟨user, -, hwithin⟩, -⟩ := hvalid _ snapshot s₃ hvalidate hresult.1
    exact ⟨user, hwithin⟩

end RickIntelligence.Identity
