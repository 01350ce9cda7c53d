import RickIntelligence.Identity.Issued

/-!
# Granting and revoking a collection

The grants of a user as an administrator changes them (`grant_collection_in_transaction` and `update_user`
of `services/identity_service.py`). A grant is added and taken away by the letters of its name, and it is
evaluated under the name that the policy gives it. So a revocation takes effect when the list has no other
spelling of the collection, and a user without a list loses the defaults of the role with the first change.
-/

namespace RickIntelligence.Identity

open Lib Authorization Knowledge

/-! ## Administration -/

/-- What a change by an administrator raises: an `ApiError` with its code, or an error of the language. -/
inductive AdminError where
  | api (code : String)
  | raised (e : Raised)
  deriving DecidableEq, Repr

/-- A session, as far as a change by it depends on it. -/
structure Actor where
  authenticated : Bool
  permissions : List String
  tenant_id : Option String
  workspace_id : Option String

/-- `has_permission`. -/
def hasPermission (actor : Actor) (permission : String) : Bool :=
  actor.authenticated && permissionGranted none actor.permissions permission true

/-- The identifier of an actor, stripped, is the one of a target. -/
def sameScope (actor_id : Option String) (target_id : Json) : Bool :=
  match actor_id, target_id.text? with
  | some a, some t => strip a != "" && strip t != "" && t == strip a
  | _, _ => false

/-- `_assert_same_workspace`. -/
def assertSameWorkspace (users : UserStore) (actor : Actor) (user_id : String) :
    Except AdminError Record := do
  let target ← (users.getById (.str user_id)).mapError .raised
  (target.filter fun t => sameScope actor.tenant_id (getD "tenant_id" .null t) &&
    sameScope actor.workspace_id (getD "workspace_id" (.str "default") t)).elim
      (.error (.api "forbidden")) .ok

/-- The items of `value or []`. -/
def iterated (value : Json) : Except AdminError (List Json) :=
  if value.truthy then
    match value with
    | .arr items => .ok items
    | .str s => .ok (s.toList.map fun c => .str (String.singleton c))
    | .obj ms => .ok (ms.map fun m => .str m.1)
    | _ => .error (.raised .typeError)
  else .ok []

/-- A reference that the store does not use. -/
def UserStore.fresh (users : UserStore) : ℕ := (users.objects.map Prod.fst).foldr max 0 + 1

/-- `value.strip()`. -/
def stripped (value : Json) : Except AdminError String :=
  match value.text? with
  | some s => .ok (strip s)
  | none => .error (.raised .attributeError)

/-- `update_user`, when only the collections are given. -/
def updateCollections (users : UserStore) (actor : Actor) (user_id : String)
    (authorized_collection_ids : List Json) : Except AdminError UserStore := do
  let user ← assertSameWorkspace users actor user_id
  let values ← authorized_collection_ids.mapM stripped
  match users.save users.fresh (Json.setMember "authorized_collection_ids"
      (ofTexts (sortedSet (values.filter (· ≠ "")))) user) with
  | (users, .ok _) => .ok users
  | (_, .error e) => .error (.raised e)

/-- What a change of a grant returns. -/
structure GrantResult where
  user_id : String
  collection_id : String
  granted : Bool
  deriving DecidableEq, Repr

/-- `grant_collection_in_transaction`. -/
def grantCollection (users : UserStore) (actor : Actor) (user_id collection_id : String) (granted : Bool) :
    Except AdminError (GrantResult × UserStore) := do
  raiseFirst [(!hasPermission actor "collections.manage", .api "forbidden")]
  let user ← assertSameWorkspace users actor user_id
  let items ← iterated (getD "authorized_collection_ids" .null user)
  let grants := items.filter (fun item => !item.equal (.str collection_id)) ++
    if granted then [.str collection_id] else []
  let users ← updateCollections users actor user_id grants
  return (⟨user_id, collection_id, granted⟩, users)

/-! ## Collections of a list -/

/-- The collections of a user, by the policy. -/
def collectionsOf (user : Record) : List String := allowedCollectionIdsForUser (userOf user)

/-- A grant is evaluated without the spaces around it. -/
theorem grantOf_strip (item : String) : grantOf (some (strip item)) = grantOf (some item) := by
  simp only [grantOf, normalizeGrant, strip_strip]

/-- A grant with nothing but spaces grants nothing. -/
theorem grantOf_blank {item : String} (h : strip item = "") : grantOf (some item) = none := by
  unfold grantOf
  simp only [if_pos h]

/-- The collections of a list of texts. -/
theorem mem_collectionsOf {user : Record} {l : List String}
    (h : Json.member? "authorized_collection_ids" user = some (ofTexts l)) (name : String) :
    name ∈ collectionsOf user ↔ ∃ item ∈ l, grantOf (some item) = some name := by
  have hgrants : (userOf user).authorized_collection_ids = .items (l.map some) := by
    unfold userOf
    rw [h]
    show RawGrants.items ((l.map Json.str).map Json.text?) = _
    rw [List.map_map]
    rfl
  unfold collectionsOf allowedCollectionIdsForUser
  rw [hgrants]
  simp only [List.mem_filterMap, List.mem_map, exists_exists_and_eq_and]

/-- Who may access a collection. -/
theorem canAccess_iff {allowed : List String} {c : String} :
    canAccessCollection allowed (some c) = true ↔
      ∃ name, normalizeGrant c = .ok name ∧ ("*" ∈ allowed ∨ name ∈ allowed) := by
  by_cases hc : c = ""
  · subst hc
    have h : normalizeGrant "" = .error "empty collection id" := by decide +kernel
    rw [canAccessCollection_empty, h]
    simp
  · cases h : normalizeGrant c with
    | error e =>
      unfold canAccessCollection textOr
      simp only [if_neg hc, h]
      simp
    | ok name =>
      rw [canAccessCollection_iff hc h]
      simp

/-! ## One change -/

section Change

variable {users users' : UserStore} {actor : Actor} {user : Record} {user_id c : String} {granted : Bool}
  {result : GrantResult}

/-- The texts that a change leaves of a list, before they are stripped. -/
def keptItems (l : List String) (c : String) (granted : Bool) : List String :=
  l.filter (· ≠ c) ++ if granted then [c] else []

/-- The record that a change saves. -/
def grantedRecord (user : Record) (l : List String) (c : String) (granted : Bool) : Record :=
  Json.setMember "authorized_collection_ids"
    (ofTexts (sortedSet (((keptItems l c granted).map strip).filter (· ≠ "")))) user

/-- Giving up the address of a user changes no dictionary. -/
theorem releaseEmail_objects {key : Json} (h : users.releaseEmail key = .ok users') :
    users'.objects = users.objects := by
  unfold UserStore.releaseEmail at h
  split at h
  · cases h
    rfl
  · split at h
    · cases h
      rfl
    · simp only [except_bind_ok, pure, Except.pure, Except.ok.injEq] at h
      obtain ⟨email, -, rfl⟩ := h
      split <;> rfl

/-- A user that was saved is found under its identifier. -/
theorem getById_save {ref : ℕ} {record : Record}
    (hid : Json.member? "user_id" record = some (.str user_id))
    (h : users.save ref record = (users', .ok ())) :
    users'.getById (.str user_id) = .ok (some record) := by
  unfold UserStore.save at h
  simp only [hid] at h
  rw [if_neg (show ¬ hashable (.str user_id) = false from Bool.noConfusion)] at h
  split at h
  · exact absurd (Prod.mk.inj h).2 (by simp)
  · next released hreleased =>
    have hobjects := releaseEmail_objects hreleased
    split at h
    · exact absurd (Prod.mk.inj h).2 (by simp)
    · obtain ⟨rfl, -⟩ := Prod.mk.inj h
      have hfound : (UserStore.index (Json.equal · (.str user_id)) (.str user_id) ref
          released.by_id).find? (fun e => e.1.equal (.str user_id)) = some (.str user_id, ref) := by
        have hlast : [((Json.str user_id), ref)].find? (fun e => e.1.equal (.str user_id)) =
            some (.str user_id, ref) := List.find?_cons_of_pos (equal_str.mpr rfl)
        unfold UserStore.index
        rw [List.find?_append, List.find?_eq_none.mpr, Option.none_or, hlast]
        intro e he
        simpa using (List.mem_filter.mp he).2
      unfold UserStore.getById
      rw [if_pos (show hashable (.str user_id) = true from rfl), hfound]
      show Except.ok (released.objects.lookup ref) = _
      rw [hobjects, List.lookup_cons, beq_self_eq_true]

/-- The stripped items of a list of texts. -/
theorem mapM_stripped (l : List String) : (l.map Json.str).mapM stripped = .ok (l.map strip) := by
  induction l with
  | nil => rfl
  | cons a l ih =>
    rw [List.map_cons, List.mapM_cons, ih]
    rfl

/-- The items of a list of texts that is there, or of none. -/
theorem iterated_texts (l : List String) : iterated (ofTexts l) = .ok (l.map .str) := by
  cases l with
  | nil => rfl
  | cons a l => rfl

/-- The user whose workspace is checked is the one with the identifier. -/
theorem assertSameWorkspace_ok {found : Record} (huser : users.getById (.str user_id) = .ok (some user))
    (h : assertSameWorkspace users actor user_id = .ok found) : found = user := by
  unfold assertSameWorkspace at h
  rw [huser] at h
  have h : (Option.filter _ (some user)).elim (Except.error (AdminError.api "forbidden")) Except.ok =
      .ok found := h
  rw [Option.filter_some] at h
  split at h
  · exact (Except.ok.inj h).symm
  · cases h

variable {l : List String} {id : String}

/-- A change saves the user with the list that it leaves. -/
theorem grantCollection_saved (huser : users.getById (.str user_id) = .ok (some user))
    (hid : Json.member? "user_id" user = some (.str user_id))
    (hitems : iterated (getD "authorized_collection_ids" .null user) = .ok (l.map .str))
    (h : grantCollection users actor user_id c granted = .ok (result, users')) :
    users'.getById (.str user_id) = .ok (some (grantedRecord user l c granted)) := by
  unfold grantCollection updateCollections at h
  simp only [except_bind_ok, pure, Except.pure, Except.ok.injEq, Prod.mk.injEq] at h
  obtain ⟨_, -, found, hfound, items, hlist, saved, ⟨again, hagain, values, hvalues, hsave⟩, -, rfl⟩ := h
  obtain rfl := assertSameWorkspace_ok huser hfound
  obtain rfl := assertSameWorkspace_ok huser hagain
  obtain rfl := Except.ok.inj (hlist.symm.trans hitems)
  have hkept : (l.map Json.str).filter (fun item => !item.equal (.str c)) ++
      (if granted then [Json.str c] else []) = (keptItems l c granted).map .str := by
    have hfilter : (l.map Json.str).filter (fun item => !item.equal (.str c)) =
        (l.filter (· ≠ c)).map .str := by
      rw [List.filter_map]
      congr 1
      apply List.filter_congr
      intro item _
      rw [Function.comp_apply, Bool.eq_iff_iff, Bool.not_eq_true', ← Bool.not_eq_true, equal_str,
        Json.str.injEq, decide_eq_true_eq]
    unfold keptItems
    rw [hfilter, List.map_append]
    cases granted <;> rfl
  rw [hkept, mapM_stripped] at hvalues
  obtain rfl := Except.ok.inj hvalues
  split at hsave
  · next hsaved =>
    obtain rfl := Except.ok.inj hsave
    refine getById_save ?_ hsaved
    unfold grantedRecord
    rw [Json.member?_setMember, if_neg (by decide), hid]
  · cases hsave

/-! ## What a change does -/

/-- What a change of a grant should do: a revoked collection may not be accessed but under a wildcard, a
granted one may, and access to the collections of other names is as it was. -/
structure TakesEffect (user user' : Record) (c : String) (granted : Bool) : Prop where
  revoked : granted = false → "*" ∉ collectionsOf user' →
    canAccessCollection (collectionsOf user') (some c) = false
  granted : granted = true → canAccessCollection (collectionsOf user') (some c) = true
  others : ∀ d, normalizeGrant d ≠ normalizeGrant c →
    canAccessCollection (collectionsOf user') (some d) = canAccessCollection (collectionsOf user) (some d)

/-- The collections of a user after a change. -/
theorem mem_granted (name : String) :
    name ∈ collectionsOf (grantedRecord user l c granted) ↔
      ∃ item ∈ keptItems l c granted, grantOf (some item) = some name := by
  have hlist : Json.member? "authorized_collection_ids" (grantedRecord user l c granted) =
      some (ofTexts (sortedSet (((keptItems l c granted).map strip).filter (· ≠ "")))) := by
    unfold grantedRecord
    rw [Json.member?_setMember, if_pos rfl]
  rw [mem_collectionsOf hlist]
  constructor
  · rintro ⟨item, hitem, hname⟩
    rw [mem_sortedSet, List.mem_filter, List.mem_map] at hitem
    obtain ⟨⟨raw, hraw, rfl⟩, -⟩ := hitem
    exact ⟨raw, hraw, (grantOf_strip raw).symm.trans hname⟩
  · rintro ⟨raw, hraw, hname⟩
    refine ⟨strip raw, ?_, (grantOf_strip raw).trans hname⟩
    rw [mem_sortedSet, List.mem_filter, List.mem_map, decide_eq_true_eq]
    refine ⟨⟨raw, hraw, rfl⟩, ?_⟩
    intro hblank
    rw [grantOf_blank hblank] at hname
    cases hname

/-- A name that the policy gives is granted by an item that is no wildcard. -/
theorem grantOf_name {name : String} (h : normalizeGrant c = .ok name) (hstar : strip c ≠ "*") :
    grantOf (some c) = some name := by
  have hne : strip c ≠ "" := by
    intro hempty
    unfold normalizeGrant at h
    simp only [if_pos hempty] at h
    cases h
  unfold grantOf
  simp only [if_neg hne, if_neg hstar, h]
  rfl

/-- The name of a collection that is no wildcard is granted by the items that the policy gives it. -/
theorem grantOf_eq {item name : String} (hname : name ≠ "*") :
    grantOf (some item) = some name ↔ normalizeGrant item = .ok name := by
  constructor
  · intro h
    unfold grantOf at h
    simp only at h
    split_ifs at h with hblank hstar
    · exact absurd (Option.some.inj h).symm hname
    · cases hitem : normalizeGrant item with
      | error e =>
        rw [hitem] at h
        cases h
      | ok m =>
        rw [hitem] at h
        cases h
        rfl
  · intro h
    apply grantOf_name h
    intro hstar
    rw [normalizeGrant_eq (by rw [hstar]; decide), hstar] at h
    have hnot : lower "*" ∉ aliasNames := by decide +kernel
    rw [if_neg hnot] at h
    exact hname (Except.ok.inj h).symm

/-- A name that the knowledge packages accept is no wildcard for the policy. -/
theorem normalizeGrant_accepted (hc : c ≠ "") (hid : normalizeCollectionId (some c) = .ok id) :
    ∃ name, normalizeGrant c = .ok name ∧ name ≠ "*" := by
  obtain ⟨hname, -⟩ := (normalizeCollectionId_ok hc).mp hid
  have hne : strip c ≠ "" := by
    intro hempty
    rw [hempty] at hname
    cases hname
  refine ⟨_, normalizeGrant_eq hne, ?_⟩
  split
  · decide
  · intro hstar
    rw [hstar] at hname
    exact absurd hname (by decide +kernel)

/-- The grant of the name itself. -/
theorem grantOf_self {m : String} (hid : normalizeCollectionId (some c) = .ok id) (h : grantOf (some c) = some m) :
    normalizeGrant c = .ok m ∧ m ≠ "*" := by
  by_cases hc : c = ""
  · subst hc
    rw [grantOf_blank (by decide)] at h
    cases h
  · obtain ⟨name, hname, hstar⟩ := normalizeGrant_accepted hc hid
    obtain rfl := Option.some.inj (((grantOf_eq hstar).mpr hname).symm.trans h)
    exact ⟨hname, hstar⟩

/-- Other names are granted after a change when the list grants them. -/
theorem mem_granted_other {m : String} (h : grantOf (some c) ≠ some m) :
    m ∈ collectionsOf (grantedRecord user l c granted) ↔ ∃ item ∈ l, grantOf (some item) = some m := by
  rw [mem_granted]
  unfold keptItems
  constructor
  · rintro ⟨item, hitem, hm⟩
    rcases List.mem_append.mp hitem with hitem | hitem
    · exact ⟨item, (List.mem_filter.mp hitem).1, hm⟩
    · cases granted with
      | false => cases hitem
      | true =>
        obtain rfl := List.mem_singleton.mp hitem
        exact absurd hm h
  · rintro ⟨item, hitem, hm⟩
    refine ⟨item, List.mem_append_left _ (List.mem_filter.mpr ⟨hitem, ?_⟩), hm⟩
    rw [decide_eq_true_eq]
    rintro rfl
    exact h hm

/-- The collections that a user without a list has by the role. -/
theorem collectionsOf_omitted (h : Json.member? "authorized_collection_ids" user = none) :
    collectionsOf user = [] ∨ collectionsOf user = ["*"] ∨ collectionsOf user = [canonicalCollectionId] := by
  have hgrants : (userOf user).authorized_collection_ids = .omitted := by
    unfold userOf
    rw [h]
    rfl
  unfold collectionsOf allowedCollectionIdsForUser
  rw [hgrants]
  simp only
  split
  · exact .inl rfl
  · split
    · exact .inr (.inl rfl)
    · exact .inr (.inl rfl)
    · exact .inr (.inr rfl)

/-- The wildcard is granted after a change when the list grants it. -/
theorem wildcard_granted (hid : normalizeCollectionId (some c) = .ok id) :
    "*" ∈ collectionsOf (grantedRecord user l c granted) ↔
      ∃ item ∈ l, grantOf (some item) = some "*" :=
  mem_granted_other fun h => (grantOf_self hid h).2 rfl

/-- A revocation takes effect when no other item of the list has the name. -/
theorem revoked_iff (hid : normalizeCollectionId (some c) = .ok id)
    (hstar : "*" ∉ collectionsOf (grantedRecord user l c false)) :
    canAccessCollection (collectionsOf (grantedRecord user l c false)) (some c) = false ↔
      ∀ item ∈ l, item ≠ c → ∀ name, normalizeGrant c = .ok name → normalizeGrant item ≠ .ok name := by
  rw [← Bool.not_eq_true, canAccess_iff, not_iff_comm]
  push Not
  constructor
  · rintro ⟨item, hitem, hne, name, hname, hsame⟩
    refine ⟨name, hname, .inr ((mem_granted name).mpr ⟨item, ?_, ?_⟩)⟩
    · unfold keptItems
      simp [hitem, hne]
    · have hc : c ≠ "" := by
        rintro rfl
        have h : normalizeGrant "" = .error "empty collection id" := by decide +kernel
        cases h.symm.trans hname
      obtain ⟨name', hname', hwild⟩ := normalizeGrant_accepted hc hid
      obtain rfl := Except.ok.inj (hname.symm.trans hname')
      exact (grantOf_eq hwild).mpr hsame
  · rintro ⟨name, hname, hmem⟩
    obtain ⟨item, hitem, hgrant⟩ := (mem_granted name).mp (hmem.resolve_left hstar)
    unfold keptItems at hitem
    simp only [Bool.false_eq_true, if_false, List.append_nil, List.mem_filter, decide_eq_true_eq] at hitem
    refine ⟨item, hitem.1, hitem.2, name, hname, ?_⟩
    refine (grantOf_eq ?_).mp hgrant
    rintro rfl
    exact hstar (hmem.resolve_left hstar)

/-- A grant takes effect for every name that is not empty. -/
theorem granted_iff (hid : normalizeCollectionId (some c) = .ok id) :
    canAccessCollection (collectionsOf (grantedRecord user l c true)) (some c) = true ↔ c ≠ "" := by
  constructor
  · rintro h rfl
    rw [canAccessCollection_empty] at h
    cases h
  · intro hc
    obtain ⟨name, hname, hwild⟩ := normalizeGrant_accepted hc hid
    refine canAccess_iff.mpr ⟨name, hname, .inr ((mem_granted name).mpr ⟨c, ?_, ?_⟩)⟩
    · unfold keptItems
      simp
    · exact (grantOf_eq hwild).mpr hname

/-- After a change of a list, access to the collections of other names is that of the list. -/
theorem canAccess_granted {d : String} (hid : normalizeCollectionId (some c) = .ok id)
    (hd : normalizeGrant d ≠ normalizeGrant c) :
    canAccessCollection (collectionsOf (grantedRecord user l c granted)) (some d) = true ↔
      ∃ name, normalizeGrant d = .ok name ∧ ((∃ item ∈ l, grantOf (some item) = some "*") ∨
        ∃ item ∈ l, grantOf (some item) = some name) := by
  rw [canAccess_iff]
  refine exists_congr fun name => and_congr_right fun hname => ?_
  rw [wildcard_granted hid, mem_granted_other]
  intro h
  exact hd (hname.trans (grantOf_self hid h).1.symm)

/-- Some collection has another name. -/
theorem exists_other (c : String) : ∃ d m, normalizeGrant d = .ok m ∧ normalizeGrant d ≠ normalizeGrant c := by
  have ha : normalizeGrant "a" = .ok "a" := by decide +kernel
  have hb : normalizeGrant "b" = .ok "b" := by decide +kernel
  by_cases h : normalizeGrant c = .ok "a"
  · refine ⟨"b", "b", hb, ?_⟩
    rw [hb, h]
    decide
  · refine ⟨"a", "a", ha, ?_⟩
    rw [ha]
    exact fun heq => h heq.symm

/-- When a change of a grant does what it should: no other spelling of a revoked collection is in a list
without a wildcard, a granted name is not empty, and a user without a list has no defaults to lose but
the collection itself. -/
structure ChangeSettles (user : Record) (c : String) (granted : Bool) : Prop where
  spelled : granted = false → "*" ∉ collectionsOf user → ∀ l,
    Json.member? "authorized_collection_ids" user = some (ofTexts l) → ∀ item ∈ l, item ≠ c →
      ∀ name, normalizeGrant c = .ok name → normalizeGrant item ≠ .ok name
  named : granted = true → c ≠ ""
  listed : Json.member? "authorized_collection_ids" user = none → collectionsOf user = [] ∨
    (collectionsOf user = [canonicalCollectionId] ∧ normalizeGrant c = .ok canonicalCollectionId)

/-- A list of texts determines the texts. -/
theorem ofTexts_inj {m : List String} (h : ofTexts l = ofTexts m) : l = m := by
  have htexts := congrArg Json.texts? h
  rw [texts?_ofTexts, texts?_ofTexts] at htexts
  exact Option.some.inj htexts

/-- A change of a list does what it should when it settles. -/
theorem takesEffect_list (hl : Json.member? "authorized_collection_ids" user = some (ofTexts l))
    (hid : normalizeCollectionId (some c) = .ok id) :
    TakesEffect user (grantedRecord user l c granted) c granted ↔ ChangeSettles user c granted := by
  have hwild : "*" ∈ collectionsOf (grantedRecord user l c granted) ↔ "*" ∈ collectionsOf user := by
    rw [wildcard_granted hid, mem_collectionsOf hl]
  constructor
  · intro h
    refine ⟨?_, ?_, ?_⟩
    · rintro rfl hstar l' hl'
      obtain rfl := ofTexts_inj (Option.some.inj (hl.symm.trans hl'))
      have hstar' := mt hwild.mp hstar
      exact (revoked_iff hid hstar').mp (h.revoked rfl hstar')
    · rintro rfl
      exact (granted_iff hid).mp (h.granted rfl)
    · intro hnone
      rw [hl] at hnone
      cases hnone
  · intro h
    refine ⟨?_, ?_, ?_⟩
    · rintro rfl hstar
      exact (revoked_iff hid hstar).mpr (h.spelled rfl (mt hwild.mpr hstar) l hl)
    · rintro rfl
      exact (granted_iff hid).mpr (h.named rfl)
    · intro d hd
      rw [Bool.eq_iff_iff, canAccess_granted hid hd, canAccess_iff]
      refine exists_congr fun name => and_congr_right fun _ => ?_
      rw [mem_collectionsOf hl, mem_collectionsOf hl]

/-- A change for a user without a list does what it should when it settles. -/
theorem takesEffect_omitted (hnone : Json.member? "authorized_collection_ids" user = none)
    (hid : normalizeCollectionId (some c) = .ok id) :
    TakesEffect user (grantedRecord user [] c granted) c granted ↔ ChangeSettles user c granted := by
  -- Nothing is granted but the collection itself.
  have hafter : ∀ d, normalizeGrant d ≠ normalizeGrant c →
      canAccessCollection (collectionsOf (grantedRecord user [] c granted)) (some d) = false := by
    intro d hd
    rw [← Bool.not_eq_true, canAccess_granted hid hd]
    simp
  have hnowild : "*" ∉ collectionsOf (grantedRecord user [] c granted) := by
    rw [wildcard_granted hid]
    simp
  constructor
  · intro h
    refine ⟨?_, ?_, ?_⟩
    · rintro - - l hl
      rw [hnone] at hl
      cases hl
    · rintro rfl
      exact (granted_iff hid).mp (h.granted rfl)
    · rintro -
      rcases collectionsOf_omitted hnone with hempty | hall | hcanonical
      · exact .inl hempty
      · obtain ⟨d, m, hm, hd⟩ := exists_other c
        have hbefore : canAccessCollection (collectionsOf user) (some d) = true := by
          rw [canAccess_iff, hall]
          exact ⟨m, hm, .inl List.mem_cons_self⟩
        rw [← h.others d hd, hafter d hd] at hbefore
        cases hbefore
      · refine .inr ⟨hcanonical, ?_⟩
        by_contra hother
        have hname : normalizeGrant canonicalCollectionId = .ok canonicalCollectionId := by decide +kernel
        have hd : normalizeGrant canonicalCollectionId ≠ normalizeGrant c := by
          rw [hname]
          exact fun heq => hother heq.symm
        have hbefore : canAccessCollection (collectionsOf user) (some canonicalCollectionId) = true := by
          rw [canAccess_iff, hcanonical]
          exact ⟨_, hname, .inr List.mem_cons_self⟩
        rw [← h.others _ hd, hafter _ hd] at hbefore
        cases hbefore
  · intro h
    refine ⟨?_, ?_, ?_⟩
    · rintro rfl hstar
      exact (revoked_iff hid hstar).mpr fun item hitem => by cases hitem
    · rintro rfl
      exact (granted_iff hid).mpr (h.named rfl)
    · intro d hd
      rw [hafter d hd, eq_comm, ← Bool.not_eq_true, canAccess_iff]
      rintro ⟨name, hname, hmem⟩
      rcases h.listed hnone with hempty | ⟨hcanonical, hc⟩
      · rw [hempty] at hmem
        simp at hmem
      · have hstar : ("*" : String) ≠ canonicalCollectionId := by decide
        rw [hcanonical, List.mem_singleton, List.mem_singleton] at hmem
        obtain rfl := hmem.resolve_left hstar
        exact hd (hname.trans hc.symm)

end Change

/-- **A change of a grant does what it should exactly when it settles.** The collection is one that the
knowledge packages accept, and the user is stored under the identifier, with a list of texts or without
one. -/
theorem grant_takes_effect_iff {users users' : UserStore} {actor : Actor} {user : Record}
    {user_id c id : String} {granted : Bool} {result : GrantResult}
    (hc : normalizeCollectionId (some c) = .ok id)
    (huser : users.getById (.str user_id) = .ok (some user))
    (hid : Json.member? "user_id" user = some (.str user_id))
    (hgrants : Json.member? "authorized_collection_ids" user = none ∨
      ∃ l, Json.member? "authorized_collection_ids" user = some (ofTexts l))
    (h : grantCollection users actor user_id c granted = .ok (result, users')) :
    ∃ user', users'.getById (.str user_id) = .ok (some user') ∧
      (TakesEffect user user' c granted ↔ ChangeSettles user c granted) := by
  rcases hgrants with hnone | ⟨l, hl⟩
  · have hitems : iterated (getD "authorized_collection_ids" .null user) =
        .ok (([] : List String).map .str) := by
      unfold getD
      rw [hnone]
      rfl
    exact ⟨_, grantCollection_saved huser hid hitems h, takesEffect_omitted hnone hc⟩
  · have hitems : iterated (getD "authorized_collection_ids" .null user) = .ok (l.map .str) := by
      unfold getD
      rw [hl]
      exact iterated_texts l
    exact ⟨_, grantCollection_saved huser hid hitems h, takesEffect_list hl hc⟩

/-- An administrator. -/
def administrator : Actor := ⟨true, ["*"], some "t1", some "default"⟩

/-- A reader with a list of collections. -/
def readerOf (l : List String) : Record :=
  [("user_id", .str "u2"), ("email", .str "bo@clinic.test"), ("role", .str "viewer"),
    ("tenant_id", .str "t1"), ("authorized_collection_ids", ofTexts l)]

/-- The store with the reader. -/
def readers (l : List String) : UserStore := ⟨[(0, readerOf l)], [("bo@clinic.test", 0)], [(.str "u2", 0)]⟩

/-- The reader is stored. -/
theorem getById_reader (l : List String) : (readers l).getById (.str "u2") = .ok (some (readerOf l)) := by
  have hentry : [((Json.str "u2"), 0)].find? (fun e => e.1.equal (.str "u2")) = some (.str "u2", 0) :=
    List.find?_cons_of_pos (equal_str.mpr rfl)
  show Except.ok (([((Json.str "u2"), 0)].find? fun e => e.1.equal (.str "u2")).bind fun e =>
    (readers l).deref e.2) = _
  rw [hentry]
  rfl

/-- The canonical collection is revoked under the name with which it was granted. -/
theorem same_spelling_revoked :
    ∃ result users' user', grantCollection (readers ["rag_phase0", "notes"]) administrator "u2" "rag_phase0"
        false = .ok (result, users') ∧ users'.getById (.str "u2") = .ok (some user') ∧
      TakesEffect (readerOf ["rag_phase0", "notes"]) user' "rag_phase0" false := by
  have hrun : (grantCollection (readers ["rag_phase0", "notes"]) administrator "u2" "rag_phase0"
      false).toOption.isSome = true := by decide +kernel
  cases h : grantCollection (readers ["rag_phase0", "notes"]) administrator "u2" "rag_phase0" false with
  | error e =>
    rw [h] at hrun
    cases hrun
  | ok x =>
    obtain ⟨user', hfound, hiff⟩ := grant_takes_effect_iff (show normalizeCollectionId (some "rag_phase0") =
      .ok "rag_phase0" by decide +kernel) (getById_reader _) rfl (.inr ⟨_, rfl⟩) h
    refine ⟨x.1, x.2, user', rfl, hfound, hiff.mpr ⟨?_, Bool.noConfusion, ?_⟩⟩
    · rintro - - l hl item hitem hne name hname
      obtain rfl := ofTexts_inj (Option.some.inj hl)
      have hcanonical : normalizeGrant "rag_phase0" = .ok "rag_phase0" := by decide +kernel
      have hnotes : normalizeGrant "notes" = .ok "notes" := by decide +kernel
      obtain rfl := Except.ok.inj (hcanonical.symm.trans hname)
      simp only [List.mem_cons, List.not_mem_nil, or_false] at hitem
      obtain rfl := hitem.resolve_left hne
      rw [hnotes]
      decide
    · intro hnone
      cases hnone

/-- Revoking the canonical collection leaves the access that was granted under an alias of it. -/
theorem alias_survives_revocation :
    ∃ result users' user', grantCollection (readers ["cvg_master_rag"]) administrator "u2" "rag_phase0"
        false = .ok (result, users') ∧ users'.getById (.str "u2") = .ok (some user') ∧
      ¬ TakesEffect (readerOf ["cvg_master_rag"]) user' "rag_phase0" false := by
  have hrun : (grantCollection (readers ["cvg_master_rag"]) administrator "u2" "rag_phase0"
      false).toOption.isSome = true := by decide +kernel
  cases h : grantCollection (readers ["cvg_master_rag"]) administrator "u2" "rag_phase0" false with
  | error e =>
    rw [h] at hrun
    cases hrun
  | ok x =>
    have hitems : iterated (getD "authorized_collection_ids" .null (readerOf ["cvg_master_rag"])) =
      .ok (["cvg_master_rag"].map .str) := rfl
    refine ⟨x.1, x.2, _, rfl, grantCollection_saved (getById_reader _) rfl hitems h, ?_⟩
    intro heffect
    have haccess := heffect.revoked rfl (by decide +kernel)
    rw [show canAccessCollection _ _ = true by decide +kernel] at haccess
    cases haccess

end RickIntelligence.Identity
