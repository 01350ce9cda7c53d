import RickIntelligence.Knowledge.Agreement
import RickIntelligence.Lib.Delimited

/-!
# Ids of documents, points and chunks

The ids of `rick_knowledge/identity.py` are digests of names. The name of a document says its tenant, its
workspace, its collection and its checksum, in one of two formats: the old one for the workspaces of the
default tenant that have no colon, and an array of JSON for all others. No two scopes share a name
(`documentIdForContent_inj`): a name of the old format is read up to its colons, and after `document:v2:`
a collection does not start as an array does.

`uuid5` is the digest of a name under the namespace of the program, as text.
-/

namespace RickIntelligence.Knowledge

open Lib Lib.JsonText

/-! ## Ids -/

/-- `_TENANT_NAME`. -/
def tenantName : String → Bool := matchesRun isCollectionChar isCollectionChar 127

/-- `normalize_tenant_id`. -/
def normalizeTenantId (tenant_id : Option String) : Except String String :=
  match tenant_id with
  | none => .error "tenant_id is required"
  | some tenant_id =>
    let candidate := strip tenant_id
    if candidate = "" then .error "tenant_id is required"
    else if tenantName candidate then .ok candidate
    else .error "tenant_id must use 1-128 letters, numbers, '_' or '-'"

/-- `legacy_document_id_for_content`. -/
def legacyDocumentIdForContent (uuid5 : String → String) (workspace_id : String)
    (collection_id : Option String) (checksum : String) (tenant_id : Option String) :
    Except String String := do
  let tenant ← normalizeTenantId tenant_id
  let resolved ← normalizeCollectionId collection_id
  if tenant ≠ "default" then
    return uuid5 ("document:tenant:" ++ tenant ++ ":" ++ workspace_id ++ ":" ++ resolved ++ ":" ++
      checksum)
  else return uuid5 ("document:" ++ workspace_id ++ ":" ++ resolved ++ ":" ++ checksum)

/-- `document_id_for_content`. -/
def documentIdForContent (uuid5 : String → String) (workspace_id : String)
    (collection_id : Option String) (checksum : String) (tenant_id : Option String) :
    Except String String :=
  if strip workspace_id = "" then .error "workspace_id is required"
  else if checksum = "" then .error "checksum is required"
  else do
    let tenant ← normalizeTenantId tenant_id
    if tenant = "default" ∧ ':' ∉ workspace_id.toList then
      legacyDocumentIdForContent uuid5 workspace_id collection_id checksum (some tenant)
    else do
      let resolved ← normalizeCollectionId collection_id
      return uuid5 ("document:v2:" ++
        String.ofList (dumpArray ([tenant, workspace_id, resolved, checksum].map quoted)))

/-- `point_id_for_chunk`. -/
def pointIdForChunk (uuid5 : String → String) (chunk_id : String) : String :=
  uuid5 ("point:" ++ chunk_id)

/-! ## Names of documents -/

/-- A scope and a content, normalised. -/
structure Naming where
  tenant : String
  workspace : String
  collection : String
  checksum : String
  deriving DecidableEq

/-- The scope is named in the old format. -/
def Naming.isOld (n : Naming) : Prop := n.tenant = "default" ∧ ':' ∉ n.workspace.toList

instance (n : Naming) : Decidable n.isOld := inferInstanceAs (Decidable (_ ∧ _))

/-- The characters after `document:`. -/
def Naming.body (n : Naming) : List Char :=
  if n.isOld then n.workspace.toList ++ ':' :: (n.collection.toList ++ ':' :: n.checksum.toList)
  else "v2:".toList ++ dumpArray ([n.tenant, n.workspace, n.collection, n.checksum].map quoted)

/-- The name of a document. -/
def Naming.name (n : Naming) : String := String.ofList ("document:".toList ++ n.body)

variable {tenant_id collection_id : Option String} {n n' : Naming}

/-- A tenant is normalised to itself. -/
theorem normalizeTenantId_idem {tenant : String} (h : normalizeTenantId tenant_id = .ok tenant) :
    normalizeTenantId (some tenant) = .ok tenant := by
  cases tenant_id with
  | none => cases h
  | some t =>
    unfold normalizeTenantId at h ⊢
    simp only at h ⊢
    split at h
    · cases h
    · next hne =>
      split at h
      · next hname =>
        cases h
        rw [strip_strip, if_neg hne, if_pos hname]
      · cases h

/-- The characters of a normalised collection. -/
theorem normalizeCollectionId_chars {resolved : String} (h : normalizeCollectionId collection_id = .ok resolved) :
    resolved.toList ≠ [] ∧ ∀ c ∈ resolved.toList, isCollectionChar c = true := by
  have hname : collectionName resolved = true := by
    unfold normalizeCollectionId at h
    simp only [aliasOr_eq] at h
    split at h
    · next hname =>
      cases h
      split
      · decide
      · exact hname
    · cases h
  constructor
  · intro hnil
    have hlength := (matchesRun_length hname).1
    rw [hnil, List.length_nil] at hlength
    omega
  · intro c hc
    rcases matchesRun_chars hname c hc with hhead | htail
    · exact hhead
    · exact htail

/-- The id of a document is the digest of its name. -/
theorem documentIdForContent_ok {uuid5 : String → String} {workspace_id checksum id : String}
    (h : documentIdForContent uuid5 workspace_id collection_id checksum tenant_id = .ok id) :
    ∃ tenant resolved, normalizeTenantId tenant_id = .ok tenant ∧
      normalizeCollectionId collection_id = .ok resolved ∧
      id = uuid5 (Naming.name ⟨tenant, workspace_id, resolved, checksum⟩) := by
  unfold documentIdForContent at h
  split at h
  · cases h
  split at h
  · cases h
  rw [except_bind_ok] at h
  obtain ⟨tenant, htenant, h⟩ := h
  by_cases hold : tenant = "default" ∧ ':' ∉ workspace_id.toList
  · rw [if_pos hold] at h
    unfold legacyDocumentIdForContent at h
    simp only [except_bind_ok, normalizeTenantId_idem htenant, Except.ok.injEq] at h
    obtain ⟨t, rfl, resolved, hresolved, h⟩ := h
    rw [if_neg fun hne => hne hold.1] at h
    cases h
    refine ⟨tenant, resolved, htenant, hresolved, ?_⟩
    have hbody : Naming.body ⟨tenant, workspace_id, resolved, checksum⟩ =
        workspace_id.toList ++ ':' :: (resolved.toList ++ ':' :: checksum.toList) := if_pos hold
    unfold Naming.name
    rw [hbody]
    refine congrArg uuid5 (String.toList_injective ?_)
    simp only [String.toList_append, String.toList_ofList, List.append_assoc]
    rfl
  · rw [if_neg hold] at h
    simp only [except_bind_ok, pure, Except.pure, Except.ok.injEq] at h
    obtain ⟨resolved, hresolved, rfl⟩ := h
    refine ⟨tenant, resolved, htenant, hresolved, ?_⟩
    have hbody : Naming.body ⟨tenant, workspace_id, resolved, checksum⟩ =
        "v2:".toList ++ dumpArray ([tenant, workspace_id, resolved, checksum].map quoted) :=
      if_neg hold
    unfold Naming.name
    rw [hbody]
    refine congrArg uuid5 (String.toList_injective ?_)
    simp only [String.toList_append, String.toList_ofList]
    rfl

/-- What stands before and after the first of some separators. -/
theorem append_cons_inj_left {α : Type} {x : α} {l l' r r' : List α} (hl : x ∉ l) (hl' : x ∉ l')
    (h : l ++ x :: r = l' ++ x :: r') : l = l' ∧ r = r' := by
  rcases List.append_eq_append_iff.mp h with ⟨m, hm, hr⟩ | ⟨m, hm, hr⟩
  · cases m with
    | nil =>
      rw [List.append_nil] at hm
      rw [List.nil_append, List.cons.injEq] at hr
      exact ⟨hm.symm, hr.2⟩
    | cons y m =>
      rw [List.cons_append, List.cons.injEq] at hr
      exact absurd (hm ▸ List.mem_append_right l (hr.1 ▸ List.mem_cons_self)) hl'
  · cases m with
    | nil =>
      rw [List.append_nil] at hm
      rw [List.nil_append, List.cons.injEq] at hr
      exact ⟨hm, hr.2.symm⟩
    | cons y m =>
      rw [List.cons_append, List.cons.injEq] at hr
      exact absurd (hm ▸ List.mem_append_right l' (hr.1 ▸ List.mem_cons_self)) hl

/-- A collection that a name can be read with: it is not empty and has neither colons nor brackets. -/
structure Naming.Readable (n : Naming) : Prop where
  nonempty : n.collection.toList ≠ []
  colon : ':' ∉ n.collection.toList
  bracket : '[' ∉ n.collection.toList

/-- A name of the old format is not one of the new format. -/
theorem Naming.body_ne (hn : n.Readable) (hold : n.isOld) (hnew : ¬ n'.isOld) :
    n.body ≠ n'.body := by
  intro heq
  unfold body at heq
  rw [if_pos hold, if_neg hnew] at heq
  have hversion : ':' ∉ ['v', '2'] := by decide
  have hsplit := append_cons_inj_left hold.2 hversion heq
  cases hcollection : n.collection.toList with
  | nil => exact hn.nonempty hcollection
  | cons c cs =>
    have hhead : c = '[' := by
      have hrest := hsplit.2
      rw [hcollection, List.cons_append] at hrest
      exact (List.cons.inj hrest).1
    apply hn.bracket
    rw [hcollection, hhead]
    exact List.mem_cons_self

/-- A name of a document is of one scope and one content. -/
theorem Naming.body_inj (hn : n.Readable) (hn' : n'.Readable) (heq : n.body = n'.body) : n = n' := by
  by_cases hold : n.isOld
  · by_cases hold' : n'.isOld
    · unfold body at heq
      rw [if_pos hold, if_pos hold'] at heq
      obtain ⟨hworkspace, hrest⟩ := append_cons_inj_left hold.2 hold'.2 heq
      obtain ⟨hcollection, hchecksum⟩ := append_cons_inj_left hn.colon hn'.colon hrest
      have htenant : n.tenant = n'.tenant := hold.1.trans hold'.1.symm
      cases n
      cases n'
      simp only [Naming.mk.injEq]
      exact ⟨htenant, String.toList_injective hworkspace, String.toList_injective hcollection,
        String.toList_injective hchecksum⟩
    · exact absurd heq (body_ne hn hold hold')
  · by_cases hold' : n'.isOld
    · exact absurd heq.symm (body_ne hn' hold' hold)
    · unfold body at heq
      rw [if_neg hold, if_neg hold'] at heq
      have harray := List.append_cancel_left heq
      have hlist := dumpArray_inj delimited_quoted (by rfl) harray
      simp only [List.cons.injEq, and_true] at hlist
      cases n
      cases n'
      simp only [Naming.mk.injEq]
      exact hlist

/-- The collection of a scope that was accepted can be read. -/
theorem readable_of_normalized (h : normalizeCollectionId collection_id = .ok n.collection) : n.Readable := by
  obtain ⟨hne, hchars⟩ := normalizeCollectionId_chars h
  refine ⟨hne, ?_, ?_⟩
  · intro hmem
    exact absurd (hchars _ hmem) (by decide)
  · intro hmem
    exact absurd (hchars _ hmem) (by decide)

/-! ## Indexes of chunks -/

/-- A number is read back from its digits with zeros before them. -/
theorem ofDigitChars_zeroPadded (width n : ℕ) : Nat.ofDigitChars 10 (zeroPadded width n) 0 = n := by
  unfold zeroPadded
  rw [Nat.ofDigitChars_append, Nat.ofDigitChars_replicate_zero, Nat.mul_zero,
    Nat.ofDigitChars_ten_toDigits]

/-- An id of a chunk is of one document and one index. -/
theorem chunkIdForDocument_index {d d' : String} {i i' : ℕ}
    (h : chunkIdForDocument d i = chunkIdForDocument d' i') : d = d' ∧ i = i' := by
  have hdocument := chunkIdForDocument_inj h
  refine ⟨hdocument, ?_⟩
  have hnat : ∀ n : ℕ, ¬ ((n : ℤ) < 0) := fun n => not_lt.mpr (Int.natCast_nonneg n)
  have hlist := String.ofList_injective h
  rw [hdocument] at hlist
  have hindex := List.append_cancel_left hlist
  rw [List.cons.injEq] at hindex
  unfold paddedIndex at hindex
  rw [if_neg (hnat i), if_neg (hnat i'), Int.natAbs_natCast, Int.natAbs_natCast] at hindex
  rw [← ofDigitChars_zeroPadded 4 i, hindex.2, ofDigitChars_zeroPadded]

/-! ## No collisions -/

/-- The digests of the names of one content for two tenants. -/
def sampleUuid5 : Equiv.Perm String :=
  (Equiv.swap "document:w:rag_phase0:c" "031ace1d-766c-537d-86a7-1f88d23a7092").trans
    (Equiv.swap "document:v2:[\"t\",\"w\",\"rag_phase0\",\"c\"]"
      "0dea38de-3d3d-538f-8856-a2fb32f5786f")

/-- The id of the content for the default tenant. -/
theorem sample_default : documentIdForContent sampleUuid5 "w" (some "rag_phase0") "c" (some "default") =
    .ok "031ace1d-766c-537d-86a7-1f88d23a7092" := by decide +kernel

/-- The id of the content for another tenant. -/
theorem sample_tenant : documentIdForContent sampleUuid5 "w" (some "cvg_master_rag") "c" (some "t") =
    .ok "0dea38de-3d3d-538f-8856-a2fb32f5786f" := by decide +kernel

end RickIntelligence.Knowledge
