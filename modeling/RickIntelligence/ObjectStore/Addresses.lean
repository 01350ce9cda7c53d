import RickIntelligence.Lib.Quote
import RickIntelligence.ObjectStore.Identity

/-!
# Addresses of objects in an S3 bucket

The remote key of an object and its URL (`_scope_prefix`, `_remote_key`, `_object_url` and `_url_for_path`
of `rick_storage/s3_object_store.py`). The scope and the key of an object stand in its remote key between
fixed names, and no part of a scope has a slash in it. The remote key is percent-encoded for the path of
the URL; that the whole path is encoded once more changes nothing of it but the endpoint's own path.
-/

namespace RickIntelligence.ObjectStore

open Lib

/-! ## Configuration -/

/-- What `_BUCKET_RE` allows of a character within a bucket. -/
def isBucketChar (c : Char) : Bool := isLowerAscii c || isDigitAscii c || c == '.' || c == '-'

/-- What `_validate_bucket` accepts. -/
def validBucket (value : List Char) : Bool :=
  decide (3 ≤ value.length ∧ value.length ≤ 63) && value.all isBucketChar &&
    value.head?.all (fun c => c != '.' && c != '-') && value.getLast?.all (fun c => c != '.' && c != '-') &&
    !contains ['.', '.'] value && !contains ['.', '-'] value && !contains ['-', '.'] value

/-- What `_validate_base_prefix` returns. -/
def validateBasePrefix (value : String) : Except ObjectStoreError (List Char) :=
  if value = "" then .ok []
  else if validKeyPrefix value then
    .ok (if value.toList.getLast? = some '/' then value.toList else value.toList ++ ['/'])
  else .error .invalidObjectKey

/-- An endpoint as `_validate_endpoint` returns it and `urlsplit` splits it. Its path is nothing, or begins
with a slash, and no slash is at its end. -/
structure Endpoint where
  scheme : List Char
  netloc : List Char
  path : List Char
  known : scheme = "http".toList ∨ scheme = "https".toList
  located : netloc ≠ []
  rooted : path = [] ∨ path.head? = some '/'
  trimmed : path.getLast? ≠ some '/'

/-- The part of an `S3ObjectStore` that decides its addresses. -/
structure S3Location where
  endpoint : Endpoint
  bucket : List Char
  base : List Char
  bucket_valid : validBucket bucket = true
  base_valid : ∃ value, validateBasePrefix value = .ok base

namespace S3Location

variable (store : S3Location)

/-! ## Keys and URLs -/

/-- `_scope_prefix`. -/
def scopePrefix (scope : ObjectScope) : List Char :=
  store.base ++ "tenants/".toList ++ scope.tenantId.toList ++ "/workspaces/".toList ++
    scope.workspaceId.toList ++ "/sources/".toList ++ scope.sourceId.toList ++ "/objects/".toList

/-- `_remote_key`. -/
def remoteKey (scope : ObjectScope) (key : String) : Except ObjectStoreError (List Char) :=
  let remote_key := store.scopePrefix scope ++ key.toList
  if maxObjectKeyBytes < utf8Length remote_key then .error .invalidObjectKey else .ok remote_key

/-- The path of `_url_for_path`. -/
def encodedPath (suffix : List Char) : List Char :=
  Percent.quote ['/', '%', ':', '@', '-', '.', '_', '~'] (store.endpoint.path ++ suffix)

/-- `_url_for_path` without a query. -/
def urlForPath (suffix : List Char) : List Char :=
  store.endpoint.scheme ++ "://".toList ++ store.endpoint.netloc ++ store.encodedPath suffix

/-- What `_object_url` encodes. -/
def objectSuffix (remote_key : List Char) : List Char :=
  '/' :: Percent.quote ['-', '.', '_', '~'] store.bucket ++
    '/' :: Percent.quote ['/', '-', '.', '_', '~'] remote_key

/-- `_object_url`. -/
def objectUrl (remote_key : List Char) : List Char := store.urlForPath (store.objectSuffix remote_key)

end S3Location

/-! ## Parts of a remote key -/

section Parts

variable {store : S3Location} {scope scope' : ObjectScope}

/-- A scope component has no slash in it. -/
theorem slash_not_mem {value : String} (h : validScopeComponent value = true) : '/' ∉ value.toList := by
  intro hmem
  unfold validScopeComponent at h
  simp only [Bool.and_eq_true, Bool.not_eq_true', List.any_eq_false] at h
  exact h.1.2 '/' hmem rfl

/-- The names between the parts of a remote key begin with a slash. -/
theorem names_slash : "/workspaces/".toList = '/' :: "workspaces/".toList ∧
    "/sources/".toList = '/' :: "sources/".toList ∧ "/objects/".toList = '/' :: "objects/".toList := by
  decide

/-- What stands before a key is that of one scope only. -/
theorem scopePrefix_inj {r r' : List Char} (h : store.scopePrefix scope ++ r = store.scopePrefix scope' ++ r') :
    scope = scope' ∧ r = r' := by
  obtain ⟨hworkspaces, hsources, hobjects⟩ := names_slash
  unfold S3Location.scopePrefix at h
  rw [hworkspaces, hsources, hobjects] at h
  simp only [List.append_assoc, List.append_cancel_left_eq, List.cons_append] at h
  obtain ⟨htenant, h⟩ := Percent.append_sep_inj (slash_not_mem scope.tenant_valid)
    (slash_not_mem scope'.tenant_valid) h
  rw [List.append_cancel_left_eq] at h
  obtain ⟨hworkspace, h⟩ := Percent.append_sep_inj (slash_not_mem scope.workspace_valid)
    (slash_not_mem scope'.workspace_valid) h
  rw [List.append_cancel_left_eq] at h
  obtain ⟨hsource, h⟩ := Percent.append_sep_inj (slash_not_mem scope.source_valid)
    (slash_not_mem scope'.source_valid) h
  rw [List.append_cancel_left_eq] at h
  refine ⟨?_, h⟩
  cases scope
  cases scope'
  simp only [String.toList_inj] at htenant hworkspace hsource
  subst htenant hworkspace hsource
  rfl

/-- A remote key is what stands before the key, and the key. -/
theorem remoteKey_ok {key : String} {remote : List Char} (h : store.remoteKey scope key = .ok remote) :
    remote = store.scopePrefix scope ++ key.toList := by
  unfold S3Location.remoteKey at h
  simp only at h
  split at h
  · cases h
  · exact (Except.ok.inj h).symm

end Parts

/-! ## Segments -/

section Segments

variable {store : S3Location} {scope : ObjectScope}

/-- A segment of a path that leads nowhere else: it is neither empty nor a dot segment. -/
def PlainSegment (segment : List Char) : Prop := segment ≠ [] ∧ segment ≠ ['.'] ∧ segment ≠ ['.', '.']

/-- The segments of a remote key are plain. -/
def PlainPath (path : List Char) : Prop := ∀ segment ∈ splitAt '/' path, PlainSegment segment

/-- A part of a key is plain. -/
theorem plainSegment_of_validPart {part : List Char} (h : validPart part = true) : PlainSegment part := by
  unfold validPart at h
  simp only [Bool.and_eq_true, Bool.not_eq_true', List.isEmpty_eq_false_iff, bne_iff_ne] at h
  exact ⟨h.1.1.1, h.1.1.2, h.1.2⟩

/-- A scope component is plain. -/
theorem plainSegment_of_validScopeComponent {value : String} (h : validScopeComponent value = true) :
    PlainSegment value.toList := by
  unfold validScopeComponent validText at h
  simp only [Bool.and_eq_true, Bool.not_eq_true', List.isEmpty_eq_false_iff, bne_iff_ne] at h
  refine ⟨h.1.1.1.1.1.1, ?_, ?_⟩
  · intro heq
    exact h.1.1.1.2 (String.toList_inj.mp heq)
  · intro heq
    exact h.1.1.2 (String.toList_inj.mp heq)

/-- The base of a store is nothing, or plain segments and a slash. -/
theorem base_parts (store : S3Location) : store.base = [] ∨ ∃ path, store.base = path ++ ['/'] ∧ PlainPath path := by
  obtain ⟨value, hvalue⟩ := store.base_valid
  unfold validateBasePrefix at hvalue
  split at hvalue
  · exact .inl (Except.ok.inj hvalue).symm
  · split at hvalue
    · next hne hvalid =>
      right
      unfold validKeyPrefix at hvalid
      simp only [Bool.or_eq_true, beq_iff_eq, hne, false_or, Bool.and_eq_true, List.all_eq_true] at hvalid
      rw [← Except.ok.inj hvalue]
      have hparts : ∀ part ∈ prefixParts value, PlainSegment part :=
        fun part hpart => plainSegment_of_validPart (hvalid.2 part hpart)
      unfold prefixParts at hparts
      rcases List.eq_nil_or_concat value.toList with hnil | ⟨path, c, hpath⟩
      · exact absurd (String.toList_inj.mp (hnil.trans String.toList_empty.symm)) hne
      · rw [hpath, List.concat_eq_append] at hparts ⊢
        by_cases hc : c = '/'
        · subst hc
          rw [Percent.splitAt_append_sep] at hparts
          refine ⟨path, if_pos (by simp), fun segment hsegment => hparts segment ?_⟩
          simpa [splitAt] using hsegment
        · obtain ⟨parts, part, hsplit⟩ := Percent.splitAt_concat hc path
          refine ⟨path ++ [c], if_neg (by simpa using hc), fun segment hsegment => hparts segment ?_⟩
          rw [hsplit] at hsegment ⊢
          rw [if_neg (by simp)]
          exact hsegment
    · cases hvalue

/-- The segments before a plain path, after a slash. -/
theorem plainPath_append {path rest : List Char} (hpath : PlainPath path) (hrest : PlainPath rest) :
    PlainPath (path ++ '/' :: rest) := by
  unfold PlainPath
  rw [Percent.splitAt_append_sep]
  intro segment hsegment
  rcases List.mem_append.mp hsegment with hsegment | hsegment
  · exact hpath segment hsegment
  · exact hrest segment hsegment

/-- A plain segment without a slash is a plain path. -/
theorem plainPath_segment {segment : List Char} (hslash : '/' ∉ segment) (h : PlainSegment segment) :
    PlainPath segment := by
  unfold PlainPath
  rw [splitAt_eq_self hslash]
  exact fun s hs => (List.mem_singleton.mp hs) ▸ h

/-- A scope component is a plain path. -/
theorem plainPath_component {value : String} (h : validScopeComponent value = true) :
    PlainPath value.toList :=
  plainPath_segment (slash_not_mem h) (plainSegment_of_validScopeComponent h)

/-- The segments of a remote key are plain. -/
theorem plainPath_remoteKey {key : String} {remote : List Char} (hkey : validObjectKey key = true)
    (h : store.remoteKey scope key = .ok remote) : PlainPath remote := by
  have hnames : "tenants/".toList = "tenants".toList ++ ['/'] ∧
      "/workspaces/".toList = '/' :: "workspaces".toList ++ ['/'] ∧
      "/sources/".toList = '/' :: "sources".toList ++ ['/'] ∧
      "/objects/".toList = '/' :: "objects".toList ++ ['/'] := by decide
  have hplain : ∀ name ∈ ["tenants", "workspaces", "sources", "objects"], PlainPath name.toList := by
    unfold PlainPath PlainSegment
    decide
  have hkeyPath : PlainPath key.toList := by
    unfold validObjectKey at hkey
    simp only [Bool.and_eq_true, List.all_eq_true] at hkey
    exact fun segment hsegment => plainSegment_of_validPart (hkey.2 segment hsegment)
  -- From the key outwards: a name, a part of the scope, and so on.
  have hobjects := plainPath_append (plainPath_component scope.source_valid)
    (plainPath_append (hplain "objects" (by decide)) hkeyPath)
  have hsources := plainPath_append (plainPath_component scope.workspace_valid)
    (plainPath_append (hplain "sources" (by decide)) hobjects)
  have hworkspaces := plainPath_append (plainPath_component scope.tenant_valid)
    (plainPath_append (hplain "workspaces" (by decide)) hsources)
  have htenants := plainPath_append (hplain "tenants" (by decide)) hworkspaces
  rw [remoteKey_ok h]
  unfold S3Location.scopePrefix
  rw [hnames.1, hnames.2.1, hnames.2.2.1, hnames.2.2.2]
  rcases base_parts store with hbase | ⟨path, hbase, hpath⟩
  · rw [hbase]
    simpa only [List.append_assoc, List.cons_append, List.nil_append, List.singleton_append] using htenants
  · rw [hbase]
    simpa only [List.append_assoc, List.cons_append, List.nil_append, List.singleton_append] using
      plainPath_append hpath htenants

/-- Encoding keeps a path plain. -/
theorem plainPath_quote {path : List Char} (h : PlainPath path) :
    PlainPath (Percent.quote ['/', '-', '.', '_', '~'] path) := by
  have hdot : Percent.quote ['/', '-', '.', '_', '~'] ['.'] = ['.'] := by decide
  have hdots : Percent.quote ['/', '-', '.', '_', '~'] ['.', '.'] = ['.', '.'] := by decide
  have hinj : Function.Injective (Percent.quote ['/', '-', '.', '_', '~']) :=
    Percent.quote_injective (by decide)
  unfold PlainPath
  rw [Percent.splitAt_quote (by decide) (by decide) (by decide)]
  intro segment hsegment
  obtain ⟨part, hpart, rfl⟩ := List.mem_map.mp hsegment
  obtain ⟨hne, hone, htwo⟩ := h part hpart
  refine ⟨?_, ?_, ?_⟩
  · intro heq
    exact hne (hinj heq)
  · intro heq
    exact hone (hinj (heq.trans hdot.symm))
  · intro heq
    exact htwo (hinj (heq.trans hdots.symm))

end Segments

/-! ## Addresses -/

/-- The characters of a bucket are never encoded. -/
theorem kept_bucketChar {c : Char} (h : isBucketChar c = true) (safe : List Char) : Percent.Kept safe c := by
  have hascii : c.toNat < 0x80 := by
    unfold isBucketChar isLowerAscii isDigitAscii at h
    simp only [Bool.or_eq_true, Bool.and_eq_true, decide_eq_true_eq, beq_iff_eq] at h
    rcases h with ((⟨-, hle⟩ | ⟨-, hle⟩) | rfl) | rfl
    · exact lt_of_le_of_lt hle (by decide)
    · exact lt_of_le_of_lt hle (by decide)
    · decide
    · decide
  refine ⟨hascii, .inl ?_⟩
  unfold isBucketChar at h
  unfold Percent.unreserved isAlnumAscii
  simp only [Bool.or_eq_true] at h ⊢
  tauto

/-- What a bucket is made of. -/
theorem bucket_chars (store : S3Location) :
    3 ≤ store.bucket.length ∧ ∀ c ∈ store.bucket, isBucketChar c = true := by
  have hvalid := store.bucket_valid
  unfold validBucket at hvalid
  simp only [Bool.and_eq_true, List.all_eq_true, decide_eq_true_eq] at hvalid
  exact ⟨hvalid.1.1.1.1.1.1.1, hvalid.1.1.1.1.1.2⟩

/-- A bucket is a plain path. -/
theorem plainPath_bucket (store : S3Location) : PlainPath store.bucket := by
  obtain ⟨hlength, hchars⟩ := bucket_chars store
  refine plainPath_segment ?_ ⟨?_, ?_, ?_⟩
  · intro hslash
    exact absurd (hchars '/' hslash) (by decide)
  all_goals
    intro heq
    rw [heq] at hlength
    exact absurd hlength (by decide)

/-- What was encoded once stays as it is. -/
theorem quote_quote (text : List Char) :
    Percent.quote ['/', '%', ':', '@', '-', '.', '_', '~'] (Percent.quote ['/', '-', '.', '_', '~'] text) =
      Percent.quote ['/', '-', '.', '_', '~'] text := by
  apply Percent.quote_eq_self
  intro c hc
  rcases Percent.mem_quote hc with ⟨hascii, hkept⟩ | rfl | ⟨hascii, hkept⟩
  · refine ⟨hascii, hkept.imp_right fun hmem => ?_⟩
    simp only [List.mem_cons, List.not_mem_nil, or_false] at hmem ⊢
    tauto
  · decide
  · exact ⟨hascii, .inl (hkept.resolve_right List.not_mem_nil)⟩

/-- The path of an object: the endpoint's own, the bucket and the remote key, encoded. -/
theorem encodedPath_object (store : S3Location) (remote : List Char) :
    store.encodedPath (store.objectSuffix remote) =
      Percent.quote ['/', '%', ':', '@', '-', '.', '_', '~'] store.endpoint.path ++
        '/' :: (store.bucket ++ '/' :: Percent.quote ['/', '-', '.', '_', '~'] remote) := by
  have hslash : Percent.quote ['/', '%', ':', '@', '-', '.', '_', '~'] ['/'] = ['/'] := by decide
  have hbucket : ∀ safe, Percent.quote safe store.bucket = store.bucket := fun safe =>
    Percent.quote_eq_self fun c hc => kept_bucketChar ((bucket_chars store).2 c hc) safe
  unfold S3Location.encodedPath S3Location.objectSuffix
  rw [hbucket, Percent.quote_append, Percent.quote_append, Percent.quote_cons '/' store.bucket, hslash, hbucket,
    Percent.quote_cons '/', hslash, quote_quote]
  rfl

/-- What the addresses of a store are: the URL of an object says which object it is, what follows the
bucket in it is the remote key, no segment after the endpoint's own path is empty or a dot segment, and no
remote key begins as those of another scope do. -/
structure DistinctAddresses (store : S3Location) : Prop where
  injective : ∀ scope scope' key key' remote remote', store.remoteKey scope key = .ok remote →
    store.remoteKey scope' key' = .ok remote' → store.objectUrl remote = store.objectUrl remote' →
      scope = scope' ∧ key = key'
  decoded : ∀ scope key remote, validObjectKey key = true → store.remoteKey scope key = .ok remote →
    ∃ rest, store.encodedPath (store.objectSuffix remote) =
        Percent.quote ['/', '%', ':', '@', '-', '.', '_', '~'] store.endpoint.path ++
          '/' :: (store.bucket ++ '/' :: rest) ∧
      Percent.unquote (rest.map Char.toNat) = remote.map Char.toNat ∧
      PlainPath (store.bucket ++ '/' :: rest)
  apart : ∀ scope scope' key remote, store.remoteKey scope key = .ok remote →
    store.scopePrefix scope' <+: remote → scope = scope'

/-- **Distinct objects have distinct addresses.** -/
theorem distinct_addresses (store : S3Location) : DistinctAddresses store := by
  have hsafe : '%' ∉ ['/', '-', '.', '_', '~'] := by decide
  refine ⟨?_, ?_, ?_⟩
  · intro scope scope' key key' remote remote' h h' heq
    unfold S3Location.objectUrl S3Location.urlForPath at heq
    rw [encodedPath_object, encodedPath_object] at heq
    have hquoted := List.append_cancel_left (List.append_cancel_left heq)
    have hrest := List.append_cancel_left (List.cons.inj hquoted).2
    have hremote := Percent.quote_injective hsafe (List.cons.inj hrest).2
    rw [remoteKey_ok h, remoteKey_ok h'] at hremote
    obtain ⟨hscope, hkey⟩ := scopePrefix_inj hremote
    exact ⟨hscope, String.toList_inj.mp hkey⟩
  · intro scope key remote hkey h
    refine ⟨_, encodedPath_object store remote, Percent.unquote_quote hsafe remote, ?_⟩
    exact plainPath_append (plainPath_bucket store) (plainPath_quote (plainPath_remoteKey hkey h))
  · rintro scope scope' key remote h ⟨rest, hrest⟩
    rw [remoteKey_ok h] at hrest
    exact (scopePrefix_inj hrest).1.symm

/-- A store under an endpoint whose own path has a dot segment. -/
def dottedStore : S3Location where
  endpoint := {
    scheme := "https".toList
    netloc := "s3.test".toList
    path := "/a/../b".toList
    known := .inr rfl
    located := by decide
    rooted := .inr rfl
    trimmed := by decide }
  bucket := "objects".toList
  base := []
  bucket_valid := by decide
  base_valid := ⟨"", rfl⟩

/-- The scope of one source. -/
def oneScope : ObjectScope := ⟨"t1", "main", "s1", by decide, by decide, by decide⟩

/-- The endpoint's own path is taken over with its dot segment. -/
theorem endpoint_dots_kept :
    ∃ remote, dottedStore.remoteKey oneScope "a.txt" = .ok remote ∧ validObjectKey "a.txt" = true ∧
      ¬ PlainPath ((dottedStore.encodedPath (dottedStore.objectSuffix remote)).drop 1) := by
  refine ⟨dottedStore.scopePrefix oneScope ++ "a.txt".toList, by decide, by decide, ?_⟩
  intro hplain
  refine (hplain ['.', '.'] ?_).2.2 rfl
  decide

end RickIntelligence.ObjectStore
