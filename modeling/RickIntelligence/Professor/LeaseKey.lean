import RickIntelligence.Lib.Quote
import RickIntelligence.Locking.RateLimit
import RickIntelligence.Professor.Answer

/-!
# The lease of a conversation

The key under which a run of the Professor holds the lease of its conversation: `_lease_key` of
`packages/professor/src/rick_professor/orchestration.py` joins the tenant, the workspace and the conversation
with colons, and `_redis_key` of the store in Redis puts the result through the namespace of the store.

The contract bounds the length of a conversation id and nothing else, so that ids may have colons. Two requests
have one key if and only if their ids are the same row of parts between colons (`leaseKey_eq`), and a row can be
divided into three ids in several ways, so that conversations of two tenants contend for one lease. The keys of
namespaces do not have this: a fingerprint is over fields that cannot have the separator (`scopeMaterial_inj`).
-/

namespace RickIntelligence.Professor

open Lib Locking

/-! ## Requests -/

namespace ProfessorRequest

/-- `_lease_key`. -/
def leaseKey (request : ProfessorRequest) : String :=
  "professor:" ++ request.retrieval_context.tenant_id ++ ":" ++ request.retrieval_context.workspace_id ++ ":" ++
    request.conversation_id

/-- `_redis_key` for a lease. -/
def redisKey (sha : Sha256) (ns : RedisNamespace) (request : ProfessorRequest) : Option String :=
  if validScalarText request.leaseKey 512 then ns.key sha "lease" request.leaseKey else none

/-- The requests are of one conversation of one workspace of one tenant. -/
def SameConversation (r r' : ProfessorRequest) : Prop :=
  r.retrieval_context.tenant_id = r'.retrieval_context.tenant_id ∧
    r.retrieval_context.workspace_id = r'.retrieval_context.workspace_id ∧ r.conversation_id = r'.conversation_id

/-- The parts between the colons of the ids, in a row. -/
def parts (r : ProfessorRequest) : List (List Char) :=
  splitAt ':' r.retrieval_context.tenant_id.toList ++ (splitAt ':' r.retrieval_context.workspace_id.toList ++
    splitAt ':' r.conversation_id.toList)

/-- A character that a key may have. -/
def printable (c : Char) : Bool := decide (0x20 ≤ c.toNat) && c != '\x7f'

/-- The ids are short enough for a key, and have no control characters. -/
def Accepted (r : ProfessorRequest) : Prop :=
  r.retrieval_context.tenant_id.length + r.retrieval_context.workspace_id.length + r.conversation_id.length ≤
      500 ∧
    r.retrieval_context.tenant_id.toList.all printable = true ∧
    r.retrieval_context.workspace_id.toList.all printable = true ∧ r.conversation_id.toList.all printable = true

/-! ## The text of a key -/

variable {r r' : ProfessorRequest}

/-- The characters of the key. -/
theorem leaseKey_toList (r : ProfessorRequest) : r.leaseKey.toList = "professor:".toList ++
    (r.retrieval_context.tenant_id.toList ++ ':' :: (r.retrieval_context.workspace_id.toList ++ ':' ::
      r.conversation_id.toList)) := by
  have hcolon : ":".toList = [':'] := rfl
  unfold leaseKey
  simp only [String.toList_append, hcolon, List.append_assoc, List.cons_append, List.nil_append]

/-- Two requests have one text for the key if and only if their ids are one row of parts. -/
theorem leaseKey_eq : r.leaseKey = r'.leaseKey ↔ r.parts = r'.parts := by
  have hparts : ∀ r : ProfessorRequest, r.parts = splitAt ':' (r.retrieval_context.tenant_id.toList ++ ':' ::
      (r.retrieval_context.workspace_id.toList ++ ':' :: r.conversation_id.toList)) := by
    intro r
    rw [Percent.splitAt_append_sep, Percent.splitAt_append_sep]
    rfl
  rw [← String.toList_inj, leaseKey_toList, leaseKey_toList, List.append_cancel_left_eq, hparts, hparts]
  exact (Percent.splitAt_injective ':').eq_iff.symm

/-- Requests of one conversation have one text for the key. -/
theorem SameConversation.leaseKey (h : r.SameConversation r') : r.leaseKey = r'.leaseKey := by
  obtain ⟨htenant, hworkspace, hconversation⟩ := h
  unfold ProfessorRequest.leaseKey
  rw [htenant, hworkspace, hconversation]

/-- A row of parts that is divided alike is of one conversation. -/
theorem sameConversation_of_parts (h : r.parts = r'.parts)
    (htenant : r.retrieval_context.tenant_id.toList.count ':' = r'.retrieval_context.tenant_id.toList.count ':')
    (hworkspace : r.retrieval_context.workspace_id.toList.count ':' =
      r'.retrieval_context.workspace_id.toList.count ':') : r.SameConversation r' := by
  have htext : ∀ {s t : String}, splitAt ':' s.toList = splitAt ':' t.toList → s = t :=
    fun hst => String.toList_inj.mp (Percent.splitAt_injective ':' hst)
  obtain ⟨hfirst, hrest⟩ := List.append_inj h (by rw [Percent.length_splitAt, Percent.length_splitAt, htenant])
  obtain ⟨hsecond, hthird⟩ :=
    List.append_inj hrest (by rw [Percent.length_splitAt, Percent.length_splitAt, hworkspace])
  exact ⟨htext hfirst, htext hsecond, htext hthird⟩

/-- The ids are accepted if and only if the text of the key is. -/
theorem validScalarText_leaseKey (r : ProfessorRequest) :
    validScalarText r.leaseKey 512 = true ↔ r.Accepted := by
  have htag : "professor:".toList.length = 10 := by decide
  have hprintable : "professor:".toList.all printable = true := by decide
  have hcolon : printable ':' = true := by decide
  have hchars : ∀ s : String, (s.toList.all fun c => decide (0x20 ≤ c.toNat) && c != '\x7f') =
      s.toList.all printable := fun _ => rfl
  unfold validScalarText Accepted
  rw [hchars, leaseKey_toList]
  simp only [List.length_append, List.length_cons, List.all_append, List.all_cons, htag, hprintable, hcolon,
    String.length_toList, Bool.and_eq_true, decide_eq_true_eq, Bool.true_and]
  constructor
  · rintro ⟨⟨-, hlength⟩, htenant, hworkspace, hconversation⟩
    exact ⟨by omega, htenant, hworkspace, hconversation⟩
  · rintro ⟨hlength, htenant, hworkspace, hconversation⟩
    exact ⟨⟨by omega, by omega⟩, htenant, hworkspace, hconversation⟩

/-- What is accepted as the key of a lease is accepted by the namespace. -/
theorem key_of_valid {sha : Sha256} {ns : RedisNamespace} {key : String} (h : validScalarText key 512 = true) :
    ns.key sha "lease" key = some (ns.keyText sha "lease" key) := by
  have hkind : keyKindPattern "lease" = true := by decide +kernel
  unfold validScalarText at h
  simp only [Bool.and_eq_true, decide_eq_true_eq, List.all_eq_true] at h
  obtain ⟨⟨hnonempty, hshort⟩, hchars⟩ := h
  have hcontrol : key.toList.all (fun c => !(c.toNat < 0x20 || c.toNat == 0x7f)) = true := by
    rw [List.all_eq_true]
    intro c hc
    obtain ⟨hlow, hdelete⟩ := hchars c hc
    have hne : c.toNat ≠ 0x7f := by
      intro heq
      rw [bne_iff_ne] at hdelete
      exact hdelete (Char.toNat_inj.mp heq)
    simp [hne]
    omega
  unfold RedisNamespace.key
  rw [hkind, hcontrol, decide_eq_true hnonempty, decide_eq_true hshort]
  rfl

/-- The key of a request: one is made if and only if the ids are accepted. -/
theorem redisKey_eq_some {sha : Sha256} {ns : RedisNamespace} {k : String} :
    r.redisKey sha ns = some k ↔ r.Accepted ∧ k = ns.keyText sha "lease" r.leaseKey := by
  unfold redisKey
  rw [← validScalarText_leaseKey]
  split
  · next hvalid =>
    rw [key_of_valid hvalid, Option.some.injEq, and_iff_right hvalid]
    exact eq_comm
  · next hvalid => simp [hvalid]

/-- Two requests have one key if and only if their ids are accepted and are one row of parts. -/
theorem redisKey_eq {sha : Sha256} (ns : RedisNamespace) (hsha : sha.CollisionFree {r.leaseKey, r'.leaseKey}) :
    (∃ k, r.redisKey sha ns = some k ∧ r'.redisKey sha ns = some k) ↔ r.Accepted ∧ r.parts = r'.parts := by
  rw [← leaseKey_eq]
  constructor
  · rintro ⟨k, hk, hk'⟩
    obtain ⟨haccepted, hkey⟩ := redisKey_eq_some.mp hk
    obtain ⟨-, hkey'⟩ := redisKey_eq_some.mp hk'
    have hfingerprints := (RedisNamespace.keyText_inj sha ns "lease" _ _).mp (hkey.symm.trans hkey')
    exact ⟨haccepted, hsha (.inl rfl) (.inr rfl) hfingerprints⟩
  · rintro ⟨haccepted, htext⟩
    have haccepted' : r'.Accepted := by
      rw [← validScalarText_leaseKey] at haccepted ⊢
      rw [← htext]
      exact haccepted
    refine ⟨_, redisKey_eq_some.mpr ⟨haccepted, rfl⟩, redisKey_eq_some.mpr ⟨haccepted', ?_⟩⟩
    rw [htext]

end ProfessorRequest

/-! ## The keys of namespaces -/

section Namespaces

variable {sha : Sha256} {ns ns' : RedisNamespace}

/-- What the fingerprint of a scope is made of. -/
def scopeMaterial (ns : RedisNamespace) : String :=
  "\x1f".intercalate [ns.environment, ns.scope.text, ns.tenant_id.getD "", ns.workspace_id.getD "",
    ns.collection_id.getD ""]

/-- What `__post_init__` has checked. -/
theorem namespace_facts (ns : RedisNamespace) : ns.environment ∈ environments ∧
    prefixPattern ns.key_prefix = true ∧ ns.tenant_id.all identifierPattern = true ∧
    ns.workspace_id.all identifierPattern = true ∧ ns.collection_id.all identifierPattern = true := by
  have hsafe := ns.safe
  unfold safeNamespace at hsafe
  simp only [Bool.and_eq_true, List.contains_iff_mem] at hsafe
  obtain ⟨⟨⟨hchecks, -⟩, -⟩, -⟩ := hsafe
  obtain ⟨⟨⟨⟨henvironment, hbase⟩, htenant⟩, hworkspace⟩, hcollection⟩ := hchecks
  exact ⟨henvironment, hbase, htenant, hworkspace, hcollection⟩

/-- The characters of an identifier. -/
theorem identifier_chars {s : String} (h : identifierPattern s = true) :
    ∀ c ∈ s.toList, isAlnumAscii c = true ∨ c ∈ ['_', '.', ':', '-'] := by
  intro c hc
  rcases matchesRun_chars h c hc with hhead | htail
  · exact .inl hhead
  · rw [Bool.or_eq_true, List.contains_iff_mem] at htail
    exact htail

/-- An identifier, or nothing, does not have the separator, and nothing is no identifier. -/
theorem getD_facts {value : Option String} (h : value.all identifierPattern = true) :
    '\x1f' ∉ (value.getD "").toList ∧ (value.getD "" = "" ↔ value = none) := by
  cases value with
  | none => exact ⟨by simp, by simp⟩
  | some s =>
    rw [Option.all_some] at h
    refine ⟨?_, ?_⟩
    · intro hmem
      rcases identifier_chars h _ hmem with halnum | hother
      · exact absurd halnum (by decide)
      · exact absurd hother (by decide)
    · have hlength := (matchesRun_length h).1
      constructor
      · intro hempty
        rw [Option.getD_some] at hempty
        rw [hempty] at hlength
        simp at hlength
      · exact nofun

/-- Identifiers that are shown as one text are the same. -/
theorem getD_injective {a b : Option String} (ha : a.all identifierPattern = true)
    (hb : b.all identifierPattern = true) (h : a.getD "" = b.getD "") : a = b := by
  cases a with
  | none => exact ((getD_facts hb).2.mp h.symm).symm
  | some s =>
    cases b with
    | none => exact (getD_facts ha).2.mp h
    | some t => exact congrArg some h

/-- The fields that are joined do not have the separator, so they can be told from the text. -/
theorem scopeMaterial_inj (h : scopeMaterial ns = scopeMaterial ns') :
    ns.environment = ns'.environment ∧ ns.scope = ns'.scope ∧ ns.tenant_id = ns'.tenant_id ∧
      ns.workspace_id = ns'.workspace_id ∧ ns.collection_id = ns'.collection_id := by
  have hunit : "\x1f".toList = ['\x1f'] := rfl
  have hchars : ∀ ns : RedisNamespace, (scopeMaterial ns).toList = ns.environment.toList ++ '\x1f' ::
      (ns.scope.text.toList ++ '\x1f' :: ((ns.tenant_id.getD "").toList ++ '\x1f' ::
        ((ns.workspace_id.getD "").toList ++ '\x1f' :: (ns.collection_id.getD "").toList))) := by
    intro ns
    have hjoined : scopeMaterial ns = ns.environment ++ "\x1f" ++ ns.scope.text ++ "\x1f" ++
        ns.tenant_id.getD "" ++ "\x1f" ++ ns.workspace_id.getD "" ++ "\x1f" ++ ns.collection_id.getD "" := rfl
    rw [hjoined]
    simp only [String.toList_append, hunit, List.append_assoc, List.cons_append, List.nil_append]
  have henvironment : ∀ ns : RedisNamespace, '\x1f' ∉ ns.environment.toList := by
    intro ns
    have hall : ∀ s ∈ environments, '\x1f' ∉ s.toList := by decide +kernel
    exact hall _ (namespace_facts ns).1
  have hscope : ∀ scope : Scope, '\x1f' ∉ scope.text.toList := by
    intro scope
    cases scope <;> decide +kernel
  obtain ⟨-, -, htenant, hworkspace, hcollection⟩ := namespace_facts ns
  obtain ⟨-, -, htenant', hworkspace', hcollection'⟩ := namespace_facts ns'
  have htext := congrArg String.toList h
  rw [hchars, hchars] at htext
  obtain ⟨hfirst, htext⟩ := Percent.append_sep_inj (henvironment ns) (henvironment ns') htext
  obtain ⟨hsecond, htext⟩ := Percent.append_sep_inj (hscope ns.scope) (hscope ns'.scope) htext
  obtain ⟨hthird, htext⟩ := Percent.append_sep_inj (getD_facts htenant).1 (getD_facts htenant').1 htext
  obtain ⟨hfourth, hfifth⟩ := Percent.append_sep_inj (getD_facts hworkspace).1 (getD_facts hworkspace').1 htext
  refine ⟨String.toList_inj.mp hfirst, ?_, getD_injective htenant htenant' (String.toList_inj.mp hthird),
    getD_injective hworkspace hworkspace' (String.toList_inj.mp hfourth),
    getD_injective hcollection hcollection' (String.toList_inj.mp hfifth)⟩
  have hnames : ∀ a b : Scope, a.text.toList = b.text.toList → a = b := by
    intro a b hab
    cases a <;> cases b <;> first | rfl | exact absurd hab (by decide +kernel)
  exact hnames _ _ hsecond

/-- The hash tag of the keys of a namespace. -/
def hashTag (sha : Sha256) (ns : RedisNamespace) : String :=
  ns.key_prefix ++ ":v1:" ++ ns.environment ++ ":s:" ++ ns.scopeFingerprint sha

/-- A fingerprint has 32 characters, none of which is a brace. -/
theorem fingerprint_facts (sha : Sha256) (text : String) :
    (sha.fingerprint text).toList.length = 32 ∧ '\x7d' ∉ (sha.fingerprint text).toList := by
  unfold Sha256.fingerprint
  rw [String.toList_ofList]
  constructor
  · rw [List.length_take, sha.length]
    rfl
  · intro hmem
    have hdigit := List.all_eq_true.mp (sha.digits text) _ (List.mem_of_mem_take hmem)
    exact absurd hdigit (by decide)

/-- The hash tag has no brace. -/
theorem hashTag_brace (sha : Sha256) (ns : RedisNamespace) : '\x7d' ∉ (hashTag sha ns).toList := by
  obtain ⟨henvironment, hbase, -⟩ := namespace_facts ns
  have henvironments : ∀ s ∈ environments, '\x7d' ∉ s.toList := by decide +kernel
  have hbrace : '\x7d' ∉ ns.key_prefix.toList := by
    intro hmem
    rcases matchesRun_chars hbase _ hmem with hhead | htail
    · exact absurd hhead (by decide)
    · exact absurd htail (by decide)
  have hversion : '\x7d' ∉ ":v1:".toList := by decide
  have hmark : '\x7d' ∉ ":s:".toList := by decide
  have hfingerprint : '\x7d' ∉ (ns.scopeFingerprint sha).toList := (fingerprint_facts sha _).2
  unfold hashTag
  simp only [String.toList_append, List.mem_append, not_or]
  exact ⟨⟨⟨⟨hbrace, hversion⟩, henvironments _ henvironment⟩, hmark⟩, hfingerprint⟩

/-- Keys that are the same have one hash tag, and so one fingerprint of their scope. -/
theorem scopeFingerprint_of_keyText {kind kind' a b : String}
    (h : ns.keyText sha kind a = ns'.keyText sha kind' b) :
    ns.scopeFingerprint sha = ns'.scopeFingerprint sha := by
  have hopen : "\x7b".toList = ['\x7b'] := rfl
  have hclose : "\x7d:".toList = ['\x7d', ':'] := rfl
  have hchars : ∀ (ns : RedisNamespace) (kind text : String), (ns.keyText sha kind text).toList = '\x7b' ::
      ((hashTag sha ns).toList ++ '\x7d' :: (':' :: (kind.toList ++ (":k:".toList ++
        (sha.fingerprint text).toList)))) := by
    intro ns kind text
    unfold RedisNamespace.keyText hashTag
    simp only [String.toList_append, hopen, hclose, List.append_assoc, List.cons_append, List.nil_append]
  have htext := congrArg String.toList h
  rw [hchars, hchars] at htext
  obtain ⟨-, htext⟩ := List.cons.inj htext
  obtain ⟨htag, -⟩ := Percent.append_sep_inj (hashTag_brace sha ns) (hashTag_brace sha ns') htext
  have hsplit : ∀ ns : RedisNamespace, (hashTag sha ns).toList =
      ( ns.key_prefix ++ ":v1:" ++ ns.environment ++ ":s:").toList ++ (ns.scopeFingerprint sha).toList :=
    fun ns => String.toList_append
  rw [hsplit, hsplit] at htag
  have hlength : (ns.scopeFingerprint sha).toList.length = (ns'.scopeFingerprint sha).toList.length :=
    (fingerprint_facts sha _).1.trans (fingerprint_facts sha _).1.symm
  exact String.toList_inj.mp (List.append_inj' htag hlength).2

end Namespaces

/-- Two requests have the same key of one namespace exactly if they are of one conversation, if and only if this
holds: requests of one conversation have ids that a key accepts, and requests whose ids are one row of parts
between colons, and accepted, are of one conversation. The keys of two namespaces are the same only if their
environment, scope, tenant, workspace and collection are. The hash does not collide on the texts of the keys and
of the scopes. -/
theorem lease_keys (sha : Sha256) :
    (∀ (ns : RedisNamespace) (r r' : ProfessorRequest), sha.CollisionFree {r.leaseKey, r'.leaseKey} →
      (((∃ k, r.redisKey sha ns = some k ∧ r'.redisKey sha ns = some k) ↔ r.SameConversation r') ↔
        (r.SameConversation r' → r.Accepted) ∧
          (r.parts = r'.parts → r.Accepted → r.SameConversation r'))) ∧
    ∀ ns ns' : RedisNamespace, sha.CollisionFree {scopeMaterial ns, scopeMaterial ns'} →
      ∀ kind kind' a b k, ns.key sha kind a = some k → ns'.key sha kind' b = some k →
        ns.environment = ns'.environment ∧ ns.scope = ns'.scope ∧ ns.tenant_id = ns'.tenant_id ∧
          ns.workspace_id = ns'.workspace_id ∧ ns.collection_id = ns'.collection_id := by
  constructor
  · intro ns r r' hsha
    rw [ProfessorRequest.redisKey_eq ns hsha]
    have hsame : r.SameConversation r' → r.parts = r'.parts :=
      fun h => ProfessorRequest.leaseKey_eq.mp h.leaseKey
    constructor
    · intro hiff
      exact ⟨fun h => (hiff.mpr h).1, fun hparts haccepted => hiff.mp ⟨haccepted, hparts⟩⟩
    · rintro ⟨haccepted, hdivided⟩
      exact ⟨fun h => hdivided h.2 h.1, fun h => ⟨haccepted h, hsame h⟩⟩
  · intro ns ns' hsha kind kind' a b k hk hk'
    have htexts := (RedisNamespace.key_eq_some hk).symm.trans (RedisNamespace.key_eq_some hk')
    exact scopeMaterial_inj (hsha (.inl rfl) (.inr rfl) (scopeFingerprint_of_keyText htexts))

/-! ## Conversations -/

/-- The digests of some texts. -/
def leaseDigests : List (String × String) :=
  [("production\x1ftenant\x1ftenant-a\x1f\x1f",
      "dfeeb4b926a5180fcbda59f987aee2594c1d59c7e60557fad056ace73539cd7b"),
    ("production\x1ftenant\x1ftenant-b\x1f\x1f",
      "fce2e5a4f7cc42b4b3b149e67527ab9ed74cef6257a88ecd80c101d4a8aec3f5"),
    ("professor:tenant-a:ws:c1",
      "3d7fee5fbbe65cd591709e32770a02122334355f610f0d9308c5671fe38e2a64"),
    ("professor:tenant-a:ws:c2",
      "e6593a524c70fc07e906a5285fc4093d7cd660525b578a641c73daa08b7f4efa"),
    ("professor:a:b:c:d",
      "e54f2c79465f38d5d95f7ab2d630fa4e46b27099ae1d9914f967d71942fa2b06")]

/-- The digest of a text. -/
def leaseDigest (text : String) : String := (leaseDigests.lookup text).getD (String.ofList (List.replicate 64 '0'))

/-- What holds of the digests of the list and of zeros holds of every digest. -/
theorem leaseDigest_all {P : String → Prop} (hzeros : P (String.ofList (List.replicate 64 '0')))
    (hall : ∀ digest ∈ leaseDigests.map Prod.snd, P digest) (text : String) : P (leaseDigest text) := by
  unfold leaseDigest
  cases hlookup : leaseDigests.lookup text with
  | none => exact hzeros
  | some digest =>
    obtain ⟨before, after, hsplit, -⟩ := List.lookup_eq_some_iff.mp hlookup
    apply hall
    rw [hsplit]
    simp

/-- SHA-256 on these texts. -/
def leaseSha : Sha256 where
  hexdigest := leaseDigest
  length := leaseDigest_all (P := fun digest => digest.toList.length = 64) (by decide +kernel) (by decide +kernel)
  digits := leaseDigest_all
    (P := fun digest => digest.toList.all (fun c => isDigitAscii c || ('a' ≤ c && c ≤ 'f')) = true)
    (by decide +kernel) (by decide +kernel)

/-- A request of a conversation. -/
def conversation (tenant_id workspace_id conversation_id : String) : ProfessorRequest where
  conversation_id := conversation_id
  query := "q"
  retrieval_context := { tenant_id := tenant_id, workspace_id := workspace_id, allowed_collection_ids := [] }
  history := []

/-- The first conversation of a workspace. -/
def firstConversation : ProfessorRequest := conversation "tenant-a" "ws" "c1"

/-- The second conversation of a workspace. -/
def secondConversation : ProfessorRequest := conversation "tenant-a" "ws" "c2"

/-- The namespace of another tenant. -/
def otherNamespace : RedisNamespace :=
  ⟨some "tenant-b", none, none, "rick", "production", .tenant, by decide +kernel⟩

/-- The conversations have different keys, and no key of the one tenant is one of the other. -/
theorem conversations_apart :
    (¬ ∃ k, firstConversation.redisKey leaseSha plainNamespace = some k ∧
      secondConversation.redisKey leaseSha plainNamespace = some k) ∧
    ¬ ∃ k, plainNamespace.key leaseSha "lease" "chat" = some k ∧
      otherNamespace.key leaseSha "lease" "chat" = some k := by
  constructor
  · have hfree : leaseSha.CollisionFree {firstConversation.leaseKey, secondConversation.leaseKey} :=
      Set.injOn_pair.mpr fun h => absurd h (by decide +kernel)
    have hother : ¬ firstConversation.SameConversation secondConversation := fun h => absurd h.2.2 (by decide)
    have hcounts : firstConversation.parts = secondConversation.parts →
        firstConversation.SameConversation secondConversation :=
      fun h => ProfessorRequest.sameConversation_of_parts h (by decide) (by decide)
    have hkeys := ((lease_keys leaseSha).1 plainNamespace firstConversation secondConversation hfree).mpr
      ⟨fun h => absurd h hother, fun h _ => hcounts h⟩
    exact fun h => hother (hkeys.mp h)
  · rintro ⟨k, hk, hk'⟩
    have hfree : leaseSha.CollisionFree {scopeMaterial plainNamespace, scopeMaterial otherNamespace} :=
      Set.injOn_pair.mpr fun h => absurd h (by decide +kernel)
    obtain ⟨-, -, htenant, -⟩ := (lease_keys leaseSha).2 _ _ hfree _ _ _ _ k hk hk'
    exact absurd htenant (by decide)

/-- A conversation of a tenant with a colon in its id. -/
def tenantWithColon : ProfessorRequest := conversation "a:b" "c" "d"

/-- A conversation of a workspace with a colon in its id. -/
def workspaceWithColon : ProfessorRequest := conversation "a" "b:c" "d"

/-- Conversations of two tenants whose ids are one row of parts have one key. -/
theorem tenants_share_lease :
    leaseSha.CollisionFree {tenantWithColon.leaseKey, workspaceWithColon.leaseKey} ∧
    (∃ k, tenantWithColon.redisKey leaseSha plainNamespace = some k ∧
      workspaceWithColon.redisKey leaseSha plainNamespace = some k) ∧
    ¬ tenantWithColon.SameConversation workspaceWithColon := by
  have htext : tenantWithColon.leaseKey = workspaceWithColon.leaseKey := by decide +kernel
  have hkeys : tenantWithColon.redisKey leaseSha plainNamespace =
      workspaceWithColon.redisKey leaseSha plainNamespace := by
    unfold ProfessorRequest.redisKey
    rw [htext]
  have hmade : (workspaceWithColon.redisKey leaseSha plainNamespace).isSome = true := by decide +kernel
  obtain ⟨k, hk⟩ := Option.isSome_iff_exists.mp hmade
  refine ⟨?_, ⟨k, hkeys.trans hk, hk⟩, fun h => absurd h.1 (by decide)⟩
  rw [htext, Set.pair_eq_singleton]
  exact Set.injOn_singleton _ _

end RickIntelligence.Professor
