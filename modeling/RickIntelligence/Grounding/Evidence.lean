import RickIntelligence.Lib.Delimited
import RickIntelligence.Lib.Validated

/-!
# Evidence

An excerpt with its provenance, of `rick_evidence/models.py`. `Evidence.issue` normalises what it is given
and derives the id from it; the model then normalises and checks everything again, and derives the id
again. Both are written out here, so that they can be compared: what the first accepts, the second leaves
as it is (`issue_ok`).

The digest of a text and the text of a number are from outside.
-/

namespace RickIntelligence.Grounding

open Lib Lib.JsonText

/-! ## Values -/

/-- A double: a finite one is its sign and its magnitude, so that there are two zeros. -/
inductive Double where
  | nan
  | inf (negative : Bool)
  | finite (negative : Bool) (magnitude : ℚ≥0)
  deriving DecidableEq

/-- `==` of doubles. -/
def Double.equals : Double → Double → Bool
  | .inf s, .inf t => s == t
  | .finite s x, .finite t y => x == y && (s == t || x == 0)
  | _, _ => false

/-- What is given for a field. -/
inductive Arg where
  | none
  | bool (b : Bool)
  | int (n : ℤ)
  | float (x : Double)
  | text (s : String)
  | other (tag : ℕ)
  deriving DecidableEq

/-- A character of a token after its first. -/
def isTokenChar (c : Char) : Bool :=
  isAlnumAscii c || c == '_' || c == '.' || c == ':' || c == '/' || c == '-'

/-- `_TOKEN.fullmatch`. -/
def tokenPattern : String → Bool := matchesRun isAlnumAscii isTokenChar 127

/-- `_token`. -/
def token (name : String) : Arg → Except String String
  | .text s =>
    let value := strip s
    if value = "" ∨ value.length > 128 ∨ tokenPattern value = false then
      .error (name ++ " has an invalid format")
    else .ok value
  | _ => .error (name ++ " must be a string")

/-- `_bounded_text`. -/
def boundedText (name : String) (maximum : ℕ) : Arg → Except String String
  | .text s =>
    let value := strip s
    if value = "" then .error (name ++ " must not be empty")
    else if value.length > maximum then .error (name ++ " exceeds its limit")
    else .ok value
  | _ => .error (name ++ " must be a string")

/-- `_optional_text`. -/
def optionalText (name : String) (maximum : ℕ) : Arg → Except String (Option String)
  | .none => .ok none
  | value => some <$> boundedText name maximum value

/-- A double from its sign and its magnitude, if that is within the limit. -/
def limited (name : String) (negative : Bool) (magnitude : ℚ≥0) : Except String Double :=
  if magnitude > 1000000000 then .error (name ++ " exceeds its limit")
  else .ok (.finite negative magnitude)

/-- `_finite_score`. A whole number within the limit is a double. -/
def finiteScore (name : String) : Arg → Except String Double
  | .int n =>
    if n.natAbs ≥ 2 ^ 1024 - 2 ^ 970 then .error "int too large to convert to float"
    else limited name (decide (n < 0)) n.natAbs
  | .float (.finite negative magnitude) => limited name negative magnitude
  | .float _ => .error (name ++ " must be finite")
  | _ => .error (name ++ " must be numeric")

/-- `_page`. -/
def page (name : String) : Arg → Except String (Option ℕ)
  | .none => .ok none
  | .int n => if n < 0 ∨ n > 10000000 then .error (name ++ " exceeds its limit") else .ok n.toNat
  | _ => .error (name ++ " must be an integer")

/-! ## Fields -/

/-- The provenance of an excerpt, and the excerpt: `_EVIDENCE_DIGEST_FIELDS`. -/
structure Provenance where
  tenant_id : String
  workspace_id : String
  collection_id : String
  document_id : String
  document_version : String
  chunk_id : String
  source : String
  page_start : Option ℕ
  page_end : Option ℕ
  section_name : Option String
  checksum : String
  text : String
  retrieval_score : Double
  reranking_score : Double
  deriving DecidableEq

/-- What `issue` is given. -/
structure IssueArgs where
  tenant_id : Arg
  workspace_id : Arg
  collection_id : Arg
  document_id : Arg
  document_version : Arg
  chunk_id : Arg
  source : Arg
  checksum : Arg
  text : Arg
  page_start : Arg
  page_end : Arg
  section_name : Arg
  retrieval_score : Arg
  reranking_score : Arg

/-- The normalisation in `issue`. -/
def IssueArgs.normalise (args : IssueArgs) : Except String Provenance := do
  let tenant_id ← token "tenant_id" args.tenant_id
  let workspace_id ← token "workspace_id" args.workspace_id
  let collection_id ← token "collection_id" args.collection_id
  let document_id ← token "document_id" args.document_id
  let document_version ← token "document_version" args.document_version
  let chunk_id ← token "chunk_id" args.chunk_id
  let source ← boundedText "source" 2000 args.source
  let checksum ← boundedText "checksum" 256 args.checksum
  let text ← boundedText "text" 1000000 args.text
  let section_name ← optionalText "section" 1000 args.section_name
  let page_start ← page "page_start" args.page_start
  let page_end ← page "page_end" args.page_end
  let retrieval_score ← finiteScore "retrieval_score" args.retrieval_score
  let reranking_score ← finiteScore "reranking_score" args.reranking_score
  return { tenant_id, workspace_id, collection_id, document_id, document_version, chunk_id, source,
           page_start, page_end, section_name, checksum, text, retrieval_score, reranking_score }

/-! ## Identifiers -/

/-- What is from outside: the hexadecimal digits of the SHA-256 digest of a text, and `repr` of a
double. -/
structure Env where
  sha256 : List Char → Fin 64 → Fin 16
  repr : Double → List Char

/-- `hashlib.sha256(raw).hexdigest()`. -/
def Env.hexdigest (env : Env) (raw : List Char) : List Char :=
  List.ofFn fun i => hexDigit (env.sha256 raw i)

/-- A number that may be missing. -/
def writePage : Option ℕ → List Char := orNull (Nat.toDigits 10)

/-- `_canonical_json` of the provenance: its members in the order of their names. -/
def Provenance.canonicalJson (env : Env) (p : Provenance) : List Char :=
  dumpObject
    [("checksum", quoted p.checksum), ("chunk_id", quoted p.chunk_id),
      ("collection_id", quoted p.collection_id), ("document_id", quoted p.document_id),
      ("document_version", quoted p.document_version), ("page_end", writePage p.page_end),
      ("page_start", writePage p.page_start), ("reranking_score", env.repr p.reranking_score),
      ("retrieval_score", env.repr p.retrieval_score), ("section", orNull quoted p.section_name),
      ("source", quoted p.source), ("tenant_id", quoted p.tenant_id), ("text", quoted p.text),
      ("workspace_id", quoted p.workspace_id)]

/-- `server_evidence_id`. -/
def serverEvidenceId (env : Env) (p : Provenance) : String :=
  String.ofList ("ev_".toList ++ (env.hexdigest (p.canonicalJson env)).take 32)

/-! ## The model -/

/-- `Evidence`, as it is built. -/
structure EvidenceRecord where
  evidence_id : String
  provenance : Provenance
  deriving DecidableEq

/-- A hexadecimal digit in lower case. -/
def isLowerHex (c : Char) : Bool := isDigitAscii c || ('a' ≤ c && c ≤ 'f')

/-- `^ev_[0-9a-f]{32}$`, with another head for other ids. -/
def idPattern (head : List Char) (s : String) : Bool :=
  head.isPrefixOf s.toList && (s.toList.drop head.length).all isLowerHex &&
    decide (s.toList.length = head.length + 32)

/-- `Field(min_length=lower, max_length=upper)`. -/
def lengthIn (lower upper : ℕ) (s : String) : Bool := decide (lower ≤ s.length ∧ s.length ≤ upper)

/-- A field of `Evidence` that is a token. -/
def tokenField (name value : String) : Except String String := do
  let value ← token name (.text value)
  if lengthIn 1 128 value then return value else throw (name ++ " has an invalid length")

/-- A field of `Evidence` that is a text. -/
def textField (name : String) (maximum : ℕ) (value : String) : Except String String := do
  let value ← boundedText name maximum (.text value)
  if lengthIn 1 maximum value then return value else throw (name ++ " has an invalid length")

/-- The section of `Evidence`. -/
def sectionField (value : Option String) : Except String (Option String) := do
  let value ← optionalText "section" 1000 (value.elim .none .text)
  if value.all (lengthIn 0 1000) then return value else throw "section has an invalid length"

/-- A field of `Evidence` that is a page. -/
def pageField (name : String) (value : Option ℕ) : Except String (Option ℕ) := do
  let value ← page name (value.elim .none fun n => .int n)
  if value.all (· ≤ 10000000) then return value else throw (name ++ " is out of range")

/-- The validators of the fields of `Evidence`. -/
def Provenance.validate (p : Provenance) : Except String Provenance := do
  let tenant_id ← tokenField "tenant_id" p.tenant_id
  let workspace_id ← tokenField "workspace_id" p.workspace_id
  let collection_id ← tokenField "collection_id" p.collection_id
  let document_id ← tokenField "document_id" p.document_id
  let document_version ← tokenField "document_version" p.document_version
  let chunk_id ← tokenField "chunk_id" p.chunk_id
  let source ← textField "source" 2000 p.source
  let page_start ← pageField "page_start" p.page_start
  let page_end ← pageField "page_end" p.page_end
  let section_name ← sectionField p.section_name
  let checksum ← textField "checksum" 256 p.checksum
  let text ← textField "text" 1000000 p.text
  let retrieval_score ← finiteScore "retrieval_score" (.float p.retrieval_score)
  let reranking_score ← finiteScore "reranking_score" (.float p.reranking_score)
  return { tenant_id, workspace_id, collection_id, document_id, document_version, chunk_id, source,
           page_start, page_end, section_name, checksum, text, retrieval_score, reranking_score }

/-- The page of the end is before the page of the start. -/
def Provenance.reversed (p : Provenance) : Bool :=
  match p.page_start, p.page_end with
  | some first, some last => last < first
  | _, _ => false

/-- `Evidence.model_validate`. -/
def EvidenceRecord.modelValidate (env : Env) (e : EvidenceRecord) : Except String EvidenceRecord :=
  if idPattern "ev_".toList e.evidence_id then do
    let provenance ← e.provenance.validate
    if provenance.reversed then throw "page_end must not precede page_start"
    else if e.evidence_id ≠ serverEvidenceId env provenance then
      throw "evidence_id must be server-generated"
    else return ⟨e.evidence_id, provenance⟩
  else .error "evidence_id has an invalid format"

/-! ## Normalising twice -/

/-- A text that is not empty has a character. -/
theorem length_pos {s : String} (h : s ≠ "") : 0 < s.length :=
  Nat.pos_of_ne_zero fun hzero => h (String.length_eq_zero_iff.mp hzero)

variable {name name' v : String} {value : Arg} {maximum : ℕ} {args : IssueArgs} {p : Provenance}

/-- A token is normalised to itself, and has the length of a field. -/
theorem token_idem (h : token name value = .ok v) :
    token name' (.text v) = .ok v ∧ lengthIn 1 128 v = true := by
  cases value with
  | text s =>
    simp only [token] at h ⊢
    split at h
    · cases h
    · next hgood =>
      cases h
      rw [strip_strip]
      refine ⟨if_neg hgood, ?_⟩
      rw [not_or, not_or, not_lt] at hgood
      have hpos : 0 < (strip s).length := length_pos hgood.1
      exact decide_eq_true ⟨hpos, hgood.2.1⟩
  | _ => cases h

/-- A field that is a token keeps it. -/
theorem tokenField_ok (h : token name value = .ok v) :
    tokenField name' v = .ok v := by
  have hidem : token name' (.text v) = .ok v ∧ lengthIn 1 128 v = true := token_idem h
  obtain ⟨htoken, hlength⟩ := hidem
  unfold tokenField
  rw [htoken]
  exact if_pos hlength

/-- A bounded text is normalised to itself, and has the length of a field. -/
theorem boundedText_idem (h : boundedText name maximum value = .ok v) :
    boundedText name' maximum (.text v) = .ok v ∧ lengthIn 1 maximum v = true := by
  cases value with
  | text s =>
    simp only [boundedText] at h ⊢
    split at h
    · cases h
    · next hne =>
      split at h
      · cases h
      · next hle =>
        cases h
        rw [strip_strip, if_neg hne, if_neg hle]
        have hpos : 0 < (strip s).length := length_pos hne
        exact ⟨rfl, decide_eq_true ⟨hpos, not_lt.mp hle⟩⟩
  | _ => cases h

/-- A field that is a text keeps it. -/
theorem textField_ok (h : boundedText name maximum value = .ok v) : textField name' maximum v = .ok v := by
  have hidem : boundedText name' maximum (.text v) = .ok v ∧ lengthIn 1 maximum v = true :=
    boundedText_idem h
  obtain ⟨htext, hlength⟩ := hidem
  unfold textField
  rw [htext]
  exact if_pos hlength

/-- The section is kept. -/
theorem sectionField_ok {v : Option String} (h : optionalText name 1000 value = .ok v) : sectionField v = .ok v := by
  have hsome : ∀ t, boundedText name 1000 value = .ok t → sectionField (some t) = .ok (some t) := by
    intro t ht
    have hidem : boundedText "section" 1000 (.text t) = .ok t ∧ lengthIn 1 1000 t = true :=
      boundedText_idem ht
    obtain ⟨htext, hlength⟩ := hidem
    have hbound : lengthIn 0 1000 t = true := by
      unfold lengthIn at hlength ⊢
      rw [decide_eq_true_eq] at hlength ⊢
      omega
    unfold sectionField
    show (do
      let value ← some <$> boundedText "section" 1000 (.text t)
      if value.all (lengthIn 0 1000) then return value else throw _) = _
    rw [htext]
    exact if_pos hbound
  cases value with
  | none =>
    cases h
    rfl
  | _ =>
    obtain ⟨t, ht, rfl⟩ := except_map_ok.mp h
    exact hsome t ht

/-- A page is kept. -/
theorem pageField_ok {v : Option ℕ} (h : page name value = .ok v) : pageField name' v = .ok v := by
  cases value with
  | none =>
    cases h
    rfl
  | int n =>
    simp only [page] at h
    split at h
    · cases h
    · next hrange =>
      cases h
      have hn : ((n.toNat : ℕ) : ℤ) = n := Int.toNat_of_nonneg (by omega)
      have hbound : n.toNat ≤ 10000000 := by omega
      unfold pageField
      show (do
        let value ← page name' (.int (n.toNat : ℤ))
        if value.all (· ≤ 10000000) then return value else throw _) = _
      simp only [page]
      rw [hn, if_neg hrange]
      exact if_pos (decide_eq_true hbound)
  | _ => cases h

/-- A score is normalised to itself. -/
theorem finiteScore_idem {v : Double} (h : finiteScore name value = .ok v) :
    finiteScore name' (.float v) = .ok v := by
  have hlimited : ∀ s m, limited name s m = .ok v → finiteScore name' (.float v) = .ok v := by
    intro s m hm
    unfold limited at hm
    split at hm
    · cases hm
    · next hle =>
      cases hm
      exact if_neg hle
  cases value with
  | int n =>
    simp only [finiteScore] at h
    split at h
    · cases h
    · exact hlimited _ _ h
  | float x =>
    cases x with
    | finite s m => exact hlimited s m h
    | _ => cases h
  | _ => cases h

/-- What `issue` normalises, the validators of the model keep. -/
theorem normalise_validate (h : args.normalise = .ok p) :
    p.validate = .ok p := by
  simp only [IssueArgs.normalise, except_bind_ok, pure, Except.pure, Except.ok.injEq] at h
  obtain ⟨tenant_id, h1, workspace_id, h2, collection_id, h3, document_id, h4, document_version, h5,
    chunk_id, h6, source, h7, checksum, h8, text, h9, section_name, h10, page_start, h11, page_end,
    h12, retrieval_score, h13, reranking_score, h14, rfl⟩ := h
  simp only [Provenance.validate, tokenField_ok h1, tokenField_ok h2, tokenField_ok h3,
    tokenField_ok h4, tokenField_ok h5, tokenField_ok h6, textField_ok h7, textField_ok h8,
    textField_ok h9, sectionField_ok h10, pageField_ok h11, pageField_ok h12, finiteScore_idem h13,
    finiteScore_idem h14]
  rfl

/-- A digit that is written is a hexadecimal one. -/
theorem isLowerHex_hexDigit (n : Fin 16) : isLowerHex (hexDigit n) = true := by
  revert n
  decide

/-- An id that is derived has the form of one. -/
theorem idPattern_digest (env : Env) (head raw : List Char) :
    idPattern head (String.ofList (head ++ (env.hexdigest raw).take 32)) = true := by
  have hlength : ((env.hexdigest raw).take 32).length = 32 := by
    unfold Env.hexdigest
    rw [List.length_take, List.length_ofFn]
    rfl
  have hhex : ((env.hexdigest raw).take 32).all isLowerHex = true := by
    rw [List.all_eq_true]
    intro c hc
    obtain ⟨i, rfl⟩ := List.mem_ofFn.mp (List.mem_of_mem_take hc)
    exact isLowerHex_hexDigit _
  unfold idPattern
  rw [String.toList_ofList, List.drop_left, hhex, List.length_append, hlength,
    List.isPrefixOf_iff_prefix.mpr (List.prefix_append _ _)]
  simp

/-- A token of the model is one again. -/
theorem tokenField_idem {value : String} (h : tokenField name value = .ok v) :
    tokenField name v = .ok v := by
  unfold tokenField at h
  rw [except_bind_ok] at h
  obtain ⟨t, ht, hcheck⟩ := h
  split at hcheck
  · cases hcheck
    exact tokenField_ok ht
  · cases hcheck

/-- A text of the model is one again. -/
theorem textField_idem {value : String} (h : textField name maximum value = .ok v) :
    textField name maximum v = .ok v := by
  unfold textField at h
  rw [except_bind_ok] at h
  obtain ⟨t, ht, hcheck⟩ := h
  split at hcheck
  · cases hcheck
    exact textField_ok ht
  · cases hcheck

/-- A section of the model is one again. -/
theorem sectionField_idem {v value : Option String} (h : sectionField value = .ok v) :
    sectionField v = .ok v := by
  unfold sectionField at h
  rw [except_bind_ok] at h
  obtain ⟨t, ht, hcheck⟩ := h
  split at hcheck
  · cases hcheck
    exact sectionField_ok ht
  · cases hcheck

/-- A page of the model is one again. -/
theorem pageField_idem {v value : Option ℕ} (h : pageField name value = .ok v) :
    pageField name v = .ok v := by
  unfold pageField at h
  rw [except_bind_ok] at h
  obtain ⟨t, ht, hcheck⟩ := h
  split at hcheck
  · cases hcheck
    exact pageField_ok ht
  · cases hcheck

/-- What the validators of the model return, they keep. -/
theorem validate_idem {p' : Provenance} (h : p.validate = .ok p') : p'.validate = .ok p' := by
  simp only [Provenance.validate, except_bind_ok, pure, Except.pure, Except.ok.injEq] at h
  obtain ⟨tenant_id, h1, workspace_id, h2, collection_id, h3, document_id, h4, document_version, h5,
    chunk_id, h6, source, h7, page_start, h8, page_end, h9, section_name, h10, checksum, h11, text,
    h12, retrieval_score, h13, reranking_score, h14, rfl⟩ := h
  simp only [Provenance.validate, tokenField_idem h1, tokenField_idem h2, tokenField_idem h3,
    tokenField_idem h4, tokenField_idem h5, tokenField_idem h6, textField_idem h7, pageField_idem h8,
    pageField_idem h9, sectionField_idem h10, textField_idem h11, textField_idem h12,
    finiteScore_idem h13, finiteScore_idem h14]
  rfl

/-! ## Issued evidence -/

/-- What the model accepts: the fields are normalised, the pages in order, and the id is derived. -/
theorem modelValidate_ok {env : Env} {e e' : EvidenceRecord} :
    e.modelValidate env = .ok e' ↔ e'.evidence_id = e.evidence_id ∧
      e.provenance.validate = .ok e'.provenance ∧ e'.provenance.reversed = false ∧
      e.evidence_id = serverEvidenceId env e'.provenance := by
  unfold EvidenceRecord.modelValidate
  constructor
  · intro h
    split at h
    · rw [except_bind_ok] at h
      obtain ⟨p, hp, hchecks⟩ := h
      split at hchecks
      · cases hchecks
      · next hpages =>
        split at hchecks
        · cases hchecks
        · next hid =>
          cases hchecks
          exact ⟨rfl, hp, Bool.eq_false_iff.mpr hpages, not_not.mp hid⟩
    · cases h
  · rintro ⟨hsame, hp, hpages, hid⟩
    have hpattern : idPattern "ev_".toList e.evidence_id = true := by
      rw [hid]
      exact idPattern_digest env _ _
    rw [if_pos hpattern, hp]
    show (if e'.provenance.reversed then _ else _) = _
    rw [hpages, if_neg Bool.false_ne_true, if_neg fun hne => hne hid, ← hsame]
    rfl

instance (env : Env) : Normalises (EvidenceRecord.modelValidate env) where
  idem := by
    intro e e' h
    obtain ⟨hsame, hp, hpages, hid⟩ := modelValidate_ok.mp h
    exact modelValidate_ok.mpr ⟨rfl, validate_idem hp, hpages, hsame.trans hid⟩

/-- `Evidence`. -/
abbrev Evidence (env : Env) := Validated (EvidenceRecord.modelValidate env)

/-- `Evidence.issue`. -/
def issue (env : Env) (args : IssueArgs) : Except String (Evidence env) := do
  let provenance ← args.normalise
  Validated.make ⟨serverEvidenceId env provenance, provenance⟩

/-- What `issue` returns is what it normalised, with its id. -/
theorem issue_ok {env : Env} {e : Evidence env} :
    issue env args = .ok e ↔ args.normalise = .ok e.val.provenance ∧
      e.val.provenance.reversed = false ∧
      e.val.evidence_id = serverEvidenceId env e.val.provenance := by
  unfold issue
  rw [except_bind_ok]
  constructor
  · rintro ⟨p, hp, hmake⟩
    obtain ⟨hsame, hvalidate, hpages, -⟩ := modelValidate_ok.mp (Validated.make_ok.mp hmake)
    have heq : p = e.val.provenance :=
      Except.ok.inj ((normalise_validate hp).symm.trans hvalidate)
    rw [heq] at hp hsame
    exact ⟨hp, hpages, hsame⟩
  · rintro ⟨hp, hpages, hid⟩
    refine ⟨e.val.provenance, hp, Validated.make_ok.mpr (modelValidate_ok.mpr ?_)⟩
    exact ⟨hid, normalise_validate hp, hpages, rfl⟩

/-- What `issue` normalises, with pages in order, is issued. -/
theorem issue_of_normalise (env : Env) (h : args.normalise = .ok p) (hpages : p.reversed = false) :
    ∃ e, issue env args = .ok e ∧ e.val = ⟨serverEvidenceId env p, p⟩ := by
  have haccepted : EvidenceRecord.modelValidate env ⟨serverEvidenceId env p, p⟩ =
      .ok ⟨serverEvidenceId env p, p⟩ :=
    modelValidate_ok.mpr ⟨rfl, normalise_validate h, hpages, rfl⟩
  exact ⟨⟨_, haccepted⟩, issue_ok.mpr ⟨h, hpages, rfl⟩, rfl⟩

end RickIntelligence.Grounding
