import RickIntelligence.Grounding.Bundle
import RickIntelligence.Lib.Micros
import RickIntelligence.Retrieval.Pipeline

/-!
# Validation of evidence

`EvidenceValidator` of `rick_evidence/validator.py`: it issues evidence from the candidates of a retrieval,
builds bundles, and reports on bundles, on citations and on the words that a claim shares with what it
cites. A report is a model with bounds of its own for the numbers in it; building it raises where a number
is out of its bounds.
-/

namespace RickIntelligence.Grounding

open Lib

variable {env : Env}

/-! ## Reports -/

/-- What leaves the validator: its own error, with a code, or the refusal of a model. -/
inductive Raised where
  | evidence (code : String)
  | model (name : String)
  deriving DecidableEq

/-- `EvidenceValidationReport`. -/
structure BundleReport where
  valid : Bool
  error_codes : List String
  evidence_count : ℕ
  bundle_id : Option String
  deriving DecidableEq

/-- The bounds of a report on a bundle. -/
def BundleReport.make (report : BundleReport) : Except Raised BundleReport :=
  if report.error_codes.length ≤ 16 ∧ report.evidence_count ≤ 100 then .ok report
  else .error (.model "EvidenceValidationReport")

/-- `CitationValidationReport`. -/
structure CitationReport where
  valid : Bool
  error_codes : List String
  cited_count : ℕ
  resolved_count : ℕ
  deriving DecidableEq

/-- The bounds of a report on citations. -/
def CitationReport.make (report : CitationReport) : Except Raised CitationReport :=
  if report.error_codes.length ≤ 16 ∧ report.cited_count ≤ 100 ∧ report.resolved_count ≤ 100 then
    .ok report
  else .error (.model "CitationValidationReport")

/-- `ClaimSupportReport`. -/
structure ClaimReport where
  valid : Bool
  error_codes : List String
  cited_count : ℕ
  claim_token_count : ℕ
  matched_token_count : ℕ
  coverage : ℚ
  deriving DecidableEq

/-- The bounds of a report on a claim. -/
def ClaimReport.make (report : ClaimReport) : Except Raised ClaimReport :=
  if report.error_codes.length ≤ 16 ∧ report.cited_count ≤ 100 ∧ report.claim_token_count ≤ 10000 ∧
      report.matched_token_count ≤ 10000 ∧ 0 ≤ report.coverage ∧ report.coverage ≤ 1 then .ok report
  else .error (.model "ClaimSupportReport")

/-! ## Candidates -/

/-- A candidate: what is read of it by name, and its fields as a mapping, if it has them. -/
structure Candidate where
  read : List (String × Arg)
  mapping : Option (List (String × Arg))

/-- `value.get(name)`, with `None` for what is not there. -/
def field (fields : List (String × Arg)) (name : String) : Arg := (fields.lookup name).getD .none

/-- The number of a value that compares as a number. -/
def Arg.number? : Arg → Option Double
  | .bool b => some (.finite false (if b then 1 else 0))
  | .int n => some (.finite (decide (n < 0)) n.natAbs)
  | .float x => some x
  | _ => Option.none

/-- `==` of values. -/
def Arg.equals (v w : Arg) : Bool :=
  match v.number?, w.number? with
  | some x, some y => x.equals y
  | Option.none, Option.none => v == w
  | _, _ => false

/-- `_candidate_value`. -/
def candidateValue (fields : List (String × Arg)) (names : List String) (default : Arg) : Arg :=
  ((names.map (field fields)).find? (· != .none)).getD default

/-- The names of the fields of a scope. -/
def scopeNames : List String := ["tenant_id", "workspace_id", "collection_id"]

/-- What a scope is given as. -/
inductive ScopeArg where
  | scope (scope : EvidenceScope)
  | mapping (fields : List (String × Arg))
  | other

/-- A field of a scope that is given as a mapping. -/
def scopeField (fields : List (String × Arg)) (name : String) : Except String String :=
  match fields.lookup name with
  | some value => token name value
  | none => .error (name ++ " is missing")

/-- `EvidenceScope.model_validate` of a mapping. -/
def scopeOfMapping (fields : List (String × Arg)) : Except String EvidenceScope :=
  if fields.any fun f => !scopeNames.contains f.1 then
    .error "extra fields are forbidden"
  else do
    let tenant_id ← scopeField fields "tenant_id"
    let workspace_id ← scopeField fields "workspace_id"
    let collection_id ← scopeField fields "collection_id"
    Validated.make ⟨tenant_id, workspace_id, collection_id⟩

/-- `_scope`. -/
def ScopeArg.resolve : ScopeArg → Except Raised EvidenceScope
  | .scope given => .ok given
  | .mapping fields => (scopeOfMapping fields).mapError fun _ => .evidence "invalid_scope"
  | .other => .error (.evidence "invalid_scope")

/-- A scope as a mapping of values. -/
def EvidenceScope.value (scope : EvidenceScope) (name : String) : Arg :=
  .text (if name = "tenant_id" then scope.val.tenant_id
    else if name = "workspace_id" then scope.val.workspace_id else scope.val.collection_id)

/-- What the authority answers. -/
inductive Resolution where
  | refused (code : String)
  | failed
  | missing
  | fields (fields : List (String × Arg))

/-- `EvidenceValidator`. -/
structure EvidenceValidator where
  max_bundle_items : ℕ
  max_text_chars : ℕ
  min_claim_token_coverage : ℚ
  authority : Option (Candidate → EvidenceScope → Resolution)
  require_authority : Bool
  items_range : max_bundle_items ≤ 100
  text_range : 1 ≤ max_text_chars ∧ max_text_chars ≤ 1000000
  coverage_range : 0 ≤ min_claim_token_coverage ∧ min_claim_token_coverage ≤ 1
  authority_given : require_authority = true → authority.isSome = true

namespace EvidenceValidator

variable (v : EvidenceValidator)

/-- `_resolve_authoritative`, and `_candidate_mapping` of what it returns. -/
def resolveAuthoritative (candidate : Candidate) (scope : EvidenceScope) :
    Except Raised (List (String × Arg)) :=
  match v.authority with
  | none =>
    if v.require_authority then .error (.evidence "authoritative_resolution_unavailable")
    else match candidate.mapping with
      | none => .error (.evidence "invalid_evidence_candidate")
      | some fields => .ok fields
  | some resolve =>
    match resolve candidate scope with
    | .refused code => .error (.evidence code)
    | .failed => .error (.evidence "authoritative_resolution_failed")
    | .missing => .error (.evidence "authoritative_evidence_missing")
    | .fields fields =>
      if scopeNames.any fun name => !(field fields name).equals (scope.value name) then
        .error (.evidence "authoritative_scope_mismatch")
      else if ["document_id", "chunk_id"].any fun name => field candidate.read name != .none &&
          !(field fields name).equals (field candidate.read name) then
        .error (.evidence "authoritative_identity_mismatch")
      else .ok fields

/-- A value is a text that is not blank. -/
def isPresent : Arg → Bool
  | .text s => strip s != ""
  | _ => false

/-- `issue`. -/
def issue (candidate : Candidate) (scope : ScopeArg) (document_version : Arg) :
    Except Raised (Evidence env) := do
  let expected ← scope.resolve
  if scopeNames.any fun name => field candidate.read name != .none &&
      !(field candidate.read name).equals (expected.value name) then
    throw (.evidence "candidate_scope_mismatch")
  else do
    let fields ← v.resolveAuthoritative candidate expected
    let candidate_version := candidateValue fields ["document_version", "version"] .none
    let version := if document_version != .none then document_version else candidate_version
    let text := candidateValue fields ["text", "excerpt"] .none
    let source := candidateValue fields ["source", "document_filename"] .none
    let checksum := candidateValue fields ["checksum", "content_checksum"] .none
    let document_id := candidateValue fields ["document_id"] .none
    let chunk_id := candidateValue fields ["chunk_id"] .none
    if scopeNames.any fun name => !(field fields name).equals (expected.value name) then
      throw (.evidence "authoritative_scope_mismatch")
    else if document_version != .none && candidate_version != .none &&
        !candidate_version.equals document_version then
      throw (.evidence "document_version_mismatch")
    else if !isPresent version then throw (.evidence "document_version_missing")
    else if !isPresent text || (match text with
        | .text s => decide ((strip s).length > v.max_text_chars)
        | _ => true) then throw (.evidence "invalid_excerpt")
    else if [source, checksum, document_id, chunk_id].any fun value => !isPresent value then
      throw (.evidence "incomplete_provenance")
    else (Grounding.issue env {
      tenant_id := expected.value "tenant_id"
      workspace_id := expected.value "workspace_id"
      collection_id := expected.value "collection_id"
      document_id
      document_version := version
      chunk_id
      source
      checksum
      text
      page_start := candidateValue fields ["page_start", "page"] .none
      page_end := candidateValue fields ["page_end"] .none
      section_name := candidateValue fields ["section", "heading"] .none
      retrieval_score := candidateValue fields ["retrieval_score", "score"] (.float (.finite false 0))
      reranking_score := candidateValue fields ["reranking_score", "rerank_score", "bm25f_score"]
        (.float (.finite false 0)) }).mapError fun _ => .evidence "invalid_evidence_candidate"

/-- The loop of `build_bundle`. -/
def issueAll (scope : ScopeArg) (document_version : Arg) :
    List (Evidence env) → List Candidate → Except Raised (List (Evidence env))
  | items, [] => .ok items
  | items, candidate :: candidates =>
    if items.length ≥ v.max_bundle_items then .error (.evidence "evidence_limit_exceeded")
    else do
      let item ← v.issue candidate scope document_version
      issueAll scope document_version (items ++ [item]) candidates

/-- `build_bundle`. -/
def buildBundle (query : Arg) (candidates : List Candidate) (scope : ScopeArg)
    (document_version : Arg) : Except Raised (EvidenceBundle env) := do
  let items ← v.issueAll scope document_version [] candidates
  let expected ← scope.resolve
  (build {
    tenant_id := expected.value "tenant_id"
    workspace_id := expected.value "workspace_id"
    collection_id := expected.value "collection_id"
    query
    evidence := items }).mapError fun _ => .evidence "invalid_evidence_bundle"

end EvidenceValidator

/-! ## Bundles and citations -/

/-- The errors that `validate_bundle` finds in a bundle by itself. -/
def bundleErrors (b : EvidenceBundle env) : List String :=
  let items := b.val.evidence.flatMap fun item =>
    (if item.val.provenance.scope != b.val.scope then ["evidence_scope_mismatch"] else []) ++
      if item.val.evidence_id != serverEvidenceId env item.val.provenance then ["evidence_id_invalid"]
      else []
  items ++ (if b.val.ids.Nodup then [] else ["duplicate_evidence_id"]) ++
    (if sameDict b.val.citation_map (citationMap b.val.ids) then [] else ["citation_map_invalid"]) ++
    if b.val.bundle_id == serverBundleId b.val then [] else ["bundle_id_invalid"]

/-- The errors that `validate_bundle` finds in the scope. -/
def scopeErrors (b : EvidenceBundle env) : Option ScopeArg → List String
  | none => []
  | some expected =>
    match expected.resolve with
    | .error (.evidence code) => [code]
    | .error (.model _) => ["invalid_scope"]
    | .ok scope => if b.scope = scope then [] else ["bundle_scope_mismatch"]

/-- `validate_bundle`; what is no bundle is `none`. -/
def validateBundle (bundle : Option (EvidenceBundle env)) (expected : Option ScopeArg) :
    Except Raised BundleReport :=
  match bundle with
  | none => BundleReport.make ⟨false, ["bundle_type_invalid"], 0, none⟩
  | some b =>
    let errors := scopeErrors b expected ++ bundleErrors b
    BundleReport.make ⟨errors.isEmpty, errors.eraseDups, b.val.evidence.length, some b.val.bundle_id⟩

/-- The errors that `validate_citations` finds in the citations. -/
def citationErrors (b : EvidenceBundle env) (cited : List String) : List String :=
  (if cited.isEmpty then ["citation_missing"] else []) ++
    (if cited.any (· == "") then ["citation_id_invalid"] else []) ++
    (if cited.Nodup then [] else ["duplicate_citation"]) ++
    if (cited.filter fun id => (b.val.citation_map.lookup id).isSome).length = cited.length then []
    else ["unknown_citation"]

/-- `validate_citations`. -/
def validateCitations (bundle : Option (EvidenceBundle env)) (cited : List String) :
    Except Raised CitationReport :=
  match bundle with
  | none => CitationReport.make ⟨false, ["bundle_type_invalid"], 0, 0⟩
  | some b => do
    let report ← validateBundle (some b) none
    if !report.valid then CitationReport.make ⟨false, ["bundle_invalid"], 0, 0⟩
    else
      let errors := citationErrors b cited
      CitationReport.make ⟨errors.isEmpty, errors.eraseDups, cited.length,
        (cited.filter fun id => (b.val.citation_map.lookup id).isSome).length⟩

/-! ## Claims -/

/-- What is taken from the text functions of the library: `[^\W_]` of `re`, and `str.casefold`. -/
structure Words where
  isWord : Char → Bool
  casefold : String → String

/-- `_STOP_WORDS`. -/
def stopWords : List String :=
  ["a", "as", "o", "os", "e", "and", "or", "de", "da", "do", "das", "dos",
    "um", "uma", "uns", "umas", "the", "of", "to", "in", "on", "for", "with",
    "is", "are", "be", "this", "that", "it", "que", "se", "em", "no", "na",
    "nos", "nas", "por", "para", "com", "um", "uma", "é", "ao", "aos"]

/-- `_meaningful_tokens`. -/
def meaningfulTokens (w : Words) (value : String) : List String :=
  ((((Retrieval.wordRuns w.isWord [] value.toList).filter fun run => !run.isEmpty).map fun run =>
    w.casefold (String.ofList run)).filter fun token => !stopWords.contains token).dedup

/-- The quotient of two whole numbers as a double: the nearest of 53 bits. -/
def quotient (m n : ℕ) : ℚ :=
  let q : ℚ := (m : ℚ) / n
  if q = 0 then 0
  else rint (q / (2 : ℚ) ^ (Int.log 2 q - 52)) * (2 : ℚ) ^ (Int.log 2 q - 52)

/-- The tokens of the items that are cited. -/
def citedTokens (w : Words) (b : EvidenceBundle env) (cited : List String) : List String :=
  cited.flatMap fun id =>
    match b.val.evidence.find? fun item => item.val.evidence_id == id with
    | some item => meaningfulTokens w item.val.provenance.text
    | none => []

/-- What is reported on a claim, given the report on its citations and the tokens of what it cites. -/
def EvidenceValidator.claimReport (v : EvidenceValidator) (w : Words) (citations : CitationReport)
    (normalized : String) (evidence_tokens : List String) : ClaimReport :=
  let claim_tokens := meaningfulTokens w normalized
  let matched := (claim_tokens.filter evidence_tokens.contains).length
  let coverage := if claim_tokens.isEmpty then 0 else quotient matched claim_tokens.length
  let errors := citations.error_codes ++
    (if claim_tokens.isEmpty then ["claim_has_no_terms"] else []) ++
    if coverage < v.min_claim_token_coverage then ["claim_support_below_threshold"] else []
  ⟨errors.isEmpty, errors.eraseDups, citations.cited_count, claim_tokens.length, matched, coverage⟩

/-- `validate_claim_support`. -/
def EvidenceValidator.validateClaimSupport (v : EvidenceValidator) (w : Words) (claim : Arg)
    (bundle : Option (EvidenceBundle env)) (cited : List String) : Except Raised ClaimReport := do
  let citations ← validateCitations bundle cited
  match boundedText "claim" v.max_text_chars claim with
  | .error _ =>
    ClaimReport.make ⟨false, (citations.error_codes ++ ["claim_invalid"]).eraseDups,
      citations.cited_count, 0, 0, 0⟩
  | .ok normalized =>
    ClaimReport.make (v.claimReport w citations normalized (bundle.elim [] (citedTokens w · cited)))

/-! ## Bundles are valid -/

/-- Dropping what was there before makes a list no longer. -/
theorem length_eraseDups_le (l : List String) : l.eraseDups.length ≤ l.length := by
  induction hn : l.length using Nat.strong_induction_on generalizing l with
  | _ n ih =>
    cases l with
    | nil => simp
    | cons a l =>
      rw [List.eraseDups_cons, List.length_cons]
      have hfilter := List.length_filter_le (fun b => !b == a) l
      rw [List.length_cons] at hn
      have hrest := ih _ (by omega) (l.filter fun b => !b == a) rfl
      omega

/-- Equal dictionaries have the same keys. -/
theorem sameDict_lookup {m n : List (String × String)} (h : sameDict m n = true) (k : String) :
    m.lookup k = n.lookup k := by
  unfold sameDict at h
  rw [Bool.and_eq_true, List.all_eq_true, List.all_eq_true] at h
  by_cases hk : ∃ e ∈ m ++ n, e.1 = k
  · obtain ⟨e, he, rfl⟩ := hk
    rcases List.mem_append.mp he with he | he
    · exact (beq_iff_eq.mp (h.1 e he)).symm
    · exact (beq_iff_eq.mp (h.2 e he)).symm
  · have hnone : ∀ l : List (String × String), (∀ e ∈ l, e ∈ m ++ n) → l.lookup k = none := by
      intro l hl
      rw [List.lookup_eq_none_iff]
      intro e he
      rw [bne_iff_ne]
      intro heq
      exact hk ⟨e, hl e he, heq.symm⟩
    rw [hnone m fun e he => List.mem_append_left _ he, hnone n fun e he => List.mem_append_right _ he]

/-- The citations of some ids are theirs. -/
theorem lookup_citationMap (ids : List String) (k : String) :
    ((citationMap ids).lookup k).isSome = true ↔ k ∈ ids := by
  have hnone : (citationMap ids).lookup k = none ↔ k ∉ ids := by
    unfold citationMap
    rw [List.lookup_eq_none_iff]
    constructor
    · intro hall hk
      have hne := hall _ (List.mem_map.mpr ⟨k, List.mem_dedup.mpr hk, rfl⟩)
      exact bne_iff_ne.mp hne rfl
    · intro hk e he
      obtain ⟨id, hid, rfl⟩ := List.mem_map.mp he
      rw [bne_iff_ne]
      rintro rfl
      exact hk (List.mem_dedup.mp hid)
  rw [Option.isSome_iff_ne_none, ne_eq, hnone, not_not]

variable (b : EvidenceBundle env)

/-- The citations of a bundle are those of its items. -/
theorem citation_iff (id : String) : (b.val.citation_map.lookup id).isSome = true ↔ id ∈ b.val.ids := by
  rw [sameDict_lookup b.spec.map, lookup_citationMap]

/-- A bundle that was built has no errors. -/
theorem bundleErrors_eq_nil : bundleErrors b = [] := by
  have hspec := b.spec
  unfold bundleErrors
  rw [if_pos hspec.nodup, if_pos hspec.map, if_pos (beq_iff_eq.mpr hspec.id)]
  simp only [List.append_nil]
  rw [List.flatMap_eq_nil_iff]
  intro item hitem
  have hid : item.val.evidence_id = serverEvidenceId env item.val.provenance :=
    (modelValidate_ok.mp item.accepted).2.2.2
  rw [hspec.scopes item hitem, ← hid]
  simp

/-- The scope makes one error at most. -/
theorem length_scopeErrors_le (expected : Option ScopeArg) : (scopeErrors b expected).length ≤ 1 := by
  unfold scopeErrors
  split
  · simp
  · split
    · simp
    · simp
    · split <;> simp

/-- The report on a bundle is built, and finds nothing but what is wrong with the scope. -/
theorem validateBundle_eq (expected : Option ScopeArg) : validateBundle (some b) expected =
    .ok ⟨(scopeErrors b expected).isEmpty, (scopeErrors b expected).eraseDups,
      b.val.evidence.length, some b.val.bundle_id⟩ := by
  have hcodes := length_eraseDups_le (scopeErrors b expected)
  have hscope := length_scopeErrors_le b expected
  have hcount := b.spec.count
  unfold validateBundle
  simp only [bundleErrors_eq_nil, List.append_nil]
  unfold BundleReport.make
  rw [if_pos ⟨by simp only; omega, hcount⟩]

/-- The ids of a bundle are not empty. -/
theorem id_ne_empty {id : String} (h : id ∈ b.val.ids) : id ≠ "" := by
  obtain ⟨item, -, rfl⟩ := List.mem_map.mp h
  have hid := (modelValidate_ok.mp item.accepted).2.2.2
  intro hempty
  rw [hid] at hempty
  have hlist := congrArg String.toList hempty
  unfold serverEvidenceId at hlist
  rw [String.toList_ofList] at hlist
  cases hlist

/-- Citations are in order exactly if there are some, none is there twice, and all are of the bundle. -/
theorem citationErrors_eq_nil {cited : List String} :
    citationErrors b cited = [] ↔ cited ≠ [] ∧ cited.Nodup ∧ ∀ id ∈ cited, id ∈ b.val.ids := by
  have hresolved : (cited.filter fun id => (b.val.citation_map.lookup id).isSome).length =
      cited.length ↔ ∀ id ∈ cited, id ∈ b.val.ids := by
    rw [List.length_filter_eq_length_iff]
    simp only [citation_iff]
  unfold citationErrors
  simp only [List.append_eq_nil_iff, ite_eq_left_iff, ite_eq_right_iff, List.cons_ne_nil, imp_false,
    not_not, hresolved]
  constructor
  · rintro ⟨⟨⟨hne, -⟩, hnodup⟩, hall⟩
    refine ⟨?_, hnodup, hall⟩
    rintro rfl
    exact hne rfl
  · rintro ⟨hne, hnodup, hall⟩
    refine ⟨⟨⟨?_, ?_⟩, hnodup⟩, hall⟩
    · rw [List.isEmpty_iff]
      exact hne
    · rw [Bool.not_eq_true, List.any_eq_false]
      intro id hid hempty
      exact id_ne_empty b (hall id hid) (beq_iff_eq.mp hempty)

/-- There are no more than four errors in citations. -/
theorem length_citationErrors_le (cited : List String) : (citationErrors b cited).length ≤ 4 := by
  unfold citationErrors
  simp only [List.length_append]
  split_ifs <;> simp

/-- The report on citations is built exactly if there are at most a hundred. -/
theorem validateCitations_eq (cited : List String) : validateCitations (some b) cited =
    if cited.length ≤ 100 then .ok ⟨(citationErrors b cited).isEmpty,
      (citationErrors b cited).eraseDups, cited.length,
      (cited.filter fun id => (b.val.citation_map.lookup id).isSome).length⟩
    else .error (.model "CitationValidationReport") := by
  have hcodes := length_eraseDups_le (citationErrors b cited)
  have hfour := length_citationErrors_le b cited
  have hresolved := List.length_filter_le (fun id => (b.val.citation_map.lookup id).isSome) cited
  unfold validateCitations
  dsimp only
  rw [validateBundle_eq]
  show CitationReport.make _ = _
  unfold CitationReport.make
  by_cases hcount : cited.length ≤ 100
  · rw [if_pos hcount, if_pos ⟨by simp only; omega, hcount, by simp only; omega⟩]
  · rw [if_neg hcount, if_neg fun hall => hcount hall.2.1]

/-! ## Claims are bounded -/

/-- The quotient of a part and the whole is rounded to a number between zero and one. -/
theorem quotient_range {m n : ℕ} (h : m ≤ n) : 0 ≤ quotient m n ∧ quotient m n ≤ 1 := by
  unfold quotient
  have hq0 : 0 ≤ (m : ℚ) / n := by positivity
  have hq1 : (m : ℚ) / n ≤ 1 := div_le_one_of_le₀ (by exact_mod_cast h) (by positivity)
  generalize (m : ℚ) / n = q at hq0 hq1
  dsimp only
  split
  · exact ⟨le_refl 0, zero_le_one⟩
  · next hne =>
    have hpos : 0 < q := lt_of_le_of_ne hq0 fun heq => hne heq.symm
    have hlog : Int.log 2 q ≤ 0 := by
      have hmono := Int.log_mono_right (b := 2) hpos hq1
      rwa [Int.log_one_right] at hmono
    have hulp : (0 : ℚ) < (2 : ℚ) ^ (Int.log 2 q - 52) := by positivity
    -- One is a whole number of units in the last place.
    obtain ⟨k, hk⟩ : ∃ k : ℕ, (k : ℤ) = 52 - Int.log 2 q := ⟨(52 - Int.log 2 q).toNat, by omega⟩
    have hone : (2 : ℚ) ^ k * (2 : ℚ) ^ (Int.log 2 q - 52) = 1 := by
      rw [← zpow_natCast, ← zpow_add₀ two_ne_zero, hk]
      simp
    have hle : q / (2 : ℚ) ^ (Int.log 2 q - 52) ≤ (((2 : ℤ) ^ k : ℤ) : ℚ) := by
      rw [div_le_iff₀ hulp, Int.cast_pow, Int.cast_ofNat, hone]
      exact hq1
    have hupper := rint_mono hle
    rw [rint_intCast] at hupper
    have hlower : 0 ≤ rint (q / (2 : ℚ) ^ (Int.log 2 q - 52)) := by
      have hzero : ((0 : ℤ) : ℚ) ≤ q / (2 : ℚ) ^ (Int.log 2 q - 52) := by
        push_cast
        positivity
      have hrint := rint_mono hzero
      rwa [rint_intCast] at hrint
    constructor
    · have hcast : (0 : ℚ) ≤ rint (q / (2 : ℚ) ^ (Int.log 2 q - 52)) := by exact_mod_cast hlower
      exact mul_nonneg hcast hulp.le
    · have hcast : (rint (q / (2 : ℚ) ^ (Int.log 2 q - 52)) : ℚ) ≤ (2 : ℚ) ^ k := by
        exact_mod_cast hupper
      calc
        _ ≤ (2 : ℚ) ^ k * (2 : ℚ) ^ (Int.log 2 q - 52) := mul_le_mul_of_nonneg_right hcast hulp.le
        _ = 1 := hone

/-- The report on citations, if there is one, has few codes and counts up to a hundred. -/
theorem validateCitations_bounds {bundle : Option (EvidenceBundle env)} {cited : List String}
    {report : CitationReport} (h : validateCitations bundle cited = .ok report) :
    report.error_codes.length ≤ 4 ∧ report.cited_count ≤ 100 := by
  cases bundle with
  | none =>
    cases h
    decide
  | some b =>
    rw [validateCitations_eq] at h
    split at h
    · next hcount =>
      cases h
      have hcodes := length_eraseDups_le (citationErrors b cited)
      have hfour := length_citationErrors_le b cited
      exact ⟨by simp only; omega, hcount⟩
    · cases h

/-- The citations are checked, with a report or none, as the number of them says. -/
theorem validateCitations_isOk (bundle : Option (EvidenceBundle env)) (cited : List String) :
    (∃ report, validateCitations bundle cited = .ok report) ↔
      bundle.isSome = true → cited.length ≤ 100 := by
  cases bundle with
  | none => exact ⟨fun _ h => absurd h Bool.false_ne_true, fun _ => ⟨_, rfl⟩⟩
  | some b =>
    rw [validateCitations_eq]
    constructor
    · rintro ⟨report, hreport⟩ _
      split at hreport
      · next hcount => exact hcount
      · cases hreport
    · intro h
      rw [if_pos (h rfl)]
      exact ⟨_, rfl⟩

/-- The bounds of a report on a claim that is built from one on its citations: only the number of words
may be out of them. -/
theorem claimReport_make (v : EvidenceValidator) (w : Words) {citations : CitationReport}
    (hcodes : citations.error_codes.length ≤ 4) (hcount : citations.cited_count ≤ 100)
    (normalized : String) (evidence_tokens : List String) :
    (∃ report, (v.claimReport w citations normalized evidence_tokens).make = .ok report) ↔
      (meaningfulTokens w normalized).length ≤ 10000 := by
  unfold EvidenceValidator.claimReport
  dsimp only
  generalize meaningfulTokens w normalized = tokens
  have hmatched := List.length_filter_le evidence_tokens.contains tokens
  generalize (tokens.filter evidence_tokens.contains).length = matched at hmatched
  unfold ClaimReport.make
  constructor
  · rintro ⟨report, hreport⟩
    dsimp only at hreport
    by_contra hwords
    rw [if_neg fun hall => hwords hall.2.2.1] at hreport
    cases hreport
  · intro hwords
    have hcoverage : 0 ≤ (if tokens.isEmpty then 0 else quotient matched tokens.length) ∧
        (if tokens.isEmpty then 0 else quotient matched tokens.length) ≤ 1 := by
      split
      · exact ⟨le_refl 0, zero_le_one⟩
      · exact quotient_range hmatched
    refine ⟨_, if_pos ⟨?_, hcount, hwords, hmatched.trans hwords, hcoverage.1, hcoverage.2⟩⟩
    refine (length_eraseDups_le _).trans ?_
    simp only [List.length_append]
    split_ifs <;> simp <;> omega

/-- A claim gets a report exactly if its citations do and it has at most ten thousand words of its own. -/
theorem validateClaimSupport_isOk (v : EvidenceValidator) (w : Words) (claim : Arg)
    (bundle : Option (EvidenceBundle env)) (cited : List String) :
    (∃ report, v.validateClaimSupport w claim bundle cited = .ok report) ↔
      (bundle.isSome = true → cited.length ≤ 100) ∧
      ∀ normalized, boundedText "claim" v.max_text_chars claim = .ok normalized →
        (meaningfulTokens w normalized).length ≤ 10000 := by
  rw [← validateCitations_isOk]
  unfold EvidenceValidator.validateClaimSupport
  cases hcitations : validateCitations bundle cited with
  | error e =>
    constructor
    · rintro ⟨report, hreport⟩
      cases hreport
    · rintro ⟨⟨report, hreport⟩, -⟩
      cases hreport
  | ok citations =>
    obtain ⟨hcodes, hcount⟩ := validateCitations_bounds hcitations
    cases htext : boundedText "claim" v.max_text_chars claim with
    | error e =>
      constructor
      · intro _
        refine ⟨⟨_, rfl⟩, ?_⟩
        intro normalized h
        cases h
      · intro _
        have hall := length_eraseDups_le (citations.error_codes ++ ["claim_invalid"])
        rw [List.length_append, List.length_singleton] at hall
        refine ⟨_, if_pos ⟨?_, hcount, by simp only; omega, by simp only; omega, le_refl 0, zero_le_one⟩⟩
        simp only
        omega
    | ok normalized =>
      have hmake := claimReport_make v w hcodes hcount normalized
        (bundle.elim [] (citedTokens w · cited))
      constructor
      · intro hreport
        refine ⟨⟨_, rfl⟩, ?_⟩
        intro normalized' hsame
        cases hsame
        exact hmake.mp hreport
      · rintro ⟨-, hwords⟩
        exact hmake.mpr (hwords normalized rfl)

end RickIntelligence.Grounding
