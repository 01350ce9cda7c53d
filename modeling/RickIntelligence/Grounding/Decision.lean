import RickIntelligence.Grounding.Validator

/-!
# The decision layer

`DecisionLayer` of `rick_decision/layer.py`, with its contracts: whether a request may be answered from
the evidence at hand. The gates stand in a fixed order; each of them ends the evaluation with an action of
its own, and only what passes all of them is answered.

The signals are doubles between zero and one, of which only the order counts.
-/

namespace RickIntelligence.Grounding

open Lib

/-! ## Contracts -/

/-- `DecisionAction`. -/
inductive DecisionAction where
  | answer
  | retrieveAgain
  | askForClarification
  | abstain
  | escalate
  deriving DecidableEq

/-- `DomainRisk`. -/
inductive DomainRisk where
  | unknown
  | low
  | medium
  | high
  | critical
  deriving DecidableEq

/-- `IntentClarity`. -/
inductive IntentClarity where
  | unknown
  | clear
  | ambiguous
  | unsupported
  deriving DecidableEq

/-- `CitationSupportStatus`. -/
inductive CitationSupportStatus where
  | pass
  | fail
  | inconclusive
  | notRun
  deriving DecidableEq

/-- A signal: a number between zero and one. -/
abbrev Signal := {q : ℚ // 0 ≤ q ∧ q ≤ 1}

/-- `CitationSupportMetrics`. -/
structure CitationSupportMetrics where
  status : CitationSupportStatus
  citation_precision : Option Signal
  citation_recall : Option Signal
  citation_completeness : Option Signal
  unsupported_claim_rate : Option Signal
  faithfulness : Option Signal
  evaluated_claims : ℕ
  source : String
  claims_range : evaluated_claims ≤ 10000

/-- `DecisionPolicy`. -/
structure DecisionPolicy where
  min_evidence_count : ℕ
  min_retrieval_quality : Signal
  min_citation_support : Signal
  require_citation_support_metrics : Bool
  min_citation_precision : Signal
  min_citation_recall : Signal
  min_citation_completeness : Signal
  max_unsupported_claim_rate : Signal
  min_faithfulness : Signal
  require_faithfulness : Bool
  required_citation_support_source : Option String
  min_provider_confidence_signal : Signal
  max_retrieval_attempts : ℕ
  answerable_risk_levels : List DomainRisk
  evidence_range : 1 ≤ min_evidence_count ∧ min_evidence_count ≤ 100
  attempts_range : max_retrieval_attempts ≤ 10

/-- `DecisionInput`, with what its validator checks. The three parts of the scope of the request are given
together or not at all. -/
structure DecisionInput (env : Env) where
  evidence_bundle : Option (EvidenceBundle env)
  request : Option ScopeRecord
  retrieval_quality : Signal
  evidence_count : ℕ
  citation_support : Signal
  citation_support_metrics : Option CitationSupportMetrics
  provider_confidence_signal : Option Signal
  domain_risk : DomainRisk
  clarity : IntentClarity
  policy : DecisionPolicy
  retrieval_attempt : ℕ
  retrieval_available : Bool
  integrity_ok : Bool
  policy_allows_answer : Bool
  human_review_required : Bool
  cited_evidence_ids : Option (List String)
  count_range : evidence_count ≤ 100
  attempt_range : retrieval_attempt ≤ 100
  count : ∀ b, evidence_bundle = some b → evidence_count = b.val.evidence.length
  scope : ∀ b r, evidence_bundle = some b → request = some r → r.modelValidate = .ok b.val.scope

variable {env : Env}

/-- `DecisionInput.request_scope`. -/
def DecisionInput.requestScope (d : DecisionInput env) : Except Raised (Option EvidenceScope) :=
  match d.request with
  | none => .ok none
  | some r => (some <$> Validated.make r).mapError fun _ => .model "EvidenceScope"

/-- `Decision`. -/
structure Decision where
  action : DecisionAction
  reason_code : String
  message : String
  evidence_bundle_id : Option String
  retrieval_attempt : ℕ
  retry_allowed : Bool
  requires_clarification : Bool
  requires_human_review : Bool
  deriving DecidableEq

/-- A character of a code after its first. -/
def isCodeChar (c : Char) : Bool := isLowerAscii c || isDigitAscii c || c == '_'

/-- `_SAFE_CODE.fullmatch`. -/
def codePattern : String → Bool := matchesRun isLowerAscii isCodeChar 63

/-- `Decision.model_validate`. -/
def Decision.modelValidate (d : Decision) : Except Raised Decision :=
  let reason_code := strip d.reason_code
  if codePattern reason_code && lengthIn 1 64 reason_code && lengthIn 1 512 d.message &&
      decide (d.retrieval_attempt ≤ 100) &&
      d.retry_allowed == decide (d.action = .retrieveAgain) &&
      d.requires_clarification == decide (d.action = .askForClarification) &&
      d.requires_human_review == decide (d.action = .escalate) &&
      (decide (d.action ≠ .answer) || (d.evidence_bundle_id.getD "" != "")) then
    .ok { d with reason_code }
  else .error (.model "Decision")

/-! ## The layer -/

/-- `_MESSAGES`. -/
def messages : DecisionAction → String
  | .answer => "The available evidence passed the configured grounding checks."
  | .retrieveAgain => "The available evidence did not pass grounding checks; retrieve authorized evidence again."
  | .askForClarification => "Please clarify the request before a grounded answer is generated."
  | .abstain => "The available evidence is insufficient for a grounded answer."
  | .escalate => "This request requires additional review before an answer is generated."

namespace DecisionInput

variable (d : DecisionInput env)

/-- `_make`. -/
def make (action : DecisionAction) (reason_code : String) (evidence_bundle_id : Option String) :
    Except Raised Decision :=
  Decision.modelValidate {
    action
    reason_code
    message := messages action
    evidence_bundle_id
    retrieval_attempt := d.retrieval_attempt
    retry_allowed := action = .retrieveAgain
    requires_clarification := action = .askForClarification
    requires_human_review := action = .escalate }

/-- `_retry_or_abstain`. -/
def retryOrAbstain (reason_code : String) : Except Raised Decision :=
  if d.retrieval_available ∧ d.retrieval_attempt < d.policy.max_retrieval_attempts then
    d.make .retrieveAgain reason_code none
  else d.make .abstain
    (if reason_code.length ≤ 54 then reason_code ++ "_exhausted" else "evidence_insufficient") none

/-- The first of some observations that is missing or below its minimum. -/
def firstFailure : List (Option Signal × Signal × String) → Option String
  | [] => none
  | (none, _, _) :: _ => some "citation_support_metrics_incomplete"
  | (some observed, minimum, reason) :: rest =>
    if observed < minimum then some reason else firstFailure rest

/-- The part of `_citation_support_failure` after the three observations. -/
def claimFailure (policy : DecisionPolicy) (metrics : CitationSupportMetrics) : Option String :=
  match metrics.unsupported_claim_rate with
  | none => some "citation_support_metrics_incomplete"
  | some unsupported =>
    if unsupported > policy.max_unsupported_claim_rate then some "unsupported_claim_rate_above_maximum"
    else match metrics.faithfulness with
      | none =>
        if policy.require_faithfulness then some "citation_support_metrics_incomplete" else none
      | some faithfulness =>
        if faithfulness < policy.min_faithfulness then some "faithfulness_below_minimum" else none

/-- `_citation_support_failure`. -/
def citationSupportFailure : Option String :=
  match d.citation_support_metrics with
  | none =>
    if d.policy.require_citation_support_metrics then some "citation_support_metrics_missing"
    else if d.citation_support < d.policy.min_citation_support then
      some "citation_support_below_minimum"
    else none
  | some metrics =>
    if metrics.status ≠ .pass then some "citation_support_metrics_not_pass"
    else if metrics.evaluated_claims < 1 then some "citation_support_metrics_empty"
    else if d.policy.required_citation_support_source.any (· != metrics.source) then
      some "citation_support_source_invalid"
    else (firstFailure
      [(metrics.citation_precision, d.policy.min_citation_precision,
          "citation_precision_below_minimum"),
        (metrics.citation_recall, d.policy.min_citation_recall, "citation_recall_below_minimum"),
        (metrics.citation_completeness, d.policy.min_citation_completeness,
          "citation_completeness_below_minimum")]).orElse fun _ => claimFailure d.policy metrics

/-- The part of `decide` after the check of the citations. -/
def decideSupport (bundle_id : Option String) : Except Raised Decision :=
  match d.citationSupportFailure with
  | some reason => d.retryOrAbstain reason
  | none =>
    match d.provider_confidence_signal with
    | none => d.make .abstain "provider_signal_missing" bundle_id
    | some signal =>
      if signal < d.policy.min_provider_confidence_signal then
        d.make .abstain "provider_signal_below_minimum" bundle_id
      else d.make .answer "grounded_evidence" bundle_id

/-- The part of `decide` from the check of the citations on. -/
def decideCitations (b : EvidenceBundle env) (bundle_id : Option String) : Except Raised Decision :=
  match d.cited_evidence_ids with
  | none => d.decideSupport bundle_id
  | some cited => do
    let report ← validateCitations (some b) cited
    if !report.valid then d.make .abstain "citation_registry_invalid" bundle_id
    else d.decideSupport bundle_id

/-- The part of `decide` after the gates of the policy. -/
def decideEvidence (bundle_id : Option String) : Except Raised Decision :=
  match d.evidence_bundle with
  | none => d.retryOrAbstain "evidence_bundle_missing"
  | some b =>
    if d.evidence_count < d.policy.min_evidence_count then
      d.retryOrAbstain "evidence_count_below_minimum"
    else if d.retrieval_quality < d.policy.min_retrieval_quality then
      d.retryOrAbstain "retrieval_quality_below_minimum"
    else d.decideCitations b bundle_id

/-- The part of `decide` after the check of the bundle. -/
def decidePolicy (bundle_id : Option String) : Except Raised Decision :=
  if d.human_review_required then d.make .escalate "human_review_required" bundle_id
  else if d.domain_risk ∉ d.policy.answerable_risk_levels then
    d.make .escalate (if d.domain_risk = .unknown then "risk_unknown" else "risk_requires_review")
      bundle_id
  else if d.clarity = .unknown ∨ d.clarity = .ambiguous then
    d.make .askForClarification "intent_needs_clarification" bundle_id
  else if d.clarity = .unsupported then d.make .abstain "intent_unsupported" bundle_id
  else if !d.policy_allows_answer then d.make .abstain "policy_denied" bundle_id
  else d.decideEvidence bundle_id

/-- `decide`. -/
def decide : Except Raised Decision :=
  let bundle_id := d.evidence_bundle.map (·.val.bundle_id)
  if !d.integrity_ok then d.make .escalate "input_integrity_failed" bundle_id
  else match d.evidence_bundle with
    | none =>
      if d.evidence_count > 0 then d.make .escalate "evidence_bundle_missing" none
      else d.decidePolicy bundle_id
    | some b => do
      let scope ← d.requestScope
      let report ← validateBundle (some b) (scope.map .scope)
      if !report.valid then d.make .escalate "evidence_validation_failed" bundle_id
      else d.decidePolicy bundle_id

end DecisionInput

end RickIntelligence.Grounding
