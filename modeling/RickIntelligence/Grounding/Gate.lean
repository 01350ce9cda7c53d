import RickIntelligence.Grounding.Decision
import RickIntelligence.Grounding.Identity

/-!
# What the gate does

`decide` in terms of its input. The gates before the citations always end in a decision or are passed
(`decide_cases`); what comes after them raises for more than a hundred citations and for nothing else
(`decide_total`). An answer is given exactly if all the gates are passed (`decide_answer_iff`), and each
gate stays passed when its signal gets no worse and the policy no stricter (`answer_monotone`).
-/

namespace RickIntelligence.Grounding

open Lib

variable {env : Env}

/-! ## Decisions are built -/

/-- A reason that a decision keeps as it is. -/
def safeReason (reason_code : String) : Bool :=
  strip reason_code == reason_code && codePattern reason_code && lengthIn 1 64 reason_code

namespace DecisionInput

variable (d : DecisionInput env)

/-- The decision that `_make` builds. -/
def decision (action : DecisionAction) (reason_code : String) (evidence_bundle_id : Option String) :
    Decision where
  action
  reason_code
  message := messages action
  evidence_bundle_id
  retrieval_attempt := d.retrieval_attempt
  retry_allowed := action = .retrieveAgain
  requires_clarification := action = .askForClarification
  requires_human_review := action = .escalate

variable {action : DecisionAction} {reason_code : String} {evidence_bundle_id : Option String}

/-- A decision is built, if it is not an answer without a bundle. -/
theorem make_ok (hreason : safeReason reason_code = true) (hid : action = .answer → evidence_bundle_id.getD "" ≠ "") :
    d.make action reason_code evidence_bundle_id =
      .ok (d.decision action reason_code evidence_bundle_id) := by
  unfold safeReason at hreason
  rw [Bool.and_eq_true, Bool.and_eq_true, beq_iff_eq] at hreason
  obtain ⟨⟨hstrip, hpattern⟩, hlength⟩ := hreason
  have hmessage : lengthIn 1 512 (messages action) = true := by
    cases action <;> decide
  have hanswer : (Decidable.decide (action ≠ .answer) || evidence_bundle_id.getD "" != "") = true := by
    by_cases h : action = .answer
    · rw [bne_iff_ne.mpr (hid h), Bool.or_true]
    · rw [decide_eq_true h, Bool.true_or]
  unfold make Decision.modelValidate
  simp only [hstrip, hpattern, hlength, hmessage, decide_eq_true d.attempt_range, beq_self_eq_true,
    hanswer, Bool.and_self, if_true]
  rfl

/-- A decision that is no answer is built. -/
theorem make_other (hreason : safeReason reason_code = true) (haction : action ≠ .answer) :
    ∃ dec, d.make action reason_code evidence_bundle_id = .ok dec ∧ dec.action ≠ .answer :=
  ⟨_, d.make_ok hreason fun h => absurd h haction, haction⟩

/-- The reasons to retrieve again. -/
def retryReasons : List String :=
  ["evidence_bundle_missing", "evidence_count_below_minimum", "retrieval_quality_below_minimum",
    "citation_support_metrics_missing", "citation_support_below_minimum",
    "citation_support_metrics_not_pass", "citation_support_metrics_empty",
    "citation_support_source_invalid", "citation_support_metrics_incomplete",
    "citation_precision_below_minimum", "citation_recall_below_minimum",
    "citation_completeness_below_minimum", "unsupported_claim_rate_above_maximum",
    "faithfulness_below_minimum"]

/-- The reasons are kept as they are, also when the attempts are exhausted. -/
theorem safeReason_retry : ∀ reason ∈ retryReasons, safeReason reason = true ∧
    safeReason (if reason.length ≤ 54 then reason ++ "_exhausted" else "evidence_insufficient") =
      true := by
  decide +kernel

/-- Retrieving again, or abstaining, is a decision. -/
theorem retryOrAbstain_other (h : reason_code ∈ retryReasons) :
    ∃ dec, d.retryOrAbstain reason_code = .ok dec ∧ dec.action ≠ .answer := by
  obtain ⟨hreason, hexhausted⟩ := safeReason_retry reason_code h
  unfold retryOrAbstain
  split
  · exact d.make_other hreason (by decide)
  · exact d.make_other hexhausted (by decide)

end DecisionInput

/-- A measurement that is there, and not below a minimum. -/
def AtLeast (minimum : Signal) (observed : Option Signal) : Prop := ∃ q, observed = some q ∧ minimum ≤ q

/-- The metrics are what the policy asks for. -/
structure CitationSupportMetrics.Meets (metrics : CitationSupportMetrics) (policy : DecisionPolicy) :
    Prop where
  status : metrics.status = .pass
  claims : 1 ≤ metrics.evaluated_claims
  source : ∀ s, policy.required_citation_support_source = some s → metrics.source = s
  citation_precision : AtLeast policy.min_citation_precision metrics.citation_precision
  citation_recall : AtLeast policy.min_citation_recall metrics.citation_recall
  citation_completeness : AtLeast policy.min_citation_completeness metrics.citation_completeness
  unsupported : ∃ q, metrics.unsupported_claim_rate = some q ∧ q ≤ policy.max_unsupported_claim_rate
  required : policy.require_faithfulness = true → metrics.faithfulness.isSome = true
  faithfulness : ∀ q, metrics.faithfulness = some q → policy.min_faithfulness ≤ q

namespace DecisionInput

variable {α : Type} {x : Option α} {f : Unit → Option α} {checks : List (Option Signal × Signal × String)}
  {reason : String} {policy : DecisionPolicy} {metrics : CitationSupportMetrics} {b : EvidenceBundle env}

/-- One of two is there, or neither. -/
theorem orElse_eq_none :
    x.orElse f = none ↔ x = none ∧ f () = none := by
  cases x <;> simp [Option.orElse]

/-- One of two is the first, or the second if the first is not there. -/
theorem orElse_eq_some {a : α} :
    x.orElse f = some a ↔ x = some a ∨ x = none ∧ f () = some a := by
  cases x <;> simp [Option.orElse]

/-- There is no failure among some observations exactly if all of them are there and high enough. -/
theorem firstFailure_eq_none :
    firstFailure checks = none ↔ ∀ check ∈ checks, AtLeast check.2.1 check.1 := by
  induction checks with
  | nil => simp [firstFailure]
  | cons check checks ih =>
    obtain ⟨observed, minimum, reason⟩ := check
    rw [List.forall_mem_cons]
    cases observed with
    | none => simp [firstFailure, AtLeast]
    | some q =>
      have hhead : AtLeast minimum (some q) ↔ ¬ q < minimum := by simp [AtLeast]
      dsimp only [firstFailure]
      rw [hhead]
      split
      · next h => simp [h]
      · next h => simp only [ih, h, not_false_eq_true, true_and]

/-- A failure among some observations is that one is missing, or the reason given for one. -/
theorem firstFailure_mem (h : firstFailure checks = some reason) :
    reason = "citation_support_metrics_incomplete" ∨ reason ∈ checks.map (·.2.2) := by
  induction checks with
  | nil => cases h
  | cons check checks ih =>
    obtain ⟨observed, minimum, reason'⟩ := check
    rw [List.map_cons, List.mem_cons]
    cases observed with
    | none =>
      cases h
      exact .inl rfl
    | some q =>
      dsimp only [firstFailure] at h
      split at h
      · cases h
        exact .inr (.inl rfl)
      · rcases ih h with hmissing | hlater
        · exact .inl hmissing
        · exact .inr (.inr hlater)

/-- There is no failure in the claims exactly if few enough are unsupported, and the faithfulness is
high enough. -/
theorem claimFailure_eq_none :
    claimFailure policy metrics = none ↔
      (∃ q, metrics.unsupported_claim_rate = some q ∧ q ≤ policy.max_unsupported_claim_rate) ∧
      (policy.require_faithfulness = true → metrics.faithfulness.isSome = true) ∧
      ∀ q, metrics.faithfulness = some q → policy.min_faithfulness ≤ q := by
  unfold claimFailure
  cases metrics.unsupported_claim_rate with
  | none => simp
  | some unsupported =>
    dsimp only
    split
    · next h =>
      have hrate : ¬ unsupported ≤ policy.max_unsupported_claim_rate := not_le.mpr h
      simp [hrate]
    · next h =>
      have hrate : unsupported ≤ policy.max_unsupported_claim_rate := not_lt.mp h
      cases metrics.faithfulness with
      | none => simp [hrate]
      | some q => simp [hrate]

/-- A failure in the claims is one of three. -/
theorem claimFailure_mem (h : claimFailure policy metrics = some reason) :
    reason ∈ ["citation_support_metrics_incomplete", "unsupported_claim_rate_above_maximum",
      "faithfulness_below_minimum"] := by
  unfold claimFailure at h
  split at h
  · cases h
    simp
  · split at h
    · cases h
      simp
    · split at h
      · split at h
        · cases h
          simp
        · cases h
      · split at h
        · cases h
          simp
        · cases h

variable (d : DecisionInput env)

/-- What the input says about the support of its citations is what the policy asks for. -/
def Supported : Prop :=
  match d.citation_support_metrics with
  | none => d.policy.require_citation_support_metrics = false ∧
      d.policy.min_citation_support ≤ d.citation_support
  | some metrics => metrics.Meets d.policy

/-- The support of the citations has no failure exactly if it is what the policy asks for. -/
theorem citationSupportFailure_eq_none : d.citationSupportFailure = none ↔ d.Supported := by
  unfold citationSupportFailure Supported
  cases d.citation_support_metrics with
  | none =>
    dsimp only
    split
    · next hrequire => simp [hrequire]
    · next hrequire =>
      rw [Bool.not_eq_true] at hrequire
      split
      · next h =>
        have hsupport : ¬ d.policy.min_citation_support ≤ d.citation_support := not_le.mpr h
        simp [hsupport]
      · next h =>
        have hsupport : d.policy.min_citation_support ≤ d.citation_support := not_lt.mp h
        simp [hrequire, hsupport]
  | some metrics =>
    have hsource : d.policy.required_citation_support_source.any (· != metrics.source) = true ↔
        ¬ ∀ s, d.policy.required_citation_support_source = some s → metrics.source = s := by
      cases d.policy.required_citation_support_source with
      | none => simp
      | some s =>
        rw [Option.any_some, bne_iff_ne]
        constructor
        · intro hne hall
          exact hne (hall s rfl).symm
        · intro hall heq
          apply hall
          intro t ht
          cases ht
          exact heq.symm
    dsimp only
    constructor
    · intro h
      split at h
      · cases h
      · next hstatus =>
        split at h
        · cases h
        · next hclaims =>
          split at h
          · cases h
          · next hother =>
            rw [hsource, not_not] at hother
            rw [orElse_eq_none, firstFailure_eq_none, claimFailure_eq_none] at h
            obtain ⟨hchecks, hunsupported, hrequired, hfaithful⟩ := h
            exact {
              status := not_not.mp hstatus
              claims := not_lt.mp hclaims
              source := hother
              citation_precision := hchecks _ List.mem_cons_self
              citation_recall := hchecks _ (List.mem_cons_of_mem _ List.mem_cons_self)
              citation_completeness :=
                hchecks _ (List.mem_cons_of_mem _ (List.mem_cons_of_mem _ List.mem_cons_self))
              unsupported := hunsupported
              required := hrequired
              faithfulness := hfaithful }
    · intro h
      rw [if_neg (not_not.mpr h.status), if_neg (not_lt.mpr h.claims),
        if_neg (hsource.not.mpr (not_not.mpr h.source)), orElse_eq_none,
        firstFailure_eq_none, claimFailure_eq_none]
      refine ⟨?_, h.unsupported, h.required, h.faithfulness⟩
      intro check hcheck
      simp only [List.mem_cons, List.not_mem_nil, or_false] at hcheck
      rcases hcheck with rfl | rfl | rfl
      · exact h.citation_precision
      · exact h.citation_recall
      · exact h.citation_completeness

/-- The failures of the support are reasons to retrieve again. -/
theorem citationSupportFailure_mem (h : d.citationSupportFailure = some reason) :
    reason ∈ retryReasons := by
  unfold citationSupportFailure at h
  split at h
  · split at h
    · cases h
      decide
    · split at h
      · cases h
        decide
      · cases h
  · next metrics =>
    split at h
    · cases h
      decide
    · split at h
      · cases h
        decide
      · split at h
        · cases h
          decide
        · rw [orElse_eq_some] at h
          rcases h with hfirst | ⟨-, hclaim⟩
          · rcases firstFailure_mem hfirst with rfl | hmem
            · decide
            · have hsub : ["citation_precision_below_minimum", "citation_recall_below_minimum",
                  "citation_completeness_below_minimum"] ⊆ retryReasons := by decide
              exact hsub hmem
          · have hsub : ["citation_support_metrics_incomplete", "unsupported_claim_rate_above_maximum",
                "faithfulness_below_minimum"] ⊆ retryReasons := by decide
            exact hsub (claimFailure_mem hclaim)

/-! ## The gates -/

/-- The gates of the policy are passed. -/
structure Allowed : Prop where
  review : d.human_review_required = false
  risk : d.domain_risk ∈ d.policy.answerable_risk_levels
  clarity : d.clarity = .clear
  policy_allows : d.policy_allows_answer = true

/-- There is enough evidence, and it is good enough. -/
structure Sufficient : Prop where
  bundle : d.evidence_bundle.isSome = true
  count : d.policy.min_evidence_count ≤ d.evidence_count
  quality : d.policy.min_retrieval_quality ≤ d.retrieval_quality

/-- The gates before the citations are passed. -/
structure ReachesCitations : Prop extends d.Allowed, d.Sufficient where
  integrity : d.integrity_ok = true

/-- The citations are those of a bundle, each of them once. -/
def Cites (b : EvidenceBundle env) : Prop :=
  ∀ cited, d.cited_evidence_ids = some cited → cited ≠ [] ∧ cited.Nodup ∧ ∀ id ∈ cited, id ∈ b.val.ids

/-- All the gates are passed. -/
structure Passes : Prop extends d.ReachesCitations where
  cites : ∀ b, d.evidence_bundle = some b → d.Cites b
  supported : d.Supported
  signal : AtLeast d.policy.min_provider_confidence_signal d.provider_confidence_signal

variable {d}

/-- The scope of the request is the one of the bundle. -/
theorem requestScope_eq (hb : d.evidence_bundle = some b) :
    d.requestScope = .ok (d.request.map fun _ => b.scope) := by
  unfold requestScope
  cases hrequest : d.request with
  | none => rfl
  | some r =>
    have hmake : Validated.make r = .ok b.scope := Validated.make_ok.mpr (d.scope b r hb hrequest)
    dsimp only
    rw [hmake]
    rfl

/-- The bundle is valid for the scope of the request. -/
theorem validateBundle_request {scope : Option EvidenceScope} (h : ∀ s, scope = some s → s = b.scope) :
    validateBundle (some b) (scope.map .scope) =
      .ok ⟨true, [], b.val.evidence.length, some b.val.bundle_id⟩ := by
  have hscope : scopeErrors b (scope.map .scope) = [] := by
    cases scope with
    | none => rfl
    | some s =>
      rw [h s rfl]
      show (if b.scope = b.scope then [] else ["bundle_scope_mismatch"]) = []
      rw [if_pos rfl]
  rw [validateBundle_eq, hscope]
  rfl

/-- The id of a bundle is not empty. -/
theorem bundle_id_ne_empty (b : EvidenceBundle env) : (some b.val.bundle_id).getD "" ≠ "" := by
  rw [Option.getD_some, b.spec.id]
  intro hempty
  have hlist := congrArg String.toList hempty
  unfold serverBundleId at hlist
  rw [String.toList_ofList] at hlist
  cases hlist

variable (d)

/-- The gates of the policy end in a decision, or are passed. -/
theorem decidePolicy_cases (bundle_id : Option String) :
    (¬ d.Allowed ∧ ∃ dec, d.decidePolicy bundle_id = .ok dec ∧ dec.action ≠ .answer) ∨
      d.Allowed ∧ d.decidePolicy bundle_id = d.decideEvidence bundle_id := by
  unfold decidePolicy
  split
  · next hreview =>
    left
    refine ⟨fun h => ?_, d.make_other (by decide +kernel) (by decide)⟩
    rw [h.review] at hreview
    cases hreview
  · next hreview =>
    split
    · next hrisk =>
      left
      refine ⟨fun h => hrisk h.risk, d.make_other ?_ (by decide)⟩
      split <;> decide +kernel
    · next hrisk =>
      split
      · next hclarity =>
        left
        refine ⟨fun h => ?_, d.make_other (by decide +kernel) (by decide)⟩
        rw [h.clarity] at hclarity
        rcases hclarity with hclarity | hclarity <;> cases hclarity
      · next hclarity =>
        split
        · next hunsupported =>
          left
          refine ⟨fun h => ?_, d.make_other (by decide +kernel) (by decide)⟩
          rw [h.clarity] at hunsupported
          cases hunsupported
        · next hunsupported =>
          split
          · next hallows =>
            left
            refine ⟨fun h => ?_, d.make_other (by decide +kernel) (by decide)⟩
            rw [h.policy_allows] at hallows
            cases hallows
          · next hallows =>
            right
            have hclear : d.clarity = .clear := by
              cases h : d.clarity with
              | clear => rfl
              | unknown => exact absurd (.inl h) hclarity
              | ambiguous => exact absurd (.inr h) hclarity
              | unsupported => exact absurd h hunsupported
            rw [Bool.not_eq_true', Bool.not_eq_false] at hallows
            exact ⟨⟨Bool.eq_false_iff.mpr hreview, not_not.mp hrisk, hclear, hallows⟩, rfl⟩

/-- The gates of the evidence end in a decision, or are passed. -/
theorem decideEvidence_cases (bundle_id : Option String) :
    (¬ d.Sufficient ∧ ∃ dec, d.decideEvidence bundle_id = .ok dec ∧ dec.action ≠ .answer) ∨
      d.Sufficient ∧ ∃ b, d.evidence_bundle = some b ∧
        d.decideEvidence bundle_id = d.decideCitations b bundle_id := by
  unfold decideEvidence
  cases hb : d.evidence_bundle with
  | none =>
    left
    refine ⟨fun h => ?_, d.retryOrAbstain_other (by decide)⟩
    have hsome := h.bundle
    rw [hb] at hsome
    cases hsome
  | some b =>
    dsimp only
    split
    · next hcount =>
      exact .inl ⟨fun h => not_lt.mpr h.count hcount, d.retryOrAbstain_other (by decide)⟩
    · next hcount =>
      split
      · next hquality =>
        exact .inl ⟨fun h => not_lt.mpr h.quality hquality, d.retryOrAbstain_other (by decide)⟩
      · next hquality =>
        right
        have hsome : d.evidence_bundle.isSome = true := by
          rw [hb]
          rfl
        exact ⟨⟨hsome, not_lt.mp hcount, not_lt.mp hquality⟩, b, rfl, rfl⟩

/-- The gates before the citations end in a decision that is no answer, or are passed. -/
theorem decide_cases :
    (¬ d.ReachesCitations ∧ ∃ dec, d.decide = .ok dec ∧ dec.action ≠ .answer) ∨
      d.ReachesCitations ∧ ∃ b, d.evidence_bundle = some b ∧
        d.decide = d.decideCitations b (some b.val.bundle_id) := by
  by_cases hintegrity : d.integrity_ok = true
  · have hpolicy : (¬ d.Sufficient ∧ ∃ dec, d.decide = .ok dec ∧ dec.action ≠ .answer) ∨
        d.decide = d.decidePolicy (d.evidence_bundle.map (·.val.bundle_id)) := by
      unfold decide
      dsimp only
      rw [hintegrity, Bool.not_true, if_neg Bool.false_ne_true]
      cases hb : d.evidence_bundle with
      | none =>
        dsimp only
        split
        · left
          refine ⟨fun h => ?_, d.make_other (by decide +kernel) (by decide)⟩
          have hsome := h.bundle
          rw [hb] at hsome
          cases hsome
        · exact .inr rfl
      | some b =>
        right
        dsimp only
        rw [requestScope_eq hb]
        show (validateBundle _ _ >>= _) = _
        rw [validateBundle_request]
        · rfl
        · intro s hs
          rw [Option.map_eq_some_iff] at hs
          obtain ⟨-, -, rfl⟩ := hs
          rfl
    rcases hpolicy with ⟨hsufficient, hdecision⟩ | hdecide
    · exact .inl ⟨fun h => hsufficient h.toSufficient, hdecision⟩
    · rw [hdecide]
      rcases d.decidePolicy_cases (d.evidence_bundle.map (·.val.bundle_id)) with
        ⟨hallowed, hdecision⟩ | ⟨hallowed, heq⟩
      · exact .inl ⟨fun h => hallowed h.toAllowed, hdecision⟩
      · rw [heq]
        rcases d.decideEvidence_cases (d.evidence_bundle.map (·.val.bundle_id)) with
          ⟨hsufficient, hdecision⟩ | ⟨hsufficient, b, hb, heq⟩
        · exact .inl ⟨fun h => hsufficient h.toSufficient, hdecision⟩
        · refine .inr ⟨⟨hallowed, hsufficient, hintegrity⟩, b, hb, ?_⟩
          rw [heq, hb]
          rfl
  · left
    refine ⟨fun h => hintegrity h.integrity, ?_⟩
    unfold decide
    dsimp only
    rw [Bool.eq_false_iff.mpr hintegrity, Bool.not_false, if_pos rfl]
    exact d.make_other (by decide +kernel) (by decide)

/-- What comes after the citations is an answer, if they have the support and the signal asked for, and
another decision otherwise. -/
theorem decideSupport_cases {bundle_id : Option String} (hid : bundle_id.getD "" ≠ "") :
    (¬ (d.Supported ∧ AtLeast d.policy.min_provider_confidence_signal d.provider_confidence_signal) ∧
      ∃ dec, d.decideSupport bundle_id = .ok dec ∧ dec.action ≠ .answer) ∨
    (d.Supported ∧ AtLeast d.policy.min_provider_confidence_signal d.provider_confidence_signal) ∧
      d.decideSupport bundle_id = .ok (d.decision .answer "grounded_evidence" bundle_id) := by
  unfold decideSupport
  cases hfailure : d.citationSupportFailure with
  | some reason =>
    left
    refine ⟨fun h => ?_, d.retryOrAbstain_other (d.citationSupportFailure_mem hfailure)⟩
    rw [d.citationSupportFailure_eq_none.mpr h.1] at hfailure
    cases hfailure
  | none =>
    have hsupported := d.citationSupportFailure_eq_none.mp hfailure
    cases d.provider_confidence_signal with
    | none =>
      left
      refine ⟨?_, d.make_other (by decide +kernel) (by decide)⟩
      rintro ⟨-, q, hq, -⟩
      cases hq
    | some signal =>
      dsimp only
      split
      · next hlow =>
        left
        refine ⟨?_, d.make_other (by decide +kernel) (by decide)⟩
        rintro ⟨-, q, hq, hle⟩
        cases hq
        exact not_lt.mpr hle hlow
      · next hhigh =>
        exact .inr ⟨⟨hsupported, signal, rfl, not_lt.mp hhigh⟩,
          d.make_ok (by decide +kernel) fun _ => hid⟩

/-- The citations of a bundle are no more than a hundred. -/
theorem Cites.length_le {d : DecisionInput env} (h : d.Cites b) {cited : List String}
    (hcited : d.cited_evidence_ids = some cited) : cited.length ≤ 100 := by
  obtain ⟨hne, hnodup, hmem⟩ := h cited hcited
  calc cited.length ≤ b.val.ids.length := (List.subperm_of_subset hnodup hmem).length_le
    _ ≤ 100 := length_ids_le b

/-- The check of the citations raises if there are more than a hundred; otherwise it ends in a decision,
or is passed. -/
theorem decideCitations_cases (b : EvidenceBundle env) (bundle_id : Option String) :
    (¬ d.Cites b ∧
      ((∃ cited, d.cited_evidence_ids = some cited ∧ 100 < cited.length) ∧
          d.decideCitations b bundle_id = .error (.model "CitationValidationReport") ∨
        (∀ cited, d.cited_evidence_ids = some cited → cited.length ≤ 100) ∧
          ∃ dec, d.decideCitations b bundle_id = .ok dec ∧ dec.action ≠ .answer)) ∨
    d.Cites b ∧ d.decideCitations b bundle_id = d.decideSupport bundle_id := by
  unfold decideCitations
  cases hcited : d.cited_evidence_ids with
  | none =>
    right
    refine ⟨?_, rfl⟩
    intro cited h
    rw [hcited] at h
    cases h
  | some cited =>
    have hcites : d.Cites b ↔ cited ≠ [] ∧ cited.Nodup ∧ ∀ id ∈ cited, id ∈ b.val.ids := by
      unfold Cites
      rw [hcited]
      simp
    dsimp only
    rw [validateCitations_eq]
    by_cases hcount : cited.length ≤ 100
    · rw [if_pos hcount]
      dsimp only [bind, Except.bind]
      by_cases herrors : citationErrors b cited = []
      · rw [herrors]
        exact .inr ⟨hcites.mpr ((citationErrors_eq_nil b).mp herrors), rfl⟩
      · left
        refine ⟨fun h => herrors ((citationErrors_eq_nil b).mpr (hcites.mp h)), .inr ⟨?_, ?_⟩⟩
        · intro cited' h
          cases h
          exact hcount
        · have hempty : (citationErrors b cited).isEmpty = false := by
            rw [← Bool.not_eq_true, List.isEmpty_iff]
            exact herrors
          rw [hempty, Bool.not_false, if_pos rfl]
          exact d.make_other (by decide +kernel) (by decide)
    · left
      refine ⟨fun h => hcount (h.length_le hcited), .inl ⟨⟨cited, rfl, not_le.mp hcount⟩, ?_⟩⟩
      rw [if_neg hcount]
      rfl

/-- An input that passes all the gates is answered, from its bundle. -/
theorem decide_of_passes {d : DecisionInput env} (h : d.Passes) : ∃ b, d.evidence_bundle = some b ∧
    d.decide = .ok (d.decision .answer "grounded_evidence" (some b.val.bundle_id)) := by
  rcases d.decide_cases with ⟨hreaches, -⟩ | ⟨-, b, hb, hdecide⟩
  · exact absurd h.toReachesCitations hreaches
  · refine ⟨b, hb, ?_⟩
    rw [hdecide]
    rcases d.decideCitations_cases b (some b.val.bundle_id) with ⟨hcites, -⟩ | ⟨-, heq⟩
    · exact absurd (h.cites b hb) hcites
    · rw [heq]
      rcases d.decideSupport_cases (bundle_id_ne_empty b) with
        ⟨hsupport, -⟩ | ⟨-, hanswer⟩
      · exact absurd ⟨h.supported, h.signal⟩ hsupport
      · exact hanswer

/-- What is answered passes all the gates. -/
theorem passes_of_answer {d : DecisionInput env} {dec : Decision} (h : d.decide = .ok dec)
    (hanswer : dec.action = .answer) : d.Passes := by
  rcases d.decide_cases with ⟨-, dec', hdecide, hother⟩ | ⟨hreaches, b, hb, hdecide⟩
  · rw [hdecide] at h
    cases h
    exact absurd hanswer hother
  · rw [hdecide] at h
    rcases d.decideCitations_cases b (some b.val.bundle_id) with
      ⟨-, ⟨-, hraise⟩ | ⟨-, dec', heq, hother⟩⟩ | ⟨hcites, heq⟩
    · rw [hraise] at h
      cases h
    · rw [heq] at h
      cases h
      exact absurd hanswer hother
    · rw [heq] at h
      rcases d.decideSupport_cases (bundle_id_ne_empty b) with
        ⟨-, dec', hdec, hother⟩ | ⟨⟨hsupported, hsignal⟩, -⟩
      · rw [hdec] at h
        cases h
        exact absurd hanswer hother
      · refine ⟨hreaches, ?_, hsupported, hsignal⟩
        intro b' hb'
        rw [hb] at hb'
        cases hb'
        exact hcites

/-- There is a decision exactly if the citations are at most a hundred, or are not reached. -/
theorem decide_isOk : (∃ dec, d.decide = .ok dec) ↔
    (d.ReachesCitations → ∀ cited, d.cited_evidence_ids = some cited → cited.length ≤ 100) := by
  rcases d.decide_cases with ⟨hreaches, dec, hdecide, -⟩ | ⟨hreaches, b, hb, hdecide⟩
  · exact ⟨fun _ h => absurd h hreaches, fun _ => ⟨dec, hdecide⟩⟩
  · rw [hdecide]
    rcases d.decideCitations_cases b (some b.val.bundle_id) with
      ⟨-, ⟨⟨cited, hcited, hmany⟩, hraise⟩ | ⟨hfew, dec, heq, -⟩⟩ | ⟨hcites, heq⟩
    · constructor
      · rintro ⟨dec, hdec⟩
        rw [hraise] at hdec
        cases hdec
      · intro h
        exact absurd (h hreaches cited hcited) (not_le.mpr hmany)
    · exact ⟨fun _ _ => hfew, fun _ => ⟨dec, heq⟩⟩
    · rw [heq]
      refine ⟨fun _ _ cited hcited => hcites.length_le hcited, fun _ => ?_⟩
      rcases d.decideSupport_cases (bundle_id_ne_empty b) with
        ⟨-, dec, hdec, -⟩ | ⟨-, hdec⟩
      · exact ⟨dec, hdec⟩
      · exact ⟨_, hdec⟩

end DecisionInput

/-! ## Every input is decided -/

/-- The gate and the validator raise for more than a hundred citations of a bundle, or more than ten
thousand different words in a claim, and for nothing else. -/
theorem decide_total (env : Env) :
    (∀ d : DecisionInput env, (∃ dec, d.decide = .ok dec) ↔
      (d.ReachesCitations → ∀ cited, d.cited_evidence_ids = some cited → cited.length ≤ 100)) ∧
    (∀ (bundle : Option (EvidenceBundle env)) (cited : List String),
      (∃ report, validateCitations bundle cited = .ok report) ↔
        (bundle.isSome = true → cited.length ≤ 100)) ∧
    ∀ (v : EvidenceValidator) (w : Words) (claim : Arg) (bundle : Option (EvidenceBundle env))
      (cited : List String), (∃ report, v.validateClaimSupport w claim bundle cited = .ok report) ↔
        (bundle.isSome = true → cited.length ≤ 100) ∧
        ∀ normalized, boundedText "claim" v.max_text_chars claim = .ok normalized →
          (meaningfulTokens w normalized).length ≤ 10000 :=
  ⟨fun d => d.decide_isOk, validateCitations_isOk, validateClaimSupport_isOk⟩

/-- There is a bundle of one item. -/
theorem sample_bundle (env : Env) : ∃ b : EvidenceBundle env, b.val.evidence.length = 1 := by
  have hnormal : (sampleArgs "A fact." (.finite false 0)).normalise =
      .ok (sampleProvenance "A fact." (.finite false 0)) := by decide +kernel
  obtain ⟨e, -, hval⟩ := issue_of_normalise env hnormal rfl
  let payload : BundleRecord env := ⟨"", "t", "w", "c", "q", [e], []⟩
  let record : BundleRecord env :=
    { payload with bundle_id := serverBundleId payload, citation_map := citationMap payload.ids }
  have hwell : record.WellFormed := {
    count := by
      show 1 ≤ 100
      decide
    citations := by
      show (citationMap [e.val.evidence_id]).length ≤ 100
      simp [citationMap]
    scope := by
      show ScopeRecord.modelValidate ⟨"t", "w", "c"⟩ = .ok ⟨"t", "w", "c"⟩
      decide +kernel
    query := by
      show textField "query" 20000 "q" = .ok "q"
      decide +kernel
    scopes := by
      intro item hitem
      rw [List.mem_singleton.mp hitem, hval]
      rfl
    nodup := List.nodup_singleton _
    map := by
      show sameDict (citationMap payload.ids) (citationMap payload.ids) = true
      simp [sameDict]
    id := rfl }
  exact ⟨⟨record, accepted_iff.mpr hwell⟩, rfl⟩

/-- Zero is a signal. -/
theorem zero_signal : (0 : ℚ) ≤ 0 ∧ (0 : ℚ) ≤ 1 := by norm_num

/-- The policy of the defaults. -/
def samplePolicy : DecisionPolicy where
  min_evidence_count := 1
  min_retrieval_quality := ⟨0.65, by norm_num⟩
  min_citation_support := ⟨0.8, by norm_num⟩
  require_citation_support_metrics := false
  min_citation_precision := ⟨0.8, by norm_num⟩
  min_citation_recall := ⟨0.8, by norm_num⟩
  min_citation_completeness := ⟨0.8, by norm_num⟩
  max_unsupported_claim_rate := ⟨0, zero_signal⟩
  min_faithfulness := ⟨0.8, by norm_num⟩
  require_faithfulness := false
  required_citation_support_source := none
  min_provider_confidence_signal := ⟨0.6, by norm_num⟩
  max_retrieval_attempts := 1
  answerable_risk_levels := [.low]
  evidence_range := by decide
  attempts_range := by decide

/-- An input with a bundle of one item, that passes the gates before the citations. -/
def sampleInput (b : EvidenceBundle env) (hb : b.val.evidence.length = 1)
    (citation_support_metrics : Option CitationSupportMetrics) (cited : Option (List String)) :
    DecisionInput env where
  evidence_bundle := some b
  request := none
  retrieval_quality := ⟨1, by norm_num⟩
  evidence_count := 1
  citation_support := ⟨1, by norm_num⟩
  citation_support_metrics
  provider_confidence_signal := some ⟨1, by norm_num⟩
  domain_risk := .low
  clarity := .clear
  policy := samplePolicy
  retrieval_attempt := 0
  retrieval_available := true
  integrity_ok := true
  policy_allows_answer := true
  human_review_required := false
  cited_evidence_ids := cited
  count_range := by decide
  attempt_range := by decide
  count := by
    intro b' h
    cases h
    exact hb.symm
  scope := by
    intro b' r _ h
    cases h

/-- The input passes the gates before the citations. -/
theorem sampleInput_reaches (b : EvidenceBundle env) (hb : b.val.evidence.length = 1)
    (citation_support_metrics : Option CitationSupportMetrics) (cited : Option (List String)) :
    (sampleInput b hb citation_support_metrics cited).ReachesCitations where
  review := rfl
  risk := List.mem_singleton.mpr rfl
  clarity := rfl
  policy_allows := rfl
  bundle := rfl
  count := le_refl 1
  quality := by
    show ((0.65 : ℚ)) ≤ 1
    norm_num
  integrity := rfl

/-- A hundred and one citations make `decide` raise. -/
theorem decide_raises : ∃ cited : List String, ∀ env : Env, ∃ d : DecisionInput env,
    d.cited_evidence_ids = some cited ∧ ¬ ∃ dec, d.decide = .ok dec := by
  refine ⟨List.replicate 101 "ev_0", ?_⟩
  intro env
  obtain ⟨b, hb⟩ := sample_bundle env
  refine ⟨sampleInput b hb none (some (List.replicate 101 "ev_0")), rfl, ?_⟩
  rw [DecisionInput.decide_isOk]
  intro h
  have hcount := h (sampleInput_reaches b hb _ _) _ rfl
  rw [List.length_replicate] at hcount
  omega

/-! ## The gate is monotone -/

/-- Measurements that are as good as others: of the same source, with the same outcome, and each of them
there if it is there in the others. -/
structure CitationSupportMetrics.NoWorse (metrics metrics' : CitationSupportMetrics) : Prop where
  status : metrics'.status = metrics.status
  source : metrics'.source = metrics.source
  claims : metrics.evaluated_claims ≤ metrics'.evaluated_claims
  citation_precision : Option.Rel (· ≤ ·) metrics.citation_precision metrics'.citation_precision
  citation_recall : Option.Rel (· ≤ ·) metrics.citation_recall metrics'.citation_recall
  citation_completeness :
    Option.Rel (· ≤ ·) metrics.citation_completeness metrics'.citation_completeness
  unsupported : Option.Rel (· ≥ ·) metrics.unsupported_claim_rate metrics'.unsupported_claim_rate
  faithfulness : Option.Rel (· ≤ ·) metrics.faithfulness metrics'.faithfulness

/-- A policy that asks for no more than another. -/
structure DecisionPolicy.NoStricter (policy policy' : DecisionPolicy) : Prop where
  evidence : policy'.min_evidence_count ≤ policy.min_evidence_count
  quality : policy'.min_retrieval_quality ≤ policy.min_retrieval_quality
  support : policy'.min_citation_support ≤ policy.min_citation_support
  metrics : policy'.require_citation_support_metrics = true →
    policy.require_citation_support_metrics = true
  citation_precision : policy'.min_citation_precision ≤ policy.min_citation_precision
  citation_recall : policy'.min_citation_recall ≤ policy.min_citation_recall
  citation_completeness : policy'.min_citation_completeness ≤ policy.min_citation_completeness
  unsupported : policy.max_unsupported_claim_rate ≤ policy'.max_unsupported_claim_rate
  faithfulness : policy'.min_faithfulness ≤ policy.min_faithfulness
  required : policy'.require_faithfulness = true → policy.require_faithfulness = true
  source : ∀ s, policy'.required_citation_support_source = some s →
    policy.required_citation_support_source = some s
  signal : policy'.min_provider_confidence_signal ≤ policy.min_provider_confidence_signal
  risks : policy.answerable_risk_levels ⊆ policy'.answerable_risk_levels

/-- An input with the same bundle, citations, risk, intent and flags as another, whose signals are no
worse and whose policy is no stricter. -/
structure DecisionInput.NoWorse (d d' : DecisionInput env) : Prop where
  bundle : d'.evidence_bundle = d.evidence_bundle
  cited : d'.cited_evidence_ids = d.cited_evidence_ids
  risk : d'.domain_risk = d.domain_risk
  clarity : d'.clarity = d.clarity
  integrity : d'.integrity_ok = d.integrity_ok
  policy_allows : d'.policy_allows_answer = d.policy_allows_answer
  review : d'.human_review_required = d.human_review_required
  available : d'.retrieval_available = d.retrieval_available
  attempt : d'.retrieval_attempt = d.retrieval_attempt
  quality : d.retrieval_quality ≤ d'.retrieval_quality
  support : d.citation_support ≤ d'.citation_support
  metrics : Option.Rel CitationSupportMetrics.NoWorse d.citation_support_metrics
    d'.citation_support_metrics
  signal : Option.Rel (· ≤ ·) d.provider_confidence_signal d'.provider_confidence_signal
  policy : d.policy.NoStricter d'.policy

/-- A measurement that is high enough stays so when it is no lower and its minimum no higher. -/
theorem AtLeast.mono {minimum minimum' : Signal} {observed observed' : Option Signal}
    (h : AtLeast minimum observed) (hminimum : minimum' ≤ minimum)
    (hobserved : Option.Rel (· ≤ ·) observed observed') : AtLeast minimum' observed' := by
  obtain ⟨q, rfl, hq⟩ := h
  cases hobserved with
  | some hle => exact ⟨_, rfl, (hminimum.trans hq).trans hle⟩

/-- Metrics that are what a policy asks for stay so when they are no worse and it is no stricter. -/
theorem CitationSupportMetrics.Meets.mono {metrics metrics' : CitationSupportMetrics}
    {policy policy' : DecisionPolicy} (h : metrics.Meets policy) (hmetrics : metrics.NoWorse metrics')
    (hpolicy : policy.NoStricter policy') : metrics'.Meets policy' where
  status := hmetrics.status.trans h.status
  claims := h.claims.trans hmetrics.claims
  source := by
    intro s hs
    rw [hmetrics.source]
    exact h.source s (hpolicy.source s hs)
  citation_precision := h.citation_precision.mono hpolicy.citation_precision hmetrics.citation_precision
  citation_recall := h.citation_recall.mono hpolicy.citation_recall hmetrics.citation_recall
  citation_completeness :=
    h.citation_completeness.mono hpolicy.citation_completeness hmetrics.citation_completeness
  unsupported := by
    obtain ⟨q, hq, hle⟩ := h.unsupported
    have hrel := hmetrics.unsupported
    rw [hq] at hrel
    generalize metrics'.unsupported_claim_rate = observed at hrel
    cases hrel with
    | some hlower => exact ⟨_, rfl, (hlower.trans hle).trans hpolicy.unsupported⟩
  required := by
    intro hrequired
    have hsome := h.required (hpolicy.required hrequired)
    have hrel := hmetrics.faithfulness
    obtain ⟨q, hq⟩ := Option.isSome_iff_exists.mp hsome
    rw [hq] at hrel
    generalize metrics'.faithfulness = observed at hrel ⊢
    cases hrel
    rfl
  faithfulness := by
    intro q' hq'
    have hrel := hmetrics.faithfulness
    rw [hq'] at hrel
    generalize hobserved : metrics.faithfulness = observed at hrel
    cases hrel with
    | some hle => exact (hpolicy.faithfulness.trans (h.faithfulness _ hobserved)).trans hle

/-- What passes all the gates still does when it is no worse. -/
theorem DecisionInput.Passes.mono {d d' : DecisionInput env} (h : d.Passes) (hd : d.NoWorse d') :
    d'.Passes where
  review := hd.review.trans h.review
  risk := by
    rw [hd.risk]
    exact hd.policy.risks h.risk
  clarity := hd.clarity.trans h.clarity
  policy_allows := hd.policy_allows.trans h.policy_allows
  bundle := by
    rw [hd.bundle]
    exact h.bundle
  count := by
    obtain ⟨b, hb⟩ := Option.isSome_iff_exists.mp h.bundle
    calc d'.policy.min_evidence_count ≤ d.policy.min_evidence_count := hd.policy.evidence
      _ ≤ d.evidence_count := h.count
      _ = b.val.evidence.length := d.count b hb
      _ = d'.evidence_count := (d'.count b (hd.bundle.trans hb)).symm
  quality := (hd.policy.quality.trans h.quality).trans hd.quality
  integrity := hd.integrity.trans h.integrity
  cites := by
    intro b hb cited hcited
    rw [hd.bundle] at hb
    rw [hd.cited] at hcited
    exact h.cites b hb cited hcited
  supported := by
    have hsupported := h.supported
    have hrel := hd.metrics
    unfold Supported at hsupported ⊢
    generalize d.citation_support_metrics = metrics at hsupported hrel
    generalize d'.citation_support_metrics = metrics' at hrel ⊢
    cases hrel with
    | none =>
      refine ⟨?_, (hd.policy.support.trans hsupported.2).trans hd.support⟩
      rw [← Bool.not_eq_true]
      intro hrequire
      have hrequired := hd.policy.metrics hrequire
      rw [hsupported.1] at hrequired
      cases hrequired
    | some hmetrics => exact hsupported.mono hmetrics hd.policy
  signal := h.signal.mono hd.policy.signal hd.signal

/-- An input that is no worse than one that is answered is answered; and an answer is given from a bundle
that is valid, of the scope of the request, and has what is cited. -/
theorem answer_monotone (env : Env) :
    (∀ d d' : DecisionInput env, d.NoWorse d' →
      (∃ dec, d.decide = .ok dec ∧ dec.action = .answer) →
      ∃ dec, d'.decide = .ok dec ∧ dec.action = .answer) ∧
    ∀ (d : DecisionInput env) (dec : Decision), d.decide = .ok dec → dec.action = .answer →
      ∃ b, d.evidence_bundle = some b ∧ dec.evidence_bundle_id = some b.val.bundle_id ∧
        (∃ scope report, d.requestScope = .ok scope ∧
          validateBundle (some b) (scope.map .scope) = .ok report ∧ report.valid = true) ∧
        (∀ scope, d.requestScope = .ok (some scope) → b.scope = scope) ∧ d.Cites b := by
  refine ⟨?_, ?_⟩
  · rintro d d' hd ⟨dec, hdec, hanswer⟩
    obtain ⟨b, -, hdecide⟩ := DecisionInput.decide_of_passes
      ((DecisionInput.passes_of_answer hdec hanswer).mono hd)
    exact ⟨_, hdecide, rfl⟩
  · intro d dec hdec hanswer
    have hpasses := DecisionInput.passes_of_answer hdec hanswer
    obtain ⟨b, hb, hdecide⟩ := DecisionInput.decide_of_passes hpasses
    have hscope := DecisionInput.requestScope_eq hb
    rw [hdec] at hdecide
    cases hdecide
    refine ⟨b, hb, rfl, ⟨_, _, hscope, DecisionInput.validateBundle_request ?_, rfl⟩, ?_,
      hpasses.cites b hb⟩
    · intro s hs
      rw [Option.map_eq_some_iff] at hs
      obtain ⟨-, -, rfl⟩ := hs
      rfl
    · intro s hs
      rw [hscope, Except.ok.injEq, Option.map_eq_some_iff] at hs
      obtain ⟨-, -, heq⟩ := hs
      exact heq

/-- Measurements that are as good as can be, without one of the faithfulness. -/
def sampleMetrics : CitationSupportMetrics where
  status := .pass
  citation_precision := some ⟨1, by norm_num⟩
  citation_recall := some ⟨1, by norm_num⟩
  citation_completeness := some ⟨1, by norm_num⟩
  unsupported_claim_rate := some ⟨0, zero_signal⟩
  faithfulness := none
  evaluated_claims := 1
  source := "reviewer"
  claims_range := by decide

/-- The measurements are what the policy asks for. -/
theorem sampleMetrics_meets : sampleMetrics.Meets samplePolicy where
  status := rfl
  claims := le_refl 1
  source := by
    intro s h
    cases h
  citation_precision := by
    refine ⟨_, rfl, ?_⟩
    show (0.8 : ℚ) ≤ 1
    norm_num
  citation_recall := by
    refine ⟨_, rfl, ?_⟩
    show (0.8 : ℚ) ≤ 1
    norm_num
  citation_completeness := by
    refine ⟨_, rfl, ?_⟩
    show (0.8 : ℚ) ≤ 1
    norm_num
  unsupported := ⟨_, rfl, le_refl _⟩
  required := by
    intro h
    cases h
  faithfulness := by
    intro q h
    cases h

/-- An input that is answered is not when the measurements are those of a run that failed, nor when a
faithfulness that was not measured is measured and low. -/
theorem answer_lost : ∃ (metrics : CitationSupportMetrics) (low : Signal), ∀ env : Env,
    ∃ d : DecisionInput env, d.citation_support_metrics = some metrics ∧
      (∃ dec, d.decide = .ok dec ∧ dec.action = .answer) ∧
      (∀ dec, { d with citation_support_metrics := some { metrics with status := .fail } }.decide =
        .ok dec → dec.action ≠ .answer) ∧
      ∀ dec, { d with citation_support_metrics := some { metrics with faithfulness := some low } }.decide =
        .ok dec → dec.action ≠ .answer := by
  refine ⟨sampleMetrics, ⟨0.1, by norm_num⟩, ?_⟩
  intro env
  obtain ⟨b, hb⟩ := sample_bundle env
  refine ⟨sampleInput b hb (some sampleMetrics) none, rfl, ?_, ?_, ?_⟩
  · have hsignal : AtLeast samplePolicy.min_provider_confidence_signal (some ⟨1, by norm_num⟩) := by
      refine ⟨_, rfl, ?_⟩
      show (0.6 : ℚ) ≤ 1
      norm_num
    have hpasses : (sampleInput b hb (some sampleMetrics) none).Passes := {
      sampleInput_reaches b hb _ _ with
      cites := by
        intro b' _ cited h
        cases h
      supported := sampleMetrics_meets
      signal := hsignal }
    obtain ⟨b', -, hdecide⟩ := DecisionInput.decide_of_passes hpasses
    exact ⟨_, hdecide, rfl⟩
  · intro dec hdec hanswer
    have hmeets : CitationSupportMetrics.Meets { sampleMetrics with status := .fail } samplePolicy :=
      (DecisionInput.passes_of_answer hdec hanswer).supported
    cases hmeets.status
  · intro dec hdec hanswer
    have hmeets : CitationSupportMetrics.Meets
        { sampleMetrics with faithfulness := some ⟨0.1, by norm_num⟩ } samplePolicy :=
      (DecisionInput.passes_of_answer hdec hanswer).supported
    have hle : (0.8 : ℚ) ≤ 0.1 := hmeets.faithfulness _ rfl
    norm_num at hle

end RickIntelligence.Grounding
