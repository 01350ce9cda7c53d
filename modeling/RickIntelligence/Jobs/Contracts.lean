import RickIntelligence.Jobs.Fields

/-!
# The records of the jobs contract

The value types of `packages/jobs/src/rick_jobs/contracts.py` below `Job`: the states and their
transition table, the scope, a failure, a result, an attempt, a lease, and what a publication owner
reports. Each record's `__post_init__` is a function on its fields, and the record is the type of
what that function returns (`Validated`). Timestamps are exact rationals; a value that is not finite
is refused where it enters, and is not represented.

Beside each `postInit` stands what it accepts, as a structure of named facts, and the two lemmas
that the rest of the development uses: what `postInit` returns has the facts, and fields with the
facts are returned unchanged.
-/

namespace RickIntelligence.Jobs

open Lib

/-! ## States -/

/-- `JobState`. -/
inductive JobState where
  | pending
  | queued
  | running
  | succeeded
  | failed
  | cancelled
  | retrying
  | deadLetter
  deriving DecidableEq, Repr

namespace JobState

/-- The value of a state, as it is stored. -/
def value : JobState → String
  | pending => "PENDING"
  | queued => "QUEUED"
  | running => "RUNNING"
  | succeeded => "SUCCEEDED"
  | failed => "FAILED"
  | cancelled => "CANCELLED"
  | retrying => "RETRYING"
  | deadLetter => "DEAD_LETTER"

/-- `JobState.terminal`. -/
def terminal (s : JobState) : Bool := [succeeded, cancelled, deadLetter].contains s

end JobState

/-- `_TRANSITIONS`. -/
def allowedTransitions : JobState → List JobState
  | .pending => [.queued, .cancelled]
  | .queued => [.running, .cancelled]
  | .running => [.succeeded, .failed, .cancelled]
  | .failed => [.retrying, .deadLetter]
  | .retrying => [.queued, .deadLetter, .cancelled]
  | .succeeded => []
  | .cancelled => []
  | .deadLetter => []

/-- `can_transition`. -/
def canTransition (from_state to_state : JobState) : Bool :=
  (allowedTransitions from_state).contains to_state

/-- A state is terminal exactly when nothing follows it. -/
theorem terminal_iff (s : JobState) : s.terminal = true ↔ ∀ t, canTransition s t = false := by
  constructor
  · intro h t
    cases s <;> first | rfl | exact absurd h (by decide)
  · intro h
    cases s with
    | pending => exact absurd (h .queued) (by decide)
    | queued => exact absurd (h .running) (by decide)
    | running => exact absurd (h .failed) (by decide)
    | failed => exact absurd (h .retrying) (by decide)
    | retrying => exact absurd (h .queued) (by decide)
    | succeeded | cancelled | deadLetter => rfl

/-! ## Timestamps and attempt numbers -/

/-- The refusal of `_timestamp`. -/
def timestampCheck (field : String) (t : ℚ) : Bool × ContractError :=
  (decide (t < 0), .validation (field ++ " must be a finite timestamp"))

/-- `_timestamp`. -/
def timestamp (field : String) (t : ℚ) : Except ContractError ℚ := do
  raiseFirst [timestampCheck field t]
  return t

/-- The refusal of `_attempt_number`. -/
def attemptNumberCheck (field : String) (n : ℕ) : Bool × ContractError :=
  (!(decide (1 ≤ n) && decide (n ≤ maxAttempts)), .validation (field ++ " is out of range"))

/-- `_timestamp` returns a value that is not negative. -/
@[simp]
theorem timestamp_ok {field : String} {t u : ℚ} : timestamp field t = .ok u ↔ 0 ≤ t ∧ u = t := by
  simp only [timestamp, timestampCheck, except_bind_ok, raiseFirst_ok, List.mem_singleton,
    forall_eq, decide_eq_false_iff_not, not_lt, pure, Except.pure, Except.ok.injEq, exists_const]
  exact and_congr_right fun _ => eq_comm

/-! ## Scopes -/

/-- The fields of a scope. -/
@[ext]
structure JobScopeFields where
  tenant_id : String
  workspace_id : String
  collection_id : String
  deriving DecidableEq, Repr

/-- `JobScope.__post_init__`. -/
def JobScopeFields.postInit (s : JobScopeFields) : Except ContractError JobScopeFields := do
  let tenant_id ← identifier "tenant_id" s.tenant_id
  let workspace_id ← identifier "workspace_id" s.workspace_id
  let collection_id ← identifier "collection_id" s.collection_id
  return { tenant_id, workspace_id, collection_id }

instance : Normalises JobScopeFields.postInit where
  idem {a b} h := by
    simp only [JobScopeFields.postInit, except_bind_ok, pure, Except.pure, Except.ok.injEq] at h ⊢
    obtain ⟨t, ht, w, hw, c, hc, rfl⟩ := h
    exact ⟨t, identifier_idem ht, w, identifier_idem hw, c, identifier_idem hc, rfl⟩

/-- `JobScope`: the complete authorization and uniqueness scope of a job. -/
abbrev JobScope := Validated JobScopeFields.postInit

/-! ## Failures -/

/-- The fields of a failure. -/
@[ext]
structure JobFailureFields where
  code : String
  message : String
  retryable : Bool
  attempt : ℕ
  occurred_at : ℚ
  deriving DecidableEq, Repr

namespace JobFailureFields

/-- The code of a failure: `_text` in lower case, a safe error, and no forbidden word. -/
def cleanCode (value : String) : Except ContractError String := do
  let stripped ← text "failure.code" maxErrorCodeLength value
  let code := lower stripped
  raiseFirst [(!fieldPattern code || hasForbiddenPart code, .validation "failure.code is invalid")]
  return code

/-- `JobFailure.__post_init__`. -/
def postInit (f : JobFailureFields) : Except ContractError JobFailureFields := do
  let code ← cleanCode f.code
  let message ← text "failure.message" maxMessageLength f.message
  raiseFirst [attemptNumberCheck "failure.attempt" f.attempt,
    timestampCheck "failure.occurred_at" f.occurred_at]
  return { f with code, message }

/-- What the constructor of a failure accepts. -/
structure Ok (f : JobFailureFields) : Prop where
  code_pattern : fieldPattern f.code = true
  code_allowed : hasForbiddenPart f.code = false
  message_ok : TextOk maxMessageLength f.message
  one_le_attempt : 1 ≤ f.attempt
  attempt_le : f.attempt ≤ maxAttempts
  occurred_nonneg : 0 ≤ f.occurred_at

/-- What the constructor returns it accepts, with the facts of the failure unchanged. -/
theorem ok_of_postInit {f g : JobFailureFields} (h : f.postInit = .ok g) :
    g.Ok ∧ g.retryable = f.retryable ∧ g.attempt = f.attempt ∧ g.occurred_at = f.occurred_at := by
  simp only [postInit, cleanCode, except_bind_ok, text_ok, raiseFirst_ok, List.mem_cons,
    List.not_mem_nil, or_false, forall_eq_or_imp, forall_eq, attemptNumberCheck, timestampCheck,
    Bool.or_eq_false_iff, Bool.not_eq_false', Bool.and_eq_true, decide_eq_true_eq,
    decide_eq_false_iff_not, not_lt, pure, Except.pure, Except.ok.injEq, exists_const] at h
  obtain ⟨code, ⟨s, -, ⟨hp, hf⟩, rfl⟩, message, ⟨-, hm⟩, ⟨⟨h1, h2⟩, h3⟩, rfl⟩ := h
  exact ⟨⟨hp, hf, hm, h1, h2, h3⟩, rfl, rfl, rfl⟩

/-- Accepted fields are returned unchanged. -/
theorem postInit_self {f : JobFailureFields} (h : f.Ok) : f.postInit = .ok f := by
  have hcode := fieldName_ok.mp (@fieldName_self "code" _ h.code_pattern h.code_allowed)
  simp only [postInit, cleanCode, except_bind_ok, text_ok, raiseFirst_ok, List.mem_cons,
    List.not_mem_nil, or_false, forall_eq_or_imp, forall_eq, attemptNumberCheck, timestampCheck,
    Bool.or_eq_false_iff, Bool.not_eq_false', Bool.and_eq_true, decide_eq_true_eq,
    decide_eq_false_iff_not, not_lt, pure, Except.pure, Except.ok.injEq, exists_const]
  refine ⟨f.code, ⟨strip f.code, ⟨rfl, hcode.1⟩, ?_, hcode.2.1.symm⟩, f.message,
    ⟨h.message_ok.stripped.symm, h.message_ok⟩, ⟨⟨h.one_le_attempt, h.attempt_le⟩,
      h.occurred_nonneg⟩, rfl⟩
  rw [← hcode.2.1]
  exact ⟨h.code_pattern, h.code_allowed⟩

end JobFailureFields

instance : Normalises JobFailureFields.postInit where
  idem h := JobFailureFields.postInit_self (JobFailureFields.ok_of_postInit h).1

/-- `JobFailure`. -/
abbrev JobFailure := Validated JobFailureFields.postInit

/-- A failure has the facts that its constructor asks for. -/
theorem JobFailure.ok (f : JobFailure) : f.val.Ok := (JobFailureFields.ok_of_postInit f.accepted).1

/-! ## Results -/

/-- The fields of a result. -/
@[ext]
structure JobResultFields where
  output_refs : Mapping
  document_id : Option String
  completed_at : ℚ
  deriving DecidableEq, Repr

namespace JobResultFields

/-- The document reference of a result, when it has one. -/
def cleanDocumentId : Option String → Except ContractError (Option String)
  | none => .ok none
  | some d => some <$> identifier "result.document_id" d

/-- `JobResult.__post_init__`. -/
def postInit (r : JobResultFields) : Except ContractError JobResultFields := do
  let output_refs ← boundedMap "result.output_refs" maxMetadataFields maxPayloadValueLength
    r.output_refs
  let document_id ← cleanDocumentId r.document_id
  raiseFirst [timestampCheck "result.completed_at" r.completed_at]
  return { r with output_refs, document_id }

/-- What the constructor of a result accepts. -/
structure Ok (r : JobResultFields) : Prop where
  refs_normal : NormalMap maxMetadataFields maxPayloadValueLength r.output_refs
  document_ok : ∀ d, r.document_id = some d → identifier "result.document_id" d = .ok d
  completed_nonneg : 0 ≤ r.completed_at

/-- What the constructor returns it accepts, with the completion time unchanged. -/
theorem ok_of_postInit {r q : JobResultFields} (h : r.postInit = .ok q) :
    q.Ok ∧ q.completed_at = r.completed_at := by
  simp only [postInit, except_bind_ok, raiseFirst_ok, List.mem_singleton, forall_eq,
    timestampCheck, decide_eq_false_iff_not, not_lt, pure, Except.pure, Except.ok.injEq,
    exists_const] at h
  obtain ⟨refs, hrefs, doc, hdoc, ht, rfl⟩ := h
  refine ⟨⟨boundedMap_normal hrefs, ?_, ht⟩, rfl⟩
  rintro d rfl
  cases hr : r.document_id with
  | none => simp [hr, cleanDocumentId] at hdoc
  | some d0 =>
    simp only [hr, cleanDocumentId, except_map_ok, Option.some.injEq] at hdoc
    obtain ⟨_, hd, rfl⟩ := hdoc
    exact identifier_idem hd

/-- Accepted fields are returned unchanged. -/
theorem postInit_self {r : JobResultFields} (h : r.Ok) : r.postInit = .ok r := by
  have hdoc : cleanDocumentId r.document_id = .ok r.document_id := by
    cases hr : r.document_id with
    | none => rfl
    | some d => simp [cleanDocumentId, h.document_ok d hr, Functor.map, Except.map]
  simp only [postInit, except_bind_ok, raiseFirst_ok, List.mem_singleton, forall_eq,
    timestampCheck, decide_eq_false_iff_not, not_lt, pure, Except.pure, Except.ok.injEq,
    exists_const]
  exact ⟨_, boundedMap_self h.refs_normal, _, hdoc, h.completed_nonneg, rfl⟩

end JobResultFields

instance : Normalises JobResultFields.postInit where
  idem h := JobResultFields.postInit_self (JobResultFields.ok_of_postInit h).1

/-- `JobResult`. -/
abbrev JobResult := Validated JobResultFields.postInit

/-- A result has the facts that its constructor asks for. -/
theorem JobResult.ok (r : JobResult) : r.val.Ok := (JobResultFields.ok_of_postInit r.accepted).1

/-! ## Attempts -/

/-- The fields of an attempt. -/
@[ext]
structure JobAttemptFields where
  number : ℕ
  worker_id : String
  state : JobState
  started_at : ℚ
  finished_at : Option ℚ
  failure : Option JobFailure
  deriving DecidableEq

namespace JobAttemptFields

/-- The refusals of an attempt's times. -/
def timeChecks (a : JobAttemptFields) : List (Bool × ContractError) :=
  timestampCheck "attempt.started_at" a.started_at :: match a.finished_at with
    | none => []
    | some finished =>
      [timestampCheck "attempt.finished_at" finished,
        (decide (finished < a.started_at),
          .validation "attempt.finished_at precedes attempt.started_at")]

/-- The refusals of a failed attempt that finished. -/
def failedChecks (a : JobAttemptFields) (finished : ℚ) : List (Bool × ContractError) :=
  match a.failure with
  | none => [(true, .validation "failed attempts require their matching failure")]
  | some f =>
    [(f.val.attempt != a.number, .validation "failed attempts require their matching failure"),
      (decide (f.val.occurred_at < a.started_at),
        .validation "attempt.failure.occurred_at precedes attempt.started_at"),
      (decide (finished < f.val.occurred_at),
        .validation "attempt.failure.occurred_at is after attempt.finished_at")]

/-- The refusals of an attempt's shape, by its state. -/
def stateChecks (a : JobAttemptFields) : List (Bool × ContractError) :=
  if a.state = .running then
    [(a.finished_at.isSome || a.failure.isSome,
      .validation "running attempts cannot be finished or failed")]
  else match a.finished_at with
    | none => [(true, .validation "finished attempts require finished_at")]
    | some finished =>
      if a.state = .failed then a.failedChecks finished
      else [(a.failure.isSome, .validation "only failed attempts may contain a failure")]

/-- The states of an attempt. -/
def lifecycleStates : List JobState := [.running, .succeeded, .failed, .cancelled]

/-- `JobAttempt.__post_init__`. -/
def postInit (a : JobAttemptFields) : Except ContractError JobAttemptFields := do
  raiseFirst [attemptNumberCheck "attempt.number" a.number]
  let worker_id ← identifier "attempt.worker_id" a.worker_id
  raiseFirst ((!lifecycleStates.contains a.state,
    .validation "attempt.state is not an attempt lifecycle state") :: a.timeChecks ++ a.stateChecks)
  return { a with worker_id }

/-- What the constructor of an attempt accepts. A finished attempt has its end, after its start; a
failed one has its failure between the two. -/
structure Ok (a : JobAttemptFields) : Prop where
  one_le_number : 1 ≤ a.number
  number_le : a.number ≤ maxAttempts
  worker_ok : identifierPattern a.worker_id = true
  worker_stripped : strip a.worker_id = a.worker_id
  lifecycle : a.state ∈ lifecycleStates
  started_nonneg : 0 ≤ a.started_at
  started_le : ∀ t, a.finished_at = some t → a.started_at ≤ t
  running_open : a.state = .running → a.finished_at = none ∧ a.failure = none
  finished_closed : a.state ≠ .running → a.finished_at.isSome = true
  failed_failure : a.state = .failed → ∃ f, a.failure = some f ∧ f.val.attempt = a.number ∧
    a.started_at ≤ f.val.occurred_at ∧ ∀ t, a.finished_at = some t → f.val.occurred_at ≤ t
  no_failure : a.state ≠ .failed → a.failure = none

/-- The time checks pass exactly on times in order. -/
theorem timeChecks_ok {a : JobAttemptFields} : (∀ c ∈ a.timeChecks, c.1 = false) ↔
    0 ≤ a.started_at ∧ ∀ t, a.finished_at = some t → a.started_at ≤ t := by
  cases h : a.finished_at with
  | none => simp [timeChecks, timestampCheck, h]
  | some t =>
    simp only [timeChecks, timestampCheck, h, List.mem_cons, List.not_mem_nil, or_false,
      forall_eq_or_imp, forall_eq, decide_eq_false_iff_not, not_lt, Option.some.injEq,
      forall_eq']
    constructor
    · rintro ⟨h0, -, h2⟩
      exact ⟨h0, h2⟩
    · rintro ⟨h0, h2⟩
      exact ⟨h0, le_trans h0 h2, h2⟩

/-- The shape checks pass exactly on attempts of the shape of their state. -/
theorem stateChecks_ok {a : JobAttemptFields} : (∀ c ∈ a.stateChecks, c.1 = false) ↔
    (a.state = .running → a.finished_at = none ∧ a.failure = none) ∧
      (a.state ≠ .running → a.finished_at.isSome = true) ∧
      (a.state = .failed → ∃ f, a.failure = some f ∧ f.val.attempt = a.number ∧
        a.started_at ≤ f.val.occurred_at ∧ ∀ t, a.finished_at = some t → f.val.occurred_at ≤ t) ∧
      (a.state ≠ .failed → a.failure = none) := by
  by_cases hr : a.state = .running
  · simp [stateChecks, hr]
  · cases hf : a.finished_at with
    | none => simp [stateChecks, hr, hf]
    | some t =>
      by_cases hs : a.state = .failed
      · cases hq : a.failure with
        | none => simp [stateChecks, failedChecks, hf, hs, hq]
        | some f => simp [stateChecks, failedChecks, hf, hs, hq]
      · simp [stateChecks, hr, hf, hs]

/-- The constructor strips the worker, and accepts what has the facts of an attempt. -/
theorem postInit_ok {a b : JobAttemptFields} :
    a.postInit = .ok b ↔ b = { a with worker_id := strip a.worker_id } ∧ b.Ok := by
  simp only [postInit, except_bind_ok, raiseFirst_ok, List.mem_singleton, forall_eq,
    attemptNumberCheck, identifier_ok, Bool.not_eq_false', Bool.and_eq_true, decide_eq_true_eq,
    pure, Except.pure, Except.ok.injEq, exists_const]
  have hrest : (∀ c ∈ (!lifecycleStates.contains a.state,
      ContractError.validation "attempt.state is not an attempt lifecycle state") :: a.timeChecks ++
        a.stateChecks, c.1 = false) ↔ a.state ∈ lifecycleStates ∧
      (∀ c ∈ a.timeChecks, c.1 = false) ∧ (∀ c ∈ a.stateChecks, c.1 = false) := by
    simp only [List.cons_append, List.forall_mem_cons, List.forall_mem_append, Bool.not_eq_false',
      List.contains_iff_mem]
  rw [hrest, timeChecks_ok, stateChecks_ok]
  constructor
  · rintro ⟨⟨h1, h2⟩, w, ⟨rfl, hw⟩, ⟨h3, ⟨h4, h5⟩, h6, h7, h8, h9⟩, rfl⟩
    exact ⟨rfl, ⟨h1, h2, hw, strip_strip _, h3, h4, h5, h6, h7, h8, h9⟩⟩
  · rintro ⟨rfl, h⟩
    exact ⟨⟨h.one_le_number, h.number_le⟩, _, ⟨rfl, h.worker_ok⟩, ⟨h.lifecycle,
      ⟨h.started_nonneg, h.started_le⟩, h.running_open, h.finished_closed, h.failed_failure,
      h.no_failure⟩, rfl⟩

end JobAttemptFields

instance : Normalises JobAttemptFields.postInit where
  idem h := by
    have hb := (JobAttemptFields.postInit_ok.mp h).2
    refine JobAttemptFields.postInit_ok.mpr ⟨?_, hb⟩
    rw [hb.worker_stripped]

/-- `JobAttempt`. -/
abbrev JobAttempt := Validated JobAttemptFields.postInit

/-- An attempt has the facts that its constructor asks for. -/
theorem JobAttempt.ok (a : JobAttempt) : a.val.Ok := (JobAttemptFields.postInit_ok.mp a.accepted).2

/-! ## Leases -/

/-- The fields of a lease. -/
@[ext]
structure JobLeaseFields where
  job_id : String
  scope : JobScope
  worker_id : String
  token : String
  acquired_at : ℚ
  expires_at : ℚ
  heartbeat_at : ℚ
  deriving DecidableEq

/-- `JobLease.__post_init__`. -/
def JobLeaseFields.postInit (l : JobLeaseFields) : Except ContractError JobLeaseFields := do
  let job_id ← identifier "lease.job_id" l.job_id
  let worker_id ← identifier "lease.worker_id" l.worker_id
  let token ← identifier "lease.token" l.token
  raiseFirst [timestampCheck "lease.acquired_at" l.acquired_at,
    timestampCheck "lease.expires_at" l.expires_at,
    timestampCheck "lease.heartbeat_at" l.heartbeat_at,
    (decide (l.expires_at ≤ l.acquired_at),
      .validation "lease.expires_at must be after lease.acquired_at"),
    (!(decide (l.acquired_at ≤ l.heartbeat_at) && decide (l.heartbeat_at ≤ l.expires_at)),
      .validation "lease.heartbeat_at must be within the lease window")]
  return { l with job_id, worker_id, token }

instance : Normalises JobLeaseFields.postInit where
  idem {a b} h := by
    simp only [JobLeaseFields.postInit, except_bind_ok, pure, Except.pure, Except.ok.injEq] at h ⊢
    obtain ⟨j, hj, w, hw, t, ht, u, hc, rfl⟩ := h
    exact ⟨j, identifier_idem hj, w, identifier_idem hw, t, identifier_idem ht, u, hc, rfl⟩

/-- `JobLease`. -/
abbrev JobLease := Validated JobLeaseFields.postInit

/-! ## What a publication owner reports -/

/-- The facts of an attempt that `JobContinuation` and `JobPublicationFacts` carry. The queue only
compares them with its own row, so that the bounds which their constructors ask for are not needed
here. -/
structure JobPublicationFacts where
  job_id : String
  scope : JobScope
  attempt : ℕ
  created_at : ℚ
  started_at : ℚ
  attempt_id : String

/-- `JobPublicationResult`: a result with the facts of the attempt that produced it. -/
structure JobPublicationResult where
  result : JobResult
  facts : JobPublicationFacts

/-- `JobPublicationCancellation`: the facts of a cancelled attempt, and its end when it is known. -/
structure JobPublicationCancellation where
  facts : JobPublicationFacts
  completed_at : Option ℚ

end RickIntelligence.Jobs
