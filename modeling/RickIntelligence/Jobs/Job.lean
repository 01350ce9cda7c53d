import RickIntelligence.Jobs.Contracts

/-!
# The durable job

`Job` of `packages/jobs/src/rick_jobs/contracts.py`: its constructor with every cross-field check.
`JobFields.Consistent` states what the constructor accepts once the text fields are normalised, and
`postInit_ok` that it accepts nothing else.
-/

namespace RickIntelligence.Jobs

open Lib

/-- The fields of a job. -/
@[ext]
structure JobFields where
  job_id : String
  tenant_id : String
  workspace_id : String
  collection_id : String
  operation : String
  idempotency_key : String
  payload : Mapping
  state : JobState
  max_attempts : ℕ
  attempts : List JobAttempt
  result : Option JobResult
  failure : Option JobFailure
  available_at : ℚ
  created_at : ℚ
  updated_at : ℚ
  version : ℕ
  deriving DecidableEq

namespace JobFields

/-! ## The constructor -/

/-- `attempts[-1] if attempts else None`. -/
def lastAttempt (d : JobFields) : Option JobAttempt := d.attempts.getLast?

/-- The text fields, normalised. -/
def cleanText (d : JobFields) : Except ContractError JobFields := do
  let job_id ← identifier "job_id" d.job_id
  let tenant_id ← identifier "tenant_id" d.tenant_id
  let workspace_id ← identifier "workspace_id" d.workspace_id
  let collection_id ← identifier "collection_id" d.collection_id
  let operation ← Jobs.operation d.operation
  let idempotency_key ← identifier "idempotency_key" d.idempotency_key
  let payload ← boundedMap "payload" maxPayloadFields maxPayloadValueLength d.payload
  return { d with
    job_id, tenant_id, workspace_id, collection_id, operation, idempotency_key, payload }

/-- An attempt follows another that is not finished, or starts before its end. -/
def outOfOrder (previous current : JobAttempt) : Bool :=
  match previous.val.finished_at with
  | none => true
  | some t => decide (current.val.started_at < t)

/-- The refusals of the attempt history. -/
def historyChecks (d : JobFields) : List (Bool × ContractError) :=
  [(!(decide (0 < d.max_attempts) && decide (d.max_attempts ≤ maxAttempts)),
      .validation "max_attempts is out of range"),
    (decide (maxAttempts < d.attempts.length), .validation "attempts is invalid"),
    (d.attempts.map (fun a => a.val.number) != List.range' 1 d.attempts.length,
      .validation "attempt numbers must be contiguous"),
    (decide (d.max_attempts < d.attempts.length),
      .validation "attempt count exceeds max_attempts"),
    ((d.attempts.zip d.attempts.tail).any fun p => outOfOrder p.1 p.2,
      .validation "attempt history is not chronological")]

/-- The refusals of the job's own times and version. -/
def timeChecks (d : JobFields) : List (Bool × ContractError) :=
  [timestampCheck "available_at" d.available_at, timestampCheck "created_at" d.created_at,
    timestampCheck "updated_at" d.updated_at,
    (decide (d.available_at < d.created_at), .validation "available_at precedes created_at"),
    (decide (d.updated_at < d.created_at), .validation "updated_at precedes created_at"),
    (decide (d.version < 1), .validation "version is invalid")]

/-- A time outside the job's lifetime. -/
def outsideLifetime (d : JobFields) (t : ℚ) : Bool :=
  decide (t < d.created_at) || decide (d.updated_at < t)

/-- The refusals of one attempt against the job's lifetime. -/
def attemptLifetimeChecks (d : JobFields) (a : JobAttempt) : List (Bool × ContractError) :=
  [(d.outsideLifetime a.val.started_at,
      .validation "attempt.started_at is outside the job lifetime"),
    (a.val.finished_at.any fun t => decide (d.updated_at < t),
      .validation "attempt.finished_at is after job.updated_at"),
    (a.val.failure.any fun f => d.outsideLifetime f.val.occurred_at,
      .validation "attempt.failure.occurred_at is outside the job lifetime")]

/-- The refusals of everything that happened to the job against its lifetime. -/
def lifetimeChecks (d : JobFields) : List (Bool × ContractError) :=
  d.attempts.flatMap d.attemptLifetimeChecks ++
    [(d.result.any fun r => d.outsideLifetime r.val.completed_at,
        .validation "result.completed_at is outside the job lifetime"),
      (d.failure.any fun f => d.outsideLifetime f.val.occurred_at,
        .validation "failure.occurred_at is outside the job lifetime")]

/-- The end of the latest attempt, or the job's last change. -/
def latestAttemptTime (d : JobFields) (last : JobAttempt) : ℚ :=
  last.val.finished_at.getD d.updated_at

/-- The refusals of a queued job that has an attempt. -/
def queuedAttemptChecks (d : JobFields) (last : JobAttempt) : List (Bool × ContractError) :=
  [(last.val.state != .failed,
      .validation "queued jobs may only resume after a failed attempt"),
    (!(last.val.failure.any fun f => f.val.retryable) ||
        decide (d.max_attempts ≤ d.attempts.length),
      .validation "queued jobs may only resume when retry remains eligible")]

/-- The refusals of a succeeded job with its attempt and result. -/
def succeededChecks (d : JobFields) (last : JobAttempt) (r : JobResult) :
    List (Bool × ContractError) :=
  [(decide (r.val.completed_at < last.val.started_at),
      .validation "result.completed_at is before the succeeded attempt"),
    (decide (d.latestAttemptTime last < r.val.completed_at),
      .validation "result.completed_at is after the succeeded attempt")]

/-- The name of a state in the messages about it. -/
def stateName (d : JobFields) : String := lower d.state.value

/-- The refusals of a failed, retrying, or dead-letter job with its attempt and failure. -/
def failedChecks (d : JobFields) (last : JobAttempt) (f : JobFailure) :
    List (Bool × ContractError) :=
  [(f.val.attempt != last.val.number,
      .validation (d.stateName ++ " jobs require their latest failure")),
    (last.val.failure != some f,
      .validation (d.stateName ++ " job failure differs from latest attempt")),
    (decide (f.val.occurred_at < last.val.started_at),
      .validation "failure.occurred_at is before the latest attempt"),
    (decide (d.latestAttemptTime last < f.val.occurred_at),
      .validation "failure.occurred_at is after the latest attempt"),
    (d.result.isSome, .validation (d.stateName ++ " jobs cannot contain a result")),
    (d.state == .retrying && !f.val.retryable,
      .validation "retrying jobs require a retryable failure"),
    (d.state == .retrying && decide (d.max_attempts ≤ d.attempts.length),
      .validation "retrying jobs cannot exceed max_attempts")]

/-- The latest attempt of a job is in the given state. -/
def lastIn (d : JobFields) (s : JobState) : Bool := d.lastAttempt.any fun a => a.val.state == s

/-- The refusals of a job's shape, by its state. -/
def stateChecks (d : JobFields) : List (Bool × ContractError) :=
  match d.state with
  | .pending =>
    [(!d.attempts.isEmpty || d.result.isSome || d.failure.isSome,
      .validation "pending jobs cannot contain execution history")]
  | .queued =>
    (d.result.isSome || d.failure.isSome,
        .validation "queued jobs cannot contain a result or active failure") ::
      (d.lastAttempt.map d.queuedAttemptChecks).getD []
  | .running =>
    [(!d.lastIn .running, .validation "running jobs require an active attempt"),
      (d.result.isSome || d.failure.isSome,
        .validation "running jobs cannot contain a result or failure")]
  | .succeeded =>
    match d.lastAttempt, d.result with
    | some last, some r =>
      (last.val.state != .succeeded,
          .validation "succeeded jobs require a succeeded attempt") ::
        (d.failure.isSome, .validation "succeeded jobs require only a result") ::
        d.succeededChecks last r
    | none, _ => [(true, .validation "succeeded jobs require a succeeded attempt")]
    | some last, none =>
      [(last.val.state != .succeeded,
          .validation "succeeded jobs require a succeeded attempt"),
        (true, .validation "succeeded jobs require only a result")]
  | .failed | .retrying | .deadLetter =>
    match d.lastAttempt, d.failure with
    | some last, some f =>
      (last.val.state != .failed,
          .validation (d.stateName ++ " jobs require a failed attempt")) :: d.failedChecks last f
    | none, _ => [(true, .validation (d.stateName ++ " jobs require a failed attempt"))]
    | some last, none =>
      [(last.val.state != .failed, .validation (d.stateName ++ " jobs require a failed attempt")),
        (true, .validation (d.stateName ++ " jobs require their latest failure"))]
  | .cancelled =>
    [(d.result.isSome || d.failure.isSome,
        .validation "cancelled jobs cannot contain a result or active failure"),
      (d.lastIn .running, .validation "cancelled jobs cannot contain an active attempt"),
      (d.lastAttempt.any fun a => a.val.state != .failed && a.val.state != .cancelled,
        .validation "cancelled jobs require no attempt or a cancelled/failed latest attempt")]

/-- The refusals of a job whose text fields are normalised, in order. -/
def checks (d : JobFields) : List (Bool × ContractError) :=
  d.historyChecks ++ d.timeChecks ++ d.lifetimeChecks ++ d.stateChecks

/-- `Job.__post_init__`. -/
def postInit (d : JobFields) : Except ContractError JobFields := do
  let clean ← d.cleanText
  raiseFirst clean.checks
  return clean

/-! ## What the constructor accepts -/

/-- The text fields are normalised. -/
structure Clean (d : JobFields) : Prop where
  job_id : identifier "job_id" d.job_id = .ok d.job_id
  tenant_id : identifier "tenant_id" d.tenant_id = .ok d.tenant_id
  workspace_id : identifier "workspace_id" d.workspace_id = .ok d.workspace_id
  collection_id : identifier "collection_id" d.collection_id = .ok d.collection_id
  operation : Jobs.operation d.operation = .ok d.operation
  idempotency_key : identifier "idempotency_key" d.idempotency_key = .ok d.idempotency_key
  payload : NormalMap maxPayloadFields maxPayloadValueLength d.payload

/-- One attempt is finished when another starts. -/
def Precedes (previous current : JobAttempt) : Prop :=
  ∃ t, previous.val.finished_at = some t ∧ t ≤ current.val.started_at

/-- The attempts are numbered from one, in time order, and within their limit. -/
structure History (d : JobFields) : Prop where
  max_pos : 0 < d.max_attempts
  max_le : d.max_attempts ≤ maxAttempts
  length_le : d.attempts.length ≤ d.max_attempts
  numbers : d.attempts.map (fun a => a.val.number) = List.range' 1 d.attempts.length
  chronological : d.attempts.IsChain Precedes

/-- A time within the job's lifetime. -/
def Within (d : JobFields) (t : ℚ) : Prop := d.created_at ≤ t ∧ t ≤ d.updated_at

/-- The job's times are in order, and everything that happened to it happened in its lifetime. -/
structure Lifetime (d : JobFields) : Prop where
  created_nonneg : 0 ≤ d.created_at
  created_le_available : d.created_at ≤ d.available_at
  created_le_updated : d.created_at ≤ d.updated_at
  version_pos : 1 ≤ d.version
  started : ∀ a ∈ d.attempts, d.Within a.val.started_at
  finished : ∀ a ∈ d.attempts, ∀ t, a.val.finished_at = some t → t ≤ d.updated_at
  attempt_failure : ∀ a ∈ d.attempts, ∀ f, a.val.failure = some f → d.Within f.val.occurred_at
  result : ∀ r, d.result = some r → d.Within r.val.completed_at
  failure : ∀ f, d.failure = some f → d.Within f.val.occurred_at

/-- A failed, retrying, or dead-letter job carries the failure of its latest attempt. -/
structure FailedShape (d : JobFields) (last : JobAttempt) (f : JobFailure) : Prop where
  last_failed : last.val.state = .failed
  attempt_eq : f.val.attempt = last.val.number
  last_failure : last.val.failure = some f
  started_le : last.val.started_at ≤ f.val.occurred_at
  le_finished : f.val.occurred_at ≤ d.latestAttemptTime last
  no_result : d.result = none
  retryable : d.state = .retrying → f.val.retryable = true ∧ d.attempts.length < d.max_attempts

/-- The shape of a job, by its state. -/
def Shape (d : JobFields) : Prop :=
  match d.state with
  | .pending => d.attempts = [] ∧ d.result = none ∧ d.failure = none
  | .queued => d.result = none ∧ d.failure = none ∧ ∀ last, d.lastAttempt = some last →
      last.val.state = .failed ∧ (∃ f, last.val.failure = some f ∧ f.val.retryable = true) ∧
        d.attempts.length < d.max_attempts
  | .running => d.result = none ∧ d.failure = none ∧
      ∃ last, d.lastAttempt = some last ∧ last.val.state = .running
  | .succeeded => d.failure = none ∧ ∃ last r, d.lastAttempt = some last ∧ d.result = some r ∧
      last.val.state = .succeeded ∧ last.val.started_at ≤ r.val.completed_at ∧
        r.val.completed_at ≤ d.latestAttemptTime last
  | .failed | .retrying | .deadLetter =>
      ∃ last f, d.lastAttempt = some last ∧ d.failure = some f ∧ d.FailedShape last f
  | .cancelled => d.result = none ∧ d.failure = none ∧ ∀ last, d.lastAttempt = some last →
      last.val.state = .failed ∨ last.val.state = .cancelled

/-- What the constructor of a job accepts, once its text fields are normalised. -/
structure Consistent (d : JobFields) : Prop where
  history : d.History
  lifetime : d.Lifetime
  shape : d.Shape

/-- Two attempts are not out of order exactly when the first precedes the second. -/
theorem outOfOrder_eq_false {p c : JobAttempt} : outOfOrder p c = false ↔ Precedes p c := by
  unfold outOfOrder Precedes
  cases p.val.finished_at <;> simp

/-- A relation holds of the neighbours in a list exactly when the list is a chain of it. -/
theorem forall_zip_tail {α : Type*} {R : α → α → Prop} {l : List α} :
    (∀ p ∈ l.zip l.tail, R p.1 p.2) ↔ l.IsChain R := by
  induction l with
  | nil => simp
  | cons a l ih =>
    cases l with
    | nil => simp
    | cons b l =>
      rw [List.isChain_cons_cons, ← ih]
      simp

variable {d e : JobFields}

/-- A time is not outside the lifetime exactly when it is within it. -/
theorem outsideLifetime_eq_false {t : ℚ} :
    d.outsideLifetime t = false ↔ d.Within t := by
  simp [outsideLifetime, Within]

/-- The history checks pass exactly on a history. -/
theorem historyChecks_ok : (∀ c ∈ d.historyChecks, c.1 = false) ↔ d.History := by
  simp only [historyChecks, List.mem_cons, List.not_mem_nil, or_false, forall_eq_or_imp, forall_eq,
    Bool.not_eq_false', Bool.and_eq_true, decide_eq_true_eq, decide_eq_false_iff_not, not_lt,
    bne_eq_false_iff_eq, List.any_eq_false, Bool.not_eq_true, outOfOrder_eq_false,
    forall_zip_tail]
  constructor
  · rintro ⟨⟨h1, h2⟩, -, h3, h4, h5⟩
    exact ⟨h1, h2, h4, h3, h5⟩
  · rintro ⟨h1, h2, h4, h3, h5⟩
    exact ⟨⟨h1, h2⟩, le_trans h4 h2, h3, h4, h5⟩

/-- The lifetime checks of one attempt pass exactly when it happened in the lifetime. -/
theorem attemptLifetimeChecks_ok {a : JobAttempt} :
    (∀ c ∈ d.attemptLifetimeChecks a, c.1 = false) ↔ d.Within a.val.started_at ∧
      (∀ t, a.val.finished_at = some t → t ≤ d.updated_at) ∧
      ∀ f, a.val.failure = some f → d.Within f.val.occurred_at := by
  simp only [attemptLifetimeChecks, List.mem_cons, List.not_mem_nil, or_false, forall_eq_or_imp,
    forall_eq, Option.any_eq_false, decide_eq_false_iff_not, not_lt, outsideLifetime_eq_false]

/-- The time and lifetime checks pass exactly on a lifetime. -/
theorem lifetimeChecks_ok :
    ((∀ c ∈ d.timeChecks, c.1 = false) ∧ ∀ c ∈ d.lifetimeChecks, c.1 = false) ↔ d.Lifetime := by
  simp only [timeChecks, lifetimeChecks, timestampCheck, List.forall_mem_append,
    List.forall_mem_flatMap, attemptLifetimeChecks_ok, List.mem_cons, List.not_mem_nil, or_false,
    forall_eq_or_imp, forall_eq, decide_eq_false_iff_not, not_lt, Option.any_eq_false,
    outsideLifetime_eq_false]
  constructor
  · rintro ⟨⟨-, h2, -, h4, h5, h6⟩, h7, h8, h9⟩
    exact ⟨h2, h4, h5, h6, fun a ha => (h7 a ha).1, fun a ha => (h7 a ha).2.1,
      fun a ha => (h7 a ha).2.2, h8, h9⟩
  · intro h
    exact ⟨⟨le_trans h.created_nonneg h.created_le_available, h.created_nonneg,
      le_trans h.created_nonneg h.created_le_updated, h.created_le_available,
      h.created_le_updated, h.version_pos⟩,
      fun a ha => ⟨h.started a ha, h.finished a ha, h.attempt_failure a ha⟩, h.result, h.failure⟩

/-- The checks of a job with a failure pass exactly on its shape. -/
theorem failedChecks_ok {last : JobAttempt} {f : JobFailure} :
    last.val.state = .failed ∧ (∀ c ∈ d.failedChecks last f, c.1 = false) ↔
      d.FailedShape last f := by
  simp only [failedChecks, List.mem_cons, List.not_mem_nil, or_false, forall_eq_or_imp, forall_eq,
    bne_eq_false_iff_eq, decide_eq_false_iff_not, not_lt, Option.isSome_eq_false_iff,
    Option.isNone_iff_eq_none, Bool.and_eq_false_iff, beq_eq_false_iff_ne, Bool.not_eq_false',
    not_le, ne_eq]
  constructor
  · rintro ⟨h0, h1, h2, h3, h4, h5, h6, h7⟩
    exact ⟨h0, h1, h2, h3, h4, h5, fun hr => ⟨h6.resolve_left (by simp [hr]),
      h7.resolve_left (by simp [hr])⟩⟩
  · intro h
    refine ⟨h.last_failed, h.attempt_eq, h.last_failure, h.started_le, h.le_finished, h.no_result,
      ?_, ?_⟩
    · by_cases hr : d.state = .retrying
      · exact .inr (h.retryable hr).1
      · exact .inl hr
    · by_cases hr : d.state = .retrying
      · exact .inr (h.retryable hr).2
      · exact .inl hr

/-- The shape checks pass exactly on the shape of the job's state. -/
theorem stateChecks_ok : (∀ c ∈ d.stateChecks, c.1 = false) ↔ d.Shape := by
  have hfailed : (∀ c ∈ (match d.lastAttempt, d.failure with
      | some last, some f =>
        (last.val.state != .failed,
            .validation (d.stateName ++ " jobs require a failed attempt")) :: d.failedChecks last f
      | none, _ => [(true, .validation (d.stateName ++ " jobs require a failed attempt"))]
      | some last, none =>
        [(last.val.state != .failed,
            .validation (d.stateName ++ " jobs require a failed attempt")),
          (true, .validation (d.stateName ++ " jobs require their latest failure"))]
      : List (Bool × ContractError)), c.1 = false) ↔
      ∃ last f, d.lastAttempt = some last ∧ d.failure = some f ∧ d.FailedShape last f := by
    cases hl : d.lastAttempt with
    | none => simp
    | some last =>
      cases hf : d.failure with
      | none => simp
      | some f =>
        simp only [List.forall_mem_cons, bne_eq_false_iff_eq, failedChecks_ok, Option.some.injEq]
        constructor
        · exact fun h => ⟨last, f, rfl, rfl, h⟩
        · rintro ⟨_, _, rfl, rfl, h⟩
          exact h
  unfold stateChecks Shape
  cases hs : d.state with
  | pending => simp [and_assoc]
  | queued =>
    cases hl : d.lastAttempt with
    | none => simp
    | some last =>
      cases hf : last.val.failure with
      | none => simp [queuedAttemptChecks, hf]
      | some f => simp [queuedAttemptChecks, hf, and_assoc]
  | running =>
    cases hl : d.lastAttempt with
    | none => simp [lastIn, hl]
    | some last => simp [lastIn, hl]; tauto
  | succeeded =>
    cases hl : d.lastAttempt with
    | none => simp
    | some last =>
      cases hr : d.result with
      | none => simp
      | some r => simp [succeededChecks]; tauto
  | failed => exact hfailed
  | retrying => exact hfailed
  | deadLetter => exact hfailed
  | cancelled =>
    cases hl : d.lastAttempt with
    | none => simp [lastIn, hl]
    | some last =>
      simp only [lastIn, hl, List.mem_cons, List.not_mem_nil, or_false, forall_eq_or_imp,
        forall_eq, Option.any_some, Bool.or_eq_false_iff, Option.isSome_eq_false_iff,
        Option.isNone_iff_eq_none, beq_eq_false_iff_ne, Bool.and_eq_false_iff,
        bne_eq_false_iff_eq, Option.some.injEq, forall_eq', and_assoc]
      constructor
      · rintro ⟨h1, h2, -, h4⟩
        exact ⟨h1, h2, h4⟩
      · rintro ⟨h1, h2, h4⟩
        refine ⟨h1, h2, ?_, h4⟩
        rcases h4 with h4 | h4 <;> simp [h4]

/-- All checks pass exactly on a consistent job. -/
theorem checks_ok : (∀ c ∈ d.checks, c.1 = false) ↔ d.Consistent := by
  simp only [checks, List.forall_mem_append]
  constructor
  · rintro ⟨⟨⟨hh, ht⟩, hl⟩, hs⟩
    exact ⟨historyChecks_ok.mp hh, lifetimeChecks_ok.mp ⟨ht, hl⟩, stateChecks_ok.mp hs⟩
  · rintro ⟨hh, hl, hs⟩
    have hl := lifetimeChecks_ok.mpr hl
    exact ⟨⟨⟨historyChecks_ok.mpr hh, hl.1⟩, hl.2⟩, stateChecks_ok.mpr hs⟩

/-- What the text checks return is normalised, and nothing but the text changes. -/
theorem clean_of_cleanText (h : d.cleanText = .ok e) :
    e.Clean ∧ e = { d with
      job_id := e.job_id, tenant_id := e.tenant_id, workspace_id := e.workspace_id,
      collection_id := e.collection_id, operation := e.operation,
      idempotency_key := e.idempotency_key, payload := e.payload } := by
  simp only [cleanText, except_bind_ok, pure, Except.pure, Except.ok.injEq] at h
  obtain ⟨j, hj, t, ht, w, hw, c, hc, o, ho, k, hk, p, hp, rfl⟩ := h
  exact ⟨⟨identifier_idem hj, identifier_idem ht, identifier_idem hw, identifier_idem hc,
    operation_idem ho, identifier_idem hk, boundedMap_normal hp⟩, rfl⟩

/-- Normalised text fields are returned unchanged. -/
theorem cleanText_self (h : d.Clean) : d.cleanText = .ok d := by
  simp only [cleanText, except_bind_ok, pure, Except.pure, Except.ok.injEq]
  exact ⟨_, h.job_id, _, h.tenant_id, _, h.workspace_id, _, h.collection_id, _, h.operation, _,
    h.idempotency_key, _, boundedMap_self h.payload, rfl⟩

/-- The constructor normalises the text fields and accepts a consistent job. -/
theorem postInit_ok : d.postInit = .ok e ↔ d.cleanText = .ok e ∧ e.Consistent := by
  simp only [postInit, except_bind_ok, raiseFirst_ok, checks_ok, pure, Except.pure,
    Except.ok.injEq, exists_const]
  constructor
  · rintro ⟨c, hc, hok, rfl⟩
    exact ⟨hc, hok⟩
  · rintro ⟨hc, hok⟩
    exact ⟨e, hc, hok, rfl⟩

/-- On normalised text fields the constructor changes nothing. -/
theorem postInit_clean (h : d.Clean) :
    d.postInit = .ok e ↔ e = d ∧ d.Consistent := by
  rw [postInit_ok, cleanText_self h]
  constructor
  · rintro ⟨hde, hok⟩
    cases hde
    exact ⟨rfl, hok⟩
  · rintro ⟨rfl, hok⟩
    exact ⟨rfl, hok⟩

end JobFields

instance : Normalises JobFields.postInit where
  idem h := by
    obtain ⟨hclean, hok⟩ := JobFields.postInit_ok.mp h
    exact (JobFields.postInit_clean (JobFields.clean_of_cleanText hclean).1).mpr ⟨rfl, hok⟩

/-- `Job`. -/
abbrev Job := Validated JobFields.postInit

/-- The text fields of a job are normalised. -/
theorem Job.clean (j : Job) : j.val.Clean :=
  (JobFields.clean_of_cleanText (JobFields.postInit_ok.mp j.accepted).1).1

/-- A job is consistent. -/
theorem Job.consistent (j : Job) : j.val.Consistent := (JobFields.postInit_ok.mp j.accepted).2

end RickIntelligence.Jobs
