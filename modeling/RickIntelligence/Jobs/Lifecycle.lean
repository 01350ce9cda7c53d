import RickIntelligence.Jobs.Job

/-!
# The lifecycle of a job

The ways in which one job becomes another: `create`, `start_attempt`, `finish_attempt`, and
`transition` of `packages/jobs/src/rick_jobs/contracts.py`, and the comparison of two requests,
`ensure_idempotent`.

Each step builds its result with the constructor of `Job`. The lemma beside each (`startAttempt_ok`,
`finishAttempt_ok`, `move_ok`) says exactly when it returns and what: the text fields of a job are
normalised already, so the constructor changes nothing and only its consistency is left to check.
-/

namespace RickIntelligence.Jobs

open Lib

namespace Job

/-! ## The steps -/

/-- What `Job.create` is called with. -/
structure Request where
  job_id : String
  tenant_id : String
  workspace_id : String
  collection_id : String
  operation : String
  idempotency_key : String
  payload : Mapping
  max_attempts : ℕ := 3

/-- `Job.create`. -/
def create (r : Request) (now : ℚ) : Except ContractError Job := do
  let timestamp ← Jobs.timestamp "now" now
  Validated.make {
    job_id := r.job_id, tenant_id := r.tenant_id, workspace_id := r.workspace_id,
    collection_id := r.collection_id, operation := r.operation,
    idempotency_key := r.idempotency_key, payload := r.payload, state := .pending,
    max_attempts := r.max_attempts, attempts := [], result := none, failure := none,
    available_at := timestamp, created_at := timestamp, updated_at := timestamp, version := 1 }

/-- `Job.attempt_count`. -/
def attemptCount (j : Job) : ℕ := j.val.attempts.length

/-- `Job.scope`, as the fields of a scope. -/
def scope (j : Job) : JobScopeFields := ⟨j.val.tenant_id, j.val.workspace_id, j.val.collection_id⟩

/-- `Job.retry_eligible`. -/
def retryEligible (j : Job) : Bool :=
  decide (j.attemptCount < j.val.max_attempts) &&
    (j.val.state == .failed || j.val.state == .retrying) &&
    j.val.failure.any fun f => f.val.retryable

/-- The active attempt that `start_attempt` appends. -/
def openedAttempt (j : Job) (worker_id : String) (now : ℚ) : JobAttemptFields :=
  { number := j.attemptCount + 1, worker_id, state := .running, started_at := now,
    finished_at := none, failure := none }

/-- The job with a new active attempt. -/
def started (j : Job) (attempt : JobAttempt) (now : ℚ) : JobFields :=
  { j.val with
    state := .running, attempts := j.val.attempts ++ [attempt], result := none, failure := none,
    updated_at := now, version := j.val.version + 1 }

/-- `Job.start_attempt`. -/
def startAttempt (j : Job) (worker_id : String) (now : ℚ) : Except ContractError Job := do
  raiseFirst [
    (j.val.state != .queued, .invalidTransition "only queued jobs can start an attempt"),
    (decide (j.val.max_attempts ≤ j.attemptCount),
      .invalidTransition "attempt limit is exhausted")]
  let timestamp ← Jobs.timestamp "now" now
  raiseFirst [(decide (timestamp < j.val.updated_at),
    .invalidTransition "job time cannot move backwards")]
  let attempt ← Validated.make (j.openedAttempt worker_id timestamp)
  Validated.make (j.started attempt timestamp)

/-- What a transition is called with besides its target and its time. -/
structure Outcome where
  result : Option JobResult := none
  failure : Option JobFailure := none
  available_at : Option ℚ := none
  finished_at : Option ℚ := none

/-- `None`, or the value as `_timestamp` returns it. -/
def optionalTimestamp (field : String) : Option ℚ → Except ContractError (Option ℚ)
  | none => .ok none
  | some t => some <$> timestamp field t

/-- The states in which an attempt can finish. -/
def finishStates : List JobState := [.succeeded, .failed, .cancelled]

/-- The refusals of what an attempt finishes with, by the target. -/
def finishChecks (current : JobAttempt) (target : JobState) (o : Outcome) (timestamp : ℚ) :
    List (Bool × ContractError) :=
  if target = .succeeded then
    [(o.result.isNone || o.failure.isSome,
        .invalidTransition "SUCCEEDED requires only a result"),
      (o.result.any fun r => decide (timestamp < r.val.completed_at),
        .invalidTransition "result.completed_at is after the transition")]
  else if target = .cancelled then
    [(o.result.isSome || o.failure.isSome,
      .invalidTransition "CANCELLED cannot contain a result or failure")]
  else
    [(o.failure.isNone, .invalidTransition (target.value ++ " requires a failure")),
      (o.failure.any fun f => f.val.attempt != current.val.number,
        .invalidTransition "failure.attempt must match the active attempt"),
      (o.failure.any fun f => decide (timestamp < f.val.occurred_at),
        .invalidTransition "failure.occurred_at is after the transition"),
      (o.result.isSome, .invalidTransition (target.value ++ " cannot contain a result"))]

/-- The refusals of the end of an attempt. -/
def completionChecks (current : JobAttempt) (target : JobState) (o : Outcome)
    (timestamp completion : ℚ) : List (Bool × ContractError) :=
  [(!(decide (current.val.started_at ≤ completion) && decide (completion ≤ timestamp)),
      .invalidTransition "attempt completion is outside its lifetime"),
    (target == .succeeded && o.finished_at.isSome &&
        !(o.result.any fun r => decide (completion = r.val.completed_at)),
      .invalidTransition "attempt completion differs from its result")]

/-- The active attempt, finished. -/
def closedAttempt (current : JobAttempt) (target : JobState) (o : Outcome) (completion : ℚ) :
    JobAttemptFields :=
  { current.val with
    state := target, finished_at := some completion,
    failure := if target = .failed then o.failure else none }

/-- The job with its active attempt finished. -/
def finished (j : Job) (target : JobState) (o : Outcome) (attempt : JobAttempt)
    (timestamp available : ℚ) : JobFields :=
  { j.val with
    state := target, attempts := j.val.attempts.dropLast ++ [attempt], result := o.result,
    failure := if target = .failed then o.failure else none, available_at := available,
    updated_at := timestamp, version := j.val.version + 1 }

/-- The active attempt of a running job. -/
def activeAttempt (j : Job) : Except ContractError JobAttempt := do
  raiseFirst [(j.val.state != .running || j.val.attempts.isEmpty,
    .invalidTransition "only running jobs can finish an attempt")]
  match j.val.lastAttempt with
  | none => .error (.invalidTransition "only running jobs can finish an attempt")
  | some current =>
    raiseFirst [(current.val.state != .running, .invalidTransition "job has no active attempt")]
    return current

/-- `Job.finish_attempt`. -/
def finishAttempt (j : Job) (target : JobState) (now : ℚ) (o : Outcome) :
    Except ContractError Job := do
  let current ← j.activeAttempt
  raiseFirst [(!finishStates.contains target,
    .invalidTransition ("RUNNING -> " ++ target.value ++ " cannot finish an attempt"))]
  let timestamp ← Jobs.timestamp "now" now
  raiseFirst ((decide (timestamp < j.val.updated_at),
    .invalidTransition "job time cannot move backwards") :: finishChecks current target o timestamp)
  let given ← optionalTimestamp "finished_at" o.finished_at
  let completion := given.getD timestamp
  raiseFirst (completionChecks current target o timestamp completion)
  let attempt ← Validated.make (closedAttempt current target o completion)
  let available ← optionalTimestamp "available_at" o.available_at
  Validated.make (j.finished target o attempt timestamp (available.getD j.val.available_at))

/-- The states that carry a failure. -/
def failureStates : List JobState := [.failed, .retrying, .deadLetter]

/-- The failure that a transition sees: the given one, or the job's own. -/
def observedFailure (j : Job) (failure : Option JobFailure) : Option JobFailure :=
  failure.or j.val.failure

/-- The refusals of a transition between two states of which neither is an active attempt. -/
def moveChecks (j : Job) (target : JobState) (o : Outcome) : List (Bool × ContractError) :=
  (target == .succeeded, .invalidTransition "only an active attempt can succeed") ::
    (o.result.isSome, .invalidTransition (target.value ++ " cannot contain a result")) ::
    if failureStates.contains target then
      [((j.observedFailure o.failure).isNone,
          .invalidTransition (target.value ++ " requires a failure")),
        ((j.observedFailure o.failure).any fun f => f.val.attempt != j.attemptCount,
          .invalidTransition "failure.attempt must match the latest attempt"),
        (target == .retrying && (j.observedFailure o.failure).any fun f => !f.val.retryable,
          .invalidTransition "RETRYING requires a retryable failure"),
        (target == .retrying && decide (j.val.max_attempts ≤ j.attemptCount),
          .invalidTransition "retry limit is exhausted")]
    else
      [(o.failure.isSome, .invalidTransition (target.value ++ " cannot contain a failure"))]

/-- The refusals of the time of a transition. -/
def moveTimeChecks (j : Job) (o : Outcome) (timestamp : ℚ) : List (Bool × ContractError) :=
  [(decide (timestamp < j.val.updated_at), .invalidTransition "job time cannot move backwards"),
    ((j.observedFailure o.failure).any fun f => decide (timestamp < f.val.occurred_at),
      .invalidTransition "failure.occurred_at is after the transition")]

/-- The job in its next state, with its attempts as they were. -/
def moved (j : Job) (target : JobState) (o : Outcome) (timestamp available : ℚ) : JobFields :=
  { j.val with
    state := target, result := o.result,
    failure := if failureStates.contains target then j.observedFailure o.failure else none,
    available_at := available, updated_at := timestamp, version := j.val.version + 1 }

/-- `Job.transition` of a job that is not running. -/
def move (j : Job) (target : JobState) (now : ℚ) (o : Outcome) : Except ContractError Job := do
  raiseFirst (j.moveChecks target o)
  let timestamp ← Jobs.timestamp "now" now
  raiseFirst (j.moveTimeChecks o timestamp)
  let available ← optionalTimestamp "available_at" o.available_at
  Validated.make (j.moved target o timestamp (available.getD j.val.available_at))

/-- `Job.transition`. -/
def transition (j : Job) (target : JobState) (now : ℚ) (o : Outcome) :
    Except ContractError Job := do
  raiseFirst [(!canTransition j.val.state target, .invalidTransition
      (j.val.state.value ++ " -> " ++ target.value ++ " is not allowed")),
    (target == .running, .invalidTransition "use start_attempt to enter RUNNING")]
  if j.val.state = .running then
    j.finishAttempt target now { o with finished_at := none }
  else
    j.move target now o

/-! ## Requests -/

/-- `idempotency_identity`. -/
def idempotencyIdentity (j : Job) : String × String × String × String :=
  (j.val.tenant_id, j.val.workspace_id, j.val.collection_id, j.val.idempotency_key)

/-- The immutable part of a request. -/
def envelope (j : Job) : String × Mapping × ℕ :=
  (j.val.operation, idempotencyPayload j.val.payload, j.val.max_attempts)

/-- `ensure_idempotent` with an existing job. -/
def ensureIdempotent (existing candidate : Job) : Except ContractError Job := do
  raiseFirst [(existing.idempotencyIdentity != candidate.idempotencyIdentity,
      .idempotencyConflict "idempotency key is outside the existing job scope"),
    (existing.envelope != candidate.envelope,
      .idempotencyConflict "idempotency key was reused for a different request")]
  return existing

end Job

namespace JobFields

variable {d e : JobFields} {last a : JobAttempt}

/-- The last attempt of a history, split off. -/
theorem attempts_eq_of_last (h : d.lastAttempt = some last) :
    d.attempts = d.attempts.dropLast ++ [last] :=
  (List.dropLast_append_getLast? last h).symm

/-- The last attempt is one of the attempts. -/
theorem mem_of_last (h : d.lastAttempt = some last) :
    last ∈ d.attempts :=
  List.mem_of_getLast? h

/-- The numbers of a history are those of its places. -/
theorem History.number_of_last (h : d.History) (hl : d.lastAttempt = some last) :
    last.val.number = d.attempts.length := by
  obtain ⟨l, hl⟩ := List.getLast?_eq_some_iff.mp hl
  have hn := h.numbers
  rw [hl, List.map_append, List.length_append, List.length_singleton, List.range'_1_concat,
    List.map_singleton] at hn
  have hlast := (List.append_inj' hn rfl).2
  simp only [List.cons.injEq, and_true] at hlast
  rw [hlast, hl, List.length_append, List.length_singleton, add_comm]

/-- The attempts of a history with one more. -/
theorem History.concat (h : d.History) (hattempts : e.attempts = d.attempts ++ [a])
    (hmax : e.max_attempts = d.max_attempts) (hlt : d.attempts.length < d.max_attempts)
    (hn : a.val.number = d.attempts.length + 1) (hprec : ∀ last, d.lastAttempt = some last → Precedes last a) :
    e.History where
  max_pos := hmax ▸ h.max_pos
  max_le := hmax ▸ h.max_le
  length_le := by
    rw [hattempts, hmax, List.length_append, List.length_singleton]
    exact hlt
  numbers := by
    rw [hattempts, List.map_append, h.numbers, List.length_append, List.length_singleton,
      List.range'_1_concat, List.map_singleton, hn, add_comm 1]
  chronological := by
    rw [hattempts, List.isChain_append]
    refine ⟨h.chronological, List.isChain_singleton _, fun x hx y hy => ?_⟩
    obtain rfl : a = y := by simpa using hy
    exact hprec x hx

/-- The attempts of a history with another in the place of the last, of its number and start. -/
theorem History.replaceLast (h : d.History) (hlast : d.lastAttempt = some last)
    (hattempts : e.attempts = d.attempts.dropLast ++ [a]) (hmax : e.max_attempts = d.max_attempts)
    (hn : a.val.number = last.val.number) (hs : a.val.started_at = last.val.started_at) : e.History := by
  have hsplit := attempts_eq_of_last hlast
  have hlen : e.attempts.length = d.attempts.length := by
    rw [hattempts, hsplit]
    simp
  refine ⟨hmax ▸ h.max_pos, hmax ▸ h.max_le, by rw [hlen, hmax]; exact h.length_le, ?_, ?_⟩
  · have := h.numbers
    rw [hsplit, List.map_append, List.map_singleton, ← hsplit] at this
    rw [hlen, ← this, hattempts, List.map_append, List.map_singleton, hn]
  · have := h.chronological
    rw [hsplit, List.isChain_append] at this
    rw [hattempts, List.isChain_append]
    refine ⟨this.1, List.isChain_singleton _, fun x hx y hy => ?_⟩
    obtain rfl : a = y := by simpa using hy
    obtain ⟨t, ht, hle⟩ := this.2.2 x hx last (by simp)
    exact ⟨t, ht, hs ▸ hle⟩

/-- What happened to an attempt happened in the job's lifetime. -/
structure AttemptWithin (d : JobFields) (a : JobAttempt) : Prop where
  started : d.Within a.val.started_at
  finished : ∀ t, a.val.finished_at = some t → t ≤ d.updated_at
  failure : ∀ f, a.val.failure = some f → d.Within f.val.occurred_at

/-- What happened in a lifetime happened in every longer one. -/
theorem Within.mono {t : ℚ} (hc : e.created_at = d.created_at) (hu : d.updated_at ≤ e.updated_at) (h : d.Within t) :
    e.Within t :=
  ⟨hc ▸ h.1, le_trans h.2 hu⟩

/-- A lifetime goes on: the attempts are old ones or happened in it, as did the result and the
failure. -/
theorem Lifetime.advance (h : d.Lifetime) (hc : e.created_at = d.created_at) (hu : d.updated_at ≤ e.updated_at)
    (hav : d.created_at ≤ e.available_at) (hv : 1 ≤ e.version)
    (hattempts : ∀ a ∈ e.attempts, a ∈ d.attempts ∨ e.AttemptWithin a)
    (hresult : ∀ r, e.result = some r → e.Within r.val.completed_at)
    (hfailure : ∀ f, e.failure = some f → e.Within f.val.occurred_at) : e.Lifetime := by
  have hall : ∀ a ∈ e.attempts, e.AttemptWithin a := by
    intro a ha
    rcases hattempts a ha with hold | hnew
    · exact ⟨(h.started a hold).mono hc hu, fun t ht => le_trans (h.finished a hold t ht) hu,
        fun f hf => (h.attempt_failure a hold f hf).mono hc hu⟩
    · exact hnew
  exact ⟨hc ▸ h.created_nonneg, hc ▸ hav, hc ▸ le_trans h.created_le_updated hu, hv,
    fun a ha => (hall a ha).started, fun a ha => (hall a ha).finished,
    fun a ha => (hall a ha).failure, hresult, hfailure⟩

end JobFields

namespace Job

/-! ## Starting an attempt -/

variable {j j' : Job} {d : JobFields} {now : ℚ} {target : JobState} {o : Outcome}

/-- A job with normalised text fields is built exactly when it is consistent. -/
theorem make_ok_of_clean (h : d.Clean) :
    Validated.make d = .ok j ↔ j.val = d ∧ d.Consistent := by
  rw [Validated.make_ok, JobFields.postInit_clean h]

variable {r : Request} {a current : JobAttempt} {w : String}

/-- A created job is pending, in its first version, with the attempts that the request allows. -/
theorem create_pending (h : create r now = .ok j) :
    j.val.state = .pending ∧ j.val.attempts = [] ∧ j.val.version = 1 ∧
      j.val.max_attempts = r.max_attempts := by
  simp only [create, except_bind_ok, timestamp_ok, Validated.make_ok] at h
  obtain ⟨t, -, h⟩ := h
  obtain ⟨hclean, -⟩ := JobFields.postInit_ok.mp h
  have hj := (JobFields.clean_of_cleanText hclean).2
  refine ⟨?_, ?_, ?_, ?_⟩ <;> rw [hj]

/-- The text fields of a created job are those of the request, stripped. -/
theorem create_text (h : create r now = .ok j) :
    j.val.job_id = strip r.job_id ∧ j.val.idempotency_key = strip r.idempotency_key ∧
      j.scope = ⟨strip r.tenant_id, strip r.workspace_id, strip r.collection_id⟩ := by
  simp only [create, except_bind_ok, timestamp_ok, Validated.make_ok] at h
  obtain ⟨t, -, h⟩ := h
  obtain ⟨hclean, -⟩ := JobFields.postInit_ok.mp h
  simp only [JobFields.cleanText, except_bind_ok, identifier_ok, pure, Except.pure,
    Except.ok.injEq] at hclean
  obtain ⟨_, ⟨rfl, -⟩, _, ⟨rfl, -⟩, _, ⟨rfl, -⟩, _, ⟨rfl, -⟩, _, -, _, ⟨rfl, -⟩, _, -, hj⟩ := hclean
  simp only [scope, ← hj, and_self]

/-- The last change of a job is not before the epoch. -/
theorem updated_nonneg (j : Job) : 0 ≤ j.val.updated_at :=
  le_trans j.consistent.lifetime.created_nonneg j.consistent.lifetime.created_le_updated

/-- A queued job has a failed last attempt or none, and an attempt left. -/
theorem queued_shape (h : j.val.state = .queued) :
    j.val.attempts.length < j.val.max_attempts ∧
      ∀ last, j.val.lastAttempt = some last → ∃ t, last.val.finished_at = some t ∧
        t ≤ j.val.updated_at := by
  have hs := j.consistent.shape
  simp only [JobFields.Shape, h] at hs
  constructor
  · cases hl : j.val.lastAttempt with
    | none =>
      rw [List.getLast?_eq_none_iff.mp hl]
      exact j.consistent.history.max_pos
    | some last => exact (hs.2.2 last hl).2.2
  · intro last hl
    have hfailed := (hs.2.2 last hl).1
    obtain ⟨t, ht⟩ := Option.isSome_iff_exists.mp
      ((JobAttempt.ok last).finished_closed (by rw [hfailed]; decide))
    exact ⟨t, ht, j.consistent.lifetime.finished last (JobFields.mem_of_last hl) t ht⟩

/-- A queued job with a new active attempt is consistent. -/
theorem started_consistent (hq : j.val.state = .queued) (hnow : j.val.updated_at ≤ now)
    (ha : a.val = { j.openedAttempt w now with worker_id := strip w }) :
    (j.started a now).Consistent := by
  obtain ⟨hlt, hlast⟩ := queued_shape hq
  have hstart : a.val.started_at = now := by rw [ha]; rfl
  have hopen : a.val.finished_at = none ∧ a.val.failure = none := by rw [ha]; exact ⟨rfl, rfl⟩
  have hlife := j.consistent.lifetime
  refine ⟨?_, ?_, ?_⟩
  · refine j.consistent.history.concat rfl rfl hlt (by rw [ha]; rfl) ?_
    intro last hl
    obtain ⟨t, ht, hle⟩ := hlast last hl
    exact ⟨t, ht, by rw [hstart]; exact le_trans hle hnow⟩
  · refine hlife.advance rfl hnow hlife.created_le_available
      (Nat.le_add_left 1 j.val.version) ?_ (by simp [started]) (by simp [started])
    intro x hx
    rcases List.mem_append.mp hx with hx | hx
    · exact .inl hx
    · obtain rfl := List.mem_singleton.mp hx
      refine .inr ⟨?_, ?_, ?_⟩
      · rw [hstart]
        exact ⟨le_trans hlife.created_le_updated hnow, le_rfl⟩
      · simp [hopen.1]
      · simp [hopen.2]
  · refine ⟨rfl, rfl, a, ?_, by rw [ha]; rfl⟩
    simp [JobFields.lastAttempt, started]

/-- `start_attempt` returns exactly for a queued job, a time that does not go back, and a worker
with an identifier; the attempt is its next one. -/
theorem startAttempt_ok :
    j.startAttempt w now = .ok j' ↔ j.val.state = .queued ∧ j.val.updated_at ≤ now ∧
      ∃ a : JobAttempt, a.val = { j.openedAttempt w now with worker_id := strip w } ∧
        j'.val = j.started a now := by
  have hclean : ∀ a, (j.started a now).Clean := fun _ => { j.clean with }
  simp only [startAttempt, except_bind_ok, raiseFirst_ok, List.mem_cons, List.not_mem_nil, or_false,
    forall_eq_or_imp, forall_eq, bne_eq_false_iff_eq, decide_eq_false_iff_not, not_le, not_lt,
    timestamp_ok, exists_const]
  constructor
  · rintro ⟨⟨hq, -⟩, t, ⟨-, rfl⟩, hnow, a, ha, hj⟩
    have ha := (JobAttemptFields.postInit_ok.mp (Validated.make_ok.mp ha)).1
    exact ⟨hq, hnow, a, ha, ((make_ok_of_clean (hclean a)).mp hj).1⟩
  · rintro ⟨hq, hnow, a, ha, hj⟩
    refine ⟨⟨hq, (queued_shape hq).1⟩, now, ⟨le_trans j.updated_nonneg hnow, rfl⟩, hnow, a, ?_, ?_⟩
    · exact Validated.make_ok.mpr (JobAttemptFields.postInit_ok.mpr ⟨ha, JobAttempt.ok a⟩)
    · exact (make_ok_of_clean (hclean a)).mpr ⟨hj, started_consistent hq hnow ha⟩

/-! ## Finishing an attempt -/

/-- An optional time is returned exactly when it is absent or not negative. -/
theorem optionalTimestamp_ok {field : String} {t u : Option ℚ} :
    optionalTimestamp field t = .ok u ↔ (∀ x, t = some x → 0 ≤ x) ∧ u = t := by
  cases t with
  | none => simp [optionalTimestamp, eq_comm]
  | some x =>
    simp only [optionalTimestamp, except_map_ok, timestamp_ok, Option.some.injEq, forall_eq']
    constructor
    · rintro ⟨_, ⟨hx, rfl⟩, rfl⟩
      exact ⟨hx, rfl⟩
    · rintro ⟨hx, rfl⟩
      exact ⟨x, ⟨hx, rfl⟩, rfl⟩

/-- The active attempt is the last attempt of a running job. -/
theorem activeAttempt_ok :
    j.activeAttempt = .ok current ↔ j.val.state = .running ∧ j.val.lastAttempt = some current ∧
      current.val.state = .running := by
  unfold activeAttempt
  cases hl : j.val.lastAttempt with
  | none => simp [except_bind_ok]
  | some last =>
    have hne : j.val.attempts ≠ [] := List.ne_nil_of_mem (JobFields.mem_of_last hl)
    simp only [except_bind_ok, raiseFirst_ok, List.mem_singleton, forall_eq, Bool.or_eq_false_iff,
      bne_eq_false_iff_eq, List.isEmpty_eq_false_iff, pure, Except.pure, Except.ok.injEq,
      exists_const, Option.some.injEq]
    constructor
    · rintro ⟨⟨hr, -⟩, ha, rfl⟩
      exact ⟨hr, rfl, ha⟩
    · rintro ⟨hr, rfl, ha⟩
      exact ⟨⟨hr, hne⟩, ha, rfl⟩

/-- The last attempt of a running job is active. -/
theorem running_last (h : j.val.state = .running) :
    ∃ last, j.val.lastAttempt = some last ∧ last.val.state = .running := by
  have hs := j.consistent.shape
  simp only [JobFields.Shape, h] at hs
  exact hs.2.2

/-- What `finish_attempt` asks for besides a consistent result. -/
structure Finishes (j : Job) (target : JobState) (now : ℚ) (o : Outcome) (current : JobAttempt) :
    Prop where
  running : j.val.state = .running
  last : j.val.lastAttempt = some current
  active : current.val.state = .running
  target_mem : target ∈ finishStates
  now_ge : j.val.updated_at ≤ now
  outcome : ∀ c ∈ finishChecks current target o now, c.1 = false
  completion : ∀ c ∈ completionChecks current target o now (o.finished_at.getD now), c.1 = false
  finished_nonneg : ∀ t, o.finished_at = some t → 0 ≤ t
  available_nonneg : ∀ t, o.available_at = some t → 0 ≤ t

/-- `finish_attempt` returns exactly when its arguments pass and the job with its finished attempt
is consistent. -/
theorem finishAttempt_ok :
    j.finishAttempt target now o = .ok j' ↔ ∃ current a : JobAttempt,
      j.Finishes target now o current ∧
        a.val = closedAttempt current target o (o.finished_at.getD now) ∧
        j'.val = j.finished target o a now (o.available_at.getD j.val.available_at) := by
  have hclean : ∀ a t, (j.finished target o a now t).Clean := fun _ _ => { j.clean with }
  simp only [finishAttempt, except_bind_ok, raiseFirst_ok, List.forall_mem_cons,
    List.mem_singleton, forall_eq, Bool.not_eq_false', List.contains_iff_mem, activeAttempt_ok,
    decide_eq_false_iff_not, not_lt, timestamp_ok, optionalTimestamp_ok, exists_const]
  constructor
  · rintro ⟨current, ⟨hr, hl, ha⟩, ht, t, ⟨-, rfl⟩, ⟨hnow, hout⟩, given, ⟨hg, rfl⟩, hcomp, a, hmk,
      av, ⟨hav, rfl⟩, hj⟩
    have hval := (JobAttemptFields.postInit_ok.mp (Validated.make_ok.mp hmk)).1
    refine ⟨current, a, ⟨hr, hl, ha, ht, hnow, hout, hcomp, hg, hav⟩, ?_,
      ((make_ok_of_clean (hclean a _)).mp hj).1⟩
    rw [hval]
    -- The worker of the active attempt is stripped already.
    simp only [closedAttempt, (JobAttempt.ok current).worker_stripped]
  · rintro ⟨current, a, h, ha, hj⟩
    refine ⟨current, ⟨h.running, h.last, h.active⟩, h.target_mem, now,
      ⟨le_trans j.updated_nonneg h.now_ge, rfl⟩, ⟨h.now_ge, h.outcome⟩, _, ⟨h.finished_nonneg, rfl⟩,
      h.completion, a, ?_, _, ⟨h.available_nonneg, rfl⟩, ?_⟩
    · rw [Validated.make_ok, ← ha]
      exact a.accepted
    · exact (make_ok_of_clean (hclean a _)).mpr ⟨hj, hj ▸ j'.consistent⟩

/-- The active attempt, finished with a failure in its time, is an attempt. -/
theorem closedAttempt_ok (h : j.Finishes target now o current)
    (hfailure : ∀ f, o.failure = some f → current.val.started_at ≤ f.val.occurred_at ∧ f.val.occurred_at ≤ o.finished_at.getD now) :
    (closedAttempt current target o (o.finished_at.getD now)).Ok := by
  have hcur := JobAttempt.ok current
  have hcomp := h.completion
  simp only [completionChecks, List.forall_mem_cons, Bool.not_eq_false', Bool.and_eq_true,
    decide_eq_true_eq] at hcomp
  have hmem := h.target_mem
  simp only [finishStates, List.mem_cons, List.not_mem_nil, or_false] at hmem
  refine ⟨hcur.one_le_number, hcur.number_le, hcur.worker_ok, hcur.worker_stripped, ?_,
    hcur.started_nonneg, ?_, ?_, fun _ => rfl, ?_, fun hne => if_neg hne⟩
  · rcases hmem with rfl | rfl | rfl <;> simp [closedAttempt, JobAttemptFields.lifecycleStates]
  · intro t ht
    rw [← Option.some.inj ht]
    exact hcomp.1.1
  · rintro rfl
    rcases hmem with h | h | h <;> cases h
  · rintro rfl
    have hout := h.outcome
    simp only [finishChecks, reduceCtorEq, if_false, List.forall_mem_cons] at hout
    obtain ⟨f, hf⟩ := Option.isSome_iff_exists.mp (Option.isNone_eq_false_iff.mp hout.1)
    have hnum : f.val.attempt = current.val.number := by simpa [hf] using hout.2.1
    refine ⟨f, by simp [closedAttempt, hf], hnum, (hfailure f hf).1, fun t ht => ?_⟩
    rw [← Option.some.inj ht]
    exact (hfailure f hf).2

/-- A job whose active attempt finishes in its time is consistent. -/
theorem finished_consistent (h : j.Finishes target now o current)
    (ha : a.val = closedAttempt current target o (o.finished_at.getD now))
    (hresult : ∀ r, o.result = some r → current.val.started_at ≤ r.val.completed_at)
    (hav : ∀ t, o.available_at = some t → j.val.created_at ≤ t) :
    (j.finished target o a now (o.available_at.getD j.val.available_at)).Consistent := by
  have hlife := j.consistent.lifetime
  have hcreated := (hlife.started current (JobFields.mem_of_last h.last)).1
  have hcomp := h.completion
  simp only [completionChecks, List.mem_cons, List.not_mem_nil, or_false, forall_eq_or_imp,
    forall_eq, Bool.not_eq_false', Bool.and_eq_true, decide_eq_true_eq] at hcomp
  have hstart : a.val.started_at = current.val.started_at := by rw [ha]; rfl
  have hend : a.val.finished_at = some (o.finished_at.getD now) := by rw [ha]; rfl
  have hfail : a.val.failure = if target = .failed then o.failure else none := by rw [ha]; rfl
  have hstate : a.val.state = target := by rw [ha]; rfl
  have hwithin : ∀ f, a.val.failure = some f →
      current.val.started_at ≤ f.val.occurred_at ∧ f.val.occurred_at ≤ o.finished_at.getD now := by
    intro f hf
    have hok := JobAttempt.ok a
    have hst : a.val.state = .failed := by
      by_contra hne
      rw [hok.no_failure hne] at hf
      cases hf
    obtain ⟨g, hg, -, hs, he⟩ := hok.failed_failure hst
    obtain rfl : g = f := Option.some.inj (hg.symm.trans hf)
    exact ⟨hstart ▸ hs, he _ hend⟩
  have hfw : ∀ f, a.val.failure = some f → j.val.created_at ≤ f.val.occurred_at ∧
      f.val.occurred_at ≤ now := fun f hf =>
    ⟨le_trans hcreated (hwithin f hf).1, le_trans (hwithin f hf).2 hcomp.1.2⟩
  have hrle : ∀ r, o.result = some r → r.val.completed_at ≤ now := by
    intro r hr
    have hout := h.outcome
    have hmem := h.target_mem
    simp only [finishStates, List.mem_cons, List.not_mem_nil, or_false] at hmem
    rcases hmem with rfl | rfl | rfl <;> simp_all [finishChecks]
  refine ⟨j.consistent.history.replaceLast h.last rfl rfl (by rw [ha]; rfl) hstart, ?_, ?_⟩
  · refine hlife.advance rfl h.now_ge ?_ (Nat.le_add_left 1 j.val.version) ?_ ?_ ?_
    · cases hoav : o.available_at with
      | none => exact hlife.created_le_available
      | some t => exact hav t hoav
    · intro x hx
      rcases List.mem_append.mp hx with hx | hx
      · exact .inl (List.mem_of_mem_dropLast hx)
      · obtain rfl := List.mem_singleton.mp hx
        refine .inr ⟨⟨hstart ▸ hcreated, ?_⟩, ?_, hfw⟩
        · rw [hstart]
          exact le_trans hcomp.1.1 hcomp.1.2
        · intro t ht
          rw [hend] at ht
          rw [← Option.some.inj ht]
          exact hcomp.1.2
    · exact fun r hr => ⟨le_trans hcreated (hresult r hr), hrle r hr⟩
    · exact fun f hf => hfw f (hfail.trans hf)
  · have hlast : (j.finished target o a now (o.available_at.getD j.val.available_at)).lastAttempt =
        some a := by simp [JobFields.lastAttempt, finished]
    have hmem := h.target_mem
    have hout := h.outcome
    simp only [finishStates, List.mem_cons, List.not_mem_nil, or_false] at hmem
    rcases hmem with rfl | rfl | rfl
    · -- A success has its result within the attempt: the end is the result's own time if given.
      simp only [finishChecks, if_true, List.mem_cons, List.not_mem_nil, or_false,
        forall_eq_or_imp, forall_eq, Bool.or_eq_false_iff, Option.isNone_eq_false_iff,
        Option.isSome_eq_false_iff, Option.isNone_iff_eq_none] at hout
      obtain ⟨r, hr⟩ := Option.isSome_iff_exists.mp hout.1.1
      refine ⟨rfl, a, r, hlast, hr, hstate, hstart ▸ hresult r hr, ?_⟩
      rw [JobFields.latestAttemptTime, hend, Option.getD_some]
      cases hfin : o.finished_at with
      | none => exact hrle r hr
      | some t =>
        have heq : t = r.val.completed_at := by simpa [hfin, hr] using hcomp.2
        exact le_of_eq heq.symm
    · simp only [finishChecks, reduceCtorEq, if_false, List.mem_cons, List.not_mem_nil, or_false,
        forall_eq_or_imp, forall_eq, Option.isNone_eq_false_iff, Option.isSome_eq_false_iff,
        Option.isNone_iff_eq_none] at hout
      obtain ⟨f, hf⟩ := Option.isSome_iff_exists.mp hout.1
      have haf : a.val.failure = some f := hfail.trans (by simp [hf])
      have hfailed : JobState.failed ≠ .retrying := by decide
      refine ⟨a, f, hlast, by simp [finished, hf], ⟨hstate, ?_, haf, ?_, ?_, hout.2.2.2, ?_⟩⟩
      · rw [ha]
        simpa [hf, closedAttempt] using hout.2.1
      · exact hstart ▸ (hwithin f haf).1
      · rw [JobFields.latestAttemptTime, hend]
        exact (hwithin f haf).2
      · exact fun heq => absurd heq hfailed
    · simp only [finishChecks, reduceCtorEq, if_false, if_true, List.mem_singleton, forall_eq,
        Bool.or_eq_false_iff, Option.isSome_eq_false_iff, Option.isNone_iff_eq_none] at hout
      refine ⟨hout.1, rfl, fun last hl => .inr ?_⟩
      obtain rfl : a = last := Option.some.inj (hlast.symm.trans hl)
      exact hstate

/-- `finish_attempt` returns when the failure and the result are in the time of the attempt. -/
theorem finishAttempt_total (h : j.Finishes target now o current)
    (hfailure : ∀ f, o.failure = some f → current.val.started_at ≤ f.val.occurred_at ∧ f.val.occurred_at ≤ o.finished_at.getD now)
    (hresult : ∀ r, o.result = some r → current.val.started_at ≤ r.val.completed_at)
    (hav : ∀ t, o.available_at = some t → j.val.created_at ≤ t) :
    ∃ j', j.finishAttempt target now o = .ok j' := by
  have hok := closedAttempt_ok h hfailure
  let a : JobAttempt := ⟨closedAttempt current target o (o.finished_at.getD now),
    JobAttemptFields.postInit_ok.mpr ⟨by simp [closedAttempt,
      (JobAttempt.ok current).worker_stripped], hok⟩⟩
  have hcons := finished_consistent (a := a) h rfl hresult hav
  have hclean : (j.finished target o a now (o.available_at.getD j.val.available_at)).Clean :=
    { j.clean with }
  exact ⟨⟨_, (JobFields.postInit_clean hclean).mpr ⟨rfl, hcons⟩⟩,
    finishAttempt_ok.mpr ⟨current, a, h, rfl, rfl⟩⟩

/-! ## Moving between states without an active attempt -/

/-- What `transition` of a job that is not running asks for besides a consistent result. -/
structure Moves (j : Job) (target : JobState) (now : ℚ) (o : Outcome) : Prop where
  checks : ∀ c ∈ j.moveChecks target o, c.1 = false
  now_ge : j.val.updated_at ≤ now
  failure_le : ∀ f, j.observedFailure o.failure = some f → f.val.occurred_at ≤ now
  available_nonneg : ∀ t, o.available_at = some t → 0 ≤ t

/-- A job that is not running moves exactly when its arguments pass and the moved job is
consistent. -/
theorem move_ok :
    j.move target now o = .ok j' ↔ j.Moves target now o ∧
      j'.val = j.moved target o now (o.available_at.getD j.val.available_at) := by
  have hclean : ∀ t, (j.moved target o now t).Clean := fun _ => { j.clean with }
  simp only [move, moveTimeChecks, except_bind_ok, raiseFirst_ok, timestamp_ok,
    List.mem_cons, List.not_mem_nil, or_false, forall_eq_or_imp, forall_eq, Option.any_eq_false,
    decide_eq_false_iff_not, not_lt, optionalTimestamp_ok, exists_const]
  constructor
  · rintro ⟨hc, t, ⟨-, rfl⟩, ⟨hnow, hf⟩, av, ⟨hav, rfl⟩, hj⟩
    exact ⟨⟨hc, hnow, hf, hav⟩, ((make_ok_of_clean (hclean _)).mp hj).1⟩
  · rintro ⟨h, hj⟩
    exact ⟨h.checks, now, ⟨le_trans j.updated_nonneg h.now_ge, rfl⟩, ⟨h.now_ge, h.failure_le⟩, _,
      ⟨h.available_nonneg, rfl⟩, (make_ok_of_clean (hclean _)).mpr ⟨hj, hj ▸ j'.consistent⟩⟩

/-- A move to a state without a failure takes no result and no failure. -/
theorem moveChecks_plain (hne : target ≠ .succeeded) (hf : target ∉ failureStates) :
    (∀ c ∈ j.moveChecks target o, c.1 = false) ↔ o.result = none ∧ o.failure = none := by
  have hc : failureStates.contains target = false := by simpa using hf
  simp only [moveChecks, hc, Bool.false_eq_true, if_false, List.mem_cons, List.not_mem_nil,
    or_false, forall_eq_or_imp, forall_eq, beq_eq_false_iff_ne, ne_eq, hne, not_false_eq_true,
    true_and, Option.isSome_eq_false_iff, Option.isNone_iff_eq_none]

/-- A move to a state with a failure takes that of the latest attempt, which for a retry can be
retried and leaves an attempt. -/
theorem moveChecks_failing (hf : target ∈ failureStates) :
    (∀ c ∈ j.moveChecks target o, c.1 = false) ↔ o.result = none ∧
      ∃ f, j.observedFailure o.failure = some f ∧ f.val.attempt = j.attemptCount ∧
        (target = .retrying → f.val.retryable = true ∧ j.attemptCount < j.val.max_attempts) := by
  have hc : failureStates.contains target = true := by simpa using hf
  have hne : target ≠ .succeeded := by
    rintro rfl
    exact absurd hf (by decide)
  cases hobs : j.observedFailure o.failure with
  | none => simp [moveChecks, hf, hobs]
  | some f =>
    simp only [moveChecks, hc, if_true, hobs, List.mem_cons, List.not_mem_nil, or_false,
      forall_eq_or_imp, forall_eq, beq_eq_false_iff_ne, ne_eq, hne, not_false_eq_true, true_and,
      Option.isSome_eq_false_iff, Option.isNone_iff_eq_none, Option.isNone_some, Option.any_some,
      bne_eq_false_iff_eq, Bool.and_eq_false_iff, Bool.not_eq_false', decide_eq_false_iff_not,
      not_le, Option.some.injEq, exists_eq_left', and_congr_right_iff]
    intro _ _
    by_cases hr : target = .retrying <;> simp [hr]

/-- A moved job of the right shape is consistent. -/
theorem moved_consistent {av : ℚ} (h : j.Moves target now o) (hres : o.result = none) (hav : j.val.created_at ≤ av)
    (hfailure : ∀ f, (j.moved target o now av).failure = some f → j.val.created_at ≤ f.val.occurred_at)
    (hshape : (j.moved target o now av).Shape) : (j.moved target o now av).Consistent := by
  have hhist := j.consistent.history
  refine ⟨{ hhist with }, ?_, hshape⟩
  refine j.consistent.lifetime.advance rfl h.now_ge hav (Nat.le_add_left 1 j.val.version)
    (fun a ha => .inl ha) (by simp [moved, hres]) fun f hf => ⟨hfailure f hf, ?_⟩
  refine h.failure_le f ?_
  simp only [moved] at hf
  split at hf
  · exact hf
  · cases hf

/-- A job that is not running moves when the moved job has the right shape. -/
theorem move_total (h : j.Moves target now o) (hres : o.result = none)
    (hav : ∀ t, o.available_at = some t → j.val.created_at ≤ t)
    (hfailure : ∀ f, (j.moved target o now (o.available_at.getD j.val.available_at)).failure = some f → j.val.created_at ≤ f.val.occurred_at)
    (hshape : (j.moved target o now (o.available_at.getD j.val.available_at)).Shape) :
    ∃ j', j.move target now o = .ok j' := by
  have hle : j.val.created_at ≤ o.available_at.getD j.val.available_at := by
    cases hoav : o.available_at with
    | none => exact j.consistent.lifetime.created_le_available
    | some t => exact hav t hoav
  have hclean : (j.moved target o now (o.available_at.getD j.val.available_at)).Clean :=
    { j.clean with }
  exact ⟨⟨_, (JobFields.postInit_clean hclean).mpr
    ⟨rfl, moved_consistent h hres hle hfailure hshape⟩⟩, move_ok.mpr ⟨h, rfl⟩⟩

/-- A transition goes along an edge, and finishes the active attempt of a running job. -/
theorem transition_ok :
    j.transition target now o = .ok j' ↔ canTransition j.val.state target = true ∧
      target ≠ .running ∧ if j.val.state = .running then
          j.finishAttempt target now { o with finished_at := none } = .ok j'
        else j.move target now o = .ok j' := by
  simp only [transition, except_bind_ok, raiseFirst_ok, List.mem_cons, List.not_mem_nil, or_false,
    forall_eq_or_imp, forall_eq, Bool.not_eq_false', beq_eq_false_iff_ne, ne_eq, exists_const,
    and_assoc]
  split <;> rfl

end Job

end RickIntelligence.Jobs
