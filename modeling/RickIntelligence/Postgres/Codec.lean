import RickIntelligence.Postgres.Row

/-!
# Reading back what was written

`decode_ok` says exactly when `_decode` of a canonical row returns, column by column. From it follow
the round trip of a whole job (`decode_insertRow`) and, later, that of a row that is updated in
place. What is read is the job that was written with every time rounded down to whole microseconds,
`Job.mapTime floorMap`, which is a job again because rounding keeps the order of times.
-/

namespace RickIntelligence.Postgres

open Lib Jobs TimeMap

/-! ## The parts of a row -/

variable {field s : String} {ms : Json.Members} {row : AttemptRow} {rows : List AttemptRow} {l : List JobAttempt}

/-- A stored time is read back. -/
@[simp]
theorem epoch_ok {m : ℤ} {t : ℚ} :
    epoch field m = .ok t ↔ 0 ≤ m ∧ t = ofMicros m := by
  unfold epoch
  split_ifs with h
  · simp
    omega
  · simp only [Except.ok.injEq, not_lt.mp h, true_and]
    exact eq_comm

/-- A stored time that may be null is read back. -/
theorem optionalEpoch_ok {m : Option ℤ} {t : Option ℚ} :
    optionalEpoch field m = .ok t ↔ (∀ x, m = some x → 0 ≤ x) ∧ t = m.map ofMicros := by
  cases m with
  | none => simp [optionalEpoch, eq_comm]
  | some x =>
    simp only [optionalEpoch, except_map_ok, epoch_ok, Option.some.injEq, forall_eq',
      Option.map_some]
    constructor
    · rintro ⟨_, ⟨hx, rfl⟩, rfl⟩
      exact ⟨hx, rfl⟩
    · rintro ⟨hx, rfl⟩
      exact ⟨_, ⟨hx, rfl⟩, rfl⟩

/-- A constructor on stored values returns exactly when it accepts them. -/
theorem makeStored_ok {α : Type} {post : α → Except ContractError α} [Normalises post]
    {message : String} {a : α} {v : Validated post} :
    makeStored message a = .ok v ↔ post a = .ok v.val := by
  rw [makeStored, mapError_ok, Validated.make_ok]

/-- A failure is read from an object exactly when its members make one. -/
theorem parseFailure_obj {f : Option JobFailure} :
    parseFailure field (some (.obj ms)) = .ok f ↔ ∃ d g, failureFields ms = some d ∧
      JobFailureFields.postInit d = .ok g.val ∧ f = some g := by
  rw [parseFailure]
  cases h : failureFields ms with
  | none => simp
  | some d =>
    simp only [except_map_ok, makeStored_ok, Option.some.injEq]
    constructor
    · rintro ⟨g, hg, rfl⟩
      exact ⟨d, g, rfl, hg, rfl⟩
    · rintro ⟨_, g, rfl, hg, rfl⟩
      exact ⟨g, hg, rfl⟩

/-- A result is read from an object exactly when its members make one. -/
theorem parseResult_obj {document_id : Option String} {r : Option JobResult} :
    parseResult document_id (some (.obj ms)) = .ok r ↔ ∃ observed d q,
      observedDocument ms document_id = .ok observed ∧ resultFields ms observed = some d ∧
      JobResultFields.postInit d = .ok q.val ∧ r = some q := by
  unfold parseResult
  simp only [except_bind_ok]
  constructor
  · rintro ⟨observed, ho, h⟩
    split at h
    · cases h
    · next d hd =>
      obtain ⟨q, hq, rfl⟩ := except_map_ok.mp h
      exact ⟨observed, d, q, ho, hd, makeStored_ok.mp hq, rfl⟩
  · rintro ⟨observed, d, q, ho, hd, hq, rfl⟩
    refine ⟨observed, ho, ?_⟩
    rw [hd]
    exact except_map_ok.mpr ⟨q, makeStored_ok.mpr hq, rfl⟩

/-- A written failure is read back with its time rounded down. -/
theorem parseFailure_failureDict (field : String) (f : JobFailure) :
    parseFailure field (some (failureDict f)) = .ok (some (f.mapTime floorMap)) := by
  have hfields : failureFields [("code", .str f.val.code), ("message", .str f.val.message),
      ("retryable", .bool f.val.retryable), ("attempt", .int f.val.attempt),
      ("occurred_at", .float (floorMicros f.val.occurred_at))] =
      some (f.mapTime floorMap).val := by
    simp [failureFields, Json.member?, List.lookup, Json.text?, Json.bool?, Json.nat?,
      Json.number?, JobFailure.mapTime, floorMap]
  exact parseFailure_obj.mpr ⟨_, f.mapTime floorMap, hfields, (f.mapTime floorMap).accepted, rfl⟩

/-- An optional failure is read back with its time rounded down. -/
theorem parseFailure_map (field : String) (f : Option JobFailure) :
    parseFailure field (f.map failureDict) = .ok (f.map (JobFailure.mapTime floorMap)) := by
  cases f with
  | none => rfl
  | some f => exact parseFailure_failureDict field f

/-- A written result is read back with its time rounded down, if the row has no other document. -/
theorem parseResult_resultDict (r : JobResult) (document_id : Option String)
    (hdoc : r.val.document_id = none → document_id = none) :
    parseResult document_id (some (resultDict r)) = .ok (some (r.mapTime floorMap)) := by
  have hobserved : observedDocument [("output_refs", .ofMapping r.val.output_refs),
      ("document_id", .ofOptionalText r.val.document_id),
      ("completed_at", .float (floorMicros r.val.completed_at))] document_id =
      .ok r.val.document_id := by
    cases hd : r.val.document_id with
    | none => simp [observedDocument, Json.member?, List.lookup, Json.ofOptionalText, hdoc hd]
    | some d => simp [observedDocument, Json.member?, List.lookup, Json.ofOptionalText]
  have hfields : resultFields [("output_refs", .ofMapping r.val.output_refs),
      ("document_id", .ofOptionalText r.val.document_id),
      ("completed_at", .float (floorMicros r.val.completed_at))] r.val.document_id =
      some (r.mapTime floorMap).val := by
    simp [resultFields, outputRefs, Json.member?, List.lookup, Json.ofMapping, Json.number?,
      JobResult.mapTime, floorMap]
  exact parseResult_obj.mpr ⟨_, _, r.mapTime floorMap, hobserved, hfields,
    (r.mapTime floorMap).accepted, rfl⟩

/-- A written attempt is read back with its times rounded down. -/
theorem loadAttempt_attemptRow (a : JobAttempt) :
    loadAttempt (attemptRow a) = .ok (a.mapTime floorMap) := by
  unfold loadAttempt
  simp only [except_bind_ok, epoch_ok, optionalEpoch_ok, makeStored_ok]
  refine ⟨_, parseFailure_map _ a.val.failure, _, ⟨micros_nonneg a.ok.started_nonneg, rfl⟩, _,
    ⟨?_, rfl⟩, ?_⟩
  · intro m hm
    obtain ⟨t, ht, rfl⟩ := Option.map_eq_some_iff.mp hm
    exact micros_nonneg (le_trans a.ok.started_nonneg (a.ok.started_le t ht))
  · convert (a.mapTime floorMap).accepted using 2
    simp only [JobAttempt.mapTime, JobAttemptFields.mapTime, attemptRow, Option.map_map]
    rfl

/-- What is loaded of an attempt: its columns, with the worker stripped. -/
theorem loadAttempt_ok {a : JobAttempt} (h : loadAttempt row = .ok a) :
    ∃ failure, parseFailure "attempt.failure" row.failure = .ok failure ∧
      a.val = { number := row.attempt_no, worker_id := strip row.worker_id, state := row.state,
                started_at := ofMicros row.started_at,
                finished_at := row.finished_at.map ofMicros, failure } := by
  simp only [loadAttempt, except_bind_ok, epoch_ok, optionalEpoch_ok, makeStored_ok] at h
  obtain ⟨failure, hfailure, _, ⟨-, rfl⟩, _, ⟨-, rfl⟩, hmake⟩ := h
  exact ⟨failure, hfailure, (JobAttemptFields.postInit_ok.mp hmake).1⟩

/-- Reading a list of attempts is reading each of them. -/
theorem loadAttempts_cons :
    loadAttempts (row :: rows) = .ok l ↔ ∃ a as, loadAttempt row = .ok a ∧
      loadAttempts rows = .ok as ∧ l = a :: as := by
  simp only [loadAttempts, List.mapM_cons, except_bind_ok, pure, Except.pure, Except.ok.injEq]
  constructor
  · rintro ⟨a, ha, as, has, rfl⟩
    exact ⟨a, as, ha, has, rfl⟩
  · rintro ⟨a, as, ha, has, rfl⟩
    exact ⟨a, ha, as, has, rfl⟩

/-- Written attempts are read back with their times rounded down. -/
theorem loadAttempts_map (l : List JobAttempt) :
    loadAttempts (l.map attemptRow) = .ok (l.map (JobAttempt.mapTime floorMap)) := by
  induction l with
  | nil => rfl
  | cons a l ih => exact loadAttempts_cons.mpr ⟨_, _, loadAttempt_attemptRow a, ih, rfl⟩

/-- The loaded attempts are those of the rows, one by one. -/
theorem loadAttempts_forall (h : loadAttempts rows = .ok l) :
    List.Forall₂ (fun row a => loadAttempt row = .ok a) rows l := by
  induction rows generalizing l with
  | nil =>
    cases h
    exact .nil
  | cons row rows ih =>
    obtain ⟨a, as, ha, has, rfl⟩ := loadAttempts_cons.mp h
    exact .cons ha (ih has)

/-! ## A canonical row -/

/-- The fields of the job that a canonical row holds. -/
def rowFields (row : Row) (state : JobState) (payload : Mapping) (attempts : List JobAttempt)
    (result : Option JobResult) (failure : Option JobFailure) : JobFields where
  job_id := row.job_id
  tenant_id := row.tenant_id
  workspace_id := row.workspace_id
  collection_id := row.collection_id
  operation := if row.operation = "" then "ingest" else row.operation
  idempotency_key := row.idempotency_key
  payload := payload
  state := state
  max_attempts := row.max_attempts
  attempts := attempts
  result := result
  failure := failure
  available_at := ofMicros row.available_at
  created_at := ofMicros row.created_at
  updated_at := ofMicros row.updated_at
  version := if row.version = 0 then 1 else row.version

/-- What `_decode` reads of a canonical row. -/
structure Reads (row : Row) (state : JobState) (history : List AttemptRow) (payload : Mapping)
    (attempts : List JobAttempt) (result : Option JobResult) (failure : Option JobFailure) :
    Prop where
  job_id : row.job_id ≠ ""
  attempts_eq : loadAttempts history = .ok attempts
  count : row.attempts = attempts.length
  contract_version : row.contract_version = contractVersion
  payload_eq : ∃ ms, payloadMembers row.payload = .ok ms ∧ payloadMapping ms = .ok payload
  result_eq : parseResult row.document_id row.result = .ok result
  failure_eq : parseFailure "failure" row.failure = .ok failure
  available_nonneg : 0 ≤ row.available_at
  created_nonneg : 0 ≤ row.created_at
  updated_nonneg : 0 ≤ row.updated_at

/-- `_decode` of a canonical row returns exactly when its columns can be read and the constructor of
the job accepts them. -/
theorem decode_ok {row : Row} {state : JobState} (hs : row.contract_state = some state)
    {history : List AttemptRow} {j : Job} :
    decode row history = .ok j ↔ ∃ payload attempts result failure,
      Reads row state history payload attempts result failure ∧
        (rowFields row state payload attempts result failure).postInit = .ok j.val := by
  have hstate : rowState row = state := by simp [rowState, hs]
  simp only [decode, hs, rowAttempts, hstate, Option.isNone_some, Bool.false_eq_true, if_false,
    except_bind_ok, raiseFirst_ok, List.mem_singleton, forall_eq, beq_eq_false_iff_ne, ne_eq,
    bne_eq_false_iff_eq, epoch_ok, makeStored_ok, Except.ok.injEq, exists_const]
  constructor
  · rintro ⟨hid, loaded, hloaded, attempts, hatt, hver, ms, hms, res, hres, fail, hfail, _, rfl, _,
      rfl, _, ⟨hav, rfl⟩, _, ⟨hcr, rfl⟩, _, ⟨hup, rfl⟩, payload, hpayload, hj⟩
    split at hatt
    · next hcount =>
      cases hatt
      exact ⟨payload, loaded, res, fail, ⟨hid, hloaded, hcount, hver, ⟨ms, hms, hpayload⟩, hres,
        hfail, hav, hcr, hup⟩, hj⟩
    · cases hatt
  · rintro ⟨payload, attempts, res, fail, h, hj⟩
    obtain ⟨ms, hms, hpayload⟩ := h.payload_eq
    exact ⟨h.job_id, attempts, h.attempts_eq, attempts, if_pos h.count, h.contract_version, ms, hms,
      res, h.result_eq, fail, h.failure_eq, _, rfl, _, rfl, _, ⟨h.available_nonneg, rfl⟩, _,
      ⟨h.created_nonneg, rfl⟩, _, ⟨h.updated_nonneg, rfl⟩, payload, hpayload, hj⟩

/-! ## The round trip -/

/-- An identifier is not empty. -/
theorem ne_empty_of_identifier (h : identifier field s = .ok s) : s ≠ "" := by
  rintro rfl
  have hp := (identifier_ok.mp h).2
  simp [identifierPattern, matchesRun] at hp

/-- An operation name is not empty. -/
theorem ne_empty_of_operation (h : operation s = .ok s) : s ≠ "" := by
  rintro rfl
  have hp := (operation_ok.mp h).2
  simp [operationPattern, matchesRun] at hp

/-- The operation of a job is read back. -/
theorem operation_read (j : Job) :
    (if j.val.operation = "" then "ingest" else j.val.operation) = j.val.operation :=
  if_neg (ne_empty_of_operation j.clean.operation)

/-- The version of a job is read back. -/
theorem version_read (j : Job) : (if j.val.version = 0 then 1 else j.val.version) = j.val.version :=
  if_neg (by have := j.consistent.lifetime.version_pos; omega)

/-- The payload of a job is read back. -/
theorem payload_read (m : Mapping) :
    ∃ ms, payloadMembers (.ofMapping m) = .ok ms ∧ payloadMapping ms = .ok m := by
  refine ⟨_, rfl, ?_⟩
  simp [payloadMapping]

/-- The columns of an inserted row are read as those of the job, with its times rounded down. -/
theorem insertRow_reads (j : Job) :
    Reads (insertRow j) j.val.state (j.val.attempts.map attemptRow) j.val.payload
      (j.mapTime floorMap).val.attempts (j.mapTime floorMap).val.result
      (j.mapTime floorMap).val.failure where
  job_id := ne_empty_of_identifier j.clean.job_id
  attempts_eq := loadAttempts_map j.val.attempts
  count := (List.length_map _).symm
  contract_version := rfl
  payload_eq := payload_read j.val.payload
  result_eq := by
    cases hr : j.val.result with
    | none => simp [insertRow, hr, parseResult, Job.mapTime, JobFields.mapTime]
    | some r =>
      have h := parseResult_resultDict r r.val.document_id id
      simpa [insertRow, hr, Job.mapTime, JobFields.mapTime] using h
  failure_eq := parseFailure_map _ j.val.failure
  available_nonneg := micros_nonneg
    (le_trans j.consistent.lifetime.created_nonneg j.consistent.lifetime.created_le_available)
  created_nonneg := micros_nonneg j.consistent.lifetime.created_nonneg
  updated_nonneg := micros_nonneg j.updated_nonneg

/-- **The durable round trip:** what `_insert` writes of a job, `_decode` reads as that job with
every time rounded down to whole microseconds. -/
theorem decode_insertRow (j : Job) :
    decode (insertRow j) (j.val.attempts.map attemptRow) = .ok (j.mapTime floorMap) := by
  refine (decode_ok rfl).mpr ⟨_, _, _, _, insertRow_reads j, ?_⟩
  have hfields : rowFields (insertRow j) j.val.state j.val.payload (j.mapTime floorMap).val.attempts
      (j.mapTime floorMap).val.result (j.mapTime floorMap).val.failure =
      (j.mapTime floorMap).val := by
    apply JobFields.ext <;>
      first
      | rfl
      | exact operation_read j
      | exact version_read j
  rw [hfields]
  exact (j.mapTime floorMap).accepted

end RickIntelligence.Postgres
