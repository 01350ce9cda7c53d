import RickIntelligence.Postgres.Operations

/-!
# When a job is persisted

The other half of `Postgres/Statements.lean`: a job that is built from the one that a row holds can be
persisted over it, and is read back as itself with its new times rounded down (`persist_returns`). The
times that it has from the job before it are on the grid of microseconds or not after the last
change, which is on the grid, so that one function rounds all of them (`TimeMap.floorAfter`).
-/

namespace RickIntelligence.Postgres

open Lib Jobs TimeMap

/-! ## Constraints -/

/-- The result and the failure of a job are those of its state. -/
theorem Job.shape_columns (j : Job) :
    (j.val.state = .succeeded → j.val.result.isSome = true) ∧
      (j.val.state ∈ Job.failureStates → j.val.failure.isSome = true) ∧
      (j.val.state = .pending ∨ j.val.state = .queued ∨ j.val.state = .retrying →
        j.val.result = none) := by
  have hshape := j.consistent.shape
  unfold JobFields.Shape at hshape
  refine ⟨?_, ?_, ?_⟩
  · intro hs
    simp only [hs] at hshape
    obtain ⟨-, _, r, -, hr, -⟩ := hshape
    rw [hr]
    rfl
  · intro hs
    simp only [Job.failureStates, List.mem_cons, List.not_mem_nil, or_false] at hs
    rcases hs with hs | hs | hs <;>
      · simp only [hs] at hshape
        obtain ⟨_, f, -, hf, -⟩ := hshape
        rw [hf]
        rfl
  · rintro (hs | hs | hs)
    · simp only [hs] at hshape
      exact hshape.2.1
    · simp only [hs] at hshape
      exact hshape.1
    · simp only [hs] at hshape
      obtain ⟨_, _, -, -, h⟩ := hshape
      exact h.no_result

variable {r : Row} {j : Job} {rows : List AttemptRow} {s : Store}

/-- A row that carries a job, its status, result, and failure satisfies the constraints exactly when
it has a lease if it is running. -/
theorem Row.checks_iff (h : r.Carries j) (hstatus : r.status = legacyStatus j.val.state)
    (hresult : r.result = j.val.result.map resultDict) (hfailure : r.failure = j.val.failure.map failureDict) :
    r.checks = true ↔ (j.val.state = .running → r.hasLease = true) := by
  have hhist := j.consistent.history
  have hcount : r.attempts ≤ r.max_attempts := by
    rw [h.attempts, h.max_attempts]
    exact hhist.length_le
  have hmax : r.max_attempts ≤ 64 := by
    rw [h.max_attempts]
    exact hhist.max_le
  have hpos : 1 ≤ r.max_attempts := by
    rw [h.max_attempts]
    exact hhist.max_pos
  have hversion : 0 < r.version := by
    rw [h.version]
    exact j.consistent.lifetime.version_pos
  have hop : operationPattern r.operation = true := by
    rw [h.operation]
    exact (operation_ok.mp j.clean.operation).2
  have hacked : r.status ≠ .acked := by
    rw [hstatus]
    cases j.val.state <;> simp [legacyStatus]
  obtain ⟨hsucc, hfail, hnone⟩ := Job.shape_columns j
  simp only [Row.checks, h.state, Row.payloadCheck, hresult, hfailure, Bool.and_eq_true,
    bne_iff_ne, decide_eq_true_eq, Option.isSome_map, Option.isNone_map, ne_eq, hacked,
    not_false_eq_true, le_trans hcount hmax, hpos, hmax, hop, hversion, hcount, and_true, true_and]
  cases hs : j.val.state <;> simp_all [Job.failureStates]

/-! ## Attempts -/

/-- The row of an attempt satisfies the constraints. -/
theorem attemptRow_checks (a : JobAttempt) : (attemptRow a).checks = true := by
  have h := JobAttempt.ok a
  have hfinished : (a.val.finished_at.map micros).all
      (fun t => decide (micros a.val.started_at ≤ t)) = true := by
    cases hf : a.val.finished_at with
    | none => rfl
    | some t => simpa using micros_mono (h.started_le t hf)
  have hlife := h.lifecycle
  simp only [JobAttemptFields.lifecycleStates, List.mem_cons, List.not_mem_nil, or_false] at hlife
  simp only [AttemptRow.checks, attemptRow, Bool.and_eq_true]
  refine ⟨⟨⟨decide_eq_true h.one_le_number, decide_eq_true h.number_le⟩, hfinished⟩, ?_⟩
  rcases hlife with hs | hs | hs | hs
  · simp [hs, h.running_open hs]
  · simp [hs, h.finished_closed (by simp [hs]), h.no_failure (by simp [hs])]
  · obtain ⟨f, hf, -⟩ := h.failed_failure hs
    simp [hs, h.finished_closed (by simp [hs]), hf]
  · simp [hs, h.finished_closed (by simp [hs]), h.no_failure (by simp [hs])]

/-- An attempt with a number after those stored is added at the end. -/
theorem upsertAttempt_new {new : AttemptRow} (hlt : ∀ row ∈ rows, row.attempt_no < new.attempt_no) :
    upsertAttempt new rows = .ok (rows ++ [new]) := by
  induction rows with
  | nil => rfl
  | cons x rows ih =>
    have hx := hlt x (by simp)
    rw [upsertAttempt, if_neg (by omega), if_neg (by omega),
      ih fun row hrow => hlt row (List.mem_cons_of_mem x hrow)]
    rfl

/-- The statements of `_write_attempts` are run one after the other. -/
theorem upsertAttempts_append {news news' : List AttemptRow} :
    upsertAttempts (news ++ news') rows =
      (upsertAttempts news rows).bind (upsertAttempts news') := by
  induction news generalizing rows with
  | nil => rfl
  | cons new news ih =>
    simp only [List.cons_append, upsertAttempts]
    cases raiseFirst [(!new.checks, QueueError.unavailable)] with
    | error e => rfl
    | ok u =>
      show (upsertAttempt new rows).bind _ = ((upsertAttempt new rows).bind _).bind _
      cases upsertAttempt new rows with
      | error e => rfl
      | ok rows' => exact ih

/-- One statement of `_write_attempts` on an attempt of a job. -/
theorem upsertAttempts_single (a : JobAttempt) (rows : List AttemptRow) :
    upsertAttempts [attemptRow a] rows = upsertAttempt (attemptRow a) rows := by
  simp only [upsertAttempts, attemptRow_checks, Bool.not_true, raiseFirst]
  show (upsertAttempt (attemptRow a) rows).bind _ = _
  cases upsertAttempt (attemptRow a) rows with
  | error e => rfl
  | ok rows' => rfl

/-- `_write_attempts` of attempts with new numbers, in their order, adds them. -/
theorem upsertAttempts_new {l : List JobAttempt} (hsorted : (l.map fun a => a.val.number).Pairwise (· < ·))
    (hlt : ∀ row ∈ rows, ∀ a ∈ l, row.attempt_no < a.val.number) :
    upsertAttempts (l.map attemptRow) rows = .ok (rows ++ l.map attemptRow) := by
  induction l generalizing rows with
  | nil => simp [upsertAttempts]
  | cons a l ih =>
    rw [List.map_cons, List.pairwise_cons] at hsorted
    rw [List.map_cons, ← List.singleton_append, upsertAttempts_append, upsertAttempts_single,
      upsertAttempt_new fun row hrow => hlt row hrow a (by simp)]
    show upsertAttempts _ _ = _
    rw [ih hsorted.2, List.append_assoc]
    intro row hrow b hb
    rcases List.mem_append.mp hrow with hrow | hrow
    · exact hlt row hrow b (List.mem_cons_of_mem a hb)
    · rw [List.mem_singleton.mp hrow]
      exact hsorted.1 _ (List.mem_map_of_mem hb)

/-! ## Inserting -/

/-- The numbers of a history increase. -/
theorem numbers_sorted (j : Job) : (j.val.attempts.map fun a => a.val.number).Pairwise (· < ·) := by
  rw [j.consistent.history.numbers]
  exact List.pairwise_lt_range'

/-- An inserted row satisfies the constraints unless it is running: it has no lease. -/
theorem insertRow_checks (j : Job) : (insertRow j).checks = true ↔ j.val.state ≠ .running := by
  rw [Row.checks_iff (insertRow_carries j) rfl rfl rfl]
  simp [Row.hasLease, insertRow]

/-- `_insert` into tables that admit the row returns the job with its times rounded down. -/
theorem insert_returns {env : Env} {s : Session} {jobs : JobTable} (hrefers : env.references (insertRow j) = true)
    (hinsert : s.store.jobs.insert? (insertRow j) = some jobs) (hnone : s.store.attempts j.val.job_id = []) :
    insert env j s =
      .ok (j.mapTime floorMap, s.inserted j jobs (j.val.attempts.map attemptRow)) := by
  refine insert_ok.mpr ⟨jobs, _, ⟨hrefers, hinsert, ?_, decode_insertRow j⟩, rfl⟩
  rw [hnone, upsertAttempts_new (numbers_sorted j) (by simp), List.nil_append]

/-- **The durable round trip of a job:** what `_insert` writes of a job, `_decode` reads as that job
with every time rounded down to whole microseconds, which the constructor accepts; and `_insert`
returns it wherever the tables admit its row. The row of a running job is the one that they never
admit, since it has no lease. -/
theorem insert_round_trip (j : Job) :
    decode (insertRow j) (j.val.attempts.map attemptRow) = .ok (j.mapTime floorMap) ∧
      (j.mapTime floorMap).val = { j.val with
        attempts := j.val.attempts.map (JobAttempt.mapTime floorMap),
        result := j.val.result.map (JobResult.mapTime floorMap),
        failure := j.val.failure.map (JobFailure.mapTime floorMap),
        available_at := floorMicros j.val.available_at,
        created_at := floorMicros j.val.created_at,
        updated_at := floorMicros j.val.updated_at } ∧
      (j.val.mapTime floorMap).Consistent ∧
      (∀ (env : Env) (s : Session), env.references (insertRow j) = true →
        s.store.attempts j.val.job_id = [] → ∀ jobs,
        s.store.jobs.insert? (insertRow j) = some jobs →
        insert env j s =
          .ok (j.mapTime floorMap, s.inserted j jobs (j.val.attempts.map attemptRow))) ∧
      ((insertRow j).checks = true ↔ j.val.state ≠ .running) :=
  ⟨decode_insertRow j, rfl, j.consistent.mapTime floorMap,
    fun _ _ hrefers hnone _ hinsert => insert_returns hrefers hinsert hnone, insertRow_checks j⟩

/-! ## Persisting in place -/

/-- The times of a job that is built from a stored one: its new times are not before the last change
of the stored one, and the others are on the grid, so that one function rounds all of them. -/
structure Rounds (old : Row) (before j : Job) : Prop where
  created : j.val.created_at = before.val.created_at
  result : j.val.result = none
  available : floorAfter old.updated_at j.val.available_at = floorMicros j.val.available_at
  updated : floorAfter old.updated_at j.val.updated_at = floorMicros j.val.updated_at
  failure : ∀ f, j.val.failure = some f →
    floorAfter old.updated_at f.val.occurred_at = floorMicros f.val.occurred_at

/-- The times of a held job are those of its row. -/
theorem Store.Holds.times (h : s.Holds r j) :
    j.val.available_at = ofMicros r.available_at ∧ j.val.created_at = ofMicros r.created_at ∧
      j.val.updated_at = ofMicros r.updated_at := by
  obtain ⟨_, _, _, -, hval⟩ := (decode_carried h.carries).mp h.decoded
  rw [hval]
  exact ⟨rfl, rfl, rfl⟩

/-- The attempts of a held job are those that are loaded. -/
theorem Store.Holds.attempts (h : s.Holds r j) :
    loadAttempts (s.attempts j.val.job_id) = .ok j.val.attempts := by
  obtain ⟨_, _, _, hreads, hval⟩ := (decode_carried h.carries).mp h.decoded
  rw [hreads.attempts_eq, hval]
  rfl

section

variable {cfg : Config} {env : Env} {old : Row} {before j : Job} {a : PersistArgs}
  {rows : List AttemptRow}

/-- A row that is persisted over the one of the job before it carries the new job. -/
theorem persistRow_continues {s : Store} (hold : s.Holds old before) (hcont : Continues before j) :
    (persistRow cfg env j a old).Carries j :=
  persistRow_carries (hold.carries.job_id.trans hcont.job_id.symm)
    ((hold.carries.inScope_iff j.scope).mpr hcont.scope.symm)

/-- The columns of a persisted row that hold times, the result, and the failure. -/
theorem persistRow_columns (cfg : Config) (env : Env) (old : Row) (a : PersistArgs)
    (hresult : j.val.result = none) :
    (persistRow cfg env j a old).result = none ∧
      (persistRow cfg env j a old).failure = j.val.failure.map failureDict ∧
      (persistRow cfg env j a old).status = legacyStatus j.val.state ∧
      (persistRow cfg env j a old).contract_version = contractVersion ∧
      (persistRow cfg env j a old).available_at = micros j.val.available_at ∧
      (persistRow cfg env j a old).created_at = old.created_at ∧
      (persistRow cfg env j a old).updated_at = micros j.val.updated_at := by
  unfold persistRow LeaseArg.assign
  split <;> simp [assignJob, hresult]

/-- A persisted row is read as its job with the new times rounded down, when what is loaded of its
attempts is so. -/
theorem decode_persistRow {s : Store} (hold : s.Holds old before) (hcont : Continues before j)
    (hrounds : Rounds old before j)
    (hattempts : loadAttempts rows =
      .ok (j.val.attempts.map (JobAttempt.mapTime (floorAfter old.updated_at)))) :
    decode (persistRow cfg env j a old) rows = .ok (j.mapTime (floorAfter old.updated_at)) := by
  have hcarries : (persistRow cfg env j a old).Carries j := persistRow_continues hold hcont
  obtain ⟨hres, hfail, -, hver, hav, hcr, hup⟩ := persistRow_columns cfg env old a hrounds.result
  obtain ⟨_, _, _, hreads, -⟩ := (decode_carried hold.carries).mp hold.decoded
  have hlife := j.consistent.lifetime
  have hmapFailure : j.val.failure.map (JobFailure.mapTime (floorAfter old.updated_at)) =
      j.val.failure.map (JobFailure.mapTime floorMap) := by
    cases hf : j.val.failure with
    | none => rfl
    | some f =>
      simp only [Option.map_some, Option.some.injEq]
      apply Validated.ext
      simp only [JobFailure.mapTime, hrounds.failure f hf]
      rfl
  refine (decode_carried hcarries).mpr ⟨_, none, j.val.failure.map (JobFailure.mapTime floorMap),
    ⟨?_, hattempts, ?_, hver, ?_, ?_, ?_, ?_, ?_, ?_⟩, ?_⟩
  · rw [hcarries.job_id]
    exact ne_empty_of_identifier j.clean.job_id
  · rw [hcarries.attempts, List.length_map]
    rfl
  · rw [hcarries.payload]
    exact payload_read j.val.payload
  · rw [hres]
    rfl
  · rw [hfail]
    exact parseFailure_map _ _
  · rw [hav]
    exact micros_nonneg (le_trans hlife.created_nonneg hlife.created_le_available)
  · rw [hcr]
    exact hreads.created_nonneg
  · rw [hup]
    exact micros_nonneg j.updated_nonneg
  · apply JobFields.ext
    · exact hcarries.job_id.symm
    · exact hcarries.tenant_id.symm
    · exact hcarries.workspace_id.symm
    · exact hcarries.collection_id.symm
    · simp only [rowFields, hcarries.operation, operation_read]
      rfl
    · exact hcarries.idempotency_key.symm
    · rfl
    · rfl
    · exact hcarries.max_attempts.symm
    · rfl
    · simp [rowFields, Job.mapTime, JobFields.mapTime, hrounds.result]
    · exact hmapFailure
    · simp only [rowFields, hav]
      exact hrounds.available
    · simp only [rowFields, hcr, Job.mapTime, JobFields.mapTime, hrounds.created, hold.times.2.1]
      exact floorAfter_ofMicros _ _
    · simp only [rowFields, hup]
      exact hrounds.updated
    · simp only [rowFields, hcarries.version, version_read]
      rfl

/-- A persisted row satisfies the constraints of the tables: its identity is that of the row before
it, and a running one has the lease that is issued with it. -/
theorem persistRow_admitted {s : Store} (hold : s.Holds old before) (hcont : Continues before j)
    (hresult : j.val.result = none)
    (hlease : j.val.state = .running → ∃ worker token, a.lease = .issue worker token) :
    s.jobs.AdmitsUpdate (persistRow cfg env j a old) := by
  have hcarries : (persistRow cfg env j a old).Carries j := persistRow_continues hold hcont
  obtain ⟨hres, hfail, hstatus, -⟩ := persistRow_columns cfg env old a hresult
  constructor
  · rw [Row.checks_iff hcarries hstatus (by rw [hres, hresult]; rfl) hfail]
    intro hrun
    obtain ⟨worker, token, hissue⟩ := hlease hrun
    have hpos := interval_pos cfg.lease_ge
    simp only [persistRow, hissue, LeaseArg.assign, Row.hasLease, Option.isSome_some, Bool.and_self,
      Bool.true_and, decide_eq_true_eq]
    omega
  · intro x hx hne heq
    have hmem := (Table.find?_eq_some.mp hold.found).1
    have hident : x.identity = old.identity := by
      rw [heq, hcarries.identity, hcont.identity, hold.carries.identity]
    have hsame := s.jobs.eq_of_uk hx hmem hident
    rw [hsame, persistRow_job_id] at hne
    exact hne rfl

/-- A job that is built from a stored one is persisted over it, and returned with its new times
rounded down. -/
theorem persist_returns (cfg : Config) (env : Env) (a : PersistArgs) {s : Session}
    (hold : s.store.Holds old before)
    (hcont : Continues before j) (hrounds : Rounds old before j)
    (hversion : j.val.version = before.val.version + 1)
    (hargs : a.expected_version = before.val.version ∧ a.lease_guard = none ∧ a.deadline = none ∧
      a.document_id = none)
    (hlease : j.val.state = .running → ∃ worker token, a.lease = .issue worker token)
    (hupsert : upsertAttempts (j.val.attempts.map attemptRow)
      (s.store.attempts before.val.job_id) = .ok rows)
    (hattempts : loadAttempts rows =
      .ok (j.val.attempts.map (JobAttempt.mapTime (floorAfter old.updated_at)))) :
    ∃ jobs, Persisted cfg env s j a old jobs rows (j.mapTime (floorAfter old.updated_at)) ∧
      persist cfg env j a s = .ok (j.mapTime (floorAfter old.updated_at),
        s.persisted cfg env j a old jobs rows) := by
  obtain ⟨hexp, hguard, hdeadline, hdoc⟩ := hargs
  obtain ⟨jobs, hjobs⟩ : ∃ jobs, s.store.jobs.replace? (persistRow cfg env j a old) = some jobs := by
    unfold Table.replace?
    rw [dif_pos (persistRow_admitted hold hcont hrounds.result hlease)]
    exact ⟨_, rfl⟩
  have hpersisted : Persisted cfg env s j a old jobs rows
      (j.mapTime (floorAfter old.updated_at)) := by
    refine ⟨⟨?_, ?_, ?_, hjobs⟩, by omega, by simp [hdeadline], ?_,
      decode_persistRow hold hcont hrounds hattempts⟩
    · rw [hcont.job_id]
      exact hold.found
    · simp only [persistWhere, hguard, hdeadline, Option.all_none, hold.carries.state,
        Option.isSome_some, Bool.and_true, Bool.and_eq_true, beq_iff_eq]
      exact ⟨(hold.carries.inScope_iff j.scope).mpr hcont.scope.symm,
        hold.carries.version.trans hexp.symm⟩
    · intro hne
      have hsame : (persistRow cfg env j a old).document_id = old.document_id := by
        unfold persistRow LeaseArg.assign
        split <;> simp [assignJob, hdoc]
      exact absurd hsame.symm hne
    · rw [hcont.job_id]
      exact hupsert
  exact ⟨jobs, hpersisted, persist_ok.mpr ⟨old, jobs, rows, hpersisted, rfl⟩⟩

end

end RickIntelligence.Postgres
