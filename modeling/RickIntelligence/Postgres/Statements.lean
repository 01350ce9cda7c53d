import RickIntelligence.Postgres.Queue

/-!
# What the statements of the queue do

One lemma for each statement of `Postgres/Store.lean` and for `_persist` and `_insert`: when it
returns, what it returns, and the session it leaves. The operations are taken apart with these, and
no later proof looks into a statement again.
-/

namespace RickIntelligence.Postgres

open Lib Jobs

variable {env : Env} {s s' : Session} {j : Job} {u : Unit}

/-! ## Frames of the event tables -/

@[simp]
theorem Store.logLifecycle_jobs (s : Store) (e : LifecycleEvent) :
    (s.logLifecycle e).jobs = s.jobs := rfl

@[simp]
theorem Store.logLifecycle_attempts (s : Store) (e : LifecycleEvent) :
    (s.logLifecycle e).attempts = s.attempts := rfl

@[simp]
theorem Store.logProjection_jobs (s : Store) (o : OutboxEvent) (a : AuditEvent) :
    (s.logProjection o a).jobs = s.jobs := rfl

@[simp]
theorem Store.logProjection_attempts (s : Store) (o : OutboxEvent) (a : AuditEvent) :
    (s.logProjection o a).attempts = s.attempts := rfl

/-! ## Reading -/

variable {job_id field : String} {scope : JobScopeFields} {r : Option Row} {p : Row → Bool} {row : Row} {α : Type}
  {x : Except ContractError α} {a : α} {expected observed : ℕ} {existing candidate out : Job}

/-- `_select_one` returns the row of the job, if it is in the scope. -/
theorem selectOne_ok :
    selectOne job_id scope s = .ok (r, s') ↔
      r = ((s.store.jobs.find? job_id).filter fun r => r.inScope scope) ∧ s = s' := by
  simp only [selectOne, Tx.bind_ok, Tx.get_ok, Tx.pure_ok]
  constructor
  · rintro ⟨_, _, ⟨rfl, rfl⟩, rfl, rfl⟩
    exact ⟨rfl, rfl⟩
  · rintro ⟨rfl, rfl⟩
    exact ⟨_, _, ⟨rfl, rfl⟩, rfl, rfl⟩

/-- A row that `_select_one` returned is that of the job, in the scope. -/
theorem selectOne_some {r : Row} :
    selectOne job_id scope s = .ok (some r, s') ↔
      s.store.jobs.find? job_id = some r ∧ r.inScope scope = true ∧ s = s' := by
  rw [selectOne_ok, eq_comm, Option.filter_eq_some_iff, and_assoc]

/-- `_idempotency_row` returns the row with the job's identity. -/
theorem idempotencyRow_ok :
    idempotencyRow j s = .ok (r, s') ↔
      r = (s.store.jobs.rows.find? fun r => decide (r.identity = j.idempotencyIdentity)) ∧
        s = s' := by
  simp only [idempotencyRow, Tx.bind_ok, Tx.get_ok, Tx.pure_ok]
  constructor
  · rintro ⟨_, _, ⟨rfl, rfl⟩, rfl, rfl⟩
    exact ⟨rfl, rfl⟩
  · rintro ⟨rfl, rfl⟩
    exact ⟨_, _, ⟨rfl, rfl⟩, rfl, rfl⟩

/-- `_select_many` returns the rows that match, in their order, up to the limit. -/
theorem selectMany_ok {le : Row → Row → Prop} [DecidableRel le] {limit : ℕ} {rows : List Row} :
    selectMany p le limit s = .ok (rows, s') ↔
      rows = ((s.store.jobs.rows.filter p).insertionSort le).take limit ∧ s = s' := by
  simp only [selectMany, Tx.bind_ok, Tx.get_ok, Tx.pure_ok]
  constructor
  · rintro ⟨_, _, ⟨rfl, rfl⟩, rfl, rfl⟩
    exact ⟨rfl, rfl⟩
  · rintro ⟨rfl, rfl⟩
    exact ⟨_, _, ⟨rfl, rfl⟩, rfl, rfl⟩

/-- `_decode` of a stored row reads its attempts from the store. -/
theorem decodeStored_ok :
    decodeStored row s = .ok (j, s') ↔
      decode row (s.store.attempts row.job_id) = .ok j ∧ s = s' := by
  simp only [decodeStored, Tx.bind_ok, Tx.get_ok, Tx.lift_ok]
  constructor
  · rintro ⟨_, _, ⟨rfl, rfl⟩, h, rfl⟩
    exact ⟨h, rfl⟩
  · rintro ⟨h, rfl⟩
    exact ⟨_, _, ⟨rfl, rfl⟩, h, rfl⟩

/-! ## Steps without a statement -/

/-- A step of the contract returns what the contract returns. -/
theorem contractStep_ok :
    contractStep x s = .ok (a, s') ↔ x = .ok a ∧ s = s' := by
  rw [contractStep, Tx.lift_ok, mapError_ok]

/-- A transition returns what the contract returns. -/
theorem transitionStep_ok :
    transitionStep x s = .ok (a, s') ↔ x = .ok a ∧ s = s' := by
  rw [transitionStep, Tx.lift_ok, mapError_ok]

/-- `_check_expected` passes on equal versions. -/
theorem checkExpected_ok :
    checkExpected expected observed s = .ok (u, s') ↔ expected = observed ∧ s = s' := by
  rw [checkExpected, Tx.raiseIf_ok, bne_eq_false_iff_eq]

/-- A version that is checked only if it is given. -/
theorem checkedIf_ok {c : Prop} [Decidable c] {k : QTx α} {x : α} :
    (if c then do
        checkExpected expected observed
        k
      else k) s = .ok (x, s') ↔ (c → expected = observed) ∧ k s = .ok (x, s') := by
  split_ifs with hc
  · simp only [Tx.bind_ok, checkExpected_ok, hc, forall_const]
    constructor
    · rintro ⟨_, _, ⟨he, rfl⟩, hk⟩
      exact ⟨he, hk⟩
    · rintro ⟨he, hk⟩
      exact ⟨(), s, ⟨he, rfl⟩, hk⟩
  · simp only [hc, false_implies, true_and]

/-- `_require_canonical_row` passes on canonical rows. -/
theorem requireCanonicalRow_ok :
    requireCanonicalRow row s = .ok (u, s') ↔ row.contract_state.isSome = true ∧ s = s' := by
  rw [requireCanonicalRow, Tx.raiseIf_ok, Option.isNone_eq_false_iff]

/-- `ensure_idempotent` returns the existing job exactly when the requests are the same. -/
theorem jobEnsureIdempotent_ok :
    Job.ensureIdempotent existing candidate = .ok j ↔
      existing.idempotencyIdentity = candidate.idempotencyIdentity ∧
        existing.envelope = candidate.envelope ∧ j = existing := by
  simp only [Job.ensureIdempotent, except_bind_ok, raiseFirst_ok, List.mem_cons, List.not_mem_nil,
    or_false, forall_eq_or_imp, forall_eq, bne_eq_false_iff_eq, pure, Except.pure, Except.ok.injEq,
    exists_const, and_assoc]
  rw [eq_comm (a := existing) (b := j)]

/-- `ensure_idempotent` of the adapter returns the existing job. -/
theorem ensureIdempotent_ok :
    ensureIdempotent existing candidate s = .ok (j, s') ↔
      existing.idempotencyIdentity = candidate.idempotencyIdentity ∧
        existing.envelope = candidate.envelope ∧ j = existing ∧ s = s' := by
  rw [ensureIdempotent, Tx.lift_ok, mapError_ok, jobEnsureIdempotent_ok, and_assoc, and_assoc]

/-! ## Writing -/

/-- A row is updated in place: `f` of it satisfies the constraints. -/
structure Updated (env : Env) (s : Session) (job_id : String) (p : Row → Bool) (f : Row → Row)
    (old : Row) (jobs : JobTable) : Prop where
  found : s.store.jobs.find? job_id = some old
  matched : p old = true
  refers : old.document_id ≠ (f old).document_id → env.references (f old) = true
  replaced : s.store.jobs.replace? (f old) = some jobs

/-- The session after a row was updated. -/
def Session.update (s : Session) (jobs : JobTable) (old new : Row) : Session :=
  s.write { s.store with jobs } ⟨some old, some new⟩

/-- An update returns no row and changes nothing, or returns the row that it wrote. -/
theorem updateRow_ok {f : Row → Row} :
    updateRow env job_id p f s = .ok (r, s') ↔
      ((s.store.jobs.find? job_id).filter p = none ∧ r = none ∧ s' = s) ∨
      ∃ old jobs, Updated env s job_id p f old jobs ∧ r = some (f old) ∧
        s' = s.update jobs old (f old) := by
  simp only [updateRow, Tx.bind_ok, Tx.get_ok]
  cases hf : (s.store.jobs.find? job_id).filter p with
  | none =>
    constructor
    · rintro ⟨_, _, ⟨rfl, rfl⟩, h⟩
      rw [hf] at h
      obtain ⟨rfl, rfl⟩ := Tx.pure_ok.mp h
      exact .inl ⟨rfl, rfl, rfl⟩
    · rintro (⟨-, rfl, rfl⟩ | ⟨old, jobs, h, -, -⟩)
      · refine ⟨_, _, ⟨rfl, rfl⟩, ?_⟩
        rw [hf]
        exact Tx.pure_ok.mpr ⟨rfl, rfl⟩
      · rw [Option.filter_eq_none_iff] at hf
        exact absurd h.matched (hf old h.found)
  | some old =>
    obtain ⟨hfound, hmatch⟩ := Option.filter_eq_some_iff.mp hf
    simp only [reduceCtorEq, false_and, false_or]
    constructor
    · rintro ⟨_, _, ⟨rfl, rfl⟩, h⟩
      rw [hf] at h
      obtain ⟨_, _, h1, h2⟩ := Tx.bind_ok.mp h
      obtain ⟨href, rfl⟩ := Tx.raiseIf_ok.mp h1
      cases hr : s.store.jobs.replace? (f old) with
      | none => simp [hr, Tx.raise_ok] at h2
      | some jobs =>
        simp only [hr, Tx.bind_ok, Tx.set_ok, Tx.pure_ok] at h2
        obtain ⟨_, _, rfl, rfl, rfl⟩ := h2
        refine ⟨old, jobs, ⟨hfound, hmatch, ?_, hr⟩, rfl, rfl⟩
        simpa using href
    · rintro ⟨old', jobs, h, rfl, rfl⟩
      obtain rfl : old' = old := Option.some.inj (h.found.symm.trans hfound)
      refine ⟨_, _, ⟨rfl, rfl⟩, ?_⟩
      rw [hf]
      refine Tx.bind_ok.mpr ⟨(), s, Tx.raiseIf_ok.mpr ⟨?_, rfl⟩, ?_⟩
      · simpa using h.refers
      · simp only [h.replaced, Tx.bind_ok, Tx.set_ok, Tx.pure_ok]
        exact ⟨(), _, rfl, trivial, rfl⟩

/-- A row is inserted when what it refers to exists and the constraints admit it. -/
theorem insertJobRow_ok :
    insertJobRow env row s = .ok (u, s') ↔ env.references row = true ∧
      ∃ jobs, s.store.jobs.insert? row = some jobs ∧
        s' = s.write { s.store with jobs } ⟨none, some row⟩ := by
  simp only [insertJobRow, Tx.bind_ok, Tx.raiseIf_ok, Tx.get_ok, Bool.not_eq_false']
  constructor
  · rintro ⟨_, _, ⟨href, rfl⟩, _, _, ⟨rfl, rfl⟩, h⟩
    cases hi : s.store.jobs.insert? row with
    | none => simp [hi, Tx.raise_ok] at h
    | some jobs =>
      simp only [hi, Tx.set_ok] at h
      exact ⟨href, jobs, rfl, h.symm⟩
  · rintro ⟨href, jobs, hi, rfl⟩
    refine ⟨(), s, ⟨href, rfl⟩, s, s, ⟨rfl, rfl⟩, ?_⟩
    simp only [hi, Tx.set_ok]

/-- The attempts of a job are written when each of them may be. -/
theorem writeAttempts_ok :
    writeAttempts j s = .ok (u, s') ↔
      ∃ rows, upsertAttempts (j.val.attempts.map attemptRow) (s.store.attempts j.val.job_id) =
          .ok rows ∧
        s' = { s with store := { s.store with
          attempts := Function.update s.store.attempts j.val.job_id rows } } := by
  simp only [writeAttempts, Tx.bind_ok, Tx.get_ok, Tx.lift_ok, Tx.set_ok]
  constructor
  · rintro ⟨_, _, ⟨rfl, rfl⟩, rows, _, ⟨h, rfl⟩, rfl⟩
    exact ⟨rows, h, rfl⟩
  · rintro ⟨rows, h, rfl⟩
    exact ⟨_, _, ⟨rfl, rfl⟩, rows, _, ⟨h, rfl⟩, rfl⟩

/-- The store with the event of a job's version. -/
def Store.logVersion (s : Store) (j : Job) (from_state : Option JobState) (event_type : String) :
    Store :=
  (s.logLifecycle (lifecycleEvent j (eventId j.val.job_id j.val.version) from_state event_type
    (eventMetadata j))).logProjection
      (outboxEvent j (eventId j.val.job_id j.val.version) event_type (eventMetadata j))
      (auditEvent j (eventId j.val.job_id j.val.version) event_type (eventMetadata j))

@[simp]
theorem Store.logVersion_jobs (s : Store) (j : Job) (from_state : Option JobState) (e : String) :
    (s.logVersion j from_state e).jobs = s.jobs := rfl

@[simp]
theorem Store.logVersion_attempts (s : Store) (j : Job) (from_state : Option JobState)
    (e : String) : (s.logVersion j from_state e).attempts = s.attempts := rfl

/-- `_write_event` writes the event of the job's version. -/
theorem writeEvent_ok {from_state : Option JobState} {event_type : String} :
    writeEvent j from_state event_type s = .ok (u, s') ↔
      s' = { s with store := s.store.logVersion j from_state event_type } := by
  simp only [writeEvent, writeLifecycleEvent, writeProjectionEvent, Tx.bind_ok, Tx.modify_ok]
  constructor
  · rintro ⟨_, _, rfl, rfl⟩
    rfl
  · rintro rfl
    exact ⟨(), _, rfl, rfl⟩

/-! ## Persisting and inserting -/

/-- The store after a job was written: its row, its attempts, and the event of its version. -/
def Store.written (s : Store) (j : Job) (jobs : JobTable) (rows : List AttemptRow)
    (from_state : Option JobState) (event_type : String) : Store :=
  { s with jobs, attempts := Function.update s.attempts j.val.job_id rows }.logVersion j from_state
    event_type

@[simp]
theorem Store.written_jobs (s : Store) (j : Job) (jobs : JobTable) (rows : List AttemptRow)
    (from_state : Option JobState) (e : String) : (s.written j jobs rows from_state e).jobs = jobs :=
  rfl

@[simp]
theorem Store.written_attempts (s : Store) (j : Job) (jobs : JobTable) (rows : List AttemptRow)
    (from_state : Option JobState) (e : String) :
    (s.written j jobs rows from_state e).attempts =
      Function.update s.attempts j.val.job_id rows := rfl

/-- `_persist` of a job over the row `old`: what it asks for, and what it reads back. -/
structure Persisted (cfg : Config) (env : Env) (s : Session) (j : Job) (a : PersistArgs)
    (old : Row) (jobs : JobTable) (rows : List AttemptRow) (out : Job) : Prop extends
    Updated env s j.val.job_id (persistWhere env j a a.deadline) (persistRow cfg env j a) old
      jobs where
  version : j.val.version = a.expected_version + 1
  deadline : ∀ t, a.deadline = some t → 0 ≤ t
  attempts : upsertAttempts (j.val.attempts.map attemptRow) (s.store.attempts j.val.job_id) =
    .ok rows
  decoded : decode (persistRow cfg env j a old) rows = .ok out

/-- The session after `_persist`. -/
def Session.persisted (s : Session) (cfg : Config) (env : Env) (j : Job) (a : PersistArgs)
    (old : Row) (jobs : JobTable) (rows : List AttemptRow) : Session :=
  s.write (s.store.written j jobs rows (some a.from_state) a.event_type)
    ⟨some old, some (persistRow cfg env j a old)⟩

@[simp]
theorem time_ok {t u : ℚ} : time field t = .ok u ↔ 0 ≤ t ∧ u = t := by
  unfold time
  split_ifs with h
  · simp [not_le.mpr h]
  · simp [not_lt.mp h, eq_comm]

@[simp]
theorem optionalTime_ok {t u : Option ℚ} :
    optionalTime field t = .ok u ↔ (∀ x, t = some x → 0 ≤ x) ∧ u = t := by
  cases t with
  | none => simp [optionalTime, eq_comm]
  | some x =>
    simp only [optionalTime, except_map_ok, time_ok, Option.some.injEq, forall_eq']
    constructor
    · rintro ⟨_, ⟨hx, rfl⟩, rfl⟩
      exact ⟨hx, rfl⟩
    · rintro ⟨hx, rfl⟩
      exact ⟨_, ⟨hx, rfl⟩, rfl⟩

/-- `_persist` keeps the key of the row. -/
@[simp]
theorem persistRow_job_id (cfg : Config) (env : Env) (j : Job) (a : PersistArgs) (r : Row) :
    (persistRow cfg env j a r).job_id = r.job_id := by
  unfold persistRow LeaseArg.assign
  split <;> rfl

/-- `_persist` returns exactly when the row is there at its version and can be written. -/
theorem persist_ok {cfg : Config} {a : PersistArgs} :
    persist cfg env j a s = .ok (out, s') ↔ ∃ old jobs rows,
      Persisted cfg env s j a old jobs rows out ∧ s' = s.persisted cfg env j a old jobs rows := by
  simp only [persist, Tx.bind_ok, Tx.raiseIf_ok, Tx.lift_ok, optionalTime_ok, updateRow_ok,
    bne_eq_false_iff_eq]
  constructor
  · rintro ⟨_, _, ⟨hv, rfl⟩, _, _, ⟨⟨hd, rfl⟩, rfl⟩, _, _, h, hrest⟩
    rcases h with ⟨-, rfl, rfl⟩ | ⟨old, jobs, h, rfl, rfl⟩
    · simp only at hrest
      split at hrest <;> simp [Tx.raise_ok] at hrest
    · simp only [Tx.bind_ok, writeAttempts_ok, writeEvent_ok, decodeStored_ok] at hrest
      obtain ⟨_, _, ⟨rows, hrows, rfl⟩, _, _, rfl, hdec, rfl⟩ := hrest
      have hid := (Table.find?_eq_some.mp h.found).2
      refine ⟨old, jobs, rows, ⟨h, hv, hd, hrows, ?_⟩, rfl⟩
      simpa [persistRow_job_id, hid] using hdec
  · rintro ⟨old, jobs, rows, h, rfl⟩
    have hid := (Table.find?_eq_some.mp h.found).2
    refine ⟨(), s, ⟨h.version, rfl⟩, _, s, ⟨⟨h.deadline, rfl⟩, rfl⟩, _, _,
      .inr ⟨old, jobs, h.toUpdated, rfl, rfl⟩, ?_⟩
    simp only [Tx.bind_ok, writeAttempts_ok, writeEvent_ok, decodeStored_ok]
    refine ⟨(), _, ⟨rows, h.attempts, rfl⟩, (), _, rfl, ?_, rfl⟩
    simpa [persistRow_job_id, hid] using h.decoded

/-- `_insert` of a job: what it asks for, and what it reads back. -/
structure Inserted (env : Env) (s : Session) (j : Job) (jobs : JobTable) (rows : List AttemptRow)
    (out : Job) : Prop where
  refers : env.references (insertRow j) = true
  inserted : s.store.jobs.insert? (insertRow j) = some jobs
  attempts : upsertAttempts (j.val.attempts.map attemptRow) (s.store.attempts j.val.job_id) =
    .ok rows
  decoded : decode (insertRow j) rows = .ok out

/-- The session after `_insert`. -/
def Session.inserted (s : Session) (j : Job) (jobs : JobTable) (rows : List AttemptRow) : Session :=
  s.write (s.store.written j jobs rows none "created") ⟨none, some (insertRow j)⟩

/-- `_insert` returns exactly when the tables admit the job. -/
theorem insert_ok :
    insert env j s = .ok (out, s') ↔ ∃ jobs rows,
      Inserted env s j jobs rows out ∧ s' = s.inserted j jobs rows := by
  simp only [insert, Tx.bind_ok, insertJobRow_ok, writeAttempts_ok, writeEvent_ok, decodeStored_ok]
  constructor
  · rintro ⟨_, _, ⟨href, jobs, hins, rfl⟩, _, _, ⟨rows, hrows, rfl⟩, _, _, rfl, hdec, rfl⟩
    refine ⟨jobs, rows, ⟨href, hins, hrows, ?_⟩, rfl⟩
    simpa [insertRow] using hdec
  · rintro ⟨jobs, rows, h, rfl⟩
    refine ⟨(), _, ⟨h.refers, jobs, h.inserted, rfl⟩, (), _, ⟨rows, h.attempts, rfl⟩, (), _, rfl, ?_,
      rfl⟩
    simpa [insertRow] using h.decoded

end RickIntelligence.Postgres
