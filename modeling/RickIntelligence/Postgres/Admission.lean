import RickIntelligence.Postgres.Machine
import RickIntelligence.Postgres.Persisting

/-!
# Idempotent admission

There is one row for each identity, and what its request asks for never changes while it is there:
every job that is persisted continues the one before it. A request whose identity is stored gets the
stored job back, or an error that leaves the store as it was (`idempotent_admission`).
-/

namespace RickIntelligence.Postgres

open Lib Jobs TimeMap

/-! ## What a row asks for -/

/-- The payload of a request without its trace fields, as a row stores it. -/
def storedPayload : Json → Option Mapping
  | .obj ms => (Json.mapping? ms).map idempotencyPayload
  | _ => none

/-- The immutable part of a row's request: its operation, its payload without trace fields, and its
number of attempts. -/
def Row.envelope (r : Row) : String × Option Mapping × ℕ :=
  (r.operation, storedPayload r.payload, r.max_attempts)

/-- The immutable part of a job's request, as a row stores it. -/
def storedEnvelope (j : Job) : String × Option Mapping × ℕ :=
  (j.val.operation, some (idempotencyPayload j.val.payload), j.val.max_attempts)

/-- The immutable part of a row is that of its job. -/
theorem Row.Carries.envelope {r : Row} {j : Job} (h : r.Carries j) :
    r.envelope = storedEnvelope j := by
  unfold Row.envelope storedEnvelope
  rw [h.operation, h.payload, h.max_attempts]
  simp [storedPayload, Json.ofMapping]

/-- Two jobs ask for the same exactly when they would be stored so. -/
theorem storedEnvelope_inj {j j' : Job} :
    storedEnvelope j = storedEnvelope j' ↔ j.envelope = j'.envelope := by
  simp [storedEnvelope, Job.envelope]

/-! ## Changes keep the request -/

section

variable {cfg : Config} {env : Env} {s s' : Session}

variable {j existing : Job} {expected : ℕ} {row : Row}

/-- Every job that a call persists continues the one before it. -/
theorem Call.Permits.continues {env : Env} {call : Call} {before : Job} {a : PersistArgs}
    (h : call.Permits env (.persist before j a)) : Continues before j := by
  rcases h.cases with ⟨_, h⟩ | ⟨_, h⟩ | ⟨_, _, _, h, hsaves⟩ | ⟨_, ⟨_, hleases⟩, -⟩ | ⟨_, h⟩ | ⟨h, -⟩
  · cases h
  · exact h.2.toContinues
  · cases h
    exact hsaves.toContinues
  · exact hleases.toContinues
  · exact h.elim
  · exact h.elim

/-- A row under an id with an identity and a request. -/
def Store.Asks (s : Store) (id : String) (identity : String × String × String × String)
    (envelope : String × Option Mapping × ℕ) : Prop :=
  ∃ r, s.jobs.find? id = some r ∧ r.identity = identity ∧ r.envelope = envelope

variable {id : String} {identity : String × String × String × String} {envelope : String × Option Mapping × ℕ}

/-- A change that continues the job before it, and deletes nothing, keeps what a row asks for. -/
theorem Write.asks {c : Change} (h : Write cfg env s c s')
    (hc : ∀ before j a, c = .persist before j a → Continues before j) (hdelete : ∀ id, c ≠ .delete id)
    (hr : s.store.Asks id identity envelope) : s'.store.Asks id identity envelope := by
  obtain ⟨r, hfound, hident, henv⟩ := hr
  obtain ⟨r', hr'⟩ := h.kept hfound hdelete
  refine ⟨r', hr', ?_⟩
  rcases h.found hr' with hsame | ⟨j, -, -, hnone, -⟩ |
    ⟨before, j, a, old, rfl, hid, hold, hold', hmatch, -, rfl⟩ | ⟨f, old, -, hf, hold, rfl⟩
  · rw [hfound] at hsame
    cases hsame
    exact ⟨hident, henv⟩
  · rw [hfound] at hnone
    cases hnone
  · obtain rfl : old = r := Option.some.inj (hold'.symm.trans hfound)
    have hcont := hc before j a rfl
    have hcarries : (persistRow cfg env j a old).Carries j := persistRow_continues hold hcont
    rw [hcarries.identity, hcont.identity, hcarries.envelope, storedEnvelope_inj.mpr hcont.envelope,
      ← hold.carries.identity, ← hold.carries.envelope]
    exact ⟨hident, henv⟩
  · obtain rfl : old = r := Option.some.inj (hold.symm.trans hfound)
    rw [hf old]
    exact ⟨hident, henv⟩

/-- A run that removes no rows keeps what a row asks for. -/
theorem Run.asks {s₀ t : Store} {h : List Entry} (hrun : Run cfg s₀ h t) (hs : s₀.Sound)
    (hprunes : ∀ e ∈ h, e.step.call.prunes = false) (hr : s₀.Asks id identity envelope) :
    t.Asks id identity envelope := by
  refine hrun.invariant (I := fun t => t.Asks id identity envelope) hs hr hprunes ?_
  intro x u hu hx hasks
  rw [Step.exec_step] at hx
  cases hreply : (x.exec cfg u).reply with
  | error err =>
    rw [(Step.exec_error hreply).1]
    exact hasks
  | ok reply =>
    obtain ⟨u', hstep, hafter, -⟩ := Step.exec_ok hreply
    rw [hafter]
    have hstart : (Session.start u).store.Sound := hu
    refine (Call.writes hstart hstep).invariant (I := fun v => v.store.Asks id identity envelope) ?_
      hasks
    intro v v' c hc hw hv
    refine hw.asks ?_ (hc.ne_delete hx) hv
    rintro before j a rfl
    exact hc.continues

/-! ## A stored request -/

/-- `ensure_idempotent` of two jobs of one identity. -/
theorem ensureIdempotent_eq {candidate : Job}
    (hident : existing.idempotencyIdentity = candidate.idempotencyIdentity) :
    ensureIdempotent existing candidate s =
      if existing.envelope = candidate.envelope then .ok (existing, s) else .error .idempotency := by
  split_ifs with henv
  · exact ensureIdempotent_ok.mpr ⟨hident, henv, rfl, rfl⟩
  · have hne : (existing.envelope != candidate.envelope) = true := by simpa using henv
    simp [ensureIdempotent, Job.ensureIdempotent, hident, hne, raiseFirst, Tx.lift, Except.mapError,
      Except.map, bind, Except.bind]

/-- A version that is checked if it is given. -/
theorem checkedIf_eq {observed : ℕ} {α : Type} {k : QTx α} :
    (if expected ≠ 0 then do
        checkExpected expected observed
        k
      else k) s =
      if expected = 0 ∨ expected = observed then k s
      else .error (.concurrency "job version changed") := by
  by_cases h0 : expected = 0
  · simp [h0]
  · by_cases heq : expected = observed
    · rw [if_pos h0, if_pos (.inr heq)]
      exact Tx.bind_of_ok (a := ()) (checkExpected_ok.mpr ⟨heq, rfl⟩)
    · rw [if_pos h0, if_neg (by tauto)]
      refine Tx.bind_of_error ?_
      simp [checkExpected, Tx.raiseIf, heq, Tx.raise]

/-- `create_or_replay` of a stored identity. -/
theorem createOrReplay_stored (hold : s.store.Holds row existing) (hident : row.identity = j.idempotencyIdentity) :
    createOrReplay env j expected s =
      if expected = 0 ∨ expected = existing.val.version then
        if existing.envelope = j.envelope then .ok (existing, s) else .error .idempotency
      else .error (.concurrency "job version changed") := by
  have hid : existing.idempotencyIdentity = j.idempotencyIdentity := by
    rw [← hold.carries.identity, hident]
  unfold createOrReplay
  rw [Tx.bind_of_ok (idempotencyRow_some.mpr ⟨hold.found_row, hident, rfl⟩)]
  simp only
  rw [Tx.bind_of_ok (decodeStored_ok.mpr ⟨by rw [hold.carries.job_id]; exact hold.decoded, rfl⟩),
    checkedIf_eq, ensureIdempotent_eq hid]

/-- `enqueue` of a stored identity. -/
theorem enqueue_stored (hold : s.store.Holds row existing) (hident : row.identity = j.idempotencyIdentity) :
    enqueue cfg env j expected s =
      if expected = 0 ∨ expected = existing.val.version then
        if existing.envelope = j.envelope then
          if existing.val.state = .pending then enqueuePending cfg env existing s
          else .ok (existing, s)
        else .error .idempotency
      else .error (.concurrency "job version changed") := by
  have hid : existing.idempotencyIdentity = j.idempotencyIdentity := by
    rw [← hold.carries.identity, hident]
  unfold enqueue
  rw [Tx.bind_of_ok (idempotencyRow_some.mpr ⟨hold.found_row, hident, rfl⟩)]
  simp only
  rw [Tx.bind_of_ok (decodeStored_ok.mpr ⟨by rw [hold.carries.job_id]; exact hold.decoded, rfl⟩),
    checkedIf_eq]
  have hens := ensureIdempotent_eq (s := s) hid
  have hcanonical : ¬ row.contract_state.isNone = true := by simp [hold.carries.state]
  by_cases hversion : expected = 0 ∨ expected = existing.val.version
  · rw [if_pos hversion, if_pos hversion]
    by_cases henv : existing.envelope = j.envelope
    · rw [if_pos henv] at hens ⊢
      rw [Tx.bind_of_ok hens, if_neg hcanonical]
      by_cases hpend : existing.val.state = .pending
      · rw [if_pos hpend, if_pos hpend]
      · rw [if_neg hpend, if_neg hpend]
        rfl
    · rw [if_neg henv] at hens ⊢
      exact Tx.bind_of_error hens
  · rw [if_neg hversion, if_neg hversion]

/-- A stored pending job is queued. -/
theorem enqueuePending_returns (cfg : Config) (env : Env) (hold : s.store.Holds row j)
    (hpend : j.val.state = .pending) :
    ∃ out s', enqueuePending cfg env j s = .ok (out, s') := by
  have hshape := j.consistent.shape
  simp only [JobFields.Shape, hpend] at hshape
  obtain ⟨hattempts, hresult, hfailure⟩ := hshape
  -- The transition: the time is that of the last change.
  have hmoves : j.Moves .queued (max j.val.updated_at j.val.updated_at) {} := by
    refine ⟨(Job.moveChecks_plain (by decide) (by decide)).mpr ⟨rfl, rfl⟩, by simp, ?_, by simp⟩
    intro f hf
    rw [Job.observedFailure, hfailure] at hf
    cases hf
  obtain ⟨queued, hmove⟩ := Job.move_total hmoves rfl (by simp)
    (by simp [Job.moved, Job.failureStates]) ⟨rfl, rfl, by
      simp [JobFields.lastAttempt, Job.moved, hattempts]⟩
  have htransition : j.transition .queued (max j.val.updated_at j.val.updated_at) {} = .ok queued :=
    Job.transition_ok.mpr ⟨by rw [hpend]; rfl, by decide, by rw [if_neg (by simp [hpend])]; exact hmove⟩
  obtain ⟨-, hval⟩ := Job.move_ok.mp hmove
  have hcont := (transition_continues htransition).1
  obtain ⟨havailable, -, hupdated⟩ := hold.times
  have hnil : queued.val.attempts = [] := by rw [hval]; exact hattempts
  have hrounds : Rounds row j queued := by
    refine ⟨by rw [hval]; rfl, by rw [hval]; rfl, ?_, ?_, ?_⟩
    · rw [hval]
      show floorAfter _ j.val.available_at = floorMicros j.val.available_at
      rw [havailable, floorAfter_ofMicros, floorMicros_ofMicros]
    · rw [hval]
      show floorAfter _ (max j.val.updated_at j.val.updated_at) = floorMicros (max _ _)
      rw [max_self, hupdated, floorAfter_ofMicros, floorMicros_ofMicros]
    · intro f hf
      rw [hval] at hf
      cases hf
  have hloaded := hold.attempts
  rw [hattempts] at hloaded
  obtain ⟨jobs, -, hpersist⟩ := persist_returns cfg env
    { expected_version := j.val.version, from_state := j.val.state, lease := .clear,
      event_type := "enqueued" } hold hcont hrounds (by rw [hval]; rfl) ⟨rfl, rfl, rfl, rfl⟩
    (by rw [hval]; simp [Job.moved]) (by rw [hnil]; rfl) (by rw [hnil]; exact hloaded)
  have hqueue : enqueuePending cfg env j s = _ :=
    (Tx.bind_of_ok ((queueCandidate_ok hpend).mpr ⟨htransition, rfl⟩)).trans hpersist
  exact ⟨_, _, hqueue⟩

end

/-! ## Admission in a run -/

/-- A request for a row is answered with the job of that row. -/
def Entry.Returns (e : Entry) (r : Row) : Prop :=
  ∃ out r', e.reply = .ok (.job out) ∧ e.after.Holds r' out ∧ r'.identity = r.identity ∧
    r'.job_id = r.job_id

/-- A request is refused, and the store is as it was. -/
def Entry.Refuses (e : Entry) : Prop :=
  (e.reply = .error .idempotency ∨ ∃ m, e.reply = .error (.concurrency m)) ∧ e.after = e.before

variable {cfg : Config} {x : Step} {s : Store}

/-- What a step with a given transaction replies and leaves. -/
theorem Step.exec_run {p : Except QueueError (Reply × Session)} (h : x.call.run cfg x.env (.start s) = p) :
    (∀ r s', p = .ok (r, s') → (x.exec cfg s).reply = .ok r ∧ (x.exec cfg s).after = s'.store) ∧
      ∀ e, p = .error e → (x.exec cfg s).reply = .error e ∧ (x.exec cfg s).after = s := by
  unfold Step.exec
  rw [h]
  constructor
  · rintro r s' rfl
    exact ⟨rfl, rfl⟩
  · rintro e rfl
    exact ⟨rfl, rfl⟩

/-- A mapped transaction raises what the transaction raises. -/
theorem map_error {α β : Type} {f : α → β} {x : QTx α} {s : Session} {e : QueueError}
    (h : x s = .error e) : (f <$> x) s = .error e := by
  rw [map_eq_pure_bind]
  exact Tx.bind_of_error h

/-- An admission of a stored identity whose transaction returns, or is refused for its version or its
request, is answered so. -/
theorem Step.exec_admission {row : Row} {existing j : Job} {expected : ℕ} {admission : QTx Job}
    {admitted : Except QueueError (Job × Session)} (hcall : x.call.run cfg x.env = .job <$> admission)
    (hold : s.Holds row existing)
    (hcases : admission (.start s) = if expected = 0 ∨ expected = existing.val.version then
        if existing.envelope = j.envelope then admitted else .error .idempotency
      else .error (.concurrency "job version changed"))
    (hreturns : ∃ out s', admitted = .ok (out, s') ∧ Continues existing out ∧
      ∃ r', s'.store.Holds r' out) :
    ((x.exec cfg s).Returns row ∨ (x.exec cfg s).Refuses) ∧
      (expected = 0 →
        ((x.exec cfg s).reply = .error .idempotency ↔ row.envelope ≠ storedEnvelope j)) := by
  have henvelope : row.envelope ≠ storedEnvelope j ↔ existing.envelope ≠ j.envelope := by
    rw [hold.carries.envelope, ne_eq, storedEnvelope_inj]
  by_cases hversion : expected = 0 ∨ expected = existing.val.version
  · rw [if_pos hversion] at hcases
    by_cases henv : existing.envelope = j.envelope
    · obtain ⟨out, s', rfl, hcont, r', hr'⟩ := hreturns
      rw [if_pos henv] at hcases
      have hrun : x.call.run cfg x.env (.start s) = .ok (.job out, s') := by
        rw [hcall]
        exact Tx.map_ok.mpr ⟨out, hcases, rfl⟩
      obtain ⟨hreply, hafter⟩ := (Step.exec_run hrun).1 _ _ rfl
      refine ⟨.inl ⟨out, r', hreply, hafter ▸ hr', ?_, ?_⟩, fun _ => ?_⟩
      · rw [hr'.carries.identity, hcont.identity, hold.carries.identity]
      · rw [hr'.carries.job_id, hcont.job_id, hold.carries.job_id]
      · rw [hreply, henvelope]
        simp [henv]
    · rw [if_neg henv] at hcases
      have hrun : x.call.run cfg x.env (.start s) = .error .idempotency := by
        rw [hcall]
        exact map_error hcases
      obtain ⟨hreply, hafter⟩ := (Step.exec_run hrun).2 _ rfl
      refine ⟨.inr ⟨.inl hreply, hafter.trans (Step.exec_before cfg x s).symm⟩, fun _ => ?_⟩
      rw [hreply, henvelope]
      simp [henv]
  · rw [if_neg hversion] at hcases
    have hrun : x.call.run cfg x.env (.start s) = .error (.concurrency "job version changed") := by
      rw [hcall]
      exact map_error hcases
    obtain ⟨hreply, hafter⟩ := (Step.exec_run hrun).2 _ rfl
    refine ⟨.inr ⟨.inr ⟨_, hreply⟩, hafter.trans (Step.exec_before cfg x s).symm⟩, fun h0 => ?_⟩
    exact absurd (.inl h0) hversion

/-- **Idempotent admission.** In every store that a run reaches there is one row for each identity.
While no rows are removed, that row stays, under its id and with its request. A call of `enqueue` or
`create_or_replay` for a stored identity returns the job of that row, or raises an idempotency or a
concurrency error and changes nothing; without an expected version it raises the idempotency error
exactly when the request differs. -/
theorem idempotent_admission (cfg : Config) (h : List Entry) (s : Store)
    (hrun : Run cfg Store.empty h s) :
    (∀ r ∈ s.jobs.rows, ∀ r' ∈ s.jobs.rows, r.identity = r'.identity → r = r') ∧
      (∀ h' t, Run cfg s h' t → (∀ e ∈ h', e.step.call.prunes = false) → ∀ r ∈ s.jobs.rows,
        ∃ r' ∈ t.jobs.rows, r'.identity = r.identity ∧ r'.job_id = r.job_id ∧
          r'.envelope = r.envelope) ∧
      ∀ (env : Env) (j : Job) (expected : ℕ) (call : Call),
        call = .enqueue j expected ∨ call = .createOrReplay j expected →
        ∀ r ∈ s.jobs.rows, r.identity = j.idempotencyIdentity →
          ((Step.exec cfg ⟨env, call⟩ s).Returns r ∨ (Step.exec cfg ⟨env, call⟩ s).Refuses) ∧
          (expected = 0 → ((Step.exec cfg ⟨env, call⟩ s).reply = .error .idempotency ↔
            r.envelope ≠ storedEnvelope j)) := by
  have hs := hrun.sound Store.sound_empty
  refine ⟨fun r hr r' hr' => s.jobs.eq_of_uk hr hr', ?_, ?_⟩
  · intro h' t hrun' hprunes r hr
    have hasks : s.Asks r.job_id r.identity r.envelope := ⟨r, Table.find?_of_mem hr, rfl, rfl⟩
    obtain ⟨r', hr', hident, henv⟩ := hrun'.asks hs hprunes hasks
    obtain ⟨hmem, hid⟩ := Table.find?_eq_some.mp hr'
    exact ⟨r', hmem, hident, hid, henv⟩
  · intro env j expected call hcall r hr hident
    obtain ⟨existing, hold⟩ := hs.holds _ r (Table.find?_of_mem hr)
    have hstart : (Session.start s).store.Holds r existing := hold
    rcases hcall with rfl | rfl
    · refine Step.exec_admission rfl hold (enqueue_stored hstart hident) ?_
      -- A pending job is queued on the way.
      by_cases hpend : existing.val.state = .pending
      · obtain ⟨out, s', hqueue⟩ := enqueuePending_returns cfg env hstart hpend
        obtain ⟨-, hrow, hcont, -⟩ := enqueuePending_settles hstart hpend hqueue
        exact ⟨out, s', by rw [if_pos hpend]; exact hqueue, hcont, hrow⟩
      · exact ⟨existing, .start s, by rw [if_neg hpend], .refl existing, r, hold⟩
    · exact Step.exec_admission rfl hold (createOrReplay_stored hstart hident)
        ⟨existing, .start s, rfl, .refl existing, r, hold⟩

/-- A job with the identity of the enqueued one and another operation. -/
def otherOperationJob : Job :=
  (Job.create { plainRequest "job-2" "key-1" with operation := "reindex" } 1000).toOption.get
    (by decide +kernel)

/-- The enqueued job is the only one of its identity; another operation under its key is refused. -/
theorem enqueuedEntry_admission :
    (∀ r ∈ enqueuedEntry.after.jobs.rows, ∀ r' ∈ enqueuedEntry.after.jobs.rows,
      r.identity = r'.identity → r = r') ∧ enqueuedEntry.after.jobs.rows.length = 1 ∧
      (Step.exec smallQueue ⟨plainEnv 1001000000, .enqueue otherOperationJob 0⟩
        enqueuedEntry.after).reply = .error .idempotency := by
  obtain ⟨hunique, -, hinserted⟩ := idempotent_admission smallQueue [enqueuedEntry] enqueuedEntry.after
    (Run.nil.step ⟨plainEnv 1000000000, .enqueue plainJob 0⟩)
  have hrows : (enqueuedEntry.after.jobs.rows.map fun r => (r.identity, r.operation)) =
      [(otherOperationJob.idempotencyIdentity, "ingest")] := by decide +kernel
  obtain ⟨r, hr, heq⟩ : ∃ r ∈ enqueuedEntry.after.jobs.rows,
      (r.identity, r.operation) = (otherOperationJob.idempotencyIdentity, "ingest") :=
    List.mem_map.mp (by rw [hrows]; simp)
  rw [Prod.mk.injEq] at heq
  refine ⟨hunique, by decide +kernel, ?_⟩
  refine ((hinserted (plainEnv 1001000000) otherOperationJob 0 _ (.inl rfl) r hr heq.1).2 rfl).mpr ?_
  intro henv
  have hop : r.operation = otherOperationJob.val.operation := congrArg Prod.fst henv
  rw [heq.2] at hop
  exact absurd hop (by decide +kernel)

end RickIntelligence.Postgres
