import RickIntelligence.Postgres.Leasing

/-!
# Runs of the queue

The queue as a state machine: a step is a call of one public operation by any worker, with the
database clock and the random values of its transaction, and a run is any sequence of steps. A call
that raises leaves the store as it was.

`Call.writes` says which changes a call may make. It is what the theorems about runs start from.
-/

namespace RickIntelligence.Postgres

open Lib Jobs

/-! ## Calls -/

/-- A call of a public operation that writes. -/
inductive Call where
  | createOrReplay (j : Job) (expected_version : ℕ)
  | enqueue (j : Job) (expected_version : ℕ)
  | save (j : Job) (expected_version : ℕ)
  | transition (j : Job) (to_state : JobState) (now : ℚ) (expected_version : ℕ)
  | schedule (j : Job) (available_at : ℚ) (expected_version : ℕ)
  | recoverPublication (job_id : String) (scope : JobScopeFields) (now : ℚ)
  | claim (worker : String) (scope : JobScope) (expected_versions : List (String × ℕ)) (limit : ℕ)
      (now : ℚ)
  | heartbeat (lease : JobLease) (now : ℚ) (expected_version : ℕ)
  | acknowledge (lease : JobLease) (result : AckResult) (now : ℚ) (expected_version : ℕ)
      (deadline : Option ℚ)
  | fail (lease : JobLease) (failure : JobFailure) (now : ℚ) (expected_version : ℕ)
  | cancel (job_id : String) (scope : JobScopeFields) (now : ℚ) (expected_version : ℕ)
  | cancelLease (lease : JobLease) (now : ℚ) (expected_version : ℕ)
  | replayDeadLetter (job_id : String) (scope : JobScopeFields)
      (replay_job_id replay_idempotency_key : String) (now : ℚ) (expected_version : ℕ)
      (max_attempts : Option ℕ)
  | pruneTerminal (scope : JobScope) (older_than : ℚ) (limit : ℕ)

/-- What an operation returns. -/
inductive Reply where
  | job (j : Job)
  | found (j : Option Job)
  | claimed (l : List (Job × JobLease))
  | lease (l : JobLease)
  | removed (n : ℕ)

/-- The transaction of a call. -/
def Call.run (cfg : Config) (env : Env) : Call → QTx Reply
  | createOrReplay j expected => .job <$> Postgres.createOrReplay env j expected
  | enqueue j expected => .job <$> Postgres.enqueue cfg env j expected
  | save j expected => .job <$> Postgres.save cfg env j expected
  | transition j to_state now expected => .job <$> Postgres.transition cfg env j to_state now expected
  | schedule j available_at expected => .job <$> Postgres.schedule cfg env j available_at expected
  | recoverPublication id scope now =>
    .found <$> Postgres.recoverPublication cfg env id scope now
  | claim worker scope versions limit now =>
    .claimed <$> Postgres.claim cfg env worker scope versions limit now
  | heartbeat lease now expected => .lease <$> Postgres.heartbeat cfg env lease now expected
  | acknowledge lease result now expected deadline =>
    .job <$> Postgres.acknowledge cfg env lease result now expected deadline
  | fail lease failure now expected => .job <$> Postgres.fail cfg env lease failure now expected
  | cancel id scope now expected => .job <$> Postgres.cancel cfg env id scope now expected
  | cancelLease lease now expected => .job <$> Postgres.cancelLease cfg env lease now expected
  | replayDeadLetter id scope new_id new_key now expected max_attempts =>
    .job <$> Postgres.replayDeadLetter cfg env id scope new_id new_key now expected max_attempts
  | pruneTerminal scope older_than limit =>
    .removed <$> Postgres.pruneTerminal env scope older_than limit

/-! ## Steps and runs -/

/-- A call with the surroundings of its transaction. -/
structure Step where
  env : Env
  call : Call

/-- What happened in a step. -/
structure Entry where
  step : Step
  before : Store
  reply : Except QueueError Reply
  after : Store
  /-- The row versions that were written. -/
  written : List RowChange

/-- The session in which a transaction starts. -/
def Session.start (s : Store) : Session := ⟨s, [], 0⟩

/-- One step: the transaction commits, or it raises and leaves the store as it was. -/
def Step.exec (cfg : Config) (x : Step) (s : Store) : Entry :=
  match x.call.run cfg x.env (.start s) with
  | .ok (r, s') => ⟨x, s, .ok r, s'.store, s'.written⟩
  | .error e => ⟨x, s, .error e, s, []⟩

/-- A run from a store: what happened in its steps, and the store that it leads to. -/
inductive Run (cfg : Config) (s₀ : Store) : List Entry → Store → Prop where
  | nil : Run cfg s₀ [] s₀
  | step {h : List Entry} {s : Store} (x : Step) (hrun : Run cfg s₀ h s) :
      Run cfg s₀ (h ++ [x.exec cfg s]) (x.exec cfg s).after

/-- A step starts where it is executed. -/
@[simp]
theorem Step.exec_before (cfg : Config) (x : Step) (s : Store) : (x.exec cfg s).before = s := by
  unfold Step.exec
  split <;> rfl

/-- The entry of a step names it. -/
@[simp]
theorem Step.exec_step (cfg : Config) (x : Step) (s : Store) : (x.exec cfg s).step = x := by
  unfold Step.exec
  split <;> rfl

variable {cfg : Config} {s s₀ : Store} {env : Env} {call : Call} {h : List Entry}

/-- A step returns when its transaction does. -/
theorem Step.exec_ok {x : Step} {r : Reply} (h : (x.exec cfg s).reply = .ok r) :
    ∃ s', x.call.run cfg x.env (.start s) = .ok (r, s') ∧
      (x.exec cfg s).after = s'.store ∧ (x.exec cfg s).written = s'.written := by
  unfold Step.exec at h ⊢
  cases hrun : x.call.run cfg x.env (.start s) with
  | error e => simp [hrun] at h
  | ok p =>
    obtain ⟨r', s'⟩ := p
    simp only [hrun, Except.ok.injEq] at h
    subst h
    exact ⟨s', rfl, rfl, rfl⟩

/-- A step that raises changes nothing. -/
theorem Step.exec_error {x : Step} {e : QueueError} (h : (x.exec cfg s).reply = .error e) :
    (x.exec cfg s).after = s ∧ (x.exec cfg s).written = [] := by
  unfold Step.exec at h ⊢
  cases hrun : x.call.run cfg x.env (.start s) with
  | error e => exact ⟨rfl, rfl⟩
  | ok p => simp [hrun] at h

/-! ## The changes of a call -/

/-- The changes that a call may make, with what its transaction drew. -/
def Call.Permits (env : Env) : Call → Change → Prop
  | createOrReplay j _, c => c = .insert j
  | enqueue j _, c => c = .insert j ∨ ∃ id, c.Settles id
  | save j _, c => ∃ before a, c = .persist before j a ∧ Saves before j a
  | schedule _ _ _, c => ∃ before j a, c = .persist before j a ∧ Saves before j a
  | transition j _ _ _, c => c.Settles j.val.job_id
  | recoverPublication _ _ _, c => ∃ id, c.Settles id
  | claim worker _ _ _ _, c => (∃ id, c.Settles id) ∨ c.Claims env worker
  | heartbeat lease _ _, c => c.Beats lease.val.job_id
  | acknowledge lease _ _ _ _, c => c.Settles lease.val.job_id
  | fail lease _ _ _, c => c.Settles lease.val.job_id
  | cancel _ _ _ _, c => ∃ id, c.Settles id
  | cancelLease lease _ _, c => c.Settles lease.val.job_id
  | replayDeadLetter _ _ new_id _ _ _ _, c =>
    (∃ j, c = .insert j ∧ j.val.state = .pending ∧ j.val.job_id = strip new_id) ∨
      ∃ id, c.Settles id
  | pruneTerminal _ _ _, c => c.Prunes

/-- A call that returns made only changes that it may make. -/
theorem Call.writes {s s' : Session} {r : Reply} (hs : s.store.Sound) (h : call.run cfg env s = .ok (r, s')) :
    Writes cfg env (call.Permits env) s s' := by
  cases call with
  | createOrReplay j expected =>
    obtain ⟨out, hop, -⟩ := Tx.map_ok.mp h
    rcases createOrReplay_writes hs hop with ⟨rfl, -⟩ | ⟨-, hw, -⟩
    · exact .refl
    · exact .single hw rfl
  | enqueue j expected =>
    obtain ⟨out, hop, -⟩ := Tx.map_ok.mp h
    rcases enqueue_writes hs hop with
      ⟨_, existing, -, -, -, -, -, ⟨rfl, -⟩ | ⟨-, hw⟩⟩ |
      ⟨-, -, s₁, inserted, hw, -, -, -, -, -, ⟨rfl, -⟩ | ⟨-, hw'⟩⟩
    · exact .refl
    · exact hw.mono fun c hc => .inr ⟨_, hc⟩
    · exact .single hw (.inl rfl)
    · exact Writes.trans (.single hw (.inl rfl)) (hw'.mono fun c hc => .inr ⟨_, hc⟩)
  | save j expected =>
    obtain ⟨out, hop, -⟩ := Tx.map_ok.mp h
    obtain ⟨row, existing, a, -, -, hsaves, hw, -⟩ := save_writes hs hop
    exact .single hw ⟨existing, a, rfl, hsaves⟩
  | schedule j available_at expected =>
    obtain ⟨out, hop, -⟩ := Tx.map_ok.mp h
    obtain ⟨next, hsave, -⟩ := schedule_saves hop
    obtain ⟨row, existing, a, -, -, hsaves, hw, -⟩ := save_writes hs hsave
    exact .single hw ⟨existing, next, a, rfl, hsaves⟩
  | transition j to_state now expected =>
    obtain ⟨out, hop, -⟩ := Tx.map_ok.mp h
    obtain ⟨row, -, -, hw, -⟩ := transition_writes hs hop
    exact hw
  | recoverPublication id scope now =>
    obtain ⟨out, hop, -⟩ := Tx.map_ok.mp h
    rcases (recoverPublication_writes hs hop).1 with rfl | ⟨_, j, -, -, hw⟩
    · exact .refl
    · exact hw.mono fun c hc => ⟨_, hc⟩
  | claim worker scope versions limit now =>
    obtain ⟨out, hop, -⟩ := Tx.map_ok.mp h
    obtain ⟨rows, s₁, l, -, hw, -, -, hw', -⟩ := claim_writes hs hop
    refine (hw.mono ?_).trans (hw'.mono fun c hc => .inr hc.1)
    rintro c ⟨r, -, hc⟩
    exact .inl ⟨_, hc⟩
  | heartbeat lease now expected =>
    obtain ⟨out, hop, -⟩ := Tx.map_ok.mp h
    exact (heartbeat_writes hs hop).2
  | acknowledge lease result now expected deadline =>
    obtain ⟨out, hop, -⟩ := Tx.map_ok.mp h
    exact (acknowledge_writes hs hop).2.1
  | fail lease failure now expected =>
    obtain ⟨out, hop, -⟩ := Tx.map_ok.mp h
    exact (fail_writes hs hop).2.1
  | cancel id scope now expected =>
    obtain ⟨out, hop, -⟩ := Tx.map_ok.mp h
    obtain ⟨_, j, -, -, hw, -⟩ := cancel_writes hs hop
    exact hw.mono fun c hc => ⟨_, hc⟩
  | cancelLease lease now expected =>
    obtain ⟨out, hop, -⟩ := Tx.map_ok.mp h
    exact (cancelLease_writes hs hop).2.1
  | replayDeadLetter id scope new_id new_key now expected max_attempts =>
    obtain ⟨out, hop, -⟩ := Tx.map_ok.mp h
    rcases replayDeadLetter_writes hs hop with
      ⟨rfl, -⟩ | ⟨candidate, s₁, hpend, hid, -, -, -, hw, hw', -⟩
    · exact .refl
    · exact Writes.trans (.single hw (.inl ⟨candidate, rfl, hpend, hid⟩))
        (hw'.mono fun c hc => .inr ⟨_, hc⟩)
  | pruneTerminal scope older_than limit =>
    obtain ⟨out, hop, -⟩ := Tx.map_ok.mp h
    exact pruneTerminal_writes hop

/-- The call removes rows. -/
def Call.prunes : Call → Bool
  | pruneTerminal _ _ _ => true
  | _ => false

/-- What a permitted change is for: a job is inserted, settled, saved, or claimed, its lease is
prolonged, or rows are removed. -/
theorem Call.Permits.cases {c : Change} (h : call.Permits env c) :
    (∃ j, c = .insert j) ∨ (∃ id, c.Settles id) ∨
      (∃ before j a, c = .persist before j a ∧ Saves before j a) ∨
      (∃ worker, c.Claims env worker ∧
        ∃ scope versions limit now, call = .claim worker scope versions limit now) ∨
      (∃ id, c.Beats id) ∨ (c.Prunes ∧ call.prunes = true) := by
  cases call with
  | createOrReplay j expected => exact .inl ⟨j, h⟩
  | enqueue j expected =>
    rcases h with h | h
    · exact .inl ⟨j, h⟩
    · exact .inr (.inl h)
  | save j expected =>
    obtain ⟨before, a, hc, hsaves⟩ := h
    exact .inr (.inr (.inl ⟨before, j, a, hc, hsaves⟩))
  | schedule j available_at expected => exact .inr (.inr (.inl h))
  | transition j to_state now expected => exact .inr (.inl ⟨_, h⟩)
  | recoverPublication id scope now => exact .inr (.inl h)
  | claim worker scope versions limit now =>
    rcases h with h | h
    · exact .inr (.inl h)
    · exact .inr (.inr (.inr (.inl ⟨worker, h, scope, versions, limit, now, rfl⟩)))
  | heartbeat lease now expected => exact .inr (.inr (.inr (.inr (.inl ⟨_, h⟩))))
  | acknowledge lease result now expected deadline => exact .inr (.inl ⟨_, h⟩)
  | fail lease failure now expected => exact .inr (.inl ⟨_, h⟩)
  | cancel id scope now expected => exact .inr (.inl h)
  | cancelLease lease now expected => exact .inr (.inl ⟨_, h⟩)
  | replayDeadLetter id scope new_id new_key now expected max_attempts =>
    rcases h with ⟨j, hc, -⟩ | h
    · exact .inl ⟨j, hc⟩
    · exact .inr (.inl h)
  | pruneTerminal scope older_than limit => exact .inr (.inr (.inr (.inr (.inr ⟨h, rfl⟩))))

/-- A call that removes no rows makes no such change. -/
theorem Call.Permits.ne_delete {c : Change} (h : call.Permits env c) (hcall : call.prunes = false) (id : String) :
    c ≠ .delete id := by
  rintro rfl
  rcases h.cases with ⟨_, h⟩ | ⟨_, h⟩ | ⟨_, _, _, h, -⟩ | ⟨_, h, -⟩ | ⟨_, h⟩ | ⟨-, h⟩
  · cases h
  · exact h
  · cases h
  · exact h
  · exact h
  · rw [hcall] at h
    cases h

/-! ## What runs keep -/

/-- What a step changed: a sequence of permitted changes, without any if it raised. -/
theorem Step.writes (cfg : Config) (x : Step) (hs : s.Sound) :
    ∃ s' : Session, Writes cfg x.env (x.call.Permits x.env) (.start s) s' ∧
      (x.exec cfg s).after = s'.store ∧ (x.exec cfg s).written = s'.written := by
  cases h : (x.exec cfg s).reply with
  | error e =>
    obtain ⟨hafter, hwritten⟩ := exec_error h
    exact ⟨.start s, .refl, hafter, hwritten⟩
  | ok r =>
    obtain ⟨s', hrun, hafter, hwritten⟩ := exec_ok h
    exact ⟨s', Call.writes hs hrun, hafter, hwritten⟩

/-- A step keeps the store sound. -/
theorem Step.sound (cfg : Config) (x : Step) (hs : s.Sound) :
    (x.exec cfg s).after.Sound := by
  obtain ⟨s', hw, hafter, -⟩ := x.writes cfg hs
  rw [hafter]
  exact hw.sound hs

/-- Every store that a run reaches is sound. -/
theorem Run.sound (hs : s₀.Sound) (hrun : Run cfg s₀ h s) : s.Sound := by
  induction hrun with
  | nil => exact hs
  | step x _ ih => exact x.sound cfg ih

/-- What every step of a run keeps is kept by the run. -/
theorem Run.invariant {I : Store → Prop} {Q : Entry → Prop} (hrun : Run cfg s₀ h s) (hs : s₀.Sound) (h₀ : I s₀)
    (hQ : ∀ e ∈ h, Q e)
    (hstep : ∀ (x : Step) (t : Store), t.Sound → Q (x.exec cfg t) → I t → I (x.exec cfg t).after) : I s := by
  induction hrun with
  | nil => exact h₀
  | @step h t x hrun ih =>
    have hprev := ih fun e he => hQ e (List.mem_append_left _ he)
    exact hstep x t (hrun.sound hs) (hQ _ (by simp)) hprev

/-- What every permitted change keeps, of the store and of the row versions written so far, is kept
by the run. -/
theorem Run.changes {I : List RowChange → Store → Prop} {Q : Step → Prop} (hrun : Run cfg s₀ h s) (hs : s₀.Sound)
    (h₀ : I [] s₀) (hQ : ∀ e ∈ h, Q e.step)
    (hchange : ∀ (x : Step) (c : Change) (t t' : Session) (past : List RowChange), Q x → x.call.Permits x.env c →
      Write cfg x.env t c t' → t.store.Sound → I (past ++ t.written) t.store →
      I (past ++ t'.written) t'.store) :
    I (h.flatMap Entry.written) s := by
  induction hrun with
  | nil => exact h₀
  | @step h t x hrun ih =>
    have ht := hrun.sound hs
    have hprev := ih fun e he => hQ e (List.mem_append_left _ he)
    have hx : Q x := by
      have := hQ (x.exec cfg t) (by simp)
      rwa [Step.exec_step] at this
    obtain ⟨s', hw, hafter, hwritten⟩ := x.writes cfg ht
    rw [List.flatMap_append, List.flatMap_singleton, hafter, hwritten]
    -- The invariant of the changes of the step is about what was written before it as well.
    refine (hw.invariant (I := fun u => u.store.Sound ∧
      I (h.flatMap Entry.written ++ u.written) u.store) ?_ ⟨ht, ?_⟩).2
    · rintro u u' c hc hwrite ⟨hu, hI⟩
      exact ⟨hwrite.sound hu, hchange x c u u' _ hx hc hwrite hu hI⟩
    · simpa only [Session.start, List.append_nil] using hprev

/-- A run is a run of its first steps, and one of the others from where these lead. -/
theorem Run.split {h₁ h₂ : List Entry} (hrun : Run cfg s₀ (h₁ ++ h₂) s) :
    ∃ s₁, Run cfg s₀ h₁ s₁ ∧ Run cfg s₁ h₂ s := by
  induction h₂ using List.reverseRecOn generalizing s with
  | nil =>
    rw [List.append_nil] at hrun
    exact ⟨s, hrun, .nil⟩
  | append_singleton h₂ e ih =>
    rw [← List.append_assoc] at hrun
    generalize hh : h₁ ++ h₂ ++ [e] = l at hrun
    cases hrun with
    | nil => simp at hh
    | @step h t x hrun =>
      obtain ⟨rfl, he⟩ := List.append_inj' hh rfl
      rw [List.cons.inj he |>.1]
      obtain ⟨s₁, hfirst, hothers⟩ := ih hrun
      exact ⟨s₁, hfirst, hothers.step x⟩

/-! ## A small queue

The queue, the surroundings, and the jobs that the concrete runs of the later modules start from. -/

/-- A queue of one pending job for each scope, with leases of a minute. -/
def smallQueue : Config where
  max_pending := 1
  one_le_max_pending := le_rfl
  max_pending_le := by decide
  lease_seconds := 60
  lease_ge := by norm_num
  lease_le := by norm_num
  backoff_seconds := 1
  backoff_nonneg := by norm_num
  backoff_le := by norm_num
  publicationAttempt _ := none

/-- A transaction at a time of the database clock, with one token, and without a publication
owner. -/
def plainEnv (clock : ℕ) : Env where
  clock := clock
  token _ := "AAAAAAAAAAAAAAAAAAAAAAAAAAAAAAAA"
  token_urlsafe _ := ⟨by decide +kernel, List.all_eq_true.mp (by decide +kernel)⟩
  hex _ := "0123456789abcdef"
  reconciler := none
  requestCancel := none
  references _ := true

/-- A request of the scope that the concrete runs use. -/
def plainRequest (job_id idempotency_key : String) : Job.Request :=
  { job_id, tenant_id := "tenant-1", workspace_id := "workspace-1", collection_id := "collection-1",
    operation := "ingest", idempotency_key, payload := [], max_attempts := 1 }

/-- A pending job. -/
def plainJob : Job :=
  (Job.create (plainRequest "job-1" "key-1") 1000).toOption.get (by decide +kernel)

/-- The job is enqueued in an empty store. -/
def enqueuedEntry : Entry :=
  Step.exec smallQueue ⟨plainEnv 1000000000, .enqueue plainJob 0⟩ Store.empty

end RickIntelligence.Postgres
