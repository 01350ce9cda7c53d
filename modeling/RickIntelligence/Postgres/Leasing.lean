import RickIntelligence.Postgres.Operations

/-!
# Leases as sequences of changes

The operations that a worker calls with its lease (`heartbeat`, `acknowledge`, `fail`,
`cancel_lease`) start with `_lock_lease`: they return only for the lease that the row holds
(`Owned`). The other half is `claim`, which settles expired attempts, and then gives each of its
candidates a lease of its own.
-/

namespace RickIntelligence.Postgres

open Lib Jobs

section

variable {cfg : Config} {env : Env} {s s' : Session} {lease : JobLease} {j : Job} {rows : List Row} {worker : String}
  {now : ℚ} {expected : ℕ}

/-! ## The owner of a lease -/

/-- The lease is that of a running row at the expected version, and has not ended. -/
structure Owned (env : Env) (s : Store) (lease : JobLease) (expected : ℕ) (row : Row) (j : Job) :
    Prop where
  holds : s.Holds row j
  job_id : j.val.job_id = lease.val.job_id
  leased : leaseWhere env lease expected row = true

/-- What `_lock_lease` asks of the row. -/
theorem leaseWhere_iff {r : Row} :
    leaseWhere env lease expected r = true ↔ r.inScope lease.val.scope.val = true ∧
      r.contract_state = some .running ∧ r.lease_worker_id = some lease.val.worker_id ∧
      r.lease_owner = some lease.val.token ∧
      (∃ t, r.lease_until = some t ∧ (env.clock : ℤ) < t) ∧ r.version = expected := by
  simp only [leaseWhere, Row.heldBy, Bool.and_eq_true, beq_iff_eq, Option.any_eq_true,
    decide_eq_true_eq, and_assoc]

variable {row : Row} {out : Job} {scope : JobScopeFields} {versions : List (String × ℕ)}
  {claimed : List (Job × JobLease)} {limit : ℕ} {jobs : List Job}

/-- An owned job is running. -/
theorem Owned.running (h : Owned env s.store lease expected row j) : j.val.state = .running := by
  have hstate := (leaseWhere_iff.mp h.leased).2.1
  exact Option.some.inj (h.holds.carries.state.symm.trans hstate)

/-- `_lock_lease` returns the job of the owner. -/
theorem lockLease_owned (hs : s.store.Sound) (h : lockLease env lease expected now s = .ok (j, s')) :
    s = s' ∧ ∃ row, Owned env s.store lease expected row j := by
  simp only [lockLease, Tx.bind_ok, Tx.lift_ok, Tx.get_ok] at h
  obtain ⟨_, _, ⟨-, rfl⟩, _, _, ⟨rfl, rfl⟩, h⟩ := h
  cases hf : (s.store.jobs.find? lease.val.job_id).filter (leaseWhere env lease expected) with
  | none => simp only [hf, Tx.raise_ok] at h
  | some row =>
    simp only [hf, Tx.bind_ok, decodeStored_ok, Tx.raiseIf_ok, checkExpected_ok, Tx.pure_ok,
      Bool.or_eq_false_iff, bne_eq_false_iff_eq] at h
    obtain ⟨_, _, ⟨hdec, rfl⟩, _, _, ⟨⟨hid, -⟩, rfl⟩, _, _, ⟨-, rfl⟩, rfl, rfl⟩ := h
    obtain ⟨hfound, hleased⟩ := Option.filter_eq_some_iff.mp hf
    exact ⟨rfl, row, Store.Holds.of_decoded hs hfound hdec, hid.symm, hleased⟩

/-- A change of a heartbeat. -/
def Change.Beats (id : String) : Change → Prop
  | touch i => i = id
  | log j event_id _ => ∃ suffix, event_id = sideEventId j.val.job_id ":heartbeat:" suffix
  | draw => True
  | _ => False

/-- `heartbeat` prolongs the lease of its owner. -/
theorem heartbeat_writes {out : JobLease} (hs : s.store.Sound)
    (h : heartbeat cfg env lease now expected s = .ok (out, s')) :
    (∃ row j, Owned env s.store lease expected row j) ∧
      Writes cfg env (Change.Beats lease.val.job_id) s s' := by
  simp only [heartbeat, Tx.bind_ok, Tx.lift_ok] at h
  obtain ⟨_, _, ⟨-, rfl⟩, j, _, hlock, r, s₁, hu, h⟩ := h
  obtain ⟨rfl, row, howned⟩ := lockLease_owned hs hlock
  refine ⟨⟨row, j, howned⟩, ?_⟩
  rcases updateRow_ok.mp hu with ⟨-, rfl, rfl⟩ | ⟨old, jobs, hup, rfl, rfl⟩
  · simp only [Tx.raise_ok] at h
  · simp only [Tx.bind_ok, Tx.lift_ok, drawHex_ok] at h
    obtain ⟨_, _, ⟨-, rfl⟩, _, _, ⟨-, rfl⟩, _, _, ⟨-, rfl⟩, _, _, ⟨rfl, rfl⟩, h⟩ := h
    have hend := (contractStep_ok.mp
      (writeSideEvent_ok.mp (by simpa only [Tx.bind_ok] using h))).2
    subst hend
    have htouch : Writes cfg env (Change.Beats lease.val.job_id) s _ :=
      .single (.touch hup fun _ => rfl) rfl
    exact htouch.trans (Writes.trans (.single .draw trivial) (.single .log ⟨_, rfl⟩))

/-- `acknowledge` settles the job of the owner, and returns what is stored. -/
theorem acknowledge_writes {result : AckResult} {deadline : Option ℚ} (hs : s.store.Sound)
    (h : acknowledge cfg env lease result now expected deadline s = .ok (out, s')) :
    (∃ row j, Owned env s.store lease expected row j) ∧
      Writes cfg env (Change.Settles lease.val.job_id) s s' ∧ ∃ row, s'.store.Holds row out := by
  simp only [acknowledge, Tx.bind_ok, Tx.lift_ok, Tx.raiseIf_ok] at h
  obtain ⟨now', _, ⟨-, rfl⟩, _, _, ⟨-, rfl⟩, _, _, ⟨-, rfl⟩, j, _, hlock, h⟩ := h
  obtain ⟨rfl, row, howned⟩ := lockLease_owned hs hlock
  refine ⟨⟨row, j, howned⟩, ?_⟩
  rw [← howned.job_id]
  -- A publication with its own facts is recorded, or waits.
  have hcompleted : ∀ {p : Publication} {a : PersistArgs} {succeeded : Job},
      publicationCompletion cfg j now' p = .ok succeeded → a.from_state = j.val.state → a.lease = .clear →
      persist cfg env succeeded a s = .ok (out, s') →
      Writes cfg env (Change.Settles j.val.job_id) s s' ∧ ∃ row, s'.store.Holds row out := by
    intro p a succeeded hc hfrom hlease hp
    obtain ⟨hcont, -, hedge, hne⟩ := publicationCompletion_continues hc
    obtain ⟨hw, hrow, -⟩ := persist_settles howned.holds ⟨hcont, hedge, hne, hfrom, hlease⟩ hp
    exact ⟨hw, hrow⟩
  have hdeferred : ∀ {reason : String}, deferPublication env j reason s = .ok (out, s') →
      Writes cfg env (Change.Settles j.val.job_id) s s' ∧ ∃ row, s'.store.Holds row out := by
    intro reason hd
    obtain ⟨hw, hrow, -⟩ := deferPublication_settles howned.holds hd
    exact ⟨hw, hrow⟩
  cases ha : ackAuthority env j result with
  | error reason =>
    simp only [ha] at h
    exact hdeferred h
  | ok p =>
    cases p with
    | plain r =>
      simp only [ha, Tx.bind_ok, transitionStep_ok] at h
      obtain ⟨succeeded, _, ⟨hf, rfl⟩, hp⟩ := h
      obtain ⟨hw, hrow, -⟩ := finishAttempt_settles howned.holds hf rfl rfl hp
      exact ⟨hw, hrow⟩
    | committed p =>
      simp only [ha] at h
      cases hc : publicationCompletion cfg j now' (.committed p) with
      | error reason =>
        simp only [hc] at h
        exact hdeferred h
      | ok succeeded =>
        simp only [hc] at h
        exact hcompleted hc rfl rfl h
    | cancelled c =>
      simp only [ha] at h
      cases hc : publicationCompletion cfg j now' (.cancelled c) with
      | error reason =>
        simp only [hc] at h
        exact hdeferred h
      | ok succeeded =>
        simp only [hc] at h
        exact hcompleted hc rfl rfl h

/-- `fail` settles the job of the owner, and returns what is stored. -/
theorem fail_writes {failure : JobFailure} (hs : s.store.Sound)
    (h : fail cfg env lease failure now expected s = .ok (out, s')) :
    (∃ row j, Owned env s.store lease expected row j) ∧
      Writes cfg env (Change.Settles lease.val.job_id) s s' ∧ ∃ row, s'.store.Holds row out := by
  simp only [fail, Tx.bind_ok, Tx.lift_ok] at h
  obtain ⟨now', _, ⟨-, rfl⟩, j, _, hlock, x, s₁, hrec, h⟩ := h
  obtain ⟨rfl, row, howned⟩ := lockLease_owned hs hlock
  refine ⟨⟨row, j, howned⟩, ?_⟩
  rw [← howned.job_id]
  rcases reconcilePublication_settles howned.holds hrec with ⟨hw, out', rfl, -, hrow⟩ | ⟨rfl, hx⟩
  · obtain ⟨rfl, rfl⟩ := Tx.pure_ok.mp h
    exact ⟨hw, hrow⟩
  · have hfail : (do
        let failed ← transitionStep (j.finishAttempt .failed now' { failure := some failure })
        let failed ← persist cfg env failed
          { expected_version := expected, from_state := j.val.state, lease := .clear,
            lease_guard := some lease, event_type := "failed" }
        settleFailure cfg env failed now') s₁ = .ok (out, s') := by
      rcases hx with rfl | rfl <;> exact h
    simp only [Tx.bind_ok, transitionStep_ok] at hfail
    obtain ⟨failed, _, ⟨hf, rfl⟩, failed', s₂, hp, hset⟩ := hfail
    obtain ⟨hw, ⟨row', hrow⟩, hcont⟩ := finishAttempt_settles howned.holds hf rfl rfl hp
    obtain ⟨hw', hrow'⟩ := settleFailure_settles hrow hset
    rw [hcont.job_id] at hw'
    exact ⟨hw.trans hw', hrow'⟩

/-- `cancel_lease` settles the job of the owner, or changes nothing, and returns what is stored. -/
theorem cancelLease_writes (hs : s.store.Sound) (h : cancelLease cfg env lease now expected s = .ok (out, s')) :
    (∃ row j, Owned env s.store lease expected row j) ∧
      Writes cfg env (Change.Settles lease.val.job_id) s s' ∧ ∃ row, s'.store.Holds row out := by
  simp only [cancelLease, Tx.bind_ok, Tx.lift_ok] at h
  obtain ⟨now', _, ⟨-, rfl⟩, j, _, hlock, h⟩ := h
  obtain ⟨rfl, row, howned⟩ := lockLease_owned hs hlock
  refine ⟨⟨row, j, howned⟩, ?_⟩
  rw [← howned.job_id]
  split at h
  · obtain ⟨rfl, rfl⟩ := Tx.pure_ok.mp h
    exact ⟨.refl, row, howned.holds⟩
  · obtain ⟨x, s₁, hrec, h⟩ := Tx.bind_ok.mp h
    rcases reconcilePublication_settles howned.holds hrec with ⟨hw, out', rfl, -, hrow⟩ | ⟨rfl, hx⟩
    · obtain ⟨rfl, rfl⟩ := Tx.pure_ok.mp h
      exact ⟨hw, hrow⟩
    · have hcancel : (do
          let cancelled ← transitionStep (j.finishAttempt .cancelled now' {})
          persist cfg env cancelled
            { expected_version := expected, from_state := j.val.state, lease := .clear,
              lease_guard := some lease, event_type := "cancelled" }) s₁ = .ok (out, s') := by
        rcases hx with rfl | rfl <;> exact h
      simp only [Tx.bind_ok, transitionStep_ok] at hcancel
      obtain ⟨cancelled, _, ⟨hf, rfl⟩, hp⟩ := hcancel
      obtain ⟨hw, hrow, -⟩ := finishAttempt_settles howned.holds hf rfl rfl hp
      exact ⟨hw, hrow⟩

/-! ## Recovering expired attempts -/

/-- One expired row is settled, or its job is to be resumed and the store is as it was. -/
theorem recoverRow_settles {x : Option (Job × ℚ)} (hs : s.store.Sound)
    (hfound : s.store.jobs.find? row.job_id = some row) (h : recoverRow cfg env now row s = .ok (x, s')) :
    Writes cfg env (Change.Settles row.job_id) s s' ∧
      ∀ j order, x = some (j, order) → s' = s ∧ s.store.Holds row j := by
  simp only [recoverRow, Tx.bind_ok, decodeStored_ok, Tx.raiseIf_ok] at h
  obtain ⟨j, _, ⟨hdec, rfl⟩, _, _, ⟨-, rfl⟩, y, s₁, hrec, h⟩ := h
  have hold := Store.Holds.of_decoded hs hfound hdec
  rw [hold.carries.job_id]
  rcases reconcilePublication_settles hold hrec with
    ⟨hw, out, rfl, hcont, row', hrow'⟩ | ⟨rfl, rfl | rfl⟩
  · -- The publication was recorded or waits; a job that still runs is marked.
    simp only at h
    split at h
    · simp only [Tx.bind_ok, Tx.pure_ok] at h
      obtain ⟨_, s₂, hu, rfl, rfl⟩ := h
      exact ⟨hw.trans (updateRow_touch (fun _ => rfl) hu).1, by simp⟩
    · obtain ⟨rfl, rfl⟩ := Tx.pure_ok.mp h
      exact ⟨hw, by simp⟩
  · simp only [Tx.bind_ok, Tx.pure_ok] at h
    obtain ⟨_, _, hexp, rfl, rfl⟩ := h
    exact ⟨expireAttempt_settles hold hexp, by simp⟩
  · simp only [Tx.bind_ok, Tx.lift_ok, Tx.pure_ok] at h
    obtain ⟨order, _, ⟨-, rfl⟩, rfl, rfl⟩ := h
    refine ⟨.refl, ?_⟩
    rintro j' order' heq
    cases heq
    exact ⟨rfl, hold⟩

/-- Expired rows are settled one after the other, and the jobs that are to be resumed are still held
at the end. -/
theorem recoverRows_settles {conts : List (Job × ℚ)} (hs : s.store.Sound)
    (hfound : ∀ r ∈ rows, s.store.jobs.find? r.job_id = some r) (hnodup : (rows.map Row.job_id).Nodup)
    (h : recoverRows cfg env now rows s = .ok (conts, s')) :
    Writes cfg env (fun c => ∃ r ∈ rows, c.Settles r.job_id) s s' ∧
      (conts.map fun c => c.1.val.job_id).Sublist (rows.map Row.job_id) ∧
      ∀ c ∈ conts, ∃ r ∈ rows, s'.store.Holds r c.1 := by
  induction rows generalizing s conts with
  | nil =>
    obtain ⟨rfl, rfl⟩ := Tx.pure_ok.mp h
    exact ⟨.refl, .slnil, by simp⟩
  | cons row rows ih =>
    simp only [recoverRows, Tx.bind_ok, Tx.pure_ok] at h
    obtain ⟨x, s₁, hrow, rest, s₂, hrest, rfl, rfl⟩ := h
    obtain ⟨hw, hx⟩ := recoverRow_settles hs (hfound row (by simp)) hrow
    rw [List.map_cons, List.nodup_cons] at hnodup
    have hne : ∀ r ∈ rows, r.job_id ≠ row.job_id := by
      intro r hr heq
      exact hnodup.1 (heq ▸ List.mem_map_of_mem hr)
    have hfound₁ : ∀ r ∈ rows, s₁.store.jobs.find? r.job_id = some r := by
      intro r hr
      rw [(hw.frame fun c hc => ⟨row.job_id, hc.isOf, hne r hr⟩).1]
      exact hfound r (List.mem_cons_of_mem row hr)
    obtain ⟨hw', hsub, hconts⟩ := ih (hw.sound hs) hfound₁ hnodup.2 hrest
    refine ⟨?_, ?_, ?_⟩
    · refine (hw.mono fun c hc => ⟨row, by simp, hc⟩).trans (hw'.mono ?_)
      rintro c ⟨r, hr, hc⟩
      exact ⟨r, List.mem_cons_of_mem row hr, hc⟩
    · cases x with
      | none => exact hsub.cons row.job_id
      | some p =>
        obtain ⟨-, hold⟩ := hx p.1 p.2 rfl
        simp only [Option.toList_some, List.singleton_append, List.map_cons,
          ← hold.carries.job_id]
        exact hsub.cons_cons row.job_id
    · intro c hc
      rcases List.mem_append.mp hc with hc | hc
      · -- The job of this row is resumed: what follows is of other rows.
        cases x with
        | none => simp at hc
        | some p =>
          obtain rfl : c = p := by simpa using hc
          obtain ⟨rfl, hold⟩ := hx c.1 c.2 rfl
          obtain ⟨hf, ha⟩ := hw'.frame (k := c.1.val.job_id) (by
            rintro d ⟨r, hr, hd⟩
            refine ⟨r.job_id, hd.isOf, ?_⟩
            rw [← hold.carries.job_id]
            exact (hne r hr).symm)
          exact ⟨row, by simp, hold.congr hf ha⟩
      · obtain ⟨r, hr, hold⟩ := hconts c hc
        exact ⟨r, List.mem_cons_of_mem row hr, hold⟩

/-! ## Claiming -/

/-- A token is drawn. -/
theorem drawToken_ok {token : String} :
    drawToken env s = .ok (token, s') ↔ token = "lease-" ++ env.token s.draws ∧
      s' = { s with draws := s.draws + 1 } := by
  simp only [drawToken, Tx.bind_ok, Tx.get_ok, Tx.set_ok, Tx.pure_ok]
  constructor
  · rintro ⟨_, _, ⟨rfl, rfl⟩, _, _, rfl, rfl, rfl⟩
    exact ⟨rfl, rfl⟩
  · rintro ⟨rfl, rfl⟩
    exact ⟨_, _, ⟨rfl, rfl⟩, (), _, rfl, rfl, rfl⟩

/-- A claimed job is running, and was queued or running. -/
theorem claimedJob_continues {running : Job} (h : claimedJob j worker now = .ok running) : Continues j running ∧
      running.val.state = .running ∧ (j.val.state = .queued ∨ j.val.state = .running) := by
  unfold claimedJob at h
  split at h
  · next hr =>
    have hclean : ∀ updated version, JobFields.Clean
        { j.val with updated_at := updated, version := version } := fun _ _ => { j.clean with }
    have hval := ((Job.make_ok_of_clean (hclean _ _)).mp h).1
    refine ⟨⟨by rw [hval], ?_, ?_⟩, by rw [hval]; exact hr, .inr hr⟩
    · simp only [Job.idempotencyIdentity, hval]
    · simp only [Job.envelope, hval]
  · obtain ⟨hq, -, a, -, hval⟩ := Job.startAttempt_ok.mp h
    refine ⟨⟨by rw [hval]; rfl, ?_, ?_⟩, by rw [hval]; rfl, .inl hq⟩
    · simp only [Job.idempotencyIdentity, hval, Job.started]
    · simp only [Job.envelope, hval, Job.started]

/-- A change that gives a job a lease, with a token that the transaction drew. -/
def Change.Claims (env : Env) (worker : String) : Change → Prop
  | persist before j a => ∃ n, Leases before j a worker ("lease-" ++ env.token n)
  | draw => True
  | _ => False

/-- The lease of a claimed job: the worker and the token that its row holds. -/
structure Leased (env : Env) (s : Store) (worker : String) (j : Job) (claimed : Job × JobLease) :
    Prop where
  job_id : claimed.1.val.job_id = j.val.job_id
  lease_job_id : claimed.2.val.job_id = j.val.job_id
  worker_id : claimed.2.val.worker_id = strip worker
  token : ∃ n, claimed.2.val.token = "lease-" ++ env.token n
  row : ∃ r, s.Holds r claimed.1 ∧ r.contract_state = some .running ∧
    r.lease_worker_id = some worker ∧ r.lease_owner = some claimed.2.val.token

/-- A token is an identifier. -/
theorem identifierPattern_token (env : Env) (n : ℕ) :
    identifierPattern ("lease-" ++ env.token n) = true := by
  obtain ⟨hlen, hchars⟩ := env.token_urlsafe n
  have hlist : ("lease-" ++ env.token n).toList =
      'l' :: (['e', 'a', 's', 'e', '-'] ++ (env.token n).toList) := by
    rw [String.toList_append]
    rfl
  have hease : ['e', 'a', 's', 'e', '-'].all isIdentifierChar = true := by decide
  have hurl : ∀ c, isUrlsafe c = true → isIdentifierChar c = true := by
    intro c hc
    simp only [isUrlsafe, Bool.or_eq_true, beq_iff_eq] at hc
    rcases hc with (hc | rfl) | rfl
    · simp [isIdentifierChar, hc]
    · decide
    · decide
  simp only [identifierPattern, matchesRun, hlist, Bool.and_eq_true, List.all_eq_true,
    decide_eq_true_eq]
  refine ⟨⟨by decide, ?_⟩, ?_⟩
  · intro c hc
    rcases List.mem_append.mp hc with hc | hc
    · exact List.all_eq_true.mp hease c hc
    · exact hurl c (hchars c hc)
  · rw [List.length_append, hlen]
    decide

/-- A candidate gets a lease: a token is drawn, and the running job is persisted with it. -/
theorem claimOne_writes {old : Row} {claimed : Job × JobLease} (hold : s.store.Holds old j)
    (h : claimOne cfg env worker scope versions now j s = .ok (claimed, s')) :
    (∃ running a n, Leases j running a worker ("lease-" ++ env.token n) ∧
      Writes cfg env (fun c => c = .draw ∨ c = .persist j running a) s s') ∧
      (j.val.state = .queued ∨ j.val.state = .running) ∧
      Leased env s'.store worker j claimed := by
  simp only [claimOne, Tx.bind_ok, checkExpected_ok, transitionStep_ok, drawToken_ok] at h
  obtain ⟨_, _, ⟨hexp, rfl⟩, running, _, ⟨hclaim, rfl⟩, _, _, ⟨rfl, rfl⟩, out, s₁, hp, r, s₂, hsel,
    h⟩ := h
  obtain ⟨hcont, hrun, hclaimable⟩ := claimedJob_continues hclaim
  have hold' : ({ s with draws := s.draws + 1 } : Session).store.Holds old j := hold
  obtain ⟨hw, hrow, hcont', hstate, -⟩ := persist_write hold' hcont.job_id hp
  cases r with
  | none => simp only [Tx.raise_ok] at h
  | some row =>
    obtain ⟨hfound, -, rfl⟩ := selectOne_some.mp hsel
    simp only [Tx.bind_ok, Tx.lift_ok, contractStep_ok, Tx.pure_ok, Validated.make_ok] at h
    obtain ⟨_, _, ⟨-, rfl⟩, _, _, ⟨-, rfl⟩, owner, _, ⟨-, rfl⟩, lease, _, ⟨hlease, rfl⟩, rfl, rfl⟩ := h
    simp only [JobLeaseFields.postInit, except_bind_ok, identifier_ok, pure, Except.pure,
      Except.ok.injEq] at hlease
    obtain ⟨_, ⟨rfl, -⟩, _, ⟨rfl, -⟩, _, ⟨rfl, -⟩, _, -, hval⟩ := hlease
    have hid := (hcont.trans hcont').job_id
    have htoken := (textOk_of_identifierPattern (identifierPattern_token env s.draws)).stripped
    refine ⟨⟨running, _, s.draws, ?_,
      Writes.trans (.single .draw (.inl rfl)) (.single hw (.inr rfl))⟩, hclaimable, ?_⟩
    · exact ⟨hcont, hclaimable, hrun, rfl, rfl⟩
    · refine ⟨hid, ?_, by rw [← hval], ⟨s.draws, ?_⟩, _, hrow, ?_, ?_, ?_⟩
      · rw [← hval]
        show strip out.val.job_id = _
        rw [(textOk_of_identifierPattern (identifier_ok.mp out.clean.job_id).2).stripped, hid]
      · rw [← hval]
        exact htoken
      · rw [hrow.carries.state, hstate, hrun]
      · rfl
      · rw [← hval]
        exact congrArg some htoken.symm

/-- The candidates get their leases one after the other, and at the end every one of them holds
its own. -/
theorem claimEach_writes {l : List Job} (hs : s.store.Sound) (hl : ∀ j ∈ l, ∃ r, s.store.Holds r j)
    (hnodup : (l.map fun j => j.val.job_id).Nodup)
    (h : claimEach cfg env worker scope versions now l s = .ok (claimed, s')) :
    Writes cfg env (fun c => c.Claims env worker ∧ (∀ k, (∀ j ∈ l, k ≠ j.val.job_id) →
      ∃ id, c.IsOf id ∧ k ≠ id)) s s' ∧
      (∀ j ∈ l, j.val.state = .queued ∨ j.val.state = .running) ∧
      List.Forall₂ (Leased env s'.store worker) l claimed := by
  induction l generalizing s claimed with
  | nil =>
    obtain ⟨rfl, rfl⟩ := Tx.pure_ok.mp h
    exact ⟨.refl, by simp, .nil⟩
  | cons j l ih =>
    simp only [claimEach, Tx.bind_ok, Tx.pure_ok] at h
    obtain ⟨first, s₁, hfirst, others, s₂, hothers, rfl, rfl⟩ := h
    obtain ⟨old, hold⟩ := hl j (by simp)
    obtain ⟨⟨running, a, n, hleases, hw⟩, hclaimable, hleased⟩ := claimOne_writes hold hfirst
    rw [List.map_cons, List.nodup_cons] at hnodup
    have hne : ∀ j' ∈ l, j'.val.job_id ≠ j.val.job_id := by
      intro j' hj' heq
      exact hnodup.1 (List.mem_map.mpr ⟨j', hj', heq⟩)
    -- The changes of the first candidate are of its row only.
    have hframe : ∀ {k : String}, k ≠ j.val.job_id → ∀ c,
        (c = Change.draw ∨ c = .persist j running a) → ∃ id, c.IsOf id ∧ k ≠ id := by
      intro k hk c hc
      refine ⟨j.val.job_id, ?_, hk⟩
      rcases hc with rfl | rfl
      · trivial
      · exact hleases.job_id
    have hl₁ : ∀ j' ∈ l, ∃ r, s₁.store.Holds r j' := by
      intro j' hj'
      obtain ⟨r, hr⟩ := hl j' (List.mem_cons_of_mem j hj')
      obtain ⟨hf, ha⟩ := hw.frame (hframe (hne j' hj'))
      exact ⟨r, hr.congr hf ha⟩
    obtain ⟨hw', hclaimable', hleased'⟩ := ih (hw.sound hs) hl₁ hnodup.2 hothers
    refine ⟨(hw.mono ?_).trans (hw'.mono ?_), ?_, .cons ?_ hleased'⟩
    · rintro c hc
      refine ⟨?_, fun k hk => hframe (hk j (by simp)) c hc⟩
      rcases hc with rfl | rfl
      · trivial
      · exact ⟨n, hleases⟩
    · rintro c ⟨hc, hk⟩
      exact ⟨hc, fun k hk' => hk k fun j' hj' => hk' j' (List.mem_cons_of_mem j hj')⟩
    · intro j' hj'
      rcases List.mem_cons.mp hj' with rfl | hj'
      · exact hclaimable
      · exact hclaimable' j' hj'
    · -- The changes of the others leave the row of the first.
      obtain ⟨r, hr, hrow⟩ := hleased.row
      obtain ⟨hf, ha⟩ := hw'.frame (k := first.1.val.job_id) (by
        rintro c ⟨-, hc⟩
        refine hc _ fun j' hj' => ?_
        rw [hleased.job_id]
        exact (hne j' hj').symm)
      exact { hleased with row := ⟨r, hr.congr hf ha, hrow⟩ }

/-- The rows that `_select_many` returns are rows of the store that match, each once. -/
theorem selectMany_rows {p : Row → Bool} {le : Row → Row → Prop} [DecidableRel le]
    (h : selectMany p le limit s = .ok (rows, s')) :
    s = s' ∧ (∀ r ∈ rows, s.store.jobs.find? r.job_id = some r ∧ p r = true) ∧
      (rows.map Row.job_id).Nodup := by
  obtain ⟨rfl, rfl⟩ := selectMany_ok.mp h
  have hperm := List.perm_insertionSort le (s.store.jobs.rows.filter p)
  refine ⟨rfl, ?_, ?_⟩
  · intro r hr
    have hmem := List.mem_filter.mp (hperm.mem_iff.mp (List.mem_of_mem_take hr))
    exact ⟨Table.find?_of_mem hmem.1, hmem.2⟩
  · have hfilter : ((s.store.jobs.rows.filter p).map Row.job_id).Nodup :=
      List.Nodup.sublist (List.filter_sublist.map _) s.store.jobs.pk_nodup
    have hsorted := (hperm.map Row.job_id).nodup_iff.mpr hfilter
    exact List.Nodup.sublist ((List.take_sublist _ _).map _) hsorted

/-- Rows of the store are read as the jobs that they hold. -/
theorem decodeEach_holds (hs : s.store.Sound) (hfound : ∀ r ∈ rows, s.store.jobs.find? r.job_id = some r)
    (h : decodeEach rows s = .ok (jobs, s')) :
    s = s' ∧ List.Forall₂ s.store.Holds rows jobs := by
  induction rows generalizing jobs with
  | nil =>
    obtain ⟨rfl, rfl⟩ := Tx.pure_ok.mp h
    exact ⟨rfl, .nil⟩
  | cons row rows ih =>
    simp only [decodeEach, Tx.bind_ok, decodeStored_ok, Tx.pure_ok] at h
    obtain ⟨j, _, ⟨hdec, rfl⟩, rest, _, hrest, rfl, rfl⟩ := h
    obtain ⟨rfl, hforall⟩ := ih (fun r hr => hfound r (List.mem_cons_of_mem row hr)) hrest
    exact ⟨rfl, .cons (Store.Holds.of_decoded hs (hfound row (by simp)) hdec) hforall⟩

/-- The ids of held jobs are those of their rows. -/
theorem map_job_id_of_holds {st : Store} (h : List.Forall₂ st.Holds rows jobs) :
    (jobs.map fun j => j.val.job_id) = rows.map Row.job_id := by
  induction h with
  | nil => rfl
  | cons hold _ ih => rw [List.map_cons, List.map_cons, ih, hold.carries.job_id]

/-- `claim` settles expired rows, and then gives its candidates, which are queued or to be resumed,
their leases. -/
theorem claim_writes {scope : JobScope} (hs : s.store.Sound)
    (h : claim cfg env worker scope versions limit now s = .ok (claimed, s')) :
    ∃ (rows : List Row) (s₁ : Session) (l : List Job), (∀ r ∈ rows, s.store.jobs.find? r.job_id = some r ∧
        expiredWhere env scope.val r = true) ∧
      Writes cfg env (fun c => ∃ r ∈ rows, c.Settles r.job_id) s s₁ ∧
      (∀ j ∈ l, (∃ r, s₁.store.Holds r j) ∧ (j.val.state = .queued ∨ j.val.state = .running)) ∧
      (l.map fun j => j.val.job_id).Nodup ∧
      Writes cfg env (fun c => c.Claims env worker ∧ (∀ k, (∀ j ∈ l, k ≠ j.val.job_id) →
        ∃ id, c.IsOf id ∧ k ≠ id)) s₁ s' ∧
      List.Forall₂ (Leased env s'.store worker) l claimed := by
  simp only [claim, recoverExpired, Tx.bind_ok, Tx.raiseIf_ok, Tx.lift_ok] at h
  obtain ⟨_, _, ⟨-, rfl⟩, _, _, ⟨-, rfl⟩, conts, s₁, ⟨rows, _, hsel, hrec⟩, queuedRows, _, hsel', queued,
    _, hdec, hclaim⟩ := h
  obtain ⟨rfl, hrows, hnodup⟩ := selectMany_rows hsel
  obtain ⟨hw, hsub, hconts⟩ := recoverRows_settles hs (fun r hr => (hrows r hr).1) hnodup hrec
  obtain ⟨rfl, hqrows, hqnodup⟩ := selectMany_rows hsel'
  have hs₁ := hw.sound hs
  obtain ⟨rfl, hforall⟩ := decodeEach_holds hs₁ (fun r hr => (hqrows r hr).1) hdec
  have hqueued : ∀ j ∈ queued, ∃ r ∈ queuedRows, s₁.store.Holds r j := by
    intro j hj
    obtain ⟨i, hi, rfl⟩ := List.getElem_of_mem hj
    have hlen := hforall.length_eq
    exact ⟨queuedRows[i], List.getElem_mem _, hforall.get (by omega) hi⟩
  -- The jobs to be resumed are running and the others are queued, so that their ids differ.
  have hcandidates : ((conts.map Prod.fst ++ queued).map fun j => j.val.job_id).Nodup := by
    rw [List.map_append, List.map_map, List.nodup_append]
    refine ⟨List.Nodup.sublist hsub hnodup, by rw [map_job_id_of_holds hforall]; exact hqnodup, ?_⟩
    intro a ha b hb hab
    obtain ⟨c, hc, rfl⟩ := List.mem_map.mp ha
    obtain ⟨j, hj, rfl⟩ := List.mem_map.mp hb
    obtain ⟨r, hr, hold⟩ := hconts c hc
    obtain ⟨r', hr', hold'⟩ := hqueued j hj
    obtain ⟨rfl, -⟩ := hold.unique hold' hab
    have hexp := (hrows r hr).2
    have hclaimable := (hqrows r hr').2
    simp only [expiredWhere, claimWhere, Bool.and_eq_true, beq_iff_eq] at hexp hclaimable
    rw [hexp.1.1.2] at hclaimable
    exact absurd hclaimable.1.2 (by decide)
  have hperm := List.perm_insertionSort (candidateLE conts) (conts.map Prod.fst ++ queued)
  have hl : ∀ j ∈ ((conts.map Prod.fst ++ queued).insertionSort (candidateLE conts)).take limit,
      ∃ r, s₁.store.Holds r j := by
    intro j hj
    have hmem := hperm.mem_iff.mp (List.mem_of_mem_take hj)
    rcases List.mem_append.mp hmem with hmem | hmem
    · obtain ⟨c, hc, rfl⟩ := List.mem_map.mp hmem
      obtain ⟨r, -, hold⟩ := hconts c hc
      exact ⟨r, hold⟩
    · obtain ⟨r, -, hold⟩ := hqueued j hmem
      exact ⟨r, hold⟩
  have hlnodup : ((((conts.map Prod.fst ++ queued).insertionSort (candidateLE conts)).take limit).map
      fun j => j.val.job_id).Nodup :=
    List.Nodup.sublist ((List.take_sublist _ _).map _)
      ((hperm.map fun j => j.val.job_id).nodup_iff.mpr hcandidates)
  obtain ⟨hw', hstates, hleased⟩ := claimEach_writes hs₁ hl hlnodup hclaim
  exact ⟨rows, s₁, _, hrows, hw, fun j hj => ⟨hl j hj, hstates j hj⟩, hlnodup, hw', hleased⟩

end

end RickIntelligence.Postgres
