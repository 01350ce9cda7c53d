import RickIntelligence.Postgres.Changes

/-!
# The operations as sequences of changes

What each operation of the queue may change when it returns. A job that is persisted continues the
one before it (`Continues`), in one of three ways: it goes along an edge of its lifecycle and gives
up its lease (`Advances`), it is claimed (`Leases`), or it is saved as its caller built it
(`Saves`). Nothing else is known of a saved job than that its request is the same and that neither
it nor the stored one is running.
-/

namespace RickIntelligence.Postgres

open Lib Jobs

/-! ## Kinds of persisted jobs -/

/-- A job of the same id, identity, and request. -/
structure Continues (before j : Job) : Prop where
  job_id : j.val.job_id = before.val.job_id
  identity : j.idempotencyIdentity = before.idempotencyIdentity
  envelope : j.envelope = before.envelope

/-- The next job along an edge of the lifecycle, without a lease. -/
structure Advances (before j : Job) (a : PersistArgs) : Prop extends Continues before j where
  edge : canTransition before.val.state j.val.state = true
  not_running : j.val.state ≠ .running
  from_state : a.from_state = before.val.state
  lease : a.lease = .clear

/-- A claimed job, with a new lease. -/
structure Leases (before j : Job) (a : PersistArgs) (worker token : String) : Prop extends
    Continues before j where
  claimable : before.val.state = .queued ∨ before.val.state = .running
  running : j.val.state = .running
  from_state : a.from_state = before.val.state
  lease : a.lease = .issue worker token

/-- A job as the caller of `save` built it. -/
structure Saves (before j : Job) (a : PersistArgs) : Prop extends Continues before j where
  before_not_running : before.val.state ≠ .running
  not_running : j.val.state ≠ .running
  from_state : a.from_state = before.val.state
  lease : a.lease = .keep

/-- A job continues itself. -/
theorem Continues.refl (j : Job) : Continues j j := ⟨rfl, rfl, rfl⟩

variable {j j' : Job} {target : JobState} {now : ℚ} {o : Job.Outcome}

/-- Two jobs that one row carries continue each other, in the same state. -/
theorem Row.Carries.continues {r : Row} (h : r.Carries j) (h' : r.Carries j') :
    Continues j j' ∧ j'.val.state = j.val.state ∧ j'.val.version = j.val.version := by
  refine ⟨⟨?_, ?_, ?_⟩, ?_, ?_⟩
  · rw [← h.job_id, h'.job_id]
  · rw [← h.identity, h'.identity]
  · have hp : j'.val.payload = j.val.payload := by
      obtain ⟨ms, hms, hpayload⟩ := payload_read j.val.payload
      obtain ⟨ms', hms', hpayload'⟩ := payload_read j'.val.payload
      rw [← h'.payload, h.payload, hms] at hms'
      cases hms'
      rw [hpayload] at hpayload'
      exact (Except.ok.inj hpayload').symm
    unfold Job.envelope
    rw [hp, ← h.operation, h'.operation, ← h.max_attempts, h'.max_attempts]
  · exact Option.some.inj (h'.state.symm.trans h.state)
  · rw [← h.version, h'.version]

/-- A job goes on where another one continues. -/
theorem Continues.trans {j'' : Job} (h : Continues j j') (h' : Continues j' j'') :
    Continues j j'' :=
  ⟨h'.job_id.trans h.job_id, h'.identity.trans h.identity, h'.envelope.trans h.envelope⟩

/-- A job that continues another is in its scope. -/
theorem Continues.scope (h : Continues j j') : j'.scope = j.scope := by
  have hident := h.identity
  simp only [Job.idempotencyIdentity, Prod.mk.injEq] at hident
  unfold Job.scope
  rw [hident.1, hident.2.1, hident.2.2.1]

/-- A job that is not running moves along an edge. -/
theorem transition_continues (h : j.transition target now o = .ok j') : Continues j j' ∧
      canTransition j.val.state j'.val.state = true ∧ j'.val.state ≠ .running ∧
      j'.val.state = target := by
  obtain ⟨hedge, hne, hstep⟩ := Job.transition_ok.mp h
  split at hstep
  · obtain ⟨_, _, -, -, hval⟩ := Job.finishAttempt_ok.mp hstep
    have hstate : j'.val.state = target := by rw [hval]; rfl
    refine ⟨⟨by rw [hval]; rfl, ?_, ?_⟩, hstate ▸ hedge, hstate ▸ hne, hstate⟩
    · simp only [Job.idempotencyIdentity, hval, Job.finished]
    · simp only [Job.envelope, hval, Job.finished]
  · obtain ⟨-, hval⟩ := Job.move_ok.mp hstep
    have hstate : j'.val.state = target := by rw [hval]; rfl
    refine ⟨⟨by rw [hval]; rfl, ?_, ?_⟩, hstate ▸ hedge, hstate ▸ hne, hstate⟩
    · simp only [Job.idempotencyIdentity, hval, Job.moved]
    · simp only [Job.envelope, hval, Job.moved]

/-- A running job whose attempt finishes goes along an edge. -/
theorem finishAttempt_continues (h : j.finishAttempt target now o = .ok j') :
    Continues j j' ∧ j.val.state = .running ∧
      canTransition j.val.state j'.val.state = true ∧ j'.val.state ≠ .running := by
  obtain ⟨_, _, hfin, -, hval⟩ := Job.finishAttempt_ok.mp h
  have hstate : j'.val.state = target := by rw [hval]; rfl
  have hmem := hfin.target_mem
  simp only [Job.finishStates, List.mem_cons, List.not_mem_nil, or_false] at hmem
  refine ⟨⟨by rw [hval]; rfl, ?_, ?_⟩, hfin.running, ?_, ?_⟩
  · simp only [Job.idempotencyIdentity, hval, Job.finished]
  · simp only [Job.envelope, hval, Job.finished]
  · rw [hfin.running, hstate]
    rcases hmem with rfl | rfl | rfl <;> rfl
  · rw [hstate]
    rcases hmem with rfl | rfl | rfl <;> decide

/-! ## One persisted job -/

section

variable {cfg : Config} {env : Env} {s s' : Session} {old row : Row} {before next j j' out : Job}
  {target : JobState} {o : Job.Outcome} {a : PersistArgs} {id : String} {scope : JobScopeFields} {now : ℚ}
  {expected : ℕ}

/-- `_persist` over the row that holds a job is a change of it, and the store then holds the job
that was read back. -/
theorem persist_write (hold : s.store.Holds old before) (hid : j.val.job_id = before.val.job_id)
    (h : persist cfg env j a s = .ok (out, s')) :
    Write cfg env s (.persist before j a) s' ∧
      s'.store.Holds (persistRow cfg env j a old) out ∧ Continues j out ∧
      out.val.state = j.val.state ∧ out.val.version = j.val.version := by
  obtain ⟨old', jobs, rows, hp, rfl⟩ := persist_ok.mp h
  obtain rfl : old = old' := by
    have hfound := hp.found
    rw [hid, hold.found] at hfound
    exact Option.some.inj hfound
  exact ⟨.persist hold hp, hp.holds, hp.carries.continues hp.holds.carries⟩

/-- A change that moves a job along its lifecycle or marks its row. -/
def Change.Settles (id : String) : Change → Prop
  | persist before j a => j.val.job_id = id ∧ Advances before j a
  | touch i => i = id
  | _ => False

/-- Such a change is of its job. -/
theorem Change.Settles.isOf {c : Change} (h : c.Settles id) : c.IsOf id := by
  cases c with
  | persist before j a => exact h.1
  | touch i => exact h
  | insert | log | draw | delete => exact h.elim

/-- A persisted transition of the held job settles it. -/
theorem persist_settles (hold : s.store.Holds old before) (hadv : Advances before j a)
    (h : persist cfg env j a s = .ok (out, s')) :
    Writes cfg env (Change.Settles before.val.job_id) s s' ∧
      (∃ row, s'.store.Holds row out) ∧ Continues before out ∧ out.val.state = j.val.state := by
  obtain ⟨hw, hout, hcont, hstate, -⟩ := persist_write hold hadv.job_id h
  exact ⟨.single hw ⟨hadv.job_id, hadv⟩, ⟨_, hout⟩, hadv.toContinues.trans hcont, hstate⟩

/-! ## Publications -/

/-- A marked row: the recovery waits, and the job is as it was. -/
theorem updateRow_touch {p : Row → Bool} {f : Row → Row} {r : Option Row} (hf : Touches f)
    (h : updateRow env id p f s = .ok (r, s')) :
    Writes cfg env (Change.Settles id) s s' ∧
      ∀ {row : Row} {j : Job}, s.store.Holds row j → ∃ row', s'.store.Holds row' j := by
  rcases updateRow_ok.mp h with ⟨-, -, rfl⟩ | ⟨old, jobs, hu, -, rfl⟩
  · exact ⟨.refl, fun hj => ⟨_, hj⟩⟩
  · refine ⟨.single (.touch hu hf) rfl, ?_⟩
    intro row j hj
    have hfound := hu.find? (hf.keys old).1 j.val.job_id
    by_cases hid : j.val.job_id = id
    · rw [if_pos hid] at hfound
      obtain rfl : old = row := by
        have hold := hu.found
        rw [← hid, hj.found] at hold
        exact (Option.some.inj hold).symm
      exact ⟨f old, hfound, hj.carries.touched hf, (decode_touched hf old _).trans hj.decoded⟩
    · rw [if_neg hid] at hfound
      exact ⟨row, hj.congr hfound rfl⟩

/-- A deferred publication marks the row and returns the job. -/
theorem deferPublication_settles {reason : String} (hold : s.store.Holds old j)
    (h : deferPublication env j reason s = .ok (out, s')) :
    Writes cfg env (Change.Settles j.val.job_id) s s' ∧ (∃ row, s'.store.Holds row out) ∧
      out = j := by
  simp only [deferPublication, Tx.bind_ok, Tx.pure_ok] at h
  obtain ⟨_, _, hu, rfl, rfl⟩ := h
  obtain ⟨hw, hrow⟩ := updateRow_touch (fun _ => rfl) hu
  exact ⟨hw, hrow hold, rfl⟩

variable {p : Publication} {x : Reconciled} {n : ℕ} {cutoff : ℚ}

/-- A publication ends the active attempt. -/
theorem publicationCompletion_continues (h : publicationCompletion cfg j now p = .ok j') :
    Continues j j' ∧ j.val.state = .running ∧
      canTransition j.val.state j'.val.state = true ∧ j'.val.state ≠ .running := by
  have hpublished : ∀ {facts : JobPublicationFacts} {t : Option ℚ} {target : JobState}
      {r : Option JobResult}, publishedCompletion cfg j facts t target r now = .ok j' →
      Continues j j' ∧ j.val.state = .running ∧
        canTransition j.val.state j'.val.state = true ∧ j'.val.state ≠ .running := by
    intro facts t target r hp
    unfold publishedCompletion at hp
    split at hp
    · cases hp
    · split at hp
      · cases hp
      · exact finishAttempt_continues (mapError_ok.mp hp)
  cases p with
  | plain r => exact finishAttempt_continues (mapError_ok.mp h)
  | committed p =>
    unfold publicationCompletion at h
    exact hpublished h
  | cancelled c =>
    unfold publicationCompletion at h
    exact hpublished h

/-- A recorded publication settles the job. -/
theorem recordPublication_settles (hold : s.store.Holds old j)
    (h : recordPublication cfg env j now p s = .ok (x, s')) :
    Writes cfg env (Change.Settles j.val.job_id) s s' ∧
      ∃ out, x = .job out ∧ Continues j out ∧ ∃ row, s'.store.Holds row out := by
  unfold recordPublication at h
  cases hc : publicationCompletion cfg j now p with
  | error reason =>
    simp only [hc, Tx.bind_ok, Tx.pure_ok] at h
    obtain ⟨out, _, hd, rfl, rfl⟩ := h
    obtain ⟨hw, hrow, rfl⟩ := deferPublication_settles hold hd
    exact ⟨hw, out, rfl, .refl out, hrow⟩
  | ok terminal =>
    simp only [hc, Tx.bind_ok, Tx.pure_ok] at h
    obtain ⟨out, _, hp, rfl, rfl⟩ := h
    obtain ⟨hcont, -, hedge, hne⟩ := publicationCompletion_continues hc
    obtain ⟨hw, hrow, hcont', -⟩ := persist_settles hold ⟨hcont, hedge, hne, rfl, rfl⟩ hp
    exact ⟨hw, out, rfl, hcont', hrow⟩

/-- A reconciled publication settles the job, or leaves the store as it was. -/
theorem reconcilePublication_settles {allow : Bool} (hold : s.store.Holds old j)
    (h : reconcilePublication cfg env j now allow s = .ok (x, s')) :
    (Writes cfg env (Change.Settles j.val.job_id) s s' ∧
      ∃ out, x = .job out ∧ Continues j out ∧ ∃ row, s'.store.Holds row out) ∨
    (s' = s ∧ (x = .absent ∨ x = .continuation)) := by
  have hdefer : ∀ {reason : String}, (Reconciled.job <$> deferPublication env j reason) s =
      .ok (x, s') → Writes cfg env (Change.Settles j.val.job_id) s s' ∧
        ∃ out, x = .job out ∧ Continues j out ∧ ∃ row, s'.store.Holds row out := by
    intro reason hd
    rw [map_eq_pure_bind] at hd
    simp only [Tx.bind_ok, Tx.pure_ok] at hd
    obtain ⟨out, _, hd, rfl, rfl⟩ := hd
    obtain ⟨hw, hrow, rfl⟩ := deferPublication_settles hold hd
    exact ⟨hw, out, rfl, .refl out, hrow⟩
  cases hr : env.reconciler with
  | none =>
    simp only [reconcilePublication, hr, Tx.pure_ok] at h
    exact .inr ⟨h.2.symm, .inl h.1.symm⟩
  | some reconcile =>
    simp only [reconcilePublication, hr] at h
    cases ha : reconcile j with
    | absent =>
      simp only [ha, Tx.pure_ok] at h
      exact .inr ⟨h.2.symm, .inl h.1.symm⟩
    | continuation facts =>
      simp only [ha, Tx.pure_ok] at h
      obtain ⟨hx, rfl⟩ := h
      split at hx
      · exact .inr ⟨rfl, .inr hx.symm⟩
      · exact .inl ⟨.refl, j, hx.symm, .refl j, old, hold⟩
    | raisedCancelled c =>
      cases c with
      | none => exact .inl (hdefer (by simpa only [ha] using h))
      | some c => exact .inl (recordPublication_settles hold (by simpa only [ha] using h))
    | raised reason => exact .inl (hdefer (by simpa only [ha] using h))
    | other => exact .inl (hdefer (by simpa only [ha] using h))
    | result r => exact .inl (recordPublication_settles hold (by simpa only [ha] using h))
    | publication p => exact .inl (recordPublication_settles hold (by simpa only [ha] using h))
    | cancellation c => exact .inl (recordPublication_settles hold (by simpa only [ha] using h))

/-! ## Failures -/

/-- A transition of the held job, persisted, settles it. -/
theorem transition_settles (hold : s.store.Holds old before) (ht : before.transition target now o = .ok next)
    (hfrom : a.from_state = before.val.state) (hlease : a.lease = .clear)
    (h : persist cfg env next a s = .ok (out, s')) :
    Writes cfg env (Change.Settles before.val.job_id) s s' ∧
      (∃ row, s'.store.Holds row out) ∧ Continues before out ∧ out.val.state = target := by
  obtain ⟨hcont, hedge, hne, hstate⟩ := transition_continues ht
  have hadv : Advances before next a := ⟨hcont, hedge, hne, hfrom, hlease⟩
  obtain ⟨hw, hrow, hcont', hstate'⟩ := persist_settles hold hadv h
  exact ⟨hw, hrow, hcont', hstate'.trans hstate⟩

/-- A finished attempt of the held job, persisted, settles it. -/
theorem finishAttempt_settles (hold : s.store.Holds old before) (hf : before.finishAttempt target now o = .ok next)
    (hfrom : a.from_state = before.val.state) (hlease : a.lease = .clear)
    (h : persist cfg env next a s = .ok (out, s')) :
    Writes cfg env (Change.Settles before.val.job_id) s s' ∧
      (∃ row, s'.store.Holds row out) ∧ Continues before out := by
  obtain ⟨hcont, -, hedge, hne⟩ := finishAttempt_continues hf
  have hadv : Advances before next a := ⟨hcont, hedge, hne, hfrom, hlease⟩
  obtain ⟨hw, hrow, hcont', -⟩ := persist_settles hold hadv h
  exact ⟨hw, hrow, hcont'⟩

/-- A failure is settled by a retry or a dead letter. -/
theorem settleFailure_settles {failed : Job} (hold : s.store.Holds old failed)
    (h : settleFailure cfg env failed now s = .ok (out, s')) :
    Writes cfg env (Change.Settles failed.val.job_id) s s' ∧ ∃ row, s'.store.Holds row out := by
  unfold settleFailure at h
  simp only at h
  split at h
  · simp only [Tx.bind_ok, contractStep_ok] at h
    obtain ⟨retrying, _, ⟨hr, rfl⟩, retrying', s₁, hp, queued, _, ⟨hq, rfl⟩, hp'⟩ := h
    obtain ⟨hw, ⟨row, hrow⟩, hcont, -⟩ := transition_settles hold hr rfl rfl hp
    obtain ⟨hw', hrow', -, -⟩ := transition_settles hrow hq rfl rfl hp'
    rw [hcont.job_id] at hw'
    exact ⟨hw.trans hw', hrow'⟩
  · simp only [Tx.bind_ok, contractStep_ok] at h
    obtain ⟨dead, _, ⟨hd, rfl⟩, hp⟩ := h
    obtain ⟨hw, hrow, -, -⟩ := transition_settles hold hd rfl rfl hp
    exact ⟨hw, hrow⟩

/-- An expired attempt fails, and its failure is settled. -/
theorem expireAttempt_settles {u : Unit} (hold : s.store.Holds old j)
    (h : expireAttempt cfg env j now s = .ok (u, s')) :
    Writes cfg env (Change.Settles j.val.job_id) s s' := by
  simp only [expireAttempt, Tx.bind_ok, contractStep_ok, Tx.pure_ok] at h
  obtain ⟨_, _, ⟨-, rfl⟩, failed, _, ⟨hf, rfl⟩, failed', s₁, hp, _, _, hs, -, rfl⟩ := h
  obtain ⟨hw, ⟨row, hrow⟩, hcont⟩ := finishAttempt_settles hold hf rfl rfl hp
  obtain ⟨hw', -⟩ := settleFailure_settles hrow hs
  rw [hcont.job_id] at hw'
  exact hw.trans hw'

/-! ## Operations on one row -/

/-- The row of a job is found and read. -/
theorem select_holds (hs : s.store.Sound) (hsel : s.store.jobs.find? id = some row)
    (hscope : row.inScope scope = true) (hdec : decode row (s.store.attempts row.job_id) = .ok j) :
    s.store.Holds row j ∧ j.val.job_id = id ∧ j.scope = scope := by
  have hold := Store.Holds.of_decoded hs hsel hdec
  refine ⟨hold, ?_, (hold.carries.inScope_iff scope).mp hscope⟩
  rw [← hold.carries.job_id]
  exact (Table.find?_eq_some.mp hsel).2

/-- `save` writes its job over the stored one, neither of them running. -/
theorem save_writes (hs : s.store.Sound) (h : save cfg env j expected s = .ok (out, s')) :
    ∃ row existing a, s.store.Holds row existing ∧ existing.val.version = expected ∧
      Saves existing j a ∧ Write cfg env s (.persist existing j a) s' ∧
      ∃ row', s'.store.Holds row' out ∧ Continues existing out ∧ out.val.state = j.val.state := by
  simp only [save, Tx.bind_ok] at h
  obtain ⟨r, s₀, hsel, h⟩ := h
  cases r with
  | none => simp only [Tx.raise_ok] at h
  | some row =>
    obtain ⟨hfound, hscope, rfl⟩ := selectOne_some.mp hsel
    simp only [Tx.bind_ok, requireCanonicalRow_ok, decodeStored_ok, checkExpected_ok, Tx.raiseIf_ok,
      Bool.or_eq_false_iff, beq_eq_false_iff_ne, ensureIdempotent_ok, Tx.lift_ok] at h
    obtain ⟨_, _, ⟨-, rfl⟩, existing, _, ⟨hdec, rfl⟩, _, _, ⟨rfl, rfl⟩, _, _, ⟨⟨hb, hj⟩, rfl⟩, _, _,
      ⟨hident, henv, -, rfl⟩, _, _, ⟨-, rfl⟩, hp⟩ := h
    obtain ⟨hold, hid, -⟩ := select_holds hs hfound hscope hdec
    have hcont : Continues existing j := ⟨hid.symm, hident.symm, henv.symm⟩
    obtain ⟨hw, hrow, hcont', hstate, -⟩ := persist_write hold hcont.job_id hp
    exact ⟨row, existing, _, hold, rfl, ⟨hcont, hb, hj, rfl, rfl⟩, hw, _, hrow,
      hcont.trans hcont', hstate⟩

/-- The job that `schedule` saves is queued, under the id and in the scope of the given one. -/
theorem scheduled_queued {target : ℚ} (h : scheduled j target = .ok next) :
    next.val.state = .queued ∧ next.val.job_id = j.val.job_id ∧ next.scope = j.scope := by
  unfold scheduled at h
  split at h
  · rw [mapError_ok] at h
    obtain ⟨hcont, -, -, hqueued⟩ := transition_continues h
    exact ⟨hqueued, hcont.job_id, hcont.scope⟩
  · next hstate =>
    rw [mapError_ok] at h
    have hclean : ∀ available updated version, JobFields.Clean
        { j.val with available_at := available, updated_at := updated, version := version } :=
      fun _ _ _ => { j.clean with }
    have hval := ((Job.make_ok_of_clean (hclean _ _ _)).mp h).1
    refine ⟨by rw [hval]; exact hstate, by rw [hval], ?_⟩
    unfold Job.scope
    rw [hval]
  · cases h

/-- `schedule` saves the job with its next time, queued. -/
theorem schedule_saves {available_at : ℚ} (h : schedule cfg env j available_at expected s = .ok (out, s')) :
    ∃ next, save cfg env next expected s = .ok (out, s') ∧ next.val.state = .queued ∧
      next.val.job_id = j.val.job_id ∧ next.scope = j.scope := by
  simp only [schedule, Tx.bind_ok, Tx.lift_ok, time_ok] at h
  obtain ⟨t, _, ⟨⟨-, rfl⟩, rfl⟩, next, _, ⟨hn, rfl⟩, hsave⟩ := h
  exact ⟨next, hsave, scheduled_queued hn⟩

/-- `transition` moves the stored job along an edge. -/
theorem transition_writes (hs : s.store.Sound) (h : transition cfg env j target now expected s = .ok (out, s')) :
    ∃ row, s.store.Holds row j ∧ canTransition j.val.state target = true ∧
      Writes cfg env (Change.Settles j.val.job_id) s s' ∧
      ∃ row', s'.store.Holds row' out ∧ Continues j out ∧ out.val.state = target := by
  simp only [transition, Tx.bind_ok] at h
  obtain ⟨r, s₀, hsel, h⟩ := h
  cases r with
  | none => simp only [Tx.raise_ok] at h
  | some row =>
    obtain ⟨hfound, hscope, rfl⟩ := selectOne_some.mp hsel
    simp only [Tx.bind_ok, requireCanonicalRow_ok, decodeStored_ok, checkExpected_ok, Tx.raiseIf_ok,
      decide_eq_false_iff_not, not_not, Tx.lift_ok, time_ok, transitionStep_ok] at h
    obtain ⟨_, _, ⟨-, rfl⟩, existing, _, ⟨hdec, rfl⟩, _, _, ⟨-, rfl⟩, _, _, ⟨rfl, rfl⟩, _, _,
      ⟨-, rfl⟩, _, _, ⟨⟨-, rfl⟩, rfl⟩, next, _, ⟨hn, rfl⟩, hp⟩ := h
    obtain ⟨hold, -, -⟩ := select_holds hs hfound hscope hdec
    have hne := (transition_continues hn).2.2.1
    obtain ⟨hw, ⟨row', hrow⟩, hcont, hstate⟩ := transition_settles hold hn rfl (if_neg hne) hp
    exact ⟨row, hold, (Job.transition_ok.mp hn).1, hw, row', hrow, hcont, hstate⟩

/-- `recover_publication` settles a running job, or changes nothing, and returns what is stored. -/
theorem recoverPublication_writes {out : Option Job} (hs : s.store.Sound)
    (h : recoverPublication cfg env id scope now s = .ok (out, s')) :
    (s' = s ∨ ∃ row j, s.store.Holds row j ∧ j.val.state = .running ∧
      Writes cfg env (Change.Settles j.val.job_id) s s') ∧
      ∀ j ∈ out, ∃ row, s'.store.Holds row j := by
  simp only [recoverPublication, Tx.bind_ok, contractStep_ok] at h
  obtain ⟨scope', _, ⟨-, rfl⟩, r, s₀, hsel, h⟩ := h
  cases r with
  | none =>
    rw [selectOne_ok] at hsel
    obtain ⟨rfl, rfl⟩ := Tx.pure_ok.mp h
    exact ⟨.inl hsel.2.symm, by simp⟩
  | some row =>
    obtain ⟨hfound, hscope, rfl⟩ := selectOne_some.mp hsel
    obtain ⟨j, _, hd, h⟩ := Tx.bind_ok.mp h
    obtain ⟨hdec, rfl⟩ := decodeStored_ok.mp hd
    obtain ⟨hold, -, -⟩ := select_holds hs hfound hscope hdec
    split at h
    · next hrun =>
      simp only [Tx.bind_ok, Tx.lift_ok, time_ok] at h
      obtain ⟨_, _, ⟨⟨-, rfl⟩, rfl⟩, x, s₁, hrec, h⟩ := h
      rcases reconcilePublication_settles hold hrec with ⟨hw, out', rfl, -, row', hrow⟩ | ⟨rfl, hx⟩
      · obtain ⟨rfl, rfl⟩ := Tx.pure_ok.mp h
        exact ⟨.inr ⟨row, j, hold, hrun, hw⟩, by simpa using ⟨row', hrow⟩⟩
      · have hret : some j = out ∧ s₁ = s' := by
          rcases hx with rfl | rfl <;> exact Tx.pure_ok.mp h
        obtain ⟨rfl, rfl⟩ := hret
        exact ⟨.inl rfl, by simpa using ⟨row, hold⟩⟩
    · obtain ⟨rfl, rfl⟩ := Tx.pure_ok.mp h
      exact ⟨.inl rfl, by simpa using ⟨row, hold⟩⟩

/-- `cancel` settles the stored job: a running one as its publication owner says, another one by its
cancellation. -/
theorem cancel_writes (hs : s.store.Sound) (h : cancel cfg env id scope now expected s = .ok (out, s')) :
    ∃ row j, s.store.Holds row j ∧ j.val.job_id = id ∧
      Writes cfg env (Change.Settles j.val.job_id) s s' ∧ ∃ row', s'.store.Holds row' out ∧
      (j.val.state = .running ∨ Continues j out ∧ out.val.state = .cancelled) := by
  simp only [cancel, Tx.bind_ok, contractStep_ok] at h
  obtain ⟨scope', _, ⟨-, rfl⟩, r, s₀, hsel, h⟩ := h
  cases r with
  | none => simp only [Tx.raise_ok] at h
  | some row =>
    obtain ⟨hfound, hscope, rfl⟩ := selectOne_some.mp hsel
    simp only [Tx.bind_ok, requireCanonicalRow_ok, decodeStored_ok, checkExpected_ok] at h
    obtain ⟨j, _, ⟨hdec, rfl⟩, _, _, ⟨-, rfl⟩, _, _, ⟨-, rfl⟩, h⟩ := h
    obtain ⟨hold, hid, -⟩ := select_holds hs hfound hscope hdec
    split at h
    · next hrun =>
      cases hreq : env.requestCancel with
      | none => simp only [hreq, Tx.raise_ok] at h
      | some request =>
        simp only [hreq, Tx.bind_ok, Tx.raiseIf_ok, Tx.lift_ok, time_ok] at h
        obtain ⟨_, _, ⟨-, rfl⟩, _, _, ⟨⟨-, rfl⟩, rfl⟩, x, s₁, hrec, h⟩ := h
        rcases reconcilePublication_settles hold hrec with ⟨hw, out', rfl, -, row', hrow⟩ | ⟨rfl, hx⟩
        · obtain ⟨rfl, rfl⟩ := Tx.pure_ok.mp h
          exact ⟨row, j, hold, hid, hw, row', hrow, .inl hrun⟩
        · have hret : j = out ∧ s₁ = s' := by
            rcases hx with rfl | rfl <;> exact Tx.pure_ok.mp h
          obtain ⟨rfl, rfl⟩ := hret
          exact ⟨row, j, hold, hid, .refl, row, hold, .inl hrun⟩
    · simp only [Tx.bind_ok, Tx.lift_ok, time_ok, transitionStep_ok] at h
      obtain ⟨_, _, ⟨⟨-, rfl⟩, rfl⟩, next, _, ⟨hn, rfl⟩, hp⟩ := h
      obtain ⟨hw, ⟨row', hrow⟩, hcont, hstate⟩ := transition_settles hold hn rfl rfl hp
      exact ⟨row, j, hold, hid, hw, row', hrow, .inr ⟨hcont, hstate⟩⟩

/-! ## Admission -/

/-- The row with the identity of a job is found under its own id. -/
theorem idempotencyRow_some {r : Row} :
    idempotencyRow j s = .ok (some r, s') ↔ s.store.jobs.find? r.job_id = some r ∧
      r.identity = j.idempotencyIdentity ∧ s = s' := by
  rw [idempotencyRow_ok, ← and_assoc]
  refine and_congr_left fun _ => ?_
  constructor
  · intro h
    have hfind := h.symm
    exact ⟨Table.find?_of_mem (List.mem_of_find?_eq_some hfind),
      by simpa using List.find?_some hfind⟩
  · rintro ⟨hr, hid⟩
    have hmem := (Table.find?_eq_some.mp hr).1
    cases hf : s.store.jobs.rows.find? fun x => decide (x.identity = j.idempotencyIdentity) with
    | none => exact absurd (List.find?_eq_none.mp hf r hmem) (by simp [hid])
    | some x =>
      have hx : x.identity = j.idempotencyIdentity := by simpa using List.find?_some hf
      rw [s.store.jobs.eq_of_uk (List.mem_of_find?_eq_some hf) hmem (hx.trans hid.symm)]

/-- No row has the identity of a job. -/
theorem idempotencyRow_none :
    idempotencyRow j s = .ok (none, s') ↔
      (∀ r ∈ s.store.jobs.rows, r.identity ≠ j.idempotencyIdentity) ∧ s = s' := by
  rw [idempotencyRow_ok, eq_comm, List.find?_eq_none]
  simp

/-- `_insert` is a change of its job, and the store then holds the job that was read back. -/
theorem insert_write (h : insert env j s = .ok (out, s')) :
    Write cfg env s (.insert j) s' ∧ s'.store.Holds (insertRow j) out ∧ Continues j out ∧
      out.val.state = j.val.state ∧ out.val.version = j.val.version := by
  obtain ⟨jobs, rows, hi, rfl⟩ := insert_ok.mp h
  exact ⟨.insert hi, hi.holds, (insertRow_carries j).continues hi.holds.carries⟩

/-- `_queue_candidate` of a pending job is its transition. -/
theorem queueCandidate_ok {queued : Job} (hp : j.val.state = .pending) :
    queueCandidate j now s = .ok (queued, s') ↔
      j.transition .queued (max now j.val.updated_at) {} = .ok queued ∧ s = s' := by
  simp only [queueCandidate, hp, contractStep_ok]

/-- A pending job that is queued is settled. -/
theorem enqueuePending_settles (hold : s.store.Holds old j) (hp : j.val.state = .pending)
    (h : enqueuePending cfg env j s = .ok (out, s')) :
    Writes cfg env (Change.Settles j.val.job_id) s s' ∧
      (∃ row, s'.store.Holds row out) ∧ Continues j out ∧ out.val.state = .queued := by
  simp only [enqueuePending, Tx.bind_ok, queueCandidate_ok hp] at h
  obtain ⟨queued, _, ⟨hq, rfl⟩, hpers⟩ := h
  exact transition_settles hold hq rfl rfl hpers

/-- A request whose identity is stored returns the stored job, and the store is as it was. -/
theorem createOrReplay_writes (hs : s.store.Sound) (h : createOrReplay env j expected s = .ok (out, s')) :
    (s' = s ∧ ∃ row, s.store.Holds row out ∧ row.identity = j.idempotencyIdentity ∧
      out.envelope = j.envelope) ∨
    ((∀ r ∈ s.store.jobs.rows, r.identity ≠ j.idempotencyIdentity) ∧
      Write cfg env s (.insert j) s' ∧ s'.store.Holds (insertRow j) out) := by
  simp only [createOrReplay, Tx.bind_ok] at h
  obtain ⟨r, s₀, hrow, h⟩ := h
  cases r with
  | some row =>
    obtain ⟨hfound, hident, rfl⟩ := idempotencyRow_some.mp hrow
    obtain ⟨existing, _, hd, h⟩ := Tx.bind_ok.mp h
    obtain ⟨hdec, rfl⟩ := decodeStored_ok.mp hd
    have hold := Store.Holds.of_decoded hs hfound hdec
    obtain ⟨-, h⟩ := checkedIf_ok.mp h
    obtain ⟨-, henv, rfl, rfl⟩ := ensureIdempotent_ok.mp h
    exact .inl ⟨rfl, row, hold, hident, henv⟩
  | none =>
    obtain ⟨hnone, rfl⟩ := idempotencyRow_none.mp hrow
    obtain ⟨-, h⟩ := checkedIf_ok.mp h
    obtain ⟨hw, hold, -⟩ := insert_write h
    exact .inr ⟨hnone, hw, hold⟩

/-- `enqueue` of a stored identity returns the stored job, queued if it was pending; a new identity
is inserted when its scope has room, and queued if it is pending. -/
theorem enqueue_writes (hs : s.store.Sound) (h : enqueue cfg env j expected s = .ok (out, s')) :
    (∃ row existing, s.store.Holds row existing ∧ row.identity = j.idempotencyIdentity ∧
      existing.envelope = j.envelope ∧ (∃ row', s'.store.Holds row' out) ∧ Continues existing out ∧
      ((s' = s ∧ out = existing) ∨ (existing.val.state = .pending ∧
        Writes cfg env (Change.Settles existing.val.job_id) s s'))) ∨
    ((∀ r ∈ s.store.jobs.rows, r.identity ≠ j.idempotencyIdentity) ∧
      activeCount s.store j.scope < cfg.max_pending ∧
      ∃ s₁ inserted, Write cfg env s (.insert j) s₁ ∧ s₁.store.Holds (insertRow j) inserted ∧
        Continues j inserted ∧ inserted.val.state = j.val.state ∧
        (∃ row', s'.store.Holds row' out) ∧ Continues j out ∧
        ((s' = s₁ ∧ out = inserted) ∨ (j.val.state = .pending ∧
          Writes cfg env (Change.Settles j.val.job_id) s₁ s'))) := by
  simp only [enqueue, Tx.bind_ok] at h
  obtain ⟨r, s₀, hrow, h⟩ := h
  cases r with
  | some row =>
    obtain ⟨hfound, hident, rfl⟩ := idempotencyRow_some.mp hrow
    obtain ⟨existing, _, hd, h⟩ := Tx.bind_ok.mp h
    obtain ⟨hdec, rfl⟩ := decodeStored_ok.mp hd
    have hold := Store.Holds.of_decoded hs hfound hdec
    obtain ⟨-, h⟩ := checkedIf_ok.mp h
    obtain ⟨_, _, hens, h⟩ := Tx.bind_ok.mp h
    obtain ⟨-, henv, rfl, rfl⟩ := ensureIdempotent_ok.mp hens
    refine .inl ⟨row, _, hold, hident, henv, ?_⟩
    split at h
    · obtain ⟨rfl, rfl⟩ := Tx.pure_ok.mp h
      exact ⟨⟨row, hold⟩, .refl _, .inl ⟨rfl, rfl⟩⟩
    · split at h
      · next hp =>
        obtain ⟨hw, hrow', hcont, -⟩ := enqueuePending_settles hold hp h
        exact ⟨hrow', hcont, .inr ⟨hp, hw⟩⟩
      · obtain ⟨rfl, rfl⟩ := Tx.pure_ok.mp h
        exact ⟨⟨row, hold⟩, .refl _, .inl ⟨rfl, rfl⟩⟩
  | none =>
    obtain ⟨hnone, rfl⟩ := idempotencyRow_none.mp hrow
    simp only [Tx.bind_ok, Tx.get_ok, Tx.raiseIf_ok, decide_eq_false_iff_not, not_le] at h
    obtain ⟨_, _, ⟨rfl, rfl⟩, _, _, ⟨hcap, rfl⟩, _, _, ⟨-, rfl⟩, inserted, s₁, hins, h⟩ := h
    obtain ⟨hw, hold, hcont, hstate, -⟩ := insert_write hins
    refine .inr ⟨hnone, hcap, s₁, inserted, hw, hold, hcont, hstate, ?_⟩
    split at h
    · next hp =>
      obtain ⟨hw', hrow', hcont', -⟩ := enqueuePending_settles hold hp h
      rw [hcont.job_id] at hw'
      exact ⟨hrow', hcont.trans hcont', .inr ⟨hstate ▸ hp, hw'⟩⟩
    · obtain ⟨rfl, rfl⟩ := Tx.pure_ok.mp h
      exact ⟨⟨_, hold⟩, hcont, .inl ⟨rfl, rfl⟩⟩

/-- `replay_dead_letter` returns the job of the new key, or inserts a pending job in the scope of
the dead letter and queues it. -/
theorem replayDeadLetter_writes {new_id new_key : String} {max_attempts : Option ℕ} (hs : s.store.Sound)
    (h : replayDeadLetter cfg env id scope new_id new_key now expected max_attempts s = .ok (out, s')) :
    (s' = s ∧ ∃ row, s.store.Holds row out) ∨
    ∃ candidate s₁, candidate.val.state = .pending ∧ candidate.val.job_id = strip new_id ∧
      scope.postInit = .ok candidate.scope ∧
      (∀ r ∈ s.store.jobs.rows, r.identity ≠ candidate.idempotencyIdentity) ∧
      candidate.val.idempotency_key = strip new_key ∧
      Write cfg env s (.insert candidate) s₁ ∧
      Writes cfg env (Change.Settles candidate.val.job_id) s₁ s' ∧
      ∃ row', s'.store.Holds row' out ∧ Continues candidate out := by
  simp only [replayDeadLetter, Tx.bind_ok, contractStep_ok, Tx.lift_ok, time_ok] at h
  obtain ⟨scope', _, ⟨hscope', rfl⟩, _, _, ⟨⟨-, rfl⟩, rfl⟩, r, s₀, hsel, h⟩ := h
  cases r with
  | none => simp only [Tx.raise_ok] at h
  | some row =>
    obtain ⟨hfound, hscope, rfl⟩ := selectOne_some.mp hsel
    simp only [Tx.bind_ok, requireCanonicalRow_ok, decodeStored_ok, checkExpected_ok, Tx.raiseIf_ok,
      Tx.lift_ok, mapError_ok] at h
    obtain ⟨original, _, ⟨hdec, rfl⟩, _, _, ⟨-, rfl⟩, _, _, ⟨-, rfl⟩, _, _, ⟨-, rfl⟩, candidate, _,
      ⟨hcreate, rfl⟩, r, s₀, hrow, h⟩ := h
    cases r with
    | some existing_row =>
      obtain ⟨hfound', -, rfl⟩ := idempotencyRow_some.mp hrow
      simp only [Tx.bind_ok, decodeStored_ok, ensureIdempotent_ok] at h
      obtain ⟨existing, _, ⟨hdec', rfl⟩, -, -, rfl, rfl⟩ := h
      exact .inl ⟨rfl, existing_row, Store.Holds.of_decoded hs hfound' hdec'⟩
    | none =>
      obtain ⟨hnone, rfl⟩ := idempotencyRow_none.mp hrow
      simp only [Tx.bind_ok, contractStep_ok] at h
      obtain ⟨inserted, s₁, hins, queued, _, ⟨hq, rfl⟩, hp⟩ := h
      obtain ⟨hw, hold, hcont, hstate, -⟩ := insert_write hins
      -- The persisted job continues the candidate, and the candidate's row carries both.
      obtain ⟨hcq, hedge, hne, -⟩ := transition_continues hq
      have hback : Continues inserted candidate := ⟨hcont.job_id.symm, hcont.identity.symm,
        hcont.envelope.symm⟩
      obtain ⟨hw', ⟨row', hrow'⟩, hcont', -⟩ := persist_settles hold
        ⟨hback.trans hcq, hstate ▸ hedge, hne, hstate.symm, rfl⟩ hp
      rw [hcont.job_id] at hw'
      obtain ⟨hid', hkey', hsc⟩ := Job.create_text hcreate
      have hpost : scope.postInit = .ok candidate.scope := by
        rw [hscope', hsc]
        simp only [JobScopeFields.postInit, except_bind_ok, identifier_ok, pure, Except.pure,
          Except.ok.injEq] at hscope'
        obtain ⟨_, ⟨rfl, -⟩, _, ⟨rfl, -⟩, _, ⟨rfl, -⟩, rfl⟩ := hscope'
        simp only [strip_strip]
      exact .inr ⟨candidate, s₁, (Job.create_pending hcreate).1, hid', hpost, hnone, hkey', hw, hw',
        row', hrow', hcont.trans hcont'⟩

/-! ## Retention -/

/-- A random suffix is drawn. -/
theorem drawHex_ok {suffix : String} :
    drawHex env s = .ok (suffix, s') ↔ suffix = env.hex s.draws ∧
      s' = { s with draws := s.draws + 1 } := by
  simp only [drawHex, Tx.bind_ok, Tx.get_ok, Tx.set_ok, Tx.pure_ok]
  constructor
  · rintro ⟨_, _, ⟨rfl, rfl⟩, _, _, rfl, rfl, rfl⟩
    exact ⟨rfl, rfl⟩
  · rintro ⟨rfl, rfl⟩
    exact ⟨_, _, ⟨rfl, rfl⟩, (), _, rfl, rfl, rfl⟩

/-- An event that belongs to no version is logged. -/
theorem writeSideEvent_ok {event_id event_type : String} {metadata : Json} {α : Type} {k : QTx α} {x : α} :
    (do
      writeLifecycleEvent j event_id (some j.val.state) event_type metadata
      writeProjectionEvent j event_id event_type metadata
      k) s = .ok (x, s') ↔
      k { s with store := s.store.logged j event_id event_type metadata } = .ok (x, s') := by
  simp only [writeLifecycleEvent, writeProjectionEvent, Tx.bind_ok, Tx.modify_ok]
  constructor
  · rintro ⟨_, _, rfl, _, _, rfl, hk⟩
    exact hk
  · intro hk
    exact ⟨(), _, rfl, (), _, rfl, hk⟩

/-- The id of an event that belongs to no version. -/
def sideEventId (job_id label suffix : String) : String :=
  "job:" ++ job_id ++ label ++ suffix

/-- A change that removes rows. -/
def Change.Prunes : Change → Prop
  | log j event_id _ => ∃ suffix, event_id = sideEventId j.val.job_id ":retention:" suffix
  | draw => True
  | delete _ => True
  | _ => False

/-- A row is deleted if it is in the scope. -/
theorem deleteJobRow_writes (h : deleteJobRow id scope s = .ok (n, s')) :
    Writes cfg env Change.Prunes s s' := by
  simp only [deleteJobRow, Tx.bind_ok, Tx.get_ok] at h
  obtain ⟨_, _, ⟨rfl, rfl⟩, h⟩ := h
  cases hf : (s.store.jobs.find? id).filter fun r => r.inScope scope with
  | none =>
    simp only [hf, Tx.pure_ok] at h
    obtain ⟨-, rfl⟩ := h
    exact .refl
  | some old =>
    simp only [hf, Tx.bind_ok, Tx.set_ok, Tx.pure_ok] at h
    obtain ⟨_, _, rfl, -, rfl⟩ := h
    exact .single (.delete (Option.filter_eq_some_iff.mp hf).1) trivial

/-- `prune_terminal` removes a row. -/
theorem pruneRow_writes (h : pruneRow env scope cutoff row s = .ok (n, s')) :
    Writes cfg env Change.Prunes s s' := by
  simp only [pruneRow, Tx.bind_ok, decodeStored_ok, drawHex_ok] at h
  obtain ⟨j, _, ⟨-, rfl⟩, _, _, ⟨rfl, rfl⟩, h⟩ := h
  have hdelete : Writes cfg env Change.Prunes _ s' :=
    deleteJobRow_writes (writeSideEvent_ok.mp (by simpa only [Tx.bind_ok] using h))
  exact Writes.trans (.single .draw trivial) (Writes.trans (.single .log ⟨_, rfl⟩) hdelete)

/-- `prune_terminal` removes rows. -/
theorem pruneEach_writes {rows : List Row} (h : pruneEach env scope cutoff rows s = .ok (n, s')) :
    Writes cfg env Change.Prunes s s' := by
  induction rows generalizing s n with
  | nil =>
    obtain ⟨-, rfl⟩ := Tx.pure_ok.mp h
    exact .refl
  | cons row rows ih =>
    simp only [pruneEach, Tx.bind_ok, Tx.pure_ok] at h
    obtain ⟨_, _, hrow, _, _, hrest, -, rfl⟩ := h
    exact (pruneRow_writes hrow).trans (ih hrest)

/-- `prune_terminal` only removes rows. -/
theorem pruneTerminal_writes {scope : JobScope} {older_than : ℚ} {limit : ℕ}
    (h : pruneTerminal env scope older_than limit s = .ok (n, s')) :
    Writes cfg env Change.Prunes s s' := by
  simp only [pruneTerminal, Tx.bind_ok, Tx.lift_ok, Tx.raiseIf_ok, selectMany_ok] at h
  obtain ⟨_, _, ⟨-, rfl⟩, _, _, ⟨-, rfl⟩, _, _, ⟨-, rfl⟩, h⟩ := h
  exact pruneEach_writes h

end

end RickIntelligence.Postgres
