import RickIntelligence.Jobs.Lifecycle

/-!
# No job is stuck

Every job that can still move has a step that returns, at any time that does not go back: each state of
the transition table is left by the calls that the table offers, and a retry is refused exactly when no
attempt or no retryable failure is left. What a step asks for beyond its arguments is established from
what the constructor of the job before it accepted.
-/

namespace RickIntelligence.Jobs.Job

open Lib

/-- A call returns a job in the given state, which the constructor accepts as it is. -/
def Reaches (x : Except ContractError Job) (s : JobState) : Prop :=
  ∃ j, x = .ok j ∧ j.val.state = s ∧ j.val.postInit = .ok j.val

/-- The identifier of a worker. -/
def ValidWorker (w : String) : Prop := ∃ v, identifier "attempt.worker_id" w = .ok v

/-- A job leaves its state with the calls that the transition table offers. -/
structure Progresses (j : Job) : Prop where
  pending : j.val.state = .pending → ∀ now, j.val.updated_at ≤ now →
    Reaches (j.transition .queued now {}) .queued
  queued : j.val.state = .queued → ∀ w now, ValidWorker w → j.val.updated_at ≤ now →
    Reaches (j.startAttempt w now) .running
  cancelled : j.val.state = .running → ∀ now, j.val.updated_at ≤ now →
    Reaches (j.finishAttempt .cancelled now {}) .cancelled
  succeeded : j.val.state = .running → ∀ now, j.val.updated_at ≤ now →
    ∀ r : JobResult, r.val.completed_at = now →
      Reaches (j.finishAttempt .succeeded now { result := some r }) .succeeded
  failed : j.val.state = .running → ∀ now, j.val.updated_at ≤ now →
    ∀ f : JobFailure, f.val.attempt = j.attemptCount → f.val.occurred_at = now →
      Reaches (j.finishAttempt .failed now { failure := some f }) .failed
  deadLetter : j.val.state = .failed → ∀ now, j.val.updated_at ≤ now →
    Reaches (j.transition .deadLetter now {}) .deadLetter
  retrying : j.val.state = .failed → ∀ now, j.val.updated_at ≤ now →
    (Reaches (j.transition .retrying now {}) .retrying ↔ j.retryEligible = true) ∧
      ((∃ j', j.transition .retrying now {} = .ok j') ↔ j.retryEligible = true)
  requeued : j.val.state = .retrying → ∀ now, j.val.updated_at ≤ now →
    Reaches (j.transition .queued now {}) .queued

variable {j : Job} {now : ℚ}

/-- Nothing is asked of a value that is absent. -/
theorem forall_of_none {α : Type} {o : Option α} (h : o = none) {P : α → Prop} :
    ∀ a, o = some a → P a := by
  intro a ha
  rw [h] at ha
  cases ha

/-! ## Moves -/

/-- A move that returns gives a job in its target. -/
theorem reaches_move {target : JobState} (hrunning : j.val.state ≠ .running)
    (hedge : canTransition j.val.state target = true) (htarget : target ≠ .running)
    (h : ∃ j', j.move target now {} = .ok j') : Reaches (j.transition target now {}) target := by
  obtain ⟨j', hj'⟩ := h
  refine ⟨j', ?_, ?_, j'.accepted⟩
  · rw [transition_ok, if_neg hrunning]
    exact ⟨hedge, htarget, hj'⟩
  · rw [(move_ok.mp hj').2]
    rfl

/-- A pending job can be queued. -/
theorem pending_reaches (h : j.val.state = .pending) (hnow : j.val.updated_at ≤ now) :
    Reaches (j.transition .queued now {}) .queued := by
  have hshape := j.consistent.shape
  simp only [JobFields.Shape, h] at hshape
  obtain ⟨hattempts, -, hfailure⟩ := hshape
  have hnone : j.observedFailure none = none := hfailure
  have hmoves : j.Moves .queued now {} := by
    refine ⟨(moveChecks_plain (by decide) (by decide)).mpr ⟨rfl, rfl⟩, hnow, ?_, forall_of_none rfl⟩
    intro f hf
    cases hnone.symm.trans hf
  apply reaches_move (by rw [h]; decide) (by rw [h]; decide) (by decide)
  refine move_total hmoves rfl (forall_of_none rfl) (forall_of_none rfl) ⟨rfl, rfl, ?_⟩
  intro last hlast
  have hlast : j.val.attempts.getLast? = some last := hlast
  rw [hattempts] at hlast
  cases hlast

/-- The failure of a failed or retrying job is that of its last attempt. -/
theorem failure_shape (h : j.val.state = .failed ∨ j.val.state = .retrying) :
    ∃ last f, j.val.lastAttempt = some last ∧ j.val.failure = some f ∧ j.val.FailedShape last f := by
  have hshape := j.consistent.shape
  rcases h with h | h
  · simp only [JobFields.Shape, h] at hshape
    exact hshape
  · simp only [JobFields.Shape, h] at hshape
    exact hshape

/-- A failed job moves on with its own failure, to a retry only if one is left. -/
theorem failed_moves {target : JobState} (h : j.val.state = .failed) (hnow : j.val.updated_at ≤ now)
    (htarget : target = .deadLetter ∨ target = .retrying)
    (hretry : target = .retrying → j.retryEligible = true) : ∃ j', j.move target now {} = .ok j' := by
  obtain ⟨last, f, hlast, hfailure, hshape⟩ := failure_shape (.inl h)
  have hmem : target ∈ failureStates := by
    rcases htarget with rfl | rfl <;> decide
  have hobserved : j.observedFailure none = some f := hfailure
  have hwithin : j.val.Within f.val.occurred_at := j.consistent.lifetime.failure f hfailure
  -- What eligibility says of the failure and of the attempts.
  have hleft : target = .retrying → f.val.retryable = true ∧ j.attemptCount < j.val.max_attempts := by
    intro htarget
    have heligible := hretry htarget
    unfold retryEligible at heligible
    rw [hfailure] at heligible
    simp only [Bool.and_eq_true, decide_eq_true_eq, Option.any_some] at heligible
    exact ⟨heligible.2, heligible.1.1⟩
  have hnumber : f.val.attempt = j.attemptCount :=
    hshape.attempt_eq.trans (j.consistent.history.number_of_last hlast)
  have hmoves : j.Moves target now {} := by
    refine ⟨(moveChecks_failing hmem).mpr ⟨rfl, f, hobserved, hnumber, hleft⟩, hnow, ?_,
      forall_of_none rfl⟩
    intro g hg
    cases hobserved.symm.trans hg
    exact le_trans hwithin.2 hnow
  have hmoved : (j.moved target {} now j.val.available_at).failure = some f := by
    show (if failureStates.contains target then j.observedFailure none else none) = some f
    rw [if_pos (List.contains_iff_mem.mpr hmem), hobserved]
  have hfailed : (j.moved target {} now j.val.available_at).FailedShape last f := by
    refine ⟨hshape.last_failed, hshape.attempt_eq, hshape.last_failure, hshape.started_le, ?_, rfl, hleft⟩
    -- The last attempt is finished, so its end does not depend on the time of the job.
    obtain ⟨t, ht⟩ := Option.isSome_iff_exists.mp
      ((JobAttempt.ok last).finished_closed (by rw [hshape.last_failed]; decide))
    have hle := hshape.le_finished
    unfold JobFields.latestAttemptTime at hle ⊢
    rw [ht] at hle ⊢
    exact hle
  refine move_total hmoves rfl (forall_of_none rfl) ?_ ?_
  · intro g hg
    cases hmoved.symm.trans hg
    exact hwithin.1
  · rcases htarget with rfl | rfl
    · exact ⟨last, f, hlast, hmoved, hfailed⟩
    · exact ⟨last, f, hlast, hmoved, hfailed⟩

/-- A failed job can be given up. -/
theorem failed_reaches_deadLetter (h : j.val.state = .failed) (hnow : j.val.updated_at ≤ now) :
    Reaches (j.transition .deadLetter now {}) .deadLetter :=
  reaches_move (by rw [h]; decide) (by rw [h]; decide) (by decide)
    (failed_moves h hnow (.inl rfl) nofun)

/-- A failed job can be retried if it is eligible. -/
theorem failed_reaches_retrying (h : j.val.state = .failed) (hnow : j.val.updated_at ≤ now)
    (heligible : j.retryEligible = true) : Reaches (j.transition .retrying now {}) .retrying :=
  reaches_move (by rw [h]; decide) (by rw [h]; decide) (by decide)
    (failed_moves h hnow (.inr rfl) fun _ => heligible)

/-- A failed job that is retried was eligible. -/
theorem retryEligible_of_transition {j' : Job} (h : j.val.state = .failed)
    (hj' : j.transition .retrying now {} = .ok j') : j.retryEligible = true := by
  obtain ⟨-, -, hmove⟩ := transition_ok.mp hj'
  rw [if_neg (by rw [h]; decide)] at hmove
  have hchecks := (move_ok.mp hmove).1.checks
  obtain ⟨-, f, hobserved, -, hleft⟩ := (moveChecks_failing (by decide)).mp hchecks
  have hfailure : j.val.failure = some f := hobserved
  obtain ⟨hretryable, hattempt⟩ := hleft rfl
  unfold retryEligible
  rw [hfailure, h, decide_eq_true hattempt, Option.any_some, hretryable]
  rfl

/-- A retrying job can be queued again. -/
theorem retrying_reaches (h : j.val.state = .retrying) (hnow : j.val.updated_at ≤ now) :
    Reaches (j.transition .queued now {}) .queued := by
  obtain ⟨last, f, hlast, hfailure, hshape⟩ := failure_shape (.inr h)
  have hwithin : j.val.Within f.val.occurred_at := j.consistent.lifetime.failure f hfailure
  have hmoves : j.Moves .queued now {} := by
    refine ⟨(moveChecks_plain (by decide) (by decide)).mpr ⟨rfl, rfl⟩, hnow, ?_,
      forall_of_none rfl⟩
    intro g hg
    have hg : j.val.failure = some g := hg
    cases hfailure.symm.trans hg
    exact le_trans hwithin.2 hnow
  apply reaches_move (by rw [h]; decide) (by rw [h]; decide) (by decide)
  refine move_total hmoves rfl (forall_of_none rfl) (forall_of_none rfl) ⟨rfl, rfl, ?_⟩
  intro last' hlast'
  have hlast' : j.val.lastAttempt = some last' := hlast'
  cases hlast.symm.trans hlast'
  obtain ⟨hretryable, hleft⟩ := hshape.retryable h
  exact ⟨hshape.last_failed, ⟨f, hshape.last_failure, hretryable⟩, hleft⟩

/-! ## Attempts -/

/-- A queued job can be started by every worker. -/
theorem queued_reaches {w : String} (h : j.val.state = .queued) (hw : ValidWorker w)
    (hnow : j.val.updated_at ≤ now) : Reaches (j.startAttempt w now) .running := by
  obtain ⟨v, hv⟩ := hw
  obtain ⟨rfl, hpattern⟩ := identifier_ok.mp hv
  have hcount : j.attemptCount < j.val.max_attempts := (queued_shape h).1
  have hbound : j.val.max_attempts ≤ maxAttempts := j.consistent.history.max_le
  have hok : JobAttemptFields.Ok { j.openedAttempt w now with worker_id := strip w } :=
    { one_le_number := Nat.le_add_left 1 j.attemptCount
      number_le := by
        show j.attemptCount + 1 ≤ maxAttempts
        omega
      worker_ok := hpattern
      worker_stripped := strip_strip w
      lifecycle := by
        show JobState.running ∈ JobAttemptFields.lifecycleStates
        decide
      started_nonneg := le_trans j.updated_nonneg hnow
      started_le := nofun
      running_open := fun _ => ⟨rfl, rfl⟩
      finished_closed := fun hne => absurd rfl hne
      failed_failure := nofun
      no_failure := fun _ => rfl }
  let a : JobAttempt := ⟨{ j.openedAttempt w now with worker_id := strip w },
    JobAttemptFields.postInit_ok.mpr ⟨by rw [strip_strip], hok⟩⟩
  have hclean : (j.started a now).Clean := { j.clean with }
  let j' : Job := ⟨j.started a now,
    (JobFields.postInit_clean hclean).mpr ⟨rfl, started_consistent (w := w) h hnow rfl⟩⟩
  exact ⟨j', startAttempt_ok.mpr ⟨h, hnow, a, rfl, rfl⟩, rfl, j'.accepted⟩

/-- The active attempt of a running job started by now. -/
theorem running_started {last : JobAttempt} (hlast : j.val.lastAttempt = some last)
    (hnow : j.val.updated_at ≤ now) : last.val.started_at ≤ now := by
  have hwithin := j.consistent.lifetime.started last (JobFields.mem_of_last hlast)
  exact le_trans hwithin.2 hnow

/-- An attempt that ends now finishes if what it ends with passes the checks of its target. -/
theorem reaches_finish {target : JobState} {o : Outcome} (h : j.val.state = .running)
    (hnow : j.val.updated_at ≤ now) (hmem : target ∈ finishStates) (hend : o.finished_at = none)
    (havailable : o.available_at = none)
    (hout : ∀ last : JobAttempt, last.val.number = j.attemptCount →
      ∀ c ∈ finishChecks last target o now, c.1 = false)
    (hresult : ∀ r, o.result = some r → r.val.completed_at = now)
    (hfailure : ∀ f, o.failure = some f → f.val.occurred_at = now) :
    Reaches (j.finishAttempt target now o) target := by
  obtain ⟨last, hlast, hactive⟩ := running_last h
  have hstarted : last.val.started_at ≤ now := running_started hlast hnow
  have hfinishes : j.Finishes target now o last := by
    refine ⟨h, hlast, hactive, hmem, hnow, hout last (j.consistent.history.number_of_last hlast), ?_, ?_, ?_⟩
    · rw [hend]
      simp [completionChecks, hend, hstarted]
    · rw [hend]
      exact forall_of_none rfl
    · exact forall_of_none havailable
  have htotal : ∃ j', j.finishAttempt target now o = .ok j' := by
    apply finishAttempt_total hfinishes
    · intro f hf
      rw [hfailure f hf, hend]
      exact ⟨hstarted, le_refl now⟩
    · intro r hr
      rw [hresult r hr]
      exact hstarted
    · exact forall_of_none havailable
  obtain ⟨j', hj'⟩ := htotal
  obtain ⟨current, a, -, -, hval⟩ := finishAttempt_ok.mp hj'
  refine ⟨j', hj', ?_, j'.accepted⟩
  rw [hval]
  rfl

/-- The steps of every job return. -/
theorem never_stuck (j : Job) : j.Progresses where
  pending h _ hnow := pending_reaches h hnow
  queued h _ _ hw hnow := queued_reaches h hw hnow
  cancelled h now hnow := by
    apply reaches_finish h hnow (by decide) rfl rfl ?_ (forall_of_none rfl) (forall_of_none rfl)
    intro last _
    simp [finishChecks]
  succeeded h now hnow r hr := by
    apply reaches_finish h hnow (by decide) rfl rfl ?_ ?_ (forall_of_none rfl)
    · intro last _
      simp [finishChecks, hr]
    · intro r' hr'
      cases hr'
      exact hr
  failed h now hnow f hattempt hf := by
    apply reaches_finish h hnow (by decide) rfl rfl ?_ (forall_of_none rfl) ?_
    · intro last hnumber
      have hsame : f.val.attempt = last.val.number := hattempt.trans hnumber.symm
      simp [finishChecks, hsame, hf]
    · intro f' hf'
      cases hf'
      exact hf
  deadLetter h _ hnow := failed_reaches_deadLetter h hnow
  retrying h now hnow := by
    constructor
    · constructor
      · rintro ⟨j', hj', -⟩
        exact retryEligible_of_transition h hj'
      · exact failed_reaches_retrying h hnow
    · constructor
      · rintro ⟨j', hj'⟩
        exact retryEligible_of_transition h hj'
      · intro heligible
        obtain ⟨j', hj', -⟩ := failed_reaches_retrying h hnow heligible
        exact ⟨j', hj'⟩
  requeued h _ hnow := retrying_reaches h hnow

end RickIntelligence.Jobs.Job
