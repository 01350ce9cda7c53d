import RickIntelligence.Jobs.Lifecycle
import RickIntelligence.Lib.Run

/-!
# The bounded lifetime of a job

A job takes at most `4 * max_attempts` steps. Its version counts the steps, and its state and the
number of its attempts fix the version while it can still move (`VersionFits`): an attempt costs the
four steps QUEUED, RUNNING, FAILED, and RETRYING, and a job retries only with an attempt left.
-/

namespace RickIntelligence.Jobs.Job

open Lib Relation

/-- One successful lifecycle call on a job. -/
inductive Step : Job → Job → Prop
  | startAttempt {j j' : Job} (worker_id : String) (now : ℚ)
      (h : j.startAttempt worker_id now = .ok j') : Step j j'
  | finishAttempt {j j' : Job} (target : JobState) (now : ℚ) (o : Outcome)
      (h : j.finishAttempt target now o = .ok j') : Step j j'
  | transition {j j' : Job} (target : JobState) (now : ℚ) (o : Outcome)
      (h : j.transition target now o = .ok j') : Step j j'

/-- What one step does to the state, the attempts, and the version. -/
structure Advance (j j' : Job) : Prop where
  edge : canTransition j.val.state j'.val.state = true
  attempts : j'.attemptCount = j.attemptCount + if j'.val.state = .running then 1 else 0
  max_attempts : j'.val.max_attempts = j.val.max_attempts
  version : j'.val.version = j.val.version + 1

variable {j j' : Job} {now : ℚ}

/-- Starting an attempt adds one to the attempts. -/
theorem startAttempt_advance {w : String} (h : j.startAttempt w now = .ok j') : Advance j j' := by
  obtain ⟨hq, -, a, -, hj⟩ := startAttempt_ok.mp h
  constructor
  · rw [hj, hq]; rfl
  · rw [attemptCount, hj]
    simp [started, attemptCount]
  · rw [hj]; rfl
  · rw [hj]; rfl

/-- Finishing an attempt keeps the number of attempts. -/
theorem finishAttempt_advance {target : JobState} {o : Outcome} (h : j.finishAttempt target now o = .ok j') :
    Advance j j' := by
  obtain ⟨current, a, hf, -, hj⟩ := finishAttempt_ok.mp h
  have hmem := hf.target_mem
  simp only [finishStates, List.mem_cons, List.not_mem_nil, or_false] at hmem
  have hne : target ≠ .running := by rcases hmem with rfl | rfl | rfl <;> decide
  have hlen : j.val.attempts.length = j.val.attempts.dropLast.length + 1 := by
    conv_lhs => rw [JobFields.attempts_eq_of_last hf.last]
    rw [List.length_append, List.length_singleton]
  constructor
  · rw [hj, hf.running]
    rcases hmem with rfl | rfl | rfl <;> rfl
  · rw [attemptCount, hj]
    simp only [finished, attemptCount, hne, if_false, List.length_append, List.length_singleton]
    omega
  · rw [hj]; rfl
  · rw [hj]; rfl

/-- A transition keeps the number of attempts. -/
theorem transition_advance {target : JobState} {o : Outcome} (h : j.transition target now o = .ok j') :
    Advance j j' := by
  obtain ⟨hedge, hne, h⟩ := transition_ok.mp h
  split at h
  · exact finishAttempt_advance h
  · obtain ⟨-, hj⟩ := move_ok.mp h
    constructor
    · rw [hj]; exact hedge
    · rw [attemptCount, hj]
      simp [moved, attemptCount, hne]
    · rw [hj]; rfl
    · rw [hj]; rfl

/-- Every step advances the job. -/
theorem Step.advance (h : Step j j') : Advance j j' := by
  cases h with
  | startAttempt _ _ h => exact startAttempt_advance h
  | finishAttempt _ _ _ h => exact finishAttempt_advance h
  | transition _ _ _ h => exact transition_advance h

/-- The version that a state and a number of attempts allow. -/
def VersionFits (state : JobState) (attempts max_attempts version : ℕ) : Prop :=
  match state with
  | .pending => version = 1 ∧ attempts = 0
  | .queued => version = 4 * attempts + 2 ∧ attempts < max_attempts
  | .running => version + 1 = 4 * attempts
  | .failed => version = 4 * attempts
  | .retrying => version = 4 * attempts + 1 ∧ attempts < max_attempts
  | .succeeded => version = 4 * attempts
  | .cancelled => version ≤ 4 * max_attempts + 1
  | .deadLetter => version ≤ 4 * max_attempts + 1

/-- The version of a job fits its state and its attempts. -/
def Fits (j : Job) : Prop :=
  VersionFits j.val.state j.attemptCount j.val.max_attempts j.val.version

/-- A job has no more attempts than it may have. -/
theorem attemptCount_le (j : Job) : j.attemptCount ≤ j.val.max_attempts :=
  j.consistent.history.length_le

/-- A retrying job has an attempt left. -/
theorem retrying_lt (h : j.val.state = .retrying) :
    j.attemptCount < j.val.max_attempts := by
  have hs := j.consistent.shape
  simp only [JobFields.Shape, h] at hs
  obtain ⟨last, f, -, -, hf⟩ := hs
  exact (hf.retryable h).2

/-- Along every edge of the table a version that fits gives one that fits. -/
theorem VersionFits.next {s t : JobState} {k l m v : ℕ} (h : VersionFits s k m v)
    (hedge : canTransition s t = true) (hl : l = k + if t = .running then 1 else 0) (hpos : 0 < m)
    (hle : l ≤ m) (hleft : t = .queued ∨ t = .retrying → l < m) : VersionFits t l m (v + 1) := by
  -- One case for each edge of the table; the other pairs of states are refused by it.
  cases s <;> cases t <;>
    first
    | exact absurd hedge (by decide)
    | (simp only [VersionFits, reduceCtorEq, if_true, if_false, or_true, true_or,
        forall_const] at h hl hleft ⊢
       omega)

/-- One step keeps the version fitting. -/
theorem Advance.fits (h : Advance j j') (hj : j.Fits) : j'.Fits := by
  unfold Fits at hj ⊢
  rw [h.version]
  rw [← h.max_attempts] at hj
  refine hj.next h.edge h.attempts j'.consistent.history.max_pos j'.attemptCount_le ?_
  rintro (hq | hr)
  · exact (queued_shape hq).1
  · exact retrying_lt hr

/-- A version that fits is within the bound. -/
theorem Fits.version_le (h : j.Fits) : j.val.version ≤ 4 * j.val.max_attempts + 1 := by
  have hle := j.attemptCount_le
  unfold Fits VersionFits at h
  split at h <;> omega

/-- A created job fits. -/
theorem create_fits {r : Request} (h : create r now = .ok j) : j.Fits := by
  obtain ⟨hs, ha, hv, -⟩ := create_pending h
  rw [Fits, hs, attemptCount, ha, hv]
  exact ⟨rfl, rfl⟩

/-! ## Jobs without a further step -/

/-- A cancelled job has no attempt, or one that failed. -/
theorem exists_cancel (hedge : canTransition j.val.state .cancelled = true) (hne : j.val.state ≠ .running)
    (hlast : ∀ last, j.val.lastAttempt = some last → last.val.state = .failed) :
    ∃ j', Step j j' := by
  have hmoves : j.Moves .cancelled j.val.updated_at {} := by
    refine ⟨(moveChecks_plain (by decide) (by decide)).mpr ⟨rfl, rfl⟩, le_rfl, ?_, nofun⟩
    intro f hf
    exact (j.consistent.lifetime.failure f (by simpa [observedFailure] using hf)).2
  obtain ⟨j', hj'⟩ := move_total hmoves rfl nofun (by simp [moved, failureStates])
    ⟨rfl, by simp [moved, failureStates], fun last hl => .inl (hlast last hl)⟩
  exact ⟨j', .transition .cancelled j.val.updated_at {}
    (transition_ok.mpr ⟨hedge, by decide, by rw [if_neg hne]; exact hj'⟩)⟩

/-- A running job can be cancelled. -/
theorem exists_finish (h : j.val.state = .running) : ∃ j', Step j j' := by
  obtain ⟨last, hl, ha⟩ := running_last h
  have hstart := (j.consistent.lifetime.started last (JobFields.mem_of_last hl)).2
  have hfin : j.Finishes .cancelled j.val.updated_at {} last :=
    ⟨h, hl, ha, by decide, le_rfl, by simp [finishChecks],
      by simp [completionChecks, hstart], by simp, by simp⟩
  obtain ⟨j', hj'⟩ := finishAttempt_total hfin (by simp) (by simp) (by simp)
  exact ⟨j', .finishAttempt .cancelled j.val.updated_at {} hj'⟩

/-- A failed job can be given up. -/
theorem exists_deadLetter (h : j.val.state = .failed) : ∃ j', Step j j' := by
  have hs := j.consistent.shape
  simp only [JobFields.Shape, h] at hs
  obtain ⟨last, f, hl, hf, hshape⟩ := hs
  have hobs : j.observedFailure none = some f := by simpa [observedFailure] using hf
  have hwithin := j.consistent.lifetime.failure f hf
  have hnum := j.consistent.history.number_of_last hl
  have hmoved : (j.moved .deadLetter {} j.val.updated_at j.val.available_at).failure = some f := by
    simpa [moved, failureStates] using hobs
  have hdead : JobState.deadLetter ≠ .retrying := by decide
  have hunset : ∀ {p : ℚ → Prop} (t : ℚ), (none : Option ℚ) = some t → p t := by
    intro p t ht
    cases ht
  have hmoves : j.Moves .deadLetter j.val.updated_at {} := by
    refine ⟨(moveChecks_failing (by decide)).mpr ⟨rfl, f, hobs, ?_, ?_⟩, le_rfl, ?_, hunset⟩
    · rw [hshape.attempt_eq, hnum, attemptCount]
    · exact fun heq => absurd heq hdead
    · intro g hg
      obtain rfl := Option.some.inj (hobs.symm.trans hg)
      exact hwithin.2
  obtain ⟨j', hj'⟩ := move_total hmoves rfl hunset
    (fun g hg => by
      obtain rfl := Option.some.inj (hmoved.symm.trans hg)
      exact hwithin.1)
    ⟨last, f, hl, hmoved, ⟨hshape.last_failed, hshape.attempt_eq, hshape.last_failure,
      hshape.started_le, hshape.le_finished, rfl, fun heq => absurd heq hdead⟩⟩
  exact ⟨j', .transition .deadLetter j.val.updated_at {}
    (transition_ok.mpr ⟨by rw [h]; rfl, by decide, by rw [if_neg (by rw [h]; decide)]; exact hj'⟩)⟩

/-- A job has a further step exactly when its state is not terminal. -/
theorem exists_step_iff : (∃ j', Step j j') ↔ j.val.state.terminal = false := by
  constructor
  · rintro ⟨j', hstep⟩
    by_contra hterm
    have := (terminal_iff j.val.state).mp (by simpa using hterm) j'.val.state
    rw [hstep.advance.edge] at this
    cases this
  · intro h
    have hs := j.consistent.shape
    cases hst : j.val.state with
    | pending =>
      simp only [JobFields.Shape, hst] at hs
      exact exists_cancel (by rw [hst]; rfl) (by rw [hst]; decide)
        (by simp [JobFields.lastAttempt, hs.1])
    | queued =>
      simp only [JobFields.Shape, hst] at hs
      exact exists_cancel (by rw [hst]; rfl) (by rw [hst]; decide) fun last hl =>
        (hs.2.2 last hl).1
    | retrying =>
      simp only [JobFields.Shape, hst] at hs
      obtain ⟨last, f, hl, -, hshape⟩ := hs
      refine exists_cancel (by rw [hst]; rfl) (by rw [hst]; decide) fun last' hl' => ?_
      obtain rfl := Option.some.inj (hl.symm.trans hl')
      exact hshape.last_failed
    | running => exact exists_finish hst
    | failed => exact exists_deadLetter hst
    | succeeded | cancelled | deadLetter => rw [hst] at h; exact absurd h (by decide)

/-! ## The bound -/

/-- A step keeps the number of attempts that a job may have, and the fit of its version. -/
theorem Step.keeps {m : ℕ} (j j' : Job) (h : j.val.max_attempts = m ∧ j.Fits) (hstep : Step j j') :
    j'.val.max_attempts = m ∧ j'.Fits :=
  ⟨hstep.advance.max_attempts.trans h.1, hstep.advance.fits h.2⟩

/-- Every job that lifecycle steps make of a created one has a version of at most
`4 * max_attempts + 1` and at most `max_attempts` attempts. Its steps are bounded in number, no run
of them is infinite, and every job that they reach can be brought to one in a terminal state, which
are exactly those without a further step. -/
theorem create_lifetime_bounded (r : Request) (now : ℚ) (j₀ : Job) (h₀ : create r now = .ok j₀) :
    (1 ≤ j₀.val.max_attempts ∧ j₀.val.max_attempts ≤ 64) ∧
    (∀ (n : ℕ) (j : Job), Path Step n j₀ j → j.val.max_attempts = j₀.val.max_attempts ∧
      j.val.version ≤ 4 * j.val.max_attempts + 1 ∧ j.attemptCount ≤ j.val.max_attempts ∧
      n ≤ 4 * j.val.max_attempts ∧
      ∃ j', ReflTransGen Step j j' ∧ j'.val.state.terminal = true ∧ ∀ k, ¬ Step j' k) ∧
    ∀ f : ℕ → Job, f 0 = j₀ → ¬ ∀ n, Step (f n) (f (n + 1)) := by
  have hinit : j₀.val.max_attempts = j₀.val.max_attempts ∧ j₀.Fits := ⟨rfl, create_fits h₀⟩
  have hrank : ∀ j j' : Job, j.val.max_attempts = j₀.val.max_attempts ∧ j.Fits → Step j j' →
      j.val.version < j'.val.version := fun j j' _ hstep => by
    rw [hstep.advance.version]
    exact Nat.lt_succ_self _
  have hbound : ∀ j : Job, j.val.max_attempts = j₀.val.max_attempts ∧ j.Fits →
      j.val.version ≤ 4 * j₀.val.max_attempts + 1 := fun j h => h.1 ▸ h.2.version_le
  have hhist := j₀.consistent.history
  refine ⟨⟨hhist.max_pos, hhist.max_le⟩, fun n j hpath => ?_, ?_⟩
  · obtain ⟨hmax, hfits⟩ := run_invariant Step.keeps hinit hpath.run
    have hlen := hpath.rank_add_le Step.keeps hrank hinit
    have hpos := j₀.consistent.lifetime.version_pos
    have hle := hfits.version_le
    obtain ⟨j', hrun, hstuck⟩ := exists_stuck Step.keeps hrank hbound ⟨hmax, hfits⟩
    refine ⟨hmax, hle, j.attemptCount_le, by omega, j', hrun, ?_, hstuck⟩
    by_contra hterm
    obtain ⟨k, hk⟩ := exists_step_iff.mpr (by simpa using hterm)
    exact hstuck k hk
  · rintro f rfl
    exact no_infinite_run Step.keeps hrank hbound f hinit

/-- A request with one field in its payload. -/
def sampleRequest : Request :=
  { job_id := "job-1", tenant_id := "tenant-1", workspace_id := "workspace-1",
    collection_id := "collection-1", operation := "document.ingest",
    idempotency_key := "request-1", payload := [("document_id", "doc-1")] }

/-- The bound of a job with three attempts. -/
theorem sampleRequest_lifetime_bounded : ∃ j₀, create sampleRequest 1000 = .ok j₀ ∧
    ∀ (n : ℕ) (j : Job), Path Step n j₀ j → j.val.version ≤ 13 ∧ n ≤ 12 := by
  have hok : (create sampleRequest 1000).toOption.isSome = true := by decide +kernel
  cases h : create sampleRequest 1000 with
  | error e => rw [h] at hok; cases hok
  | ok j₀ =>
    have hmax : j₀.val.max_attempts = 3 := (create_pending h).2.2.2
    refine ⟨j₀, rfl, fun n j hpath => ?_⟩
    obtain ⟨hm, hv, -, hn, -⟩ := (create_lifetime_bounded sampleRequest 1000 j₀ h).2.1 n j hpath
    rw [hm, hmax] at hv hn
    exact ⟨hv, hn⟩

end RickIntelligence.Jobs.Job
