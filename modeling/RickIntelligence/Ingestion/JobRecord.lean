import RickIntelligence.Knowledge.Receipts

/-!
# The record of an ingestion job

`IngestionJob` of `rick_ingestion/jobs.py`: its status, its attempts, its times and its heartbeats, over
any sequence of calls with a clock that does not go back. The record is reused by the attempts of one
job. `jobs_wellformed` says what holds of it after any such sequence, and which part of that holds only
until the job is queued again: `transition` never clears the finish, and `begin_publication` of
`rick_knowledge/publication.py` does not take a job that has one.
-/

namespace RickIntelligence.Ingestion

open Lib Knowledge

/-! ## Statuses -/

/-- The statuses of an ingestion job. -/
inductive JobStage where
  | queued
  | validating
  | parsing
  | chunking
  | embedding
  | indexing
  | verifying
  | published
  | failed
  | cancelled
  deriving DecidableEq, Repr

namespace JobStage

/-- The text of a status. -/
def text : JobStage → String
  | queued => "queued"
  | validating => "validating"
  | parsing => "parsing"
  | chunking => "chunking"
  | embedding => "embedding"
  | indexing => "indexing"
  | verifying => "verifying"
  | published => "published"
  | failed => "failed"
  | cancelled => "cancelled"

/-- `TERMINAL_STATES`. -/
def terminalStates : List JobStage := [published, failed, cancelled]

/-- `_ALLOWED_TRANSITIONS`. -/
def allowedTransitions : JobStage → List JobStage
  | queued => [validating, cancelled, failed]
  | validating => [parsing, failed, cancelled]
  | parsing => [chunking, failed, cancelled]
  | chunking => [embedding, failed, cancelled]
  | embedding => [indexing, failed, cancelled]
  | indexing => [verifying, failed, cancelled]
  | verifying => [published, failed, cancelled]
  | published => []
  | failed => [queued]
  | cancelled => [queued]

/-- Only a failed or a cancelled job is queued again. -/
theorem queued_allowed {stage : JobStage} (h : queued ∈ stage.allowedTransitions) :
    stage = failed ∨ stage = cancelled := by
  cases stage <;> simp [allowedTransitions] at h ⊢

end JobStage

/-! ## Progress -/

/-- A `float` that a caller gives for the progress. -/
inductive Number where
  | finite (q : ℚ)
  | posInf
  | negInf
  | nan
  deriving DecidableEq, Repr

namespace Number

/-- `a < b`, which a NaN is never part of. -/
def lt : Number → Number → Bool
  | finite a, finite b => decide (a < b)
  | negInf, finite _ | negInf, posInf | finite _, posInf => true
  | _, _ => false

/-- `min(1.0, max(0.0, progress))`. Either takes its second argument only if the comparison holds. -/
def clamp (progress : Number) : Number :=
  let lower := if (finite 0).lt progress then progress else finite 0
  if lower.lt (finite 1) then lower else finite 1

/-- The number is between 0 and 1. -/
def Fraction (n : Number) : Prop := ∃ q : ℚ, n = finite q ∧ 0 ≤ q ∧ q ≤ 1

/-- Whatever the number is, it is brought between 0 and 1. -/
theorem clamp_fraction (progress : Number) : progress.clamp.Fraction := by
  unfold clamp
  cases progress with
  | finite q =>
    by_cases hzero : 0 < q
    · by_cases hone : q < 1
      · exact ⟨q, by simp [lt, hzero, hone], hzero.le, hone.le⟩
      · exact ⟨1, by simp [lt, hzero, hone], zero_le_one, le_rfl⟩
    · exact ⟨0, by simp [lt, hzero], le_rfl, zero_le_one⟩
  | posInf => exact ⟨1, by simp [lt], zero_le_one, le_rfl⟩
  | negInf => exact ⟨0, by simp [lt], le_rfl, zero_le_one⟩
  | nan => exact ⟨0, by simp [lt], le_rfl, zero_le_one⟩

end Number

/-! ## The record -/

/-- A heartbeat, with the two counters that it may carry. -/
structure Heartbeat where
  moment : ℚ
  stage : JobStage
  pages_done : Option ℤ
  pages_total : Option ℤ
  deriving DecidableEq, Repr

/-- `MAX_HEARTBEATS`. -/
def maxHeartbeats : ℕ := 128

/-- `IngestionJob`. A time is a reading of the clock in seconds. -/
structure IngestionJob where
  tenant_id : String
  workspace_id : String
  collection_id : String
  job_id : String
  document_id : Option String
  status : JobStage
  stage : JobStage
  progress : Number
  attempt : ℕ
  error_code : Option String
  safe_error_message : Option String
  created_at : ℚ
  started_at : Option ℚ
  finished_at : Option ℚ
  cancel_requested : Bool
  heartbeats : List Heartbeat
  metadata : Json.Members

/-- `InvalidTransitionError`. -/
structure InvalidTransition where
  message : String
  deriving DecidableEq, Repr

namespace IngestionJob

/-- A new job, with the defaults of the record. -/
def new (tenant_id workspace_id collection_id job_id : String) (document_id : Option String)
    (created_at : ℚ) (metadata : Json.Members) : IngestionJob where
  tenant_id := tenant_id
  workspace_id := workspace_id
  collection_id := collection_id
  job_id := job_id
  document_id := document_id
  status := .queued
  stage := .queued
  progress := .finite 0
  attempt := 1
  error_code := none
  safe_error_message := none
  created_at := created_at
  started_at := none
  finished_at := none
  cancel_requested := false
  heartbeats := []
  metadata := metadata

/-- The job after a transition that is allowed. The start and the finish are from one reading of the
clock, and neither is cleared. -/
def moved (job : IngestionJob) (to_status : JobStage) (error_code message : Option String)
    (progress : Option Number) (now : ℚ) : IngestionJob :=
  { job with
    attempt := if (job.status == .failed || job.status == .cancelled) && to_status == .queued then
      job.attempt + 1 else job.attempt
    status := to_status
    stage := to_status
    progress := match progress with
      | some p => p.clamp
      | none => job.progress
    finished_at := if JobStage.terminalStates.contains to_status then some now else job.finished_at
    started_at := if job.started_at.isNone && to_status != .queued then some now else job.started_at
    error_code := error_code
    safe_error_message := message }

/-- `transition`. -/
def transition (job : IngestionJob) (to_status : JobStage) (error_code message : Option String)
    (progress : Option Number) (now : ℚ) : Except InvalidTransition IngestionJob :=
  if job.status.allowedTransitions.contains to_status then
    .ok (job.moved to_status error_code message progress now)
  else .error ⟨job.status.text ++ " -> " ++ to_status.text ++ " is not allowed"⟩

/-- The job after its publication was rolled back. -/
def compensated (job : IngestionJob) (error_code message : String) (now : ℚ) : IngestionJob :=
  { job with
    status := .failed
    stage := .failed
    progress := job.progress.clamp
    finished_at := some now
    error_code := some error_code
    safe_error_message := some message }

/-- `compensate_published_failure`. -/
def compensatePublishedFailure (job : IngestionJob) (error_code message : String) (now : ℚ) :
    Except InvalidTransition IngestionJob :=
  if job.status = .published then .ok (job.compensated error_code message now)
  else .error ⟨job.status.text ++ " cannot be compensated"⟩

/-- A counter of a heartbeat: a whole number that is no `bool`, and is in its range. -/
def counter (fields : Json.Members) (key : String) : Option ℤ :=
  match Json.member? key fields with
  | some (.int n) => if 0 ≤ n ∧ n ≤ 10000000 then some n else none
  | _ => none

/-- The entry that a heartbeat appends. -/
def beat (job : IngestionJob) (fields : Json.Members) (now : ℚ) : Heartbeat :=
  ⟨now, job.stage, counter fields "pages_done", counter fields "pages_total"⟩

/-- `del self.heartbeats[: len(self.heartbeats) - MAX_HEARTBEATS]`, if there are too many. -/
def lastBeats (heartbeats : List Heartbeat) : List Heartbeat :=
  heartbeats.drop (heartbeats.length - maxHeartbeats)

/-- `heartbeat`: the entry is appended, and the first ones are dropped. -/
def heartbeat (job : IngestionJob) (fields : Json.Members) (now : ℚ) : IngestionJob :=
  { job with heartbeats := lastBeats (job.heartbeats ++ [job.beat fields now]) }

/-- A heartbeat leaves the status. -/
@[simp]
theorem heartbeat_status (job : IngestionJob) (fields : Json.Members) (now : ℚ) :
    (job.heartbeat fields now).status = job.status := by
  unfold heartbeat
  rfl

/-- What `rick_knowledge/publication.py` reads of the job. -/
def record (job : IngestionJob) : Knowledge.Job where
  job_id := job.job_id
  tenant_id := job.tenant_id
  workspace_id := job.workspace_id
  collection_id := job.collection_id
  document_id := job.document_id
  status := match job.status with
    | .published => .published
    | .failed => .failed
    | .cancelled => .cancelled
    | stage => .other stage.text
  attempt := job.attempt
  created_at := some (.seconds job.created_at)
  started_at := job.started_at.map .seconds
  finished_at := job.finished_at.map .seconds
  cancel_requested := job.cancel_requested
  metadata := job.metadata
  heartbeats := job.heartbeats.map fun h => .obj ([("at", .float h.moment), ("stage", .str h.stage.text)] ++
    (h.pages_done.map fun n => ("pages_done", Json.int n)).toList ++
    (h.pages_total.map fun n => ("pages_total", Json.int n)).toList)

end IngestionJob

/-! ## Runs -/

/-- A call of a method that changes the record. -/
inductive JobCall where
  | transition (to_status : JobStage) (error_code message : Option String) (progress : Option Number)
  | compensatePublishedFailure (error_code message : String)
  | heartbeat (fields : Json.Members)

/-- A call, with its reading of the clock. -/
structure JobEvent where
  now : ℚ
  call : JobCall

namespace JobEvent

/-- The job after a call, or the error that it raises. -/
def apply (e : JobEvent) (job : IngestionJob) : Except InvalidTransition IngestionJob :=
  match e.call with
  | .transition to_status error_code message progress =>
    job.transition to_status error_code message progress e.now
  | .compensatePublishedFailure error_code message =>
    job.compensatePublishedFailure error_code message e.now
  | .heartbeat fields => .ok (job.heartbeat fields e.now)

/-- The call queues the job again. -/
def requeues (e : JobEvent) : Bool :=
  match e.call with
  | .transition to_status _ _ _ => to_status == .queued
  | _ => false

/-- The entry that the call appends to the heartbeats. -/
def beat? (e : JobEvent) (job : IngestionJob) : List Heartbeat :=
  match e.call with
  | .heartbeat fields => [job.beat fields e.now]
  | _ => []

/-- The call takes the status along the table, or back from a publication, or leaves it. -/
def Follows (e : JobEvent) (before after : JobStage) : Prop :=
  match e.call with
  | .transition to_status _ _ _ => after = to_status ∧ to_status ∈ before.allowedTransitions
  | .compensatePublishedFailure _ _ => before = .published ∧ after = .failed
  | .heartbeat _ => after = before

end JobEvent

/-- The job after a sequence of successful calls. -/
def runEvents (job : IngestionJob) : List JobEvent → Except InvalidTransition IngestionJob
  | [] => .ok job
  | e :: events => (e.apply job).bind fun job => runEvents job events

/-- Every heartbeat of a sequence of calls, kept or dropped. -/
def allBeats (job : IngestionJob) : List JobEvent → List Heartbeat
  | [] => []
  | e :: events => e.beat? job ++ match e.apply job with
    | .ok job => allBeats job events
    | .error _ => []

/-- How often a sequence of calls queues the job again. -/
def requeueCount (events : List JobEvent) : ℕ := events.countP JobEvent.requeues

/-- The clock does not go back from the creation of the job on. -/
def ClockForward (job : IngestionJob) (events : List JobEvent) : Prop :=
  (job.created_at :: events.map JobEvent.now).Pairwise (· ≤ ·)

section Runs

variable {start job job' : IngestionJob} {e : JobEvent} {past later : List JobEvent}

/-- A call of a sequence follows those before it. -/
theorem runEvents_append (start : IngestionJob) (past later : List JobEvent) :
    runEvents start (past ++ later) = (runEvents start past).bind fun job => runEvents job later := by
  induction past generalizing start with
  | nil => rfl
  | cons e past ih =>
    show (e.apply start).bind _ = ((e.apply start).bind _).bind _
    cases e.apply start with
    | error x => rfl
    | ok job => exact ih job

/-- A sequence ends where its last call does. -/
theorem runEvents_snoc (h : runEvents start (past ++ [e]) = .ok job') :
    ∃ job, runEvents start past = .ok job ∧ e.apply job = .ok job' := by
  rw [runEvents_append] at h
  cases hpast : runEvents start past with
  | error x =>
    rw [hpast] at h
    cases h
  | ok job =>
    rw [hpast] at h
    refine ⟨job, rfl, ?_⟩
    have hlast : (e.apply job).bind .ok = .ok job' := h
    cases happly : e.apply job with
    | error x =>
      rw [happly] at hlast
      cases hlast
    | ok last =>
      rw [happly] at hlast
      exact hlast

/-- The last call of a sequence appends its heartbeat to those before it. -/
theorem allBeats_snoc (h : runEvents start past = .ok job) :
    allBeats start (past ++ [e]) = allBeats start past ++ e.beat? job := by
  induction past generalizing start with
  | nil =>
    cases h
    show e.beat? job ++ (match e.apply job with | .ok next => allBeats next [] | .error _ => []) = _
    cases e.apply job <;> simp [allBeats]
  | cons first past ih =>
    have hrun : (first.apply start).bind (fun job => runEvents job past) = .ok job := h
    cases hfirst : first.apply start with
    | error x =>
      rw [hfirst] at hrun
      cases hrun
    | ok next =>
      rw [hfirst] at hrun
      have hnext := ih hrun
      show first.beat? start ++ _ = (first.beat? start ++ _) ++ _
      rw [hfirst, List.append_assoc]
      exact congrArg _ hnext

/-- **What a successful call does.** -/
theorem JobEvent.apply_ok (h : e.apply job = .ok job') :
    (∃ to_status error_code message progress,
      e.call = .transition to_status error_code message progress ∧
      to_status ∈ job.status.allowedTransitions ∧
      job' = job.moved to_status error_code message progress e.now) ∨
    (∃ error_code message, e.call = .compensatePublishedFailure error_code message ∧
      job.status = .published ∧ job' = job.compensated error_code message e.now) ∨
    ∃ fields, e.call = .heartbeat fields ∧ job' = job.heartbeat fields e.now := by
  unfold JobEvent.apply at h
  cases hcall : e.call with
  | transition to_status error_code message progress =>
    simp only [hcall, IngestionJob.transition] at h
    split at h
    · next hallowed =>
      exact .inl ⟨to_status, error_code, message, progress, rfl, by simpa using hallowed,
        (Except.ok.inj h).symm⟩
    · cases h
  | compensatePublishedFailure error_code message =>
    simp only [hcall, IngestionJob.compensatePublishedFailure] at h
    split at h
    · next hpublished =>
      exact .inr (.inl ⟨error_code, message, rfl, hpublished, (Except.ok.inj h).symm⟩)
    · cases h
  | heartbeat fields =>
    simp only [hcall, Except.ok.injEq] at h
    exact .inr (.inr ⟨fields, rfl, h.symm⟩)

/-- A successful call takes the status along the table, or back from a publication, or leaves it. -/
theorem JobEvent.follows (h : e.apply job = .ok job') : e.Follows job.status job'.status := by
  unfold JobEvent.Follows
  rcases e.apply_ok h with ⟨to_status, _, _, _, hcall, hallowed, rfl⟩ |
    ⟨_, _, hcall, hpublished, rfl⟩ | ⟨fields, hcall, rfl⟩
  · rw [hcall]
    exact ⟨rfl, hallowed⟩
  · rw [hcall]
    exact ⟨hpublished, rfl⟩
  · simp only [hcall]
    exact job.heartbeat_status fields e.now

end Runs

/-! ## What holds of the record -/

/-- What holds of the record after any sequence of successful calls. -/
structure IngestionJob.Kept (job start : IngestionJob) (past : List JobEvent) : Prop where
  status : ∀ earlier e later, past = earlier ++ e :: later → ∃ before after,
    runEvents start earlier = .ok before ∧ e.apply before = .ok after ∧
      e.Follows before.status after.status
  attempt : job.attempt = 1 + requeueCount past
  progress : job.progress.Fraction
  few : job.heartbeats.length ≤ maxHeartbeats
  latest : ∃ dropped, allBeats start past = dropped ++ job.heartbeats ∧
    (dropped ≠ [] → job.heartbeats.length = maxHeartbeats)
  started : ∀ t, job.started_at = some t → job.created_at ≤ t
  finished : ∀ f, job.finished_at = some f → job.created_at ≤ f ∧
    ∀ t, job.started_at = some t → t ≤ f

/-- The receipts of a store allow a new one of the job: its identities are in order, and what is there is
the failed receipt of the attempt before. -/
structure AdmittedBy (s : Store) (job : Knowledge.Job) (record : Receipt) : Prop where
  identities : requirePublicationIdentities
    [some job.job_id, some job.tenant_id, some job.workspace_id, some job.collection_id] = .ok ()
  previous : ∀ previous, s.publications.lookup job.key = some previous →
    previous.attempt_id ≠ record.attempt_id ∧ previous.outcome = .failed ∧
      job.attempt = previous.job_snapshot.attempt + 1

/-- The record after a sequence of calls: what holds in any case, a finish exactly where the job has
ended, and a job that has not ended can begin its publication. -/
structure IngestionJob.WellFormed (job start : IngestionJob) (past : List JobEvent) : Prop extends
    job.Kept start past where
  ended : job.finished_at.isSome = true ↔ job.status ∈ JobStage.terminalStates
  publishable : job.status ∉ JobStage.terminalStates → ∀ s record, AdmittedBy s job.record record →
    (Proc.exec (admitReceipt job.record record) s).1 = .ok ()

/-- What one call after another keeps, up to the given time. -/
structure IngestionJob.Inv (job start : IngestionJob) (past : List JobEvent) (clock : ℚ) : Prop where
  attempt : job.attempt = 1 + requeueCount past
  progress : job.progress.Fraction
  few : job.heartbeats.length ≤ maxHeartbeats
  latest : ∃ dropped, allBeats start past = dropped ++ job.heartbeats ∧
    (dropped ≠ [] → job.heartbeats.length = maxHeartbeats)
  created : job.created_at ≤ clock
  started : ∀ t, job.started_at = some t → job.created_at ≤ t ∧ t ≤ clock
  finished : ∀ f, job.finished_at = some f → job.created_at ≤ f ∧ f ≤ clock ∧
    ∃ t, job.started_at = some t ∧ t ≤ f
  ended : job.status ∈ JobStage.terminalStates → job.finished_at.isSome = true
  requeued : job.finished_at.isSome = true → job.status ∈ JobStage.terminalStates ∨ 0 < requeueCount past

/-- The last heartbeats of a list are its end, and are as many as are kept if any was dropped. -/
theorem lastBeats_spec (heartbeats : List Heartbeat) :
    (IngestionJob.lastBeats heartbeats).length ≤ maxHeartbeats ∧ ∃ dropped,
      heartbeats = dropped ++ IngestionJob.lastBeats heartbeats ∧
        (dropped ≠ [] → (IngestionJob.lastBeats heartbeats).length = maxHeartbeats) := by
  unfold IngestionJob.lastBeats
  have hlength : (heartbeats.drop (heartbeats.length - maxHeartbeats)).length =
      min heartbeats.length maxHeartbeats := by
    rw [List.length_drop]
    omega
  refine ⟨by omega, heartbeats.take (heartbeats.length - maxHeartbeats), ?_, ?_⟩
  · exact (List.take_append_drop _ heartbeats).symm
  · intro hne
    have hpos : 0 < heartbeats.length - maxHeartbeats := by
      by_contra hzero
      exact hne (by rw [Nat.eq_zero_of_not_pos hzero, List.take_zero])
    omega

section Invariant

variable {start job job' : IngestionJob} {e : JobEvent} {past : List JobEvent} {clock : ℚ}

/-- A new job. -/
theorem inv_new (tenant_id workspace_id collection_id job_id : String) (document_id : Option String)
    (created_at : ℚ) (metadata : Json.Members) :
    (IngestionJob.new tenant_id workspace_id collection_id job_id document_id created_at metadata).Inv
      (.new tenant_id workspace_id collection_id job_id document_id created_at metadata) []
      created_at where
  attempt := rfl
  progress := ⟨0, rfl, le_rfl, zero_le_one⟩
  few := Nat.zero_le _
  latest := ⟨[], rfl, fun h => absurd rfl h⟩
  created := le_rfl
  started := by intro t ht; cases ht
  finished := by intro f hf; cases hf
  ended := by intro h; simp [IngestionJob.new, JobStage.terminalStates] at h
  requeued := by intro h; cases h

/-- The count of one more call. -/
theorem requeueCount_snoc (past : List JobEvent) (e : JobEvent) :
    requeueCount (past ++ [e]) = requeueCount past + if e.requeues then 1 else 0 := by
  unfold requeueCount
  rw [List.countP_append, List.countP_singleton]

/-- A transition keeps the invariant. -/
theorem inv_moved (hinv : job.Inv start past clock) (hrun : runEvents start past = .ok job)
    (hclock : clock ≤ e.now) {to_status : JobStage} {error_code message : Option String}
    {progress : Option Number} (hcall : e.call = .transition to_status error_code message progress)
    (hallowed : to_status ∈ job.status.allowedTransitions) :
    (job.moved to_status error_code message progress e.now).Inv start (past ++ [e]) e.now := by
  have hrequeues : e.requeues = (to_status == .queued) := by
    unfold JobEvent.requeues
    rw [hcall]
  have hbeats : allBeats start (past ++ [e]) = allBeats start past := by
    rw [allBeats_snoc hrun]
    unfold JobEvent.beat?
    simp [hcall]
  have hcount : requeueCount past ≤ requeueCount (past ++ [e]) := by
    rw [requeueCount_snoc]
    omega
  have hstarted : ∀ t, (job.moved to_status error_code message progress e.now).started_at = some t →
      job.created_at ≤ t ∧ t ≤ e.now := by
    intro t ht
    unfold IngestionJob.moved at ht
    simp only at ht
    split at ht
    · cases ht
      exact ⟨hinv.created.trans hclock, le_rfl⟩
    · exact ⟨(hinv.started t ht).1, (hinv.started t ht).2.trans hclock⟩
  refine ⟨?_, ?_, hinv.few, ?_, hinv.created.trans hclock, hstarted, ?_, ?_, ?_⟩
  · -- Only a failed or a cancelled job is queued again.
    rw [requeueCount_snoc, hrequeues]
    unfold IngestionJob.moved
    simp only
    by_cases hqueued : to_status = .queued
    · subst hqueued
      have hattempt := hinv.attempt
      rcases JobStage.queued_allowed hallowed with hstatus | hstatus
      · simp only [hstatus, beq_self_eq_true, Bool.true_or, Bool.and_self, if_true]
        omega
      · simp only [hstatus, beq_self_eq_true, Bool.or_true, Bool.and_self, if_true]
        omega
    · have hbeq : (to_status == JobStage.queued) = false := beq_false_of_ne hqueued
      simp only [hbeq, Bool.and_false, Bool.false_eq_true, if_false]
      exact hinv.attempt
  · unfold IngestionJob.moved
    cases progress with
    | some p => exact p.clamp_fraction
    | none => exact hinv.progress
  · rw [hbeats]
    exact hinv.latest
  · intro f hf
    have hf' : (if JobStage.terminalStates.contains to_status then some e.now else job.finished_at) =
        some f := hf
    split at hf'
    · next hterminal =>
      cases hf'
      refine ⟨hinv.created.trans hclock, le_rfl, ?_⟩
      have hqueued : to_status ≠ .queued := by
        rintro rfl
        simp [JobStage.terminalStates] at hterminal
      cases hstart : job.started_at with
      | none =>
        refine ⟨e.now, ?_, le_rfl⟩
        simp [IngestionJob.moved, hstart, hqueued]
      | some t =>
        refine ⟨t, ?_, (hinv.started t hstart).2.trans hclock⟩
        simp [IngestionJob.moved, hstart]
    · obtain ⟨hcreated, hbefore, t, ht, hle⟩ := hinv.finished f hf'
      refine ⟨hcreated, hbefore.trans hclock, t, ?_, hle⟩
      simp [IngestionJob.moved, ht]
  · intro hterminal
    have hcontains : JobStage.terminalStates.contains to_status = true := by
      rw [List.contains_iff_mem]
      exact hterminal
    simp only [IngestionJob.moved, hcontains, if_true, Option.isSome_some]
  · intro hfinished
    by_cases hterminal : to_status ∈ JobStage.terminalStates
    · exact .inl hterminal
    · right
      have hcontains : JobStage.terminalStates.contains to_status = false := by
        rw [← Bool.not_eq_true, List.contains_iff_mem]
        exact hterminal
      have hold : job.finished_at.isSome = true := by
        simpa only [IngestionJob.moved, hcontains, Bool.false_eq_true, if_false] using hfinished
      rcases hinv.requeued hold with hstatus | hpos
      · -- What follows on an end, and is none, is the queue.
        have hqueued : to_status = .queued := by
          by_contra hne
          cases hs : job.status <;> rw [hs] at hallowed hstatus <;>
            simp_all [JobStage.allowedTransitions, JobStage.terminalStates]
        rw [requeueCount_snoc, hrequeues, hqueued]
        simp
      · omega

/-- A compensation keeps the invariant. -/
theorem inv_compensated (hinv : job.Inv start past clock) (hrun : runEvents start past = .ok job)
    (hclock : clock ≤ e.now) {error_code message : String}
    (hcall : e.call = .compensatePublishedFailure error_code message)
    (hpublished : job.status = .published) :
    (job.compensated error_code message e.now).Inv start (past ++ [e]) e.now := by
  have hcount : requeueCount (past ++ [e]) = requeueCount past := by
    rw [requeueCount_snoc]
    unfold JobEvent.requeues
    simp [hcall]
  have hbeats : allBeats start (past ++ [e]) = allBeats start past := by
    rw [allBeats_snoc hrun]
    unfold JobEvent.beat?
    simp [hcall]
  refine ⟨?_, job.progress.clamp_fraction, hinv.few, ?_, hinv.created.trans hclock, ?_, ?_,
    fun _ => rfl, fun _ => .inl ?_⟩
  · rw [hcount]
    exact hinv.attempt
  · rw [hbeats]
    exact hinv.latest
  · intro t ht
    exact ⟨(hinv.started t ht).1, (hinv.started t ht).2.trans hclock⟩
  · intro f hf
    cases hf
    have hended : job.status ∈ JobStage.terminalStates := by
      rw [hpublished]
      simp [JobStage.terminalStates]
    obtain ⟨f, hf⟩ := Option.isSome_iff_exists.mp (hinv.ended hended)
    obtain ⟨-, -, t, ht, -⟩ := hinv.finished f hf
    exact ⟨hinv.created.trans hclock, le_rfl, t, ht, (hinv.started t ht).2.trans hclock⟩
  · simp [IngestionJob.compensated, JobStage.terminalStates]

/-- A heartbeat keeps the invariant. -/
theorem inv_heartbeat (hinv : job.Inv start past clock) (hrun : runEvents start past = .ok job)
    (hclock : clock ≤ e.now) {fields : Json.Members} (hcall : e.call = .heartbeat fields) :
    (job.heartbeat fields e.now).Inv start (past ++ [e]) e.now := by
  have hcount : requeueCount (past ++ [e]) = requeueCount past := by
    rw [requeueCount_snoc]
    unfold JobEvent.requeues
    simp [hcall]
  have hbeats : allBeats start (past ++ [e]) = allBeats start past ++ [job.beat fields e.now] := by
    rw [allBeats_snoc hrun]
    unfold JobEvent.beat?
    simp [hcall]
  obtain ⟨hfew, dropped, hsplit, hfull⟩ := lastBeats_spec (job.heartbeats ++ [job.beat fields e.now])
  unfold IngestionJob.heartbeat
  generalize IngestionJob.lastBeats (job.heartbeats ++ [job.beat fields e.now]) = kept
    at hfew hsplit hfull ⊢
  refine ⟨?_, hinv.progress, hfew, ?_, hinv.created.trans hclock, ?_, ?_, hinv.ended, ?_⟩
  · rw [hcount]
    exact hinv.attempt
  · obtain ⟨earlier, hearlier, hkept⟩ := hinv.latest
    refine ⟨earlier ++ dropped, ?_, ?_⟩
    · rw [hbeats, hearlier, List.append_assoc, hsplit, List.append_assoc]
    · intro hne
      by_cases hdropped : dropped = []
      · -- Nothing is dropped now, so there was room, and nothing was dropped before.
        subst hdropped
        rw [List.append_nil] at hne
        have hlength := congrArg List.length hsplit
        have hold := hkept hne
        simp only [List.length_append, List.length_singleton, List.nil_append] at hlength
        omega
      · exact hfull hdropped
  · intro t ht
    exact ⟨(hinv.started t ht).1, (hinv.started t ht).2.trans hclock⟩
  · intro f hf
    obtain ⟨hcreated, hbefore, hbegun⟩ := hinv.finished f hf
    exact ⟨hcreated, hbefore.trans hclock, hbegun⟩
  · rw [hcount]
    exact hinv.requeued

/-- A successful call keeps the invariant. -/
theorem inv_apply (hinv : job.Inv start past clock) (hrun : runEvents start past = .ok job)
    (hclock : clock ≤ e.now) (happly : e.apply job = .ok job') :
    job'.Inv start (past ++ [e]) e.now := by
  rcases e.apply_ok happly with ⟨to_status, _, _, _, hcall, hallowed, rfl⟩ |
    ⟨_, _, hcall, hpublished, rfl⟩ | ⟨fields, hcall, rfl⟩
  · exact inv_moved hinv hrun hclock hcall hallowed
  · exact inv_compensated hinv hrun hclock hcall hpublished
  · exact inv_heartbeat hinv hrun hclock hcall

end Invariant

/-! ## Runs from a new job -/

/-- The job is a new one. -/
def IngestionJob.IsNew (job : IngestionJob) : Prop :=
  job = .new job.tenant_id job.workspace_id job.collection_id job.job_id job.document_id job.created_at
    job.metadata

section Results

variable {start job : IngestionJob} {events : List JobEvent}

/-- A run from a new job keeps the invariant, up to the time of its last call. -/
theorem run_inv (hnew : start.IsNew) (hclock : ClockForward start events)
    (hrun : runEvents start events = .ok job) :
    ∃ clock ∈ start.created_at :: events.map JobEvent.now, job.Inv start events clock := by
  induction events using List.reverseRecOn generalizing job with
  | nil =>
    cases hrun
    refine ⟨start.created_at, List.mem_cons_self, ?_⟩
    rw [hnew]
    exact inv_new _ _ _ _ _ _ _
  | append_singleton past e ih =>
    obtain ⟨before, hpast, happly⟩ := runEvents_snoc hrun
    unfold ClockForward at hclock
    rw [List.map_append, List.map_singleton, ← List.cons_append, List.pairwise_append] at hclock
    obtain ⟨hforward, -, hlast⟩ := hclock
    obtain ⟨clock, hmem, hinv⟩ := ih hforward hpast
    have hle : clock ≤ e.now := hlast clock hmem e.now (List.mem_singleton_self _)
    refine ⟨e.now, ?_, inv_apply hinv hpast hle happly⟩
    rw [List.map_append]
    exact List.mem_cons_of_mem _ (List.mem_append_right _ List.mem_cons_self)

/-- Each call of a run takes the status along the table. -/
theorem run_follows (hrun : runEvents start events = .ok job) {earlier later : List JobEvent}
    {e : JobEvent} (hsplit : events = earlier ++ e :: later) : ∃ before after,
    runEvents start earlier = .ok before ∧ e.apply before = .ok after ∧
      e.Follows before.status after.status := by
  rw [hsplit, runEvents_append] at hrun
  cases hearlier : runEvents start earlier with
  | error x =>
    rw [hearlier] at hrun
    cases hrun
  | ok before =>
    rw [hearlier] at hrun
    have hrest : (e.apply before).bind (fun next => runEvents next later) = .ok job := hrun
    cases happly : e.apply before with
    | error x =>
      rw [happly] at hrest
      cases hrest
    | ok after => exact ⟨before, after, rfl, happly, e.follows happly⟩

/-- What holds of the record in any case. -/
theorem IngestionJob.Inv.kept {clock : ℚ} (hinv : job.Inv start events clock)
    (hrun : runEvents start events = .ok job) : job.Kept start events where
  status _ _ _ hsplit := run_follows hrun hsplit
  attempt := hinv.attempt
  progress := hinv.progress
  few := hinv.few
  latest := hinv.latest
  started t ht := (hinv.started t ht).1
  finished f hf := by
    obtain ⟨hcreated, -, t, ht, hle⟩ := hinv.finished f hf
    refine ⟨hcreated, ?_⟩
    intro t' ht'
    cases ht.symm.trans ht'
    exact hle

/-- A job without a finish passes the end of `begin_publication`. -/
theorem admitReceipt_ok {job : Knowledge.Job} {record : Receipt} {s : Store}
    (hfinished : job.finished_at = none) (h : AdmittedBy s job record) :
    (Proc.exec (admitReceipt job record) s).1 = .ok () := by
  show Proc.Holds (admitReceipt job record) s fun r _ => r = .ok ()
  unfold admitReceipt
  apply Proc.holds_bind
  unfold getPublication
  refine Proc.holds_lift_bind ?_ ?_
  · intro x hx
    rw [show requirePublicationIdentities [some job.key.2.2.2, some job.key.1, some job.key.2.1,
      some job.key.2.2.1] = .ok () from h.identities] at hx
    cases hx
  · intro _ _
    refine Proc.holds_get_bind (Proc.holds_pure ?_)
    have hwrite : Proc.Holds (writePublication record) s fun r _ => r = .ok () := by
      unfold writePublication
      exact Proc.holds_get_bind (Proc.holds_set rfl)
    cases hprevious : s.publications.lookup job.key with
    | none =>
      refine Proc.holds_raiseIf_bind ?_ fun _ => hwrite
      rw [hfinished]
      intro hsome
      cases hsome
    | some previous =>
      obtain ⟨hattempt, hfailed, hnumber⟩ := h.previous previous hprevious
      show Proc.Holds (if previous.attempt_id = record.attempt_id then _ else _) s _
      rw [if_neg hattempt]
      refine Proc.holds_raiseIf_bind (by simp [hfailed]) fun _ => ?_
      refine Proc.holds_raiseIf_bind (by simp [hnumber]) fun _ => ?_
      refine Proc.holds_raiseIf_bind (by simp [hfinished]) fun _ => hwrite

/-- Until a job is queued again, its record is well formed. -/
theorem IngestionJob.Inv.wellFormed {clock : ℚ} (hinv : job.Inv start events clock)
    (hrun : runEvents start events = .ok job) (hqueued : requeueCount events = 0) :
    job.WellFormed start events := by
  have hended : job.finished_at.isSome = true ↔ job.status ∈ JobStage.terminalStates := by
    refine ⟨fun hfinished => ?_, hinv.ended⟩
    rcases hinv.requeued hfinished with hstatus | hpos
    · exact hstatus
    · omega
  refine ⟨hinv.kept hrun, hended, ?_⟩
  intro hopen s record hadmitted
  have hfinished : job.finished_at = none := by
    cases hf : job.finished_at with
    | none => rfl
    | some f => exact absurd (hended.mp (by rw [hf]; rfl)) hopen
  refine admitReceipt_ok ?_ hadmitted
  unfold IngestionJob.record
  rw [hfinished]
  rfl

/-- A job that is queued again has the finish of the attempt before. -/
theorem requeue_finished {clock : ℚ} {job' : IngestionJob} {e : JobEvent}
    (hinv : job.Inv start events clock) (hrequeues : e.requeues = true)
    (happly : e.apply job = .ok job') :
    job'.status = .queued ∧ job'.finished_at.isSome = true := by
  unfold JobEvent.requeues at hrequeues
  rcases e.apply_ok happly with ⟨to_status, error_code, message, progress, hcall, hallowed, rfl⟩ |
    ⟨_, _, hcall, -, -⟩ | ⟨_, hcall, -⟩
  · rw [hcall] at hrequeues
    have hqueued : to_status = .queued := by simpa using hrequeues
    subst hqueued
    have hended : job.status ∈ JobStage.terminalStates := by
      rcases JobStage.queued_allowed hallowed with h | h <;> simp [h, JobStage.terminalStates]
    exact ⟨rfl, hinv.ended hended⟩
  · rw [hcall] at hrequeues
    cases hrequeues
  · rw [hcall] at hrequeues
    cases hrequeues

end Results

/-- **The record of a job stays well formed until the job is queued again.** In every run of calls from a
new job with a clock that does not go back, the status follows the table, the attempt counts the times
that the job was queued, the progress is a fraction, the last heartbeats are kept, and the times are in
order. That a finish is there exactly where the job has ended, and that a job which has not ended can
begin its publication, holds in every state of the run if and only if no call of it queues the job
again. -/
theorem jobs_wellformed (start : IngestionJob) (hnew : start.IsNew) (events : List JobEvent)
    (job : IngestionJob) (hrun : runEvents start events = .ok job)
    (hclock : ClockForward start events) :
    (∀ past later j, past ++ later = events → runEvents start past = .ok j → j.Kept start past) ∧
    ((∀ past later j, past ++ later = events → runEvents start past = .ok j →
        j.WellFormed start past) ↔ ∀ e ∈ events, e.requeues = false) := by
  have hprefix : ∀ past later j, past ++ later = events → runEvents start past = .ok j →
      ∃ clock, j.Inv start past clock := by
    intro past later j hsplit hpast
    have hforward : ClockForward start past := by
      unfold ClockForward at hclock ⊢
      rw [← hsplit, List.map_append, ← List.cons_append] at hclock
      exact (List.pairwise_append.mp hclock).1
    obtain ⟨clock, -, hinv⟩ := run_inv hnew hforward hpast
    exact ⟨clock, hinv⟩
  refine ⟨?_, ?_, ?_⟩
  · intro past later j hsplit hpast
    obtain ⟨clock, hinv⟩ := hprefix past later j hsplit hpast
    exact hinv.kept hpast
  · intro hwell e he
    by_contra hrequeues
    obtain ⟨earlier, later, hsplit⟩ := List.append_of_mem he
    obtain ⟨before, after, hearlier, happly, -⟩ := run_follows hrun hsplit
    obtain ⟨clock, hinv⟩ := hprefix earlier (e :: later) before hsplit.symm hearlier
    obtain ⟨hqueued, hfinished⟩ := requeue_finished hinv (by simpa using hrequeues) happly
    have hafter : runEvents start (earlier ++ [e]) = .ok after := by
      rw [runEvents_append, hearlier]
      show (e.apply before).bind .ok = _
      rw [happly]
      rfl
    have hended := (hwell (earlier ++ [e]) later after (by rw [hsplit]; simp) hafter).ended.mp hfinished
    rw [hqueued] at hended
    simp [JobStage.terminalStates] at hended
  · intro hnone past later j hsplit hpast
    obtain ⟨clock, hinv⟩ := hprefix past later j hsplit hpast
    refine hinv.wellFormed hpast ?_
    unfold requeueCount
    rw [List.countP_eq_zero]
    intro e he
    rw [hnone e (hsplit ▸ List.mem_append_left _ he)]
    decide

/-! ## A retry -/

/-- A new job, whose attempt has a token. -/
def sampleJob : IngestionJob :=
  .new "tenant" "workspace" "collection" "job" (some "document") 0
    [("publication_attempt", .str "attempt")]

/-- A transition without a message. -/
def moveTo (now : ℚ) (to_status : JobStage) : JobEvent := ⟨now, .transition to_status none none none⟩

/-- The attempt is published after a heartbeat, and the publication is rolled back. -/
def publishedEvents : List JobEvent :=
  [moveTo 1 .validating, moveTo 2 .parsing, ⟨3, .heartbeat [("pages_done", .int 1)]⟩,
    moveTo 4 .chunking, moveTo 5 .embedding, moveTo 6 .indexing, moveTo 7 .verifying,
    moveTo 8 .published, ⟨9, .compensatePublishedFailure "storage_unavailable" "rolled back"⟩]

/-- The record of a job that was published and rolled back is well formed all along. -/
theorem publishedEvents_wellformed : ∃ job, runEvents sampleJob publishedEvents = .ok job ∧
    job.WellFormed sampleJob publishedEvents := by
  have hok : (runEvents sampleJob publishedEvents).isOk = true := by decide +kernel
  cases hrun : runEvents sampleJob publishedEvents with
  | error x =>
    rw [hrun] at hok
    cases hok
  | ok job =>
    have hclock : ClockForward sampleJob publishedEvents := by
      unfold ClockForward
      decide +kernel
    refine ⟨job, rfl, ?_⟩
    exact ((jobs_wellformed sampleJob rfl publishedEvents job hrun hclock).2.mpr (by decide))
      publishedEvents [] job (List.append_nil _) hrun

/-- The first attempt fails, and the second one gets as far as the publication. -/
def retryEvents : List JobEvent :=
  [moveTo 1 .failed, moveTo 2 .queued, moveTo 3 .validating, moveTo 4 .parsing, moveTo 5 .chunking,
    moveTo 6 .embedding, moveTo 7 .indexing, moveTo 8 .verifying]

/-- **A retried job keeps the finish of its first attempt.** The second attempt is verifying its points
and has a finish, and `begin_publication` refuses the job for it. -/
theorem retried_job_unpublishable : ∃ job, runEvents sampleJob retryEvents = .ok job ∧
    sampleJob.IsNew ∧ ClockForward sampleJob retryEvents ∧ job.status = .verifying ∧ job.attempt = 2 ∧
    job.finished_at = some 1 ∧ ¬ job.WellFormed sampleJob retryEvents ∧
    (Proc.exec (beginPublication plainEnv job.record none 1) Store.empty).1 =
      .error (.ownership "new publication cannot import a caller finish") := by
  have hfacts : ((runEvents sampleJob retryEvents).toOption.map fun job =>
      (job.status, job.attempt, job.finished_at,
        (Proc.exec (beginPublication plainEnv job.record none 1) Store.empty).1)) =
      some (.verifying, 2, some 1,
        .error (.ownership "new publication cannot import a caller finish")) := by decide +kernel
  cases hrun : runEvents sampleJob retryEvents with
  | error x =>
    rw [hrun] at hfacts
    cases hfacts
  | ok job =>
    rw [hrun] at hfacts
    simp only [Except.toOption, Option.map_some, Option.some.injEq, Prod.mk.injEq] at hfacts
    obtain ⟨hstatus, hattempt, hfinished, hbegin⟩ := hfacts
    have hclock : ClockForward sampleJob retryEvents := by
      unfold ClockForward
      decide +kernel
    refine ⟨job, rfl, rfl, hclock, hstatus, hattempt, hfinished, ?_, hbegin⟩
    intro hwell
    have hended := hwell.ended.mp (by rw [hfinished]; rfl)
    rw [hstatus] at hended
    simp [JobStage.terminalStates] at hended

end RickIntelligence.Ingestion
