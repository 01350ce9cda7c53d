import RickIntelligence.Worker.Runtime
import RickIntelligence.Lib.Trace

/-!
# One outcome for each execution

In every run of the runtime an execution is finalized by one thread at most: a finalization begins only
where none has begun, and the thread that began it is the only one that calls the queue for the
execution and records its outcome (`Execution.Ok`, `TaskOk`, `Inv`). One thread at most owns a polling
cycle, so the capacity and the job ids that it has read bound the active executions. The invariant of
runs gives `execution_invariant`.
-/

namespace RickIntelligence.Worker

open Lib Jobs

variable {cfg : Config} {e e' : Execution} {s s' : State}

/-! ## One execution -/

/-- What was seen when an acknowledgement was decided: the handler had ended with the result, and no
loss of the lease, timeout or cancellation was recorded; and the deadline was ahead. -/
structure Acknowledges (deadline : ℚ) (seen : Seen) (now : ℚ) (result : JobResult) : Prop where
  done : seen.handler_done = true
  result : seen.observation.result = some result
  no_error : seen.observation.error = none
  launched : seen.observation.launch_failed = false
  lease : seen.observation.lease_lost = false
  in_time : seen.observation.timed_out = false
  not_cancelled : seen.observation.cancelled = false
  deadline : now < deadline

/-- The queue returned the job of the execution, as one that succeeded. -/
def Execution.Succeeded (e : Execution) : Prop :=
  ∃ j, .job j ∈ e.answers ∧ e.isOwn j = true ∧ j.val.state = .succeeded

/-- What holds of every execution. -/
structure Execution.Ok (e : Execution) : Prop where
  calls : e.calls.length ≤ 1
  untouched : e.busy = false → e.calls = []
  acknowledged : ∀ seen now result, .acknowledge seen now result ∈ e.calls →
    Acknowledges e.deadline seen now result
  succeeded : e.outcome = some .succeeded → e.Succeeded

/-- The task is of an execution that no other thread finalizes: it holds the execution, and the queue
was not called before the call. -/
def TaskOk (e : Execution) : Task → Prop
  | .plan seen => seen.handler_done = true
  | .handler => e.handler_done = true
  | .acknowledge seen now result => Acknowledges e.deadline seen now result
  | .releasing | .failing _ _ => e.finalizing = true ∧ e.outcome = none ∧ e.calls = []
  | .acknowledging seen now result => e.finalizing = true ∧ e.outcome = none ∧ e.calls = [] ∧
      Acknowledges e.deadline seen now result
  | .released | .releaseFailed | .failed _ | .acknowledged => e.finalizing = true ∧ e.outcome = none
  | .ending outcome _ => e.finalizing = true ∧ e.outcome = none ∧
      (outcome = .succeeded → e.Succeeded)
  | _ => True

/-- A change of an execution by a thread that does not finalize it. -/
structure Frame (e e' : Execution) : Prop where
  job : e'.job = e.job
  deadline : e'.deadline = e.deadline
  outcome : e'.outcome = e.outcome
  finalizing : e'.finalizing = e.finalizing
  calls : e'.calls = e.calls
  answers : e'.answers = e.answers
  done : e.handler_done = true → e'.handler_done = true

variable {seen : Seen} {outcome : Outcome} {code : Option String} {active : List (String × ℕ)} {c : Cycle}
  {th : Thread} {item : Item}

/-- An acknowledgement is planned on what an acknowledgement needs. -/
theorem acknowledges_of_plan {now deadline : ℚ} {result : JobResult} (hdone : seen.handler_done = true)
    (h : handlerPlan seen.observation now deadline = .acknowledge result) :
    Acknowledges deadline seen now result := by
  obtain ⟨done, ⟨launch_failed, error, result', cancelled, lease_lost, timed_out⟩⟩ := seen
  unfold handlerPlan at h
  cases launch_failed with
  | true => simp at h
  | false =>
    cases lease_lost with
    | true => simp at h
    | false =>
      cases cancelled with
      | true => simp at h
      | false =>
        cases error with
        | some error =>
          cases error with
          | workerCancelled => simp at h
          | other code =>
            simp only [Bool.false_eq_true, if_false] at h
            split_ifs at h
        | none =>
          simp only [Bool.false_eq_true, if_false] at h
          by_cases htime : (timed_out || decide (deadline ≤ now)) = true
          · rw [if_pos htime] at h
            cases h
          · rw [if_neg htime] at h
            simp only [Bool.or_eq_true, decide_eq_true_eq, not_or, Bool.not_eq_true, not_le] at htime
            cases result' with
            | none => cases h
            | some r =>
              cases h
              exact ⟨hdone, rfl, rfl, rfl, rfl, htime.1, rfl, htime.2⟩

/-- The job of an execution and the answers to it decide whether it succeeded. -/
theorem Execution.Succeeded.mono (h : e.Succeeded) (hjob : e'.job = e.job)
    (hanswers : ∀ a ∈ e.answers, a ∈ e'.answers) : e'.Succeeded := by
  obtain ⟨j, hj, hown, hstate⟩ := h
  refine ⟨j, hanswers _ hj, ?_, hstate⟩
  unfold Execution.isOwn at hown ⊢
  rw [hjob]
  exact hown

/-- A change by another thread keeps what holds of an execution. -/
theorem Frame.ok (h : Frame e e') (hok : e.Ok) : e'.Ok := by
  refine ⟨by rw [h.calls]; exact hok.calls, ?_, ?_, ?_⟩
  · intro hbusy
    rw [h.calls]
    apply hok.untouched
    unfold Execution.busy at hbusy ⊢
    rwa [h.outcome, h.finalizing] at hbusy
  · rw [h.calls, h.deadline]
    exact hok.acknowledged
  · rw [h.outcome]
    intro hsucceeded
    exact (hok.succeeded hsucceeded).mono h.job fun a ha => h.answers ▸ ha

variable {task next : Task} {t n : ℕ} {items : List Item} {admitted : List String}

/-- A change by another thread keeps a task. -/
theorem Frame.taskOk (h : Frame e e') (hok : TaskOk e task) : TaskOk e' task := by
  cases task with
  | plan seen => exact hok
  | handler => exact h.done hok
  | acknowledge seen now result =>
    unfold TaskOk at hok ⊢
    rw [h.deadline]
    exact hok
  | releasing | failing code retryable =>
    unfold TaskOk at hok ⊢
    rw [h.finalizing, h.outcome, h.calls]
    exact hok
  | acknowledging seen now result =>
    unfold TaskOk at hok ⊢
    rw [h.finalizing, h.outcome, h.calls, h.deadline]
    exact hok
  | released | releaseFailed | failed code | acknowledged =>
    unfold TaskOk at hok ⊢
    rw [h.finalizing, h.outcome]
    exact hok
  | ending outcome code =>
    unfold TaskOk at hok ⊢
    rw [h.finalizing, h.outcome]
    exact ⟨hok.1, hok.2.1, fun heq => (hok.2.2 heq).mono h.job fun a ha => h.answers ▸ ha⟩
  | leaseLost | cancel | timeout | fail code retryable | heartbeat now | heartbeatFailed
  | renewed lease now => exact trivial

/-- A task that holds its execution has begun its finalization. -/
theorem TaskOk.finalizing (h : TaskOk e task) (hholds : task.holds = true) :
    e.finalizing = true ∧ e.outcome = none := by
  cases task with
  | releasing | failing _ _ | acknowledging _ _ _ => exact ⟨h.1, h.2.1⟩
  | released | releaseFailed | failed _ | acknowledged => exact h
  | ending _ _ => exact ⟨h.1, h.2.1⟩
  | _ => cases hholds

/-- The tasks of other threads survive the step of a thread that holds the execution, or begins to. -/
theorem taskOk_of_not_holds (h : TaskOk e task) (hholds : task.holds = false) (hdeadline : e'.deadline = e.deadline)
    (hdone : e.handler_done = true → e'.handler_done = true) :
    TaskOk e' task := by
  cases task with
  | plan seen => exact h
  | handler => exact hdone h
  | acknowledge seen now result =>
    unfold TaskOk at h ⊢
    rw [hdeadline]
    exact h
  | releasing | failing _ _ | acknowledging _ _ _ | released | releaseFailed | failed _ | acknowledged
  | ending _ _ => cases hholds
  | _ => exact trivial

/-- What a step of a task does to its execution. -/
structure StepOk (e : Execution) (task : Task) (e' : Execution) (next : Option Task) : Prop where
  ok : e'.Ok
  next_ok : ∀ task', next = some task' → TaskOk e' task'
  job : e'.job = e.job
  deadline : e'.deadline = e.deadline
  done : e.handler_done = true → e'.handler_done = true
  outcome : ∀ o, e.outcome = some o → e'.outcome = some o
  calls : e.calls <+: e'.calls
  /-- The task held the execution, begins to hold it, or does not touch its finalization. -/
  exclusive : task.holds = true ∨ e.finalizing = false ∨
    Frame e e' ∧ ∀ task', next = some task' → task'.holds = false

/-- A step that changes nothing of the finalization. -/
theorem StepOk.of_frame {next : Option Task} (hok : e.Ok) (h : Frame e e')
    (hnext : ∀ task', next = some task' → TaskOk e' task' ∧ task'.holds = false) :
    StepOk e task e' next where
  ok := h.ok hok
  next_ok task' ht := (hnext task' ht).1
  job := h.job
  deadline := h.deadline
  done := h.done
  outcome _ ho := h.outcome.trans ho
  calls := h.calls ▸ List.prefix_rfl
  exclusive := .inr (.inr ⟨h, fun task' ht => (hnext task' ht).2⟩)

/-- An execution is a frame of itself. -/
theorem Frame.refl (e : Execution) : Frame e e := ⟨rfl, rfl, rfl, rfl, rfl, rfl, id⟩

/-- The start of a finalization. -/
theorem begin_stepOk (hok : e.Ok) (hnext : e.busy = false → TaskOk { e with finalizing := true } next) :
    StepOk e task (begin e next).1 (begin e next).2 := by
  unfold begin
  by_cases hbusy : e.busy = true
  · rw [if_pos hbusy]
    exact .of_frame hok (.refl e) (fun _ ht => nomatch ht)
  · rw [if_neg hbusy]
    have hbusy : e.busy = false := by simpa using hbusy
    have hfree : e.outcome.isSome = false ∧ e.finalizing = false := by
      unfold Execution.busy at hbusy
      simpa using hbusy
    refine ⟨⟨hok.calls, ?_, hok.acknowledged, hok.succeeded⟩, ?_, rfl, rfl, id, fun _ ho => ho,
      List.prefix_rfl, .inr (.inl hfree.2)⟩
    · intro hno
      simp [Execution.busy] at hno
    · intro task' ht
      cases ht
      exact hnext hbusy

/-- The execution at the start of a finalization. -/
theorem begun (hok : e.Ok) (hbusy : e.busy = false) :
    e.outcome = none ∧ e.calls = [] := by
  have hcalls := hok.untouched hbusy
  unfold Execution.busy at hbusy
  simp only [Bool.or_eq_false_iff, Option.isSome_eq_false_iff, Option.isNone_iff_eq_none] at hbusy
  exact ⟨hbusy.1, hcalls⟩

/-- An execution that is being finalized. -/
theorem ok_of_held (hfinalizing : e.finalizing = true) (houtcome : e.outcome = none)
    (hcalls : e.calls.length ≤ 1) (hack : ∀ seen now result, .acknowledge seen now result ∈ e.calls →
      Acknowledges e.deadline seen now result) : e.Ok := by
  refine ⟨hcalls, ?_, hack, ?_⟩
  · intro hbusy
    simp [Execution.busy, hfinalizing] at hbusy
  · intro hsucceeded
    rw [houtcome] at hsucceeded
    cases hsucceeded

/-- A step of the thread that holds the execution: it stays held, the calls are those before and the
answers are not fewer. -/
theorem StepOk.of_held (hok : e.Ok) (hholds : task.holds = true) (h : e.finalizing = true ∧ e.outcome = none)
    (hjob : e'.job = e.job) (hdeadline : e'.deadline = e.deadline) (hdone : e'.handler_done = e.handler_done)
    (hfinalizing : e'.finalizing = e.finalizing) (houtcome : e'.outcome = e.outcome) (hcalls : e'.calls = e.calls)
    (hnext : TaskOk e' next) : StepOk e task e' (some next) where
  ok := by
    apply ok_of_held (hfinalizing.trans h.1) (houtcome.trans h.2)
    · rw [hcalls]
      exact hok.calls
    · rw [hcalls, hdeadline]
      exact hok.acknowledged
  next_ok task' ht := by
    cases ht
    exact hnext
  job := hjob
  deadline := hdeadline
  done hd := hdone.trans hd
  outcome _ ho := houtcome.trans ho
  calls := hcalls ▸ List.prefix_rfl
  exclusive := .inl hholds

/-- The first call of the queue by the thread that holds the execution. -/
theorem StepOk.of_call {c : Call} (hholds : task.holds = true)
    (h : e.finalizing = true ∧ e.outcome = none ∧ e.calls = [])
    (hack : ∀ seen now result, c = .acknowledge seen now result → Acknowledges e.deadline seen now result)
    (hnext : TaskOk { e with calls := e.calls ++ [c] } next) :
    StepOk e task { e with calls := e.calls ++ [c] } (some next) where
  ok := by
    refine ok_of_held ?_ ?_ ?_ ?_
    · exact h.1
    · exact h.2.1
    · simp [h.2.2]
    · intro seen now result hmem
      simp only [h.2.2, List.nil_append, List.mem_singleton] at hmem
      exact hack seen now result hmem.symm
  next_ok task' ht := by
    cases ht
    exact hnext
  job := rfl
  deadline := rfl
  done := id
  outcome _ ho := ho
  calls := List.prefix_append _ _
  exclusive := .inl hholds

/-- What an error of a call leads to. -/
theorem taskOk_raised (h : e.finalizing = true ∧ e.outcome = none) (isLease : Bool)
    (code : Option String) : TaskOk e (raised isLease code) := by
  cases isLease
  · exact ⟨h.1, h.2, fun heq => nomatch heq⟩
  · exact ⟨h.1, h.2, fun heq => nomatch heq⟩

/-- An outcome other than a success is recorded as it is. -/
theorem taskOk_ending (h : e.finalizing = true ∧ e.outcome = none) (hne : outcome ≠ .succeeded) :
    TaskOk e (.ending outcome code) := ⟨h.1, h.2, fun heq => absurd heq hne⟩

/-- What `_release_cancelled_lease` makes of an answer: a success is that of the job. -/
theorem taskOk_afterRelease (h : e.finalizing = true ∧ e.outcome = none) (a : Answer) :
    TaskOk { e with answers := e.answers ++ [a] } (afterRelease e a) := by
  cases a with
  | job j =>
    unfold afterRelease
    dsimp only
    by_cases hother : (!e.isOwn j || j.val.state == .pending) = true
    · rw [if_pos hother]
      exact ⟨h.1, h.2, fun heq => nomatch heq⟩
    · rw [if_neg hother]
      simp only [Bool.or_eq_true, Bool.not_eq_true', beq_iff_eq, not_or, Bool.not_eq_false] at hother
      by_cases hsucceeded : (j.val.state == .succeeded) = true
      · rw [if_pos hsucceeded]
        exact ⟨h.1, h.2, fun _ => ⟨j, by simp, hother.1, beq_iff_eq.mp hsucceeded⟩⟩
      · rw [if_neg hsucceeded]
        split
        · exact ⟨h.1, h.2, fun heq => nomatch heq⟩
        · exact ⟨h.1, h.2, fun heq => nomatch heq⟩
  | lease l => exact ⟨h.1, h.2, fun heq => nomatch heq⟩
  | other => exact ⟨h.1, h.2, fun heq => nomatch heq⟩
  | error isLease =>
    cases isLease
    · exact h
    · exact ⟨h.1, h.2, fun heq => nomatch heq⟩

/-- What `_finalize_failure` makes of an answer: a success is that of the job. -/
theorem taskOk_afterFail (h : e.finalizing = true ∧ e.outcome = none) (code : String) (a : Answer) :
    TaskOk { e with answers := e.answers ++ [a] } (afterFail e code a) := by
  cases a with
  | job j =>
    unfold afterFail
    dsimp only
    by_cases hother : (!e.isOwn j || j.val.state == .pending) = true
    · rw [if_pos hother]
      exact ⟨h.1, h.2, fun heq => nomatch heq⟩
    · rw [if_neg hother]
      simp only [Bool.or_eq_true, Bool.not_eq_true', beq_iff_eq, not_or, Bool.not_eq_false] at hother
      by_cases hsucceeded : (j.val.state == .succeeded) = true
      · rw [if_pos hsucceeded]
        exact ⟨h.1, h.2, fun _ => ⟨j, by simp, hother.1, beq_iff_eq.mp hsucceeded⟩⟩
      · rw [if_neg hsucceeded]
        split
        · exact ⟨h.1, h.2, fun heq => nomatch heq⟩
        · split
          · exact ⟨h.1, h.2, fun heq => nomatch heq⟩
          · exact ⟨h.1, h.2, fun heq => nomatch heq⟩
  | lease l => exact ⟨h.1, h.2, fun heq => nomatch heq⟩
  | other => exact ⟨h.1, h.2, fun heq => nomatch heq⟩
  | error isLease =>
    cases isLease
    · exact ⟨h.1, h.2, fun heq => nomatch heq⟩
    · exact ⟨h.1, h.2, fun heq => nomatch heq⟩

/-- What `_finalize_handler` makes of an answer: a success is that of the job. -/
theorem taskOk_afterAcknowledge (h : e.finalizing = true ∧ e.outcome = none) (a : Answer) :
    TaskOk { e with answers := e.answers ++ [a] } (afterAcknowledge e a) := by
  cases a with
  | job j =>
    unfold afterAcknowledge
    dsimp only
    by_cases hother : (!e.isOwn j) = true
    · rw [if_pos hother]
      exact ⟨h.1, h.2, fun heq => nomatch heq⟩
    · rw [if_neg hother]
      simp only [Bool.not_eq_true', Bool.not_eq_false] at hother
      split
      · exact ⟨h.1, h.2, fun heq => nomatch heq⟩
      · by_cases hsucceeded : (j.val.state == .succeeded) = true
        · rw [if_pos hsucceeded]
          exact ⟨h.1, h.2, fun _ => ⟨j, by simp, hother, beq_iff_eq.mp hsucceeded⟩⟩
        · rw [if_neg hsucceeded]
          exact ⟨h.1, h.2, fun heq => nomatch heq⟩
  | lease l => exact ⟨h.1, h.2, fun heq => nomatch heq⟩
  | other => exact ⟨h.1, h.2, fun heq => nomatch heq⟩
  | error isLease =>
    cases isLease
    · exact ⟨h.1, h.2, fun heq => nomatch heq⟩
    · exact ⟨h.1, h.2, fun heq => nomatch heq⟩

/-- The plan for a handler that has ended does not touch the finalization. -/
theorem stepOk_plan (hok : e.Ok) (hdone : seen.handler_done = true) (now : ℚ) (a : Answer) :
    StepOk e (.plan seen) (Task.step cfg e now a (.plan seen)).1
      (Task.step cfg e now a (.plan seen)).2 := by
  unfold Task.step
  dsimp only
  cases hplan : handlerPlan seen.observation now e.deadline with
  | acknowledge result =>
    refine .of_frame hok (.refl e) ?_
    intro task' ht
    cases ht
    exact ⟨acknowledges_of_plan hdone hplan, rfl⟩
  | leaseLost | cancel | timeout | fail code retryable =>
    refine .of_frame hok (.refl e) ?_
    intro task' ht
    cases ht
    exact ⟨trivial, rfl⟩

/-- The record of an outcome. -/
theorem stepOk_ending (hok : e.Ok) (h : TaskOk e (.ending outcome code)) :
    StepOk e (.ending outcome code) { e.record outcome code with finalizing := false } none := by
  obtain ⟨-, hnone, hsucceeded⟩ := h
  have hrecord : e.record outcome code =
      { e with outcome := some outcome, failure_code := code } := by
    unfold Execution.record
    rw [hnone]
    rfl
  rw [hrecord]
  refine ⟨⟨hok.calls, ?_, hok.acknowledged, ?_⟩, (fun _ ht => nomatch ht), rfl, rfl, id, ?_,
    List.prefix_rfl, .inl rfl⟩
  · intro hbusy
    simp [Execution.busy] at hbusy
  · intro heq
    cases Option.some.inj heq
    exact hsucceeded rfl
  · intro o ho
    rw [hnone] at ho
    cases ho

/-- Every step of a task keeps what holds of its execution, and of the task. -/
theorem task_step_ok (hok : e.Ok) (htask : TaskOk e task) (now : ℚ) (a : Answer) :
    StepOk e task (task.step cfg e now a).1 (task.step cfg e now a).2 := by
  cases task with
  | leaseLost =>
    refine begin_stepOk hok fun hbusy => ?_
    have hbegun := begun hok hbusy
    exact ⟨rfl, hbegun.1, fun heq => nomatch heq⟩
  | cancel =>
    refine begin_stepOk hok fun hbusy => ?_
    have hbegun := begun hok hbusy
    split
    · exact ⟨rfl, hbegun⟩
    · exact ⟨rfl, hbegun.1, fun heq => nomatch heq⟩
  | fail code retryable =>
    refine begin_stepOk hok fun hbusy => ?_
    have hbegun := begun hok hbusy
    exact ⟨rfl, hbegun⟩
  | acknowledge seen now' result =>
    refine begin_stepOk hok fun hbusy => ?_
    have hbegun := begun hok hbusy
    exact ⟨rfl, hbegun.1, hbegun.2, htask⟩
  | timeout =>
    refine .of_frame hok ⟨rfl, rfl, rfl, rfl, rfl, rfl, id⟩ ?_
    intro task' ht
    cases ht
    exact ⟨trivial, rfl⟩
  | handler =>
    refine .of_frame hok (.refl e) ?_
    intro task' ht
    cases ht
    exact ⟨htask, rfl⟩
  | plan seen => exact stepOk_plan hok htask now a
  | heartbeat now' =>
    have hsame : ∀ task', task' = .heartbeatFailed ∨ (∃ l, task' = .renewed l now') →
        StepOk e (.heartbeat now') e (some task') := by
      intro task' htask'
      refine .of_frame hok (.refl e) ?_
      intro task'' ht
      cases ht
      rcases htask' with rfl | ⟨l, rfl⟩
      · exact ⟨trivial, rfl⟩
      · exact ⟨trivial, rfl⟩
    cases a with
    | lease l =>
      simp only [Task.step]
      split
      · exact hsame _ (.inr ⟨l, rfl⟩)
      · exact hsame _ (.inl rfl)
    | job j => exact hsame _ (.inl rfl)
    | other => exact hsame _ (.inl rfl)
    | error isLease => exact hsame _ (.inl rfl)
  | heartbeatFailed =>
    refine .of_frame hok ⟨rfl, rfl, rfl, rfl, rfl, rfl, id⟩ ?_
    intro task' ht
    cases ht
    exact ⟨trivial, rfl⟩
  | renewed l now' =>
    simp only [Task.step]
    split
    · exact .of_frame hok (.refl e) fun _ ht => nomatch ht
    · exact .of_frame hok ⟨rfl, rfl, rfl, rfl, rfl, rfl, id⟩ fun _ ht => nomatch ht
  | releasing =>
    exact .of_call rfl htask (fun _ _ _ heq => nomatch heq) ⟨htask.1, htask.2.1⟩
  | failing code retryable =>
    have hheld := htask.finalizing rfl
    have hcall : StepOk e (.failing code retryable) ((Task.failing code retryable).step cfg e now .other).1
        ((Task.failing code retryable).step cfg e now .other).2 := by
      simp only [Task.step]
      split
      · exact .of_held hok rfl hheld rfl rfl rfl rfl rfl rfl (taskOk_ending hheld (by decide))
      · exact .of_call rfl htask (fun _ _ _ heq => nomatch heq) ⟨htask.1, htask.2.1⟩
    cases a with
    | error isLease =>
      exact .of_held hok rfl hheld rfl rfl rfl rfl rfl rfl (taskOk_raised hheld isLease _)
    | job j => exact hcall
    | lease l => exact hcall
    | other => exact hcall
  | acknowledging seen now' result =>
    have hheld := htask.finalizing rfl
    have hcall : StepOk e (.acknowledging seen now' result)
        { e with calls := e.calls ++ [.acknowledge seen now' result] } (some .acknowledged) := by
      refine .of_call rfl ⟨htask.1, htask.2.1, htask.2.2.1⟩ ?_ ⟨htask.1, htask.2.1⟩
      intro seen' now'' result' heq
      cases heq
      exact htask.2.2.2
    cases a with
    | error isLease =>
      exact .of_held hok rfl hheld rfl rfl rfl rfl rfl rfl (taskOk_raised hheld isLease _)
    | job j => exact hcall
    | lease l => exact hcall
    | other => exact hcall
  | released =>
    exact .of_held hok rfl htask rfl rfl rfl rfl rfl rfl (taskOk_afterRelease htask a)
  | releaseFailed =>
    exact .of_held hok rfl htask rfl rfl rfl rfl rfl rfl (taskOk_ending htask (by decide))
  | failed code =>
    exact .of_held hok rfl htask rfl rfl rfl rfl rfl rfl (taskOk_afterFail htask code a)
  | acknowledged =>
    exact .of_held hok rfl htask rfl rfl rfl rfl rfl rfl (taskOk_afterAcknowledge htask a)
  | ending outcome code => exact stepOk_ending hok htask

/-! ## The runtime -/

/-- The active executions are within what the cycle has read: the capacity that is left, and the job ids
that were admitted. -/
def CycleOk (cfg : Config) (active : List (String × ℕ)) : Cycle → Prop
  | .claiming capacity admitted =>
    active.length + capacity ≤ cfg.max_concurrency ∧ ∀ p ∈ active, p.1 ∈ admitted
  | .admitting items admitted | .launching _ items admitted =>
    active.length + items.length ≤ cfg.max_concurrency ∧ ∀ p ∈ active, p.1 ∈ admitted
  | _ => True

/-- The invariant of the runtime. -/
structure Inv (cfg : Config) (s : State) : Prop where
  executions : ∀ n e, s.executions n = some e → e.Ok
  fresh : ∀ n, s.count ≤ n → s.executions n = none
  tasks : ∀ t n task, (s.threads t).task = some (n, task) →
    ∃ e, s.executions n = some e ∧ TaskOk e task
  exclusive : ∀ t t' n task task', (s.threads t).task = some (n, task) →
    (s.threads t').task = some (n, task') → task.holds = true → task'.holds = true → t = t'
  owner : ∀ t, (s.threads t).cycle.owns = true → s.cycle_owner = some t
  bound : s.active.length ≤ cfg.max_concurrency
  keys : (s.active.map Prod.fst).Nodup
  jobs : ∀ p ∈ s.active, ∃ e, s.executions p.2 = some e ∧ e.job.val.job_id = p.1
  cycles : ∀ t, CycleOk cfg s.active (s.threads t).cycle

/-- Fewer active executions are within what the cycle has read. -/
theorem CycleOk.sublist {active' : List (String × ℕ)} (h : CycleOk cfg active c) (hsub : active'.Sublist active) :
    CycleOk cfg active' c := by
  have hlength := hsub.length_le
  cases c with
  | claiming capacity admitted => exact ⟨by have := h.1; omega, fun p hp => h.2 p (hsub.subset hp)⟩
  | admitting items admitted => exact ⟨by have := h.1; omega, fun p hp => h.2 p (hsub.subset hp)⟩
  | launching n items admitted => exact ⟨by have := h.1; omega, fun p hp => h.2 p (hsub.subset hp)⟩
  | out | entering | checking | monitoring | waiting => exact trivial

/-- The runtime at first. -/
theorem inv_initial (cfg : Config) : Inv cfg State.initial where
  executions _ _ h := nomatch h
  fresh _ _ := rfl
  tasks _ _ _ h := nomatch h
  exclusive _ _ _ _ _ h := nomatch h
  owner _ h := nomatch h
  bound := Nat.zero_le _
  keys := List.nodup_nil
  jobs _ h := nomatch h
  cycles _ := trivial

/-- The thread of a state with another thread. -/
theorem threads_setThread (s : State) (t t' : ℕ) (th : Thread) :
    (s.setThread t th).threads t' = if t' = t then th else s.threads t' := by
  show Function.update s.threads t th t' = _
  rw [Function.update_apply]

/-- The execution of a state with another execution. -/
theorem executions_setExecution (s : State) (n n' : ℕ) (e : Execution) :
    (s.setExecution n e).executions n' = if n' = n then some e else s.executions n' := by
  show Function.update s.executions n (some e) n' = _
  rw [Function.update_apply]

/-- A thread goes on: it keeps its task or takes one that does not hold its execution. -/
theorem Inv.setThread (h : Inv cfg s)
    (htask : ∀ n task, th.task = some (n, task) → (s.threads t).task = some (n, task) ∨ task.holds = false ∧ ∃ e, s.executions n = some e ∧ TaskOk e task)
    (howner : th.cycle.owns = true → s.cycle_owner = some t) (hcycle : CycleOk cfg s.active th.cycle) :
    Inv cfg (s.setThread t th) where
  executions := h.executions
  fresh := h.fresh
  tasks t' n task ht := by
    rw [threads_setThread] at ht
    by_cases heq : t' = t
    · rw [if_pos heq] at ht
      rcases htask n task ht with hold | ⟨-, hok⟩
      · exact h.tasks t n task hold
      · exact hok
    · rw [if_neg heq] at ht
      exact h.tasks t' n task ht
  exclusive t₁ t₂ n task₁ task₂ h₁ h₂ hholds₁ hholds₂ := by
    -- A task that holds its execution is one that the thread had before.
    have hbefore : ∀ t' task, ((s.setThread t th).threads t').task = some (n, task) →
        task.holds = true → (s.threads t').task = some (n, task) := by
      intro t' task ht hholds
      rw [threads_setThread] at ht
      by_cases heq : t' = t
      · rw [if_pos heq] at ht
        rcases htask n task ht with hold | ⟨hno, -⟩
        · rw [heq]
          exact hold
        · rw [hno] at hholds
          cases hholds
      · rw [if_neg heq] at ht
        exact ht
    exact h.exclusive t₁ t₂ n task₁ task₂ (hbefore t₁ task₁ h₁ hholds₁) (hbefore t₂ task₂ h₂ hholds₂)
      hholds₁ hholds₂
  owner t' ht := by
    rw [threads_setThread] at ht
    by_cases heq : t' = t
    · rw [if_pos heq] at ht
      rw [heq]
      exact howner ht
    · rw [if_neg heq] at ht
      exact h.owner t' ht
  bound := h.bound
  keys := h.keys
  jobs := h.jobs
  cycles t' := by
    rw [threads_setThread]
    by_cases heq : t' = t
    · rw [if_pos heq]
      exact hcycle
    · rw [if_neg heq]
      exact h.cycles t'

/-- A thread that keeps its task and its cycle. -/
theorem Inv.keepThread (h : Inv cfg s) (htask : th.task = (s.threads t).task)
    (hcycle : th.cycle = (s.threads t).cycle) : Inv cfg (s.setThread t th) := by
  refine h.setThread ?_ ?_ ?_
  · intro n task ht
    exact .inl (htask ▸ ht)
  · rw [hcycle]
    exact h.owner t
  · rw [hcycle]
    exact h.cycles t

/-- A thread that keeps its task and goes on in the cycle that it owns. -/
theorem Inv.moveCycle (h : Inv cfg s) (howns : (s.threads t).cycle.owns = true) (hcycle : CycleOk cfg s.active c) :
    Inv cfg (s.setThread t { s.threads t with cycle := c }) :=
  h.setThread (fun _ _ ht => .inl ht) (fun _ => h.owner t howns) hcycle

/-- A change of an execution by a thread that does not finalize it. -/
theorem Inv.frame (h : Inv cfg s) (he : s.executions n = some e) (hframe : Frame e e') :
    Inv cfg (s.setExecution n e') where
  executions n' e'' he'' := by
    rw [executions_setExecution] at he''
    by_cases heq : n' = n
    · rw [if_pos heq] at he''
      cases he''
      exact hframe.ok (h.executions n e he)
    · rw [if_neg heq] at he''
      exact h.executions n' e'' he''
  fresh n' hn' := by
    have hne : n' ≠ n := by
      intro heq
      rw [heq] at hn'
      rw [h.fresh n hn'] at he
      cases he
    rw [executions_setExecution, if_neg hne]
    exact h.fresh n' hn'
  tasks t n' task ht := by
    obtain ⟨e'', he'', hok⟩ := h.tasks t n' task ht
    rw [executions_setExecution]
    by_cases heq : n' = n
    · rw [heq, he] at he''
      cases he''
      exact ⟨e', if_pos heq, hframe.taskOk hok⟩
    · exact ⟨e'', (if_neg heq).trans he'', hok⟩
  exclusive := h.exclusive
  owner := h.owner
  bound := h.bound
  keys := h.keys
  jobs p hp := by
    obtain ⟨e'', he'', hjob⟩ := h.jobs p hp
    rw [executions_setExecution]
    by_cases heq : p.2 = n
    · rw [heq, he] at he''
      cases he''
      exact ⟨e', if_pos heq, by rw [hframe.job]; exact hjob⟩
    · exact ⟨e'', (if_neg heq).trans he'', hjob⟩
  cycles := h.cycles

/-- Fewer active executions. -/
theorem Inv.sublist (h : Inv cfg s) (hsub : active.Sublist s.active) :
    Inv cfg { s with active } where
  executions := h.executions
  fresh := h.fresh
  tasks := h.tasks
  exclusive := h.exclusive
  owner := h.owner
  bound := hsub.length_le.trans h.bound
  keys := h.keys.sublist (hsub.map Prod.fst)
  jobs p hp := h.jobs p (hsub.subset hp)
  cycles t := (h.cycles t).sublist hsub

/-- `_reap` removes active executions. -/
theorem Inv.reap (h : Inv cfg s) : Inv cfg s.reap := h.sublist List.filter_sublist

/-- A thread leaves its cycle. -/
theorem Inv.leaveCycle (h : Inv cfg s) (t : ℕ) : Inv cfg (s.leaveCycle t) := by
  have hthread : Inv cfg (s.setThread t { s.threads t with cycle := .out }) :=
    h.setThread (fun _ _ ht => .inl ht) (fun howns => nomatch howns) trivial
  -- The thread was the owner, so no thread owns a cycle now.
  have hnone : (s.threads t).cycle.owns = true →
      Inv cfg { s.setThread t { s.threads t with cycle := .out } with
        drive_owner := none, cycle_owner := none } := by
    intro howns
    refine ⟨hthread.executions, hthread.fresh, hthread.tasks, hthread.exclusive, ?_, hthread.bound,
      hthread.keys, hthread.jobs, hthread.cycles⟩
    intro t' ht'
    have hnow := hthread.owner t' ht'
    have hbefore : s.cycle_owner = some t := h.owner t howns
    have heq : t = t' := Option.some.inj (hbefore.symm.trans hnow)
    have hout : ((s.setThread t { s.threads t with cycle := .out }).threads t').cycle.owns = false := by
      rw [threads_setThread, if_pos heq.symm]
      rfl
    rw [show ((s.setThread t { s.threads t with cycle := .out }).threads t').cycle.owns = true from ht']
      at hout
    cases hout
  unfold State.leaveCycle
  cases hcycle : (s.threads t).cycle with
  | out => exact hthread
  | entering =>
    exact ⟨hthread.executions, hthread.fresh, hthread.tasks, hthread.exclusive, hthread.owner,
      hthread.bound, hthread.keys, hthread.jobs, hthread.cycles⟩
  | checking | monitoring | claiming _ _ | admitting _ _ | launching _ _ _ | waiting =>
    exact hnone (by rw [hcycle]; rfl)

/-- A step of a task keeps the invariant. -/
theorem Inv.work (h : Inv cfg s) (htask : (s.threads t).task = some (n, task)) (he : s.executions n = some e)
    (now : ℚ) (a : Answer) :
    Inv cfg ((s.setExecution n (task.step cfg e now a).1).setThread t
      { s.threads t with task := (task.step cfg e now a).2.map fun task => (n, task) }) := by
  obtain ⟨e₀, he₀, hok⟩ := h.tasks t n task htask
  rw [he] at he₀
  cases he₀
  have hstep : StepOk e task (task.step cfg e now a).1 (task.step cfg e now a).2 :=
    task_step_ok (h.executions n e he) hok now a
  generalize (task.step cfg e now a).1 = e' at hstep
  generalize (task.step cfg e now a).2 = next at hstep
  -- The tasks of the other threads on this execution do not hold it, or the step is a frame.
  have hothers : ∀ t' task', t' ≠ t → (s.threads t').task = some (n, task') → TaskOk e' task' := by
    intro t' task' hne ht'
    obtain ⟨e₁, he₁, hok'⟩ := h.tasks t' n task' ht'
    rw [he] at he₁
    cases he₁
    by_cases hholds' : task'.holds = true
    · rcases hstep.exclusive with hholds | hfree | ⟨hframe, -⟩
      · exact absurd (h.exclusive t' t n task' task ht' htask hholds' hholds) hne
      · rw [(hok'.finalizing hholds').1] at hfree
        cases hfree
      · exact hframe.taskOk hok'
    · exact taskOk_of_not_holds hok' (by simpa using hholds') hstep.deadline hstep.done
  have hexec : ∀ n', ((s.setExecution n e').setThread t
      { s.threads t with task := next.map fun task => (n, task) }).executions n' =
      if n' = n then some e' else s.executions n' := fun n' => executions_setExecution s n n' e'
  have hthread : ∀ t', ((s.setExecution n e').setThread t
      { s.threads t with task := next.map fun task => (n, task) }).threads t' =
      if t' = t then { s.threads t with task := next.map fun task => (n, task) } else s.threads t' :=
    fun t' => threads_setThread _ t t' _
  constructor
  · intro n' e'' he''
    rw [hexec] at he''
    by_cases heq : n' = n
    · rw [if_pos heq] at he''
      cases he''
      exact hstep.ok
    · rw [if_neg heq] at he''
      exact h.executions n' e'' he''
  · intro n' hn'
    have hne : n' ≠ n := by
      intro heq
      rw [h.fresh n (heq ▸ hn')] at he
      cases he
    rw [hexec, if_neg hne]
    exact h.fresh n' hn'
  · intro t' n' task' ht'
    rw [hthread] at ht'
    rw [hexec]
    by_cases heq : t' = t
    · rw [if_pos heq] at ht'
      obtain ⟨task'', hnext, hpair⟩ := Option.map_eq_some_iff.mp ht'
      cases hpair
      exact ⟨e', if_pos rfl, hstep.next_ok _ hnext⟩
    · rw [if_neg heq] at ht'
      by_cases hn : n' = n
      · rw [hn] at ht'
        exact ⟨e', if_pos hn, hothers t' task' heq ht'⟩
      · obtain ⟨e₁, he₁, hok'⟩ := h.tasks t' n' task' ht'
        exact ⟨e₁, (if_neg hn).trans he₁, hok'⟩
  · -- Two holders: one of them is the thread that made the step, and it held or began to hold.
    have hone : ∀ t' task' task'', t' ≠ t → (s.threads t').task = some (n, task') →
        task'.holds = true → next = some task'' → task''.holds = true → False := by
      intro t' task' task'' hne ht' hholds' hnext hholds''
      rcases hstep.exclusive with hholds | hfree | ⟨-, hno⟩
      · exact hne (h.exclusive t' t n task' task ht' htask hholds' hholds)
      · obtain ⟨e₁, he₁, hok'⟩ := h.tasks t' n task' ht'
        rw [he] at he₁
        cases he₁
        rw [(hok'.finalizing hholds').1] at hfree
        cases hfree
      · rw [hno task'' hnext] at hholds''
        cases hholds''
    intro t₁ t₂ n' task₁ task₂ h₁ h₂ hholds₁ hholds₂
    rw [hthread] at h₁ h₂
    by_cases heq₁ : t₁ = t
    · by_cases heq₂ : t₂ = t
      · rw [heq₁, heq₂]
      · rw [if_pos heq₁] at h₁
        rw [if_neg heq₂] at h₂
        obtain ⟨task', hnext, hpair⟩ := Option.map_eq_some_iff.mp h₁
        cases hpair
        exact (hone t₂ task₂ task₁ heq₂ h₂ hholds₂ hnext hholds₁).elim
    · rw [if_neg heq₁] at h₁
      by_cases heq₂ : t₂ = t
      · rw [if_pos heq₂] at h₂
        obtain ⟨task', hnext, hpair⟩ := Option.map_eq_some_iff.mp h₂
        cases hpair
        exact (hone t₁ task₁ task₂ heq₁ h₁ hholds₁ hnext hholds₂).elim
      · rw [if_neg heq₂] at h₂
        exact h.exclusive t₁ t₂ n' task₁ task₂ h₁ h₂ hholds₁ hholds₂
  · intro t' ht'
    rw [hthread] at ht'
    by_cases heq : t' = t
    · rw [if_pos heq] at ht'
      rw [heq]
      exact h.owner t ht'
    · rw [if_neg heq] at ht'
      exact h.owner t' ht'
  · exact h.bound
  · exact h.keys
  · intro p hp
    obtain ⟨e₁, he₁, hjob⟩ := h.jobs p hp
    rw [hexec]
    by_cases hn : p.2 = n
    · rw [hn, he] at he₁
      cases he₁
      exact ⟨e', if_pos hn, by rw [hstep.job]; exact hjob⟩
    · exact ⟨e₁, (if_neg hn).trans he₁, hjob⟩
  · intro t'
    rw [hthread]
    by_cases heq : t' = t
    · rw [if_pos heq]
      exact h.cycles t
    · rw [if_neg heq]
      exact h.cycles t'

/-- A new execution has called nothing. -/
theorem newExecution_ok (cfg : Config) (j : Job) (l : JobLease) (now : ℚ) :
    (newExecution cfg j l now).Ok where
  calls := Nat.zero_le _
  untouched _ := rfl
  acknowledged _ _ _ h := nomatch h
  succeeded h := nomatch h

/-- A new execution becomes active under a job id that no active execution has. -/
theorem Inv.admitJob (h : Inv cfg s) {j : Job} (howns : (s.threads t).cycle.owns = true)
    (hcycle : s.active.length + (items.length + 1) ≤ cfg.max_concurrency ∧ ∀ p ∈ s.active, p.1 ∈ admitted)
    (hnew : j.val.job_id ∉ admitted) (l : JobLease) (now : ℚ) :
    Inv cfg { ((s.setExecution s.count (newExecution cfg j l now)).activate j.val.job_id
        s.count).setThread t
        { s.threads t with cycle := .launching s.count items (j.val.job_id :: admitted) } with
      count := s.count + 1 } := by
  have hactive : s.active.filter (·.1 ≠ j.val.job_id) = s.active := by
    rw [List.filter_eq_self]
    intro p hp
    have hne : p.1 ≠ j.val.job_id := fun heq => hnew (heq ▸ hcycle.2 p hp)
    simpa using hne
  have hold : ∀ {n' : ℕ} {e : Execution}, s.executions n' = some e → n' ≠ s.count := by
    intro n' e he heq
    rw [heq, h.fresh s.count le_rfl] at he
    cases he
  generalize hs : ({ ((s.setExecution s.count (newExecution cfg j l now)).activate j.val.job_id
      s.count).setThread t
      { s.threads t with cycle := .launching s.count items (j.val.job_id :: admitted) } with
    count := s.count + 1 } : State) = s'
  have hexec : ∀ n', s'.executions n' =
      if n' = s.count then some (newExecution cfg j l now) else s.executions n' := by
    intro n'
    rw [← hs]
    exact executions_setExecution s s.count n' _
  have hthread : ∀ t', s'.threads t' = if t' = t then
      { s.threads t with cycle := .launching s.count items (j.val.job_id :: admitted) }
      else s.threads t' := by
    intro t'
    rw [← hs]
    exact threads_setThread _ t t' _
  have htask : ∀ t', (s'.threads t').task = (s.threads t').task := by
    intro t'
    rw [hthread]
    by_cases heq : t' = t
    · rw [if_pos heq, heq]
    · rw [if_neg heq]
  have hactive' : s'.active = s.active ++ [(j.val.job_id, s.count)] := by
    rw [← hs]
    exact congrArg (· ++ [(j.val.job_id, s.count)]) hactive
  have hcount : s'.count = s.count + 1 := by rw [← hs]
  have howner : s'.cycle_owner = s.cycle_owner := by
    rw [← hs]
    rfl
  constructor
  · intro n' e he
    rw [hexec] at he
    by_cases heq : n' = s.count
    · rw [if_pos heq] at he
      cases he
      exact newExecution_ok cfg j l now
    · rw [if_neg heq] at he
      exact h.executions n' e he
  · intro n' hn'
    rw [hexec, if_neg (by omega)]
    exact h.fresh n' (by omega)
  · intro t' n' task ht
    rw [htask] at ht
    obtain ⟨e, he, hok⟩ := h.tasks t' n' task ht
    exact ⟨e, by rw [hexec, if_neg (hold he)]; exact he, hok⟩
  · intro t₁ t₂ n' task₁ task₂ h₁ h₂
    rw [htask] at h₁ h₂
    exact h.exclusive t₁ t₂ n' task₁ task₂ h₁ h₂
  · intro t' ht'
    rw [howner]
    rw [hthread] at ht'
    by_cases heq : t' = t
    · rw [heq]
      exact h.owner t howns
    · rw [if_neg heq] at ht'
      exact h.owner t' ht'
  · have hlength := hcycle.1
    rw [hactive', List.length_append, List.length_singleton]
    omega
  · rw [hactive', List.map_append, List.nodup_append]
    refine ⟨h.keys, List.nodup_singleton _, ?_⟩
    intro a ha b hb
    obtain ⟨p, hp, rfl⟩ := List.mem_map.mp ha
    cases List.mem_singleton.mp hb
    intro heq
    have hmem := hcycle.2 p hp
    rw [show p.1 = j.val.job_id from heq] at hmem
    exact hnew hmem
  · intro p hp
    rw [hactive'] at hp
    rcases List.mem_append.mp hp with hp | hp
    · obtain ⟨e, he, hjob⟩ := h.jobs p hp
      exact ⟨e, by rw [hexec, if_neg (hold he)]; exact he, hjob⟩
    · cases List.mem_singleton.mp hp
      exact ⟨newExecution cfg j l now, by rw [hexec, if_pos rfl], rfl⟩
  · intro t'
    rw [hthread, hactive']
    by_cases heq : t' = t
    · rw [if_pos heq]
      refine ⟨?_, ?_⟩
      · have hlength := hcycle.1
        rw [List.length_append, List.length_singleton]
        omega
      · intro p hp
        rcases List.mem_append.mp hp with hp | hp
        · exact List.mem_cons_of_mem _ (hcycle.2 p hp)
        · cases List.mem_singleton.mp hp
          exact List.mem_cons_self
    · -- No other thread owns a cycle.
      rw [if_neg heq]
      have hother : (s.threads t').cycle.owns = false := by
        by_contra hno
        exact heq (Option.some.inj ((h.owner t' (by simpa using hno)).symm.trans (h.owner t howns)))
      cases hc : (s.threads t').cycle with
      | out | entering => exact trivial
      | checking | monitoring | claiming _ _ | admitting _ _ | launching _ _ _ | waiting =>
        rw [hc] at hother
        cases hother

/-- One item of the loop keeps the invariant. -/
theorem Inv.admitItem (h : Inv cfg s) (hcycle : (s.threads t).cycle = .admitting (item :: items) admitted)
    (startable : Bool) :
    Inv cfg (admitItem cfg s t item items admitted startable) := by
  have hok := h.cycles t
  rw [hcycle] at hok
  have howns : (s.threads t).cycle.owns = true := by
    rw [hcycle]
    rfl
  obtain ⟨hlength, hkeys⟩ : s.active.length + (items.length + 1) ≤ cfg.max_concurrency ∧
    ∀ p ∈ s.active, p.1 ∈ admitted := hok
  unfold Worker.admitItem
  dsimp only
  cases hclaim : validateClaim cfg s.last_now item with
  | none => exact h.moveCycle howns ⟨by omega, hkeys⟩
  | some x =>
    obtain ⟨j, l⟩ := x
    dsimp only
    by_cases hmem : j.val.job_id ∈ admitted
    · rw [if_pos hmem]
      exact h.moveCycle howns ⟨by omega, hkeys⟩
    · rw [if_neg hmem]
      split
      · exact h.moveCycle howns ⟨by omega, fun p hp => List.mem_cons_of_mem _ (hkeys p hp)⟩
      · exact h.admitJob howns ⟨hlength, hkeys⟩ hmem l s.last_now

/-- The start of a thread keeps the invariant. -/
theorem Inv.launch (h : Inv cfg s) (hcycle : (s.threads t).cycle = .launching n items admitted)
    (he : s.executions n = some e) (l : Launch) : Inv cfg (launchExecution s t n items admitted e l) := by
  have hok := h.cycles t
  rw [hcycle] at hok
  have howns : (s.threads t).cycle.owns = true := by
    rw [hcycle]
    rfl
  have hstarted : Frame e { e with phase := .running, launched := true } :=
    ⟨rfl, rfl, rfl, rfl, rfl, rfl, id⟩
  have hnotStarted : Frame e { e with launch_failed := true, handler_done := true,
                                      error := some (.other none) } :=
    ⟨rfl, rfl, rfl, rfl, rfl, rfl, fun _ => rfl⟩
  cases l with
  | started => exact Inv.moveCycle (c := .admitting items admitted) (h.frame he hstarted) howns hok
  | notStarted =>
    exact Inv.moveCycle (c := .admitting items admitted) (h.frame he hnotStarted) howns hok
  | interrupted => exact (h.sublist List.filter_sublist).leaveCycle t
  | startedInterrupted => exact (h.frame he hstarted).leaveCycle t

/-- A change of what the invariant does not speak of. -/
theorem Inv.congr (h : Inv cfg s) (hexec : s'.executions = s.executions) (hcount : s'.count = s.count)
    (hactive : s'.active = s.active) (hthreads : s'.threads = s.threads)
    (howner : s'.cycle_owner = s.cycle_owner) : Inv cfg s' := by
  obtain ⟨executions, fresh, tasks, exclusive, owner, bound, keys, jobs, cycles⟩ := h
  constructor <;> simp only [hexec, hcount, hactive, hthreads, howner] <;> assumption

/-- What an execution may become: its outcome stays, and calls are only added. -/
structure Continues (e e' : Execution) : Prop where
  outcome : ∀ o, e.outcome = some o → e'.outcome = some o
  calls : e.calls <+: e'.calls

/-- The executions of a state, later. -/
def Grows (s s' : State) : Prop :=
  ∀ n e, s.executions n = some e → ∃ e', s'.executions n = some e' ∧ Continues e e'

/-- The executions stay. -/
theorem Grows.of_eq (h : s'.executions = s.executions) : Grows s s' := by
  intro n e he
  exact ⟨e, h ▸ he, fun _ ho => ho, List.prefix_rfl⟩

/-- One execution goes on. -/
theorem Grows.of_set (he : s.executions n = some e)
    (h : ∀ n', s'.executions n' = if n' = n then some e' else s.executions n') (hcontinues : Continues e e') :
    Grows s s' := by
  intro n' e'' he''
  rw [h]
  by_cases heq : n' = n
  · rw [heq, he] at he''
    cases he''
    exact ⟨e', if_pos heq, hcontinues⟩
  · exact ⟨e'', (if_neg heq).trans he'', fun _ ho => ho, List.prefix_rfl⟩

/-- A thread that does not finalize an execution lets it go on. -/
theorem Frame.continues (h : Frame e e') : Continues e e' :=
  ⟨fun _ ho => h.outcome.trans ho, h.calls ▸ List.prefix_rfl⟩

/-- A thread that leaves its cycle keeps the executions. -/
theorem executions_leaveCycle (s : State) (t : ℕ) : (s.leaveCycle t).executions = s.executions := by
  unfold State.leaveCycle
  dsimp only
  split <;> rfl

/-- One item of the loop lets the executions go on. -/
theorem grows_admitItem (h : Inv cfg s) {startable : Bool} :
    Grows s (admitItem cfg s t item items admitted startable) := by
  unfold admitItem
  dsimp only
  cases validateClaim cfg s.last_now item with
  | none => exact .of_eq rfl
  | some x =>
    obtain ⟨j, l⟩ := x
    dsimp only
    split
    · exact .of_eq rfl
    · split
      · exact .of_eq rfl
      · intro n e he
        have hne : n ≠ s.count := by
          intro heq
          rw [heq, h.fresh s.count le_rfl] at he
          cases he
        refine ⟨e, ?_, fun _ ho => ho, List.prefix_rfl⟩
        exact (executions_setExecution s s.count n _).trans ((if_neg hne).trans he)

/-- The start of a thread lets the executions go on. -/
theorem grows_launch (he : s.executions n = some e) (l : Launch) :
    Grows s (launchExecution s t n items admitted e l) := by
  cases l with
  | started =>
    exact .of_set he (fun n' => executions_setExecution s n n' _) ⟨fun _ ho => ho, List.prefix_rfl⟩
  | notStarted =>
    exact .of_set he (fun n' => executions_setExecution s n n' _) ⟨fun _ ho => ho, List.prefix_rfl⟩
  | interrupted => exact .of_eq (executions_leaveCycle _ t)
  | startedInterrupted =>
    have hcontinues : Continues e { e with phase := .running, launched := true } :=
      ⟨fun _ ho => ho, List.prefix_rfl⟩
    refine .of_set he (fun n' => ?_) hcontinues
    show ((s.setExecution n _).leaveCycle t).executions n' = _
    rw [executions_leaveCycle]
    exact executions_setExecution s n n' _

/-- Every step keeps the invariant, and the executions go on. -/
theorem step_inv {l : Label} (hstep : step cfg s l = some s') (h : Inv cfg s) :
    Inv cfg s' ∧ Grows s s' := by
  cases l with
  | tick observed =>
    cases hstep
    exact ⟨h.congr rfl rfl rfl rfl rfl, .of_eq rfl⟩
  | startPass t =>
    simp only [step] at hstep
    split at hstep
    · split at hstep
      · cases hstep
        exact ⟨h.keepThread rfl rfl, .of_eq rfl⟩
      · cases hstep
        exact ⟨h.keepThread rfl rfl, .of_eq rfl⟩
      · cases hstep
        exact ⟨h.keepThread rfl rfl, .of_eq rfl⟩
      · cases hstep
    · cases hstep
  | inspect t =>
    simp only [step] at hstep
    split at hstep
    · cases hstep
      rename_i now n rest hpass hnone
      refine ⟨h.setThread ?_ (h.owner t) (h.cycles t), .of_eq rfl⟩
      intro n' task ht
      right
      obtain ⟨task', hinspect, hpair⟩ := Option.map_eq_some_iff.mp ht
      cases hpair
      obtain ⟨e, he, hinspect⟩ := Option.bind_eq_some_iff.mp hinspect
      have hok : task.holds = false ∧ TaskOk e task := by
        unfold Execution.inspect at hinspect
        split_ifs at hinspect <;> cases hinspect
        · exact ⟨rfl, trivial⟩
        · exact ⟨rfl, trivial⟩
        · exact ⟨rfl, trivial⟩
        · exact ⟨rfl, by assumption⟩
        · exact ⟨rfl, trivial⟩
      exact ⟨hok.1, e, he, hok.2⟩
    · cases hstep
  | endPass t =>
    simp only [step] at hstep
    split at hstep
    · cases hstep
      have hthread : Inv cfg (s.setThread t { s.threads t with pass := none }) :=
        h.keepThread rfl rfl
      exact ⟨hthread.reap, .of_eq rfl⟩
    · cases hstep
  | work t a =>
    simp only [step] at hstep
    split at hstep
    · next n task htask =>
      obtain ⟨e, he, hs⟩ := Option.map_eq_some_iff.mp hstep
      cases hs
      refine ⟨h.work htask he s.last_now a,
        .of_set he (fun n' => executions_setExecution s n n' _) ?_⟩
      obtain ⟨e₀, he₀, hok⟩ := h.tasks t n task htask
      cases he.symm.trans he₀
      have hstep : StepOk e task (task.step cfg e s.last_now a).1 (task.step cfg e s.last_now a).2 :=
        task_step_ok (h.executions n e he) hok s.last_now a
      exact ⟨hstep.outcome, hstep.calls⟩
    · cases hstep
  | abort t =>
    cases hstep
    have hleft := h.leaveCycle t
    exact ⟨hleft.setThread (fun _ _ ht => nomatch ht) (hleft.owner t) (hleft.cycles t),
      .of_eq (executions_leaveCycle s t)⟩
  | enter t =>
    simp only [step] at hstep
    split at hstep
    · split at hstep
      · cases hstep
        have hthread : Inv cfg (s.setThread t { s.threads t with cycle := .entering }) :=
          h.setThread (fun _ _ ht => .inl ht) (fun howns => nomatch howns) trivial
        exact ⟨hthread.congr rfl rfl rfl rfl rfl, .of_eq rfl⟩
      · cases hstep
    · cases hstep
  | take t =>
    simp only [step] at hstep
    split at hstep
    · split at hstep
      · cases hstep
        exact ⟨h.leaveCycle t, .of_eq (executions_leaveCycle s t)⟩
      · next hcycle hfree =>
        cases hstep
        push Not at hfree
        have hnone : s.cycle_owner = none := hfree.2
        -- No thread owns a cycle, and this one takes it.
        have htaken : Inv cfg { s with cycle_owner := some t } := by
          refine ⟨h.executions, h.fresh, h.tasks, h.exclusive, ?_, h.bound, h.keys, h.jobs, h.cycles⟩
          intro t' ht'
          have howner := h.owner t' ht'
          rw [hnone] at howner
          cases howner
        have hthread : Inv cfg (({ s with cycle_owner := some t } : State).setThread t
            { s.threads t with cycle := .checking }) :=
          htaken.setThread (fun _ _ ht => .inl ht) (fun _ => rfl) trivial
        exact ⟨hthread.congr rfl rfl rfl rfl rfl, .of_eq rfl⟩
    · cases hstep
  | check t =>
    simp only [step] at hstep
    split at hstep
    · next hcycle =>
      split at hstep
      · cases hstep
        exact ⟨h.leaveCycle t, .of_eq (executions_leaveCycle s t)⟩
      · cases hstep
        exact ⟨h.moveCycle (by rw [hcycle]; rfl) trivial, .of_eq rfl⟩
    · cases hstep
  | observe t =>
    simp only [step] at hstep
    split at hstep
    · next hcycle =>
      have howns : (s.threads t).cycle.owns = true := by
        rw [hcycle]
        rfl
      split at hstep
      · split at hstep
        · cases hstep
          exact ⟨h.moveCycle howns ⟨by omega, fun p hp => List.mem_map_of_mem hp⟩, .of_eq rfl⟩
        · cases hstep
          exact ⟨h.moveCycle howns trivial, .of_eq rfl⟩
      · cases hstep
    · cases hstep
  | claim t items =>
    simp only [step] at hstep
    split at hstep
    · next capacity admitted hcycle =>
      cases hstep
      have hok := h.cycles t
      rw [hcycle] at hok
      obtain ⟨hlength, hkeys⟩ : s.active.length + capacity ≤ cfg.max_concurrency ∧
        ∀ p ∈ s.active, p.1 ∈ admitted := hok
      refine ⟨h.moveCycle (by rw [hcycle]; rfl) ⟨?_, hkeys⟩, .of_eq rfl⟩
      split
      · omega
      · simp only [List.length_nil]
        omega
    · cases hstep
  | admitJob t startable =>
    simp only [step] at hstep
    split at hstep
    · next hcycle =>
      cases hstep
      exact ⟨h.admitItem hcycle startable, grows_admitItem h⟩
    · cases hstep
  | launch t l =>
    simp only [step] at hstep
    split at hstep
    · next hcycle =>
      obtain ⟨e, he, hs⟩ := Option.map_eq_some_iff.mp hstep
      cases hs
      exact ⟨h.launch hcycle he l, grows_launch he l⟩
    · cases hstep
  | wait t =>
    simp only [step] at hstep
    split at hstep
    · next hcycle =>
      cases hstep
      exact ⟨h.moveCycle (by rw [hcycle]; rfl) trivial, .of_eq rfl⟩
    · cases hstep
  | leave t =>
    simp only [step] at hstep
    split at hstep
    · split at hstep
      · cases hstep
        exact ⟨h.reap.leaveCycle t, .of_eq (executions_leaveCycle s.reap t)⟩
      · cases hstep
    · cases hstep
  | enterDaemon t =>
    simp only [step] at hstep
    split at hstep
    · cases hstep
      exact ⟨h.congr rfl rfl rfl rfl rfl, .of_eq rfl⟩
    · cases hstep
  | leaveDaemon t =>
    simp only [step] at hstep
    split at hstep
    · cases hstep
      exact ⟨h.congr rfl rfl rfl rfl rfl, .of_eq rfl⟩
    · cases hstep
  | cancelJob t job_id =>
    simp only [step] at hstep
    split at hstep
    · cases hstep
      exact ⟨h.keepThread rfl rfl, .of_eq rfl⟩
    · cases hstep
  | request t =>
    simp only [step] at hstep
    split at hstep
    · next n rest hrequests =>
      obtain ⟨e, he, hs⟩ := Option.map_eq_some_iff.mp hstep
      cases hs
      have hframe : Frame e (if e.outcome.isSome then e
          else { e with cancel_requested := true, token := true }) := by
        split
        · exact .refl e
        · exact ⟨rfl, rfl, rfl, rfl, rfl, rfl, id⟩
      exact ⟨(h.frame he hframe).keepThread rfl rfl,
        .of_set he (fun n' => executions_setExecution s n n' _) hframe.continues⟩
    · cases hstep
  | shutdown t =>
    simp only [step] at hstep
    split at hstep
    · split at hstep
      · cases hstep
        exact ⟨h, .of_eq rfl⟩
      · cases hstep
        have hthread : Inv cfg
            (s.setThread t { s.threads t with requests := s.active.map Prod.snd }) :=
          h.keepThread rfl rfl
        exact ⟨hthread.congr rfl rfl rfl rfl rfl, .of_eq rfl⟩
    · cases hstep
  | close t =>
    simp only [step] at hstep
    split at hstep
    · cases hstep
      exact ⟨h.congr rfl rfl rfl rfl rfl, .of_eq rfl⟩
    · cases hstep
  | requestStop =>
    cases hstep
    exact ⟨h.congr rfl rfl rfl rfl rfl, .of_eq rfl⟩
  | handlerReturns n out =>
    obtain ⟨e, he, hs⟩ := Option.bind_eq_some_iff.mp hstep
    split at hs
    · cases out with
      | ok result =>
        cases hs
        have hframe : Frame e { e with phase := .returned, result := result } :=
          ⟨rfl, rfl, rfl, rfl, rfl, rfl, id⟩
        exact ⟨h.frame he hframe,
          .of_set he (fun n' => executions_setExecution s n n' _) hframe.continues⟩
      | error error =>
        cases hs
        have hframe : Frame e { e with phase := .returned, error := some error } :=
          ⟨rfl, rfl, rfl, rfl, rfl, rfl, id⟩
        exact ⟨h.frame he hframe,
          .of_set he (fun n' => executions_setExecution s n n' _) hframe.continues⟩
    · cases hs
  | handlerDone n =>
    obtain ⟨e, he, hs⟩ := Option.bind_eq_some_iff.mp hstep
    split at hs
    · cases hs
      have hframe : Frame e { e with handler_done := true } :=
        ⟨rfl, rfl, rfl, rfl, rfl, rfl, fun _ => rfl⟩
      exact ⟨h.frame he hframe, .of_set he (fun n' => executions_setExecution s n n' _) hframe.continues⟩
    · cases hs
  | handlerExits n =>
    obtain ⟨e, he, hs⟩ := Option.bind_eq_some_iff.mp hstep
    split at hs
    · cases hs
      have hframe : Frame e { e with phase := .exited } := ⟨rfl, rfl, rfl, rfl, rfl, rfl, id⟩
      exact ⟨h.frame he hframe, .of_set he (fun n' => executions_setExecution s n n' _) hframe.continues⟩
    · cases hs
  | reap =>
    cases hstep
    exact ⟨h.reap, .of_eq rfl⟩

/-- The scope of the example. -/
def runningScope : JobScope := ⟨⟨"t1", "w1", "c1"⟩, by decide +kernel⟩

/-- The lease of the example. -/
def runningLease : JobLease :=
  ⟨{ job_id := "job-1", scope := runningScope, worker_id := "w", token := "token-1", acquired_at := 0,
     expires_at := 60, heartbeat_at := 0 }, by decide +kernel⟩

/-- The result of the example. -/
def runningResult : JobResult := ⟨⟨[], none, 2⟩, by decide +kernel⟩

/-- A worker with one thread for handlers. -/
def singleWorker : Config where
  scope := runningScope
  worker_id := "w"
  max_concurrency := 1
  handler_timeout_seconds := 30
  heartbeat_interval_seconds := none
  max_payload_bytes := 1024
  payloadSize _ := 2
  registered operation := operation == "ingest"
  hasCancelLease := true

/-- A cycle that claims a job, whose handler returns a result that the next pass acknowledges. -/
def acknowledgedRun : List Label :=
  [.tick 1, .enter 0, .take 0, .check 0, .observe 0, .claim 0 [some (runningJob, runningLease)],
    .admitJob 0 true, .launch 0 .started, .handlerReturns 0 (.ok (some runningResult)), .handlerDone 0,
    .wait 0, .startPass 0, .inspect 0, .work 0 .other, .work 0 .other, .work 0 .other, .work 0 .other]

/-- **One outcome and one call of the queue for each execution.** In every run of the runtime, at most
`max_concurrency` executions are active, each under its own job id; for every execution the queue is
called once at most to acknowledge, to fail or to cancel the lease; an acknowledgement is made only on
a handler that had ended with the result before the deadline, with no loss of the lease, timeout or
cancellation recorded when its finalization began; the outcome is a success only if the queue returned
the job as one that succeeded; and the outcome never changes, as the run goes on. -/
theorem execution_invariant (cfg : Config) (labels : List Label) (s : State)
    (hrun : execAll (step cfg) State.initial labels = some s) :
    s.active.length ≤ cfg.max_concurrency ∧ (s.active.map Prod.fst).Nodup ∧
    (∀ p ∈ s.active, ∃ e, s.executions p.2 = some e ∧ e.job.val.job_id = p.1) ∧
    ∀ n e, s.executions n = some e →
      e.calls.length ≤ 1 ∧
      (∀ seen now result, .acknowledge seen now result ∈ e.calls →
        Acknowledges e.deadline seen now result) ∧
      (e.outcome = some .succeeded → e.Succeeded) ∧
      ∀ labels' s', execAll (step cfg) s labels' = some s' →
        ∃ e', s'.executions n = some e' ∧ (∀ o, e.outcome = some o → e'.outcome = some o) ∧
          e.calls <+: e'.calls := by
  have hinv : Inv cfg s := trace_invariant (I := fun _ s => Inv cfg s) (inv_initial cfg)
    (fun _ _ _ _ _ hu he => (step_inv he hu).1) hrun
  refine ⟨hinv.bound, hinv.keys, hinv.jobs, ?_⟩
  intro n e he
  have hok := hinv.executions n e he
  refine ⟨hok.calls, hok.acknowledged, hok.succeeded, ?_⟩
  intro labels' s' hrun'
  have hlater : Inv cfg s' ∧ ∃ e', s'.executions n = some e' ∧ Continues e e' := by
    refine trace_invariant (I := fun _ s' => Inv cfg s' ∧
      ∃ e', s'.executions n = some e' ∧ Continues e e') ?_ ?_ hrun'
    · exact ⟨hinv, e, he, fun _ ho => ho, List.prefix_rfl⟩
    · intro _ u l u' _ ⟨hu, e₁, he₁, hcontinues⟩ hstep
      obtain ⟨hu', hgrows⟩ := step_inv hstep hu
      obtain ⟨e₂, he₂, hcontinues'⟩ := hgrows n e₁ he₁
      exact ⟨hu', e₂, he₂, fun o ho => hcontinues'.outcome o (hcontinues.outcome o ho),
        hcontinues.calls.trans hcontinues'.calls⟩
  obtain ⟨-, e', he', hcontinues⟩ := hlater
  exact ⟨e', he', hcontinues.outcome, hcontinues.calls⟩

/-- The cycle of the example acknowledges its job, and once. -/
theorem acknowledgedRun_once : ∃ s e,
    execAll (step singleWorker) State.initial acknowledgedRun = some s ∧ s.executions 0 = some e ∧
      e.calls ≠ [] ∧ e.calls.length ≤ 1 ∧ s.active.length ≤ singleWorker.max_concurrency := by
  have hsome : (((execAll (step singleWorker) State.initial acknowledgedRun).bind
      fun s => s.executions 0).any fun e => !e.calls.isEmpty) = true := by decide +kernel
  obtain ⟨e, hbind, hcalls⟩ := (Option.any_eq_true _ _).mp hsome
  obtain ⟨s, hrun, he⟩ := Option.bind_eq_some_iff.mp hbind
  have hinv := execution_invariant singleWorker acknowledgedRun s hrun
  refine ⟨s, e, hrun, he, ?_, (hinv.2.2.2 0 e he).1, hinv.1⟩
  intro hnil
  rw [hnil] at hcalls
  cases hcalls

end RickIntelligence.Worker
