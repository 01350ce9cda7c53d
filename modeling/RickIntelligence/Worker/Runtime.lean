import RickIntelligence.Worker.Handler

/-!
# The runtime of a worker

`RealWorkerRuntime` of `apps/worker/runtime.py` as a machine. Any number of threads call it: they drive
polling cycles (`run_once`, `run_forever`), look after the executions (`_monitor_active`), cancel a job
or shut the runtime down, and every execution has a handler in a thread of its own. A label is one step
of one thread up to the next boundary of a lock, a call of the queue or a reading of the clock, with
the answer that the environment gives. The queue and the handlers answer anything.

What a thread does to one execution is a task (`Task.step`); a task that has begun a finalization holds
the execution until it has recorded the outcome (`Task.holds`). The calls that change the queue and
their answers are kept in a record of the execution, which the program does not read.
-/

namespace RickIntelligence.Worker

open Lib Jobs

/-! ## Executions -/

/-- The outcomes of an execution. -/
inductive Outcome where
  | succeeded
  | failed
  | cancelled
  | leaseLost
  | queueError
  deriving DecidableEq, Repr

/-- The answers of the queue: a job, a lease, something else, or an error, which may be one about the
lease. -/
inductive Answer where
  | job (j : Job)
  | lease (l : JobLease)
  | other
  | error (isLease : Bool)

/-- What `_finalize_handler` saw of an execution under its lock. -/
structure Seen where
  handler_done : Bool
  observation : Observation

/-- The calls that change the job of an execution in the queue. An acknowledgement is kept with what
was seen when the finalization of the handler began, and the time. -/
inductive Call where
  | acknowledge (seen : Seen) (now : ℚ) (result : JobResult)
  | fail (failure : JobFailure)
  | cancelLease

/-- The thread of a handler. -/
inductive Phase where
  | notStarted
  | running
  | returned
  | exited
  deriving DecidableEq, Repr

/-- `_Execution`. The outcome and `logical_done` are set together, so one stands for both. -/
structure Execution where
  job : Job
  lease : JobLease
  deadline : ℚ
  next_heartbeat_at : ℚ
  handler_done : Bool
  result : Option JobResult
  error : Option HandlerError
  outcome : Option Outcome
  failure_code : Option String
  launched : Bool
  launch_failed : Bool
  cancel_requested : Bool
  token : Bool
  lease_lost : Bool
  finalizing : Bool
  timed_out : Bool
  queue_error_detected : Bool
  phase : Phase
  /-- The calls that changed the queue. -/
  calls : List Call
  /-- The answers to these calls. -/
  answers : List Answer

/-- The parts of the runtime that are configured. -/
structure Config where
  scope : JobScope
  worker_id : String
  max_concurrency : ℕ
  handler_timeout_seconds : ℚ
  heartbeat_interval_seconds : Option ℚ
  max_payload_bytes : ℕ
  payloadSize : Job → ℕ
  registered : String → Bool
  hasCancelLease : Bool

/-- `_lease_interval`. -/
def Config.leaseInterval (cfg : Config) (l : JobLease) : ℚ :=
  match cfg.heartbeat_interval_seconds with
  | some interval => interval
  | none => max (1 / 100) (min 10 (max (1 / 100) (l.val.expires_at - l.val.acquired_at) / 3))

namespace Execution

/-- A finalization has begun, or is over. -/
def busy (e : Execution) : Bool := e.outcome.isSome || e.finalizing

/-- What `_finalize_handler` reads. -/
def seen (e : Execution) : Seen :=
  ⟨e.handler_done, ⟨e.launch_failed, e.error, e.result, e.cancel_requested || e.token, e.lease_lost,
    e.timed_out⟩⟩

/-- `_record_outcome`: the first outcome stays. -/
def record (e : Execution) (outcome : Outcome) (code : Option String) : Execution :=
  if e.outcome.isSome then e else { e with outcome := some outcome, failure_code := code }

/-- The job is the one of the execution. -/
def isOwn (e : Execution) (j : Job) : Bool :=
  j.val.job_id == e.job.val.job_id && decide (j.scope = e.job.scope)

end Execution

/-! ## Tasks -/

/-- What a thread is about to do to an execution. -/
inductive Task where
  /-- `_finalize_lease_lost`. -/
  | leaseLost
  /-- `_finalize_cancel`. -/
  | cancel
  /-- The timeout is recorded, then the execution fails. -/
  | timeout
  /-- `_finalize_failure`. -/
  | fail (code : String) (retryable : Bool)
  /-- `_finalize_handler`. -/
  | handler
  /-- `_finalize_handler` has read the execution and decides. -/
  | plan (seen : Seen)
  /-- `_finalize_handler` has decided to acknowledge. -/
  | acknowledge (seen : Seen) (now : ℚ) (result : JobResult)
  /-- `_heartbeat`. -/
  | heartbeat (now : ℚ)
  /-- The heartbeat failed. -/
  | heartbeatFailed
  /-- The lease was renewed. -/
  | renewed (lease : JobLease) (now : ℚ)
  /-- The finalization holds the execution, and cancels the lease. -/
  | releasing
  | released
  | releaseFailed
  /-- The finalization holds the execution, and fails the job. -/
  | failing (code : String) (retryable : Bool)
  | failed (code : String)
  /-- The finalization holds the execution, and acknowledges the job. -/
  | acknowledging (seen : Seen) (now : ℚ) (result : JobResult)
  | acknowledged
  /-- The finalization holds the execution, and records its outcome. -/
  | ending (outcome : Outcome) (code : Option String)

/-- The task has begun a finalization that is not over. -/
def Task.holds : Task → Bool
  | .releasing | .released | .releaseFailed | .failing _ _ | .failed _ | .acknowledging _ _ _
  | .acknowledged | .ending _ _ => true
  | _ => false

/-- `_begin_finalization`: the task goes on with the execution, or is over. -/
def begin (e : Execution) (next : Task) : Execution × Option Task :=
  if e.busy then (e, none) else ({ e with finalizing := true }, some next)

/-- The result of a call of the queue that raised. -/
def raised (isLease : Bool) (code : Option String) : Task :=
  if isLease then .ending .leaseLost none else .ending .queueError code

/-- What `_release_cancelled_lease` makes of the answer. -/
def afterRelease (e : Execution) : Answer → Task
  | .error true => .ending .leaseLost none
  | .error false => .releaseFailed
  | .job j =>
    if !e.isOwn j || j.val.state == .pending then .ending .queueError none
    else if j.val.state == .succeeded then .ending .succeeded none
    else if j.val.state == .running then .ending .leaseLost none
    else .ending .cancelled none
  | _ => .ending .queueError none

/-- What `_finalize_failure` makes of the answer. -/
def afterFail (e : Execution) (code : String) : Answer → Task
  | .error isLease => raised isLease (some code)
  | .job j =>
    if !e.isOwn j || j.val.state == .pending then .ending .queueError (some code)
    else if j.val.state == .succeeded then .ending .succeeded none
    else if j.val.state == .running then .ending .leaseLost none
    else if j.val.state == .cancelled then .ending .cancelled none
    else .ending .failed (some code)
  | _ => .ending .queueError (some code)

/-- What `_finalize_handler` makes of the answer to an acknowledgement. -/
def afterAcknowledge (e : Execution) : Answer → Task
  | .error isLease => raised isLease none
  | .job j =>
    if !e.isOwn j then .ending .queueError none
    else if j.val.state == .running then .ending .leaseLost none
    else if j.val.state == .succeeded then .ending .succeeded none
    else .ending .queueError none
  | _ => .ending .queueError none

/-- The lease that the queue returned is that of the execution. -/
def validRenewal (cfg : Config) (e : Execution) (l : JobLease) : Bool :=
  l.val.job_id == e.lease.val.job_id && decide (l.val.scope.val = e.lease.val.scope.val) &&
    l.val.worker_id == e.lease.val.worker_id && l.val.token == e.lease.val.token &&
    l.val.job_id == e.job.val.job_id && decide (l.val.scope.val = e.job.scope) &&
    l.val.worker_id == cfg.worker_id

/-- One step of a task, at the time `now`, with the answer of the environment if it asks for one. -/
def Task.step (cfg : Config) (e : Execution) (now : ℚ) (a : Answer) : Task → Execution × Option Task
  | .leaseLost => begin e (.ending .leaseLost none)
  | .cancel => begin e (if cfg.hasCancelLease then .releasing else .ending .cancelled none)
  | .timeout => ({ e with timed_out := true, token := true }, some (.fail "handler_timeout" true))
  | .fail code retryable => begin e (.failing code retryable)
  | .handler => (e, some (.plan e.seen))
  | .plan seen =>
    match handlerPlan seen.observation now e.deadline with
    | .leaseLost => (e, some .leaseLost)
    | .cancel => (e, some .cancel)
    | .timeout => (e, some .timeout)
    | .fail code retryable => (e, some (.fail code retryable))
    | .acknowledge result => (e, some (.acknowledge seen now result))
  | .acknowledge seen now result => begin e (.acknowledging seen now result)
  | .heartbeat now =>
    match a with
    | .lease l => if validRenewal cfg e l then (e, some (.renewed l now)) else (e, some .heartbeatFailed)
    | _ => (e, some .heartbeatFailed)
  | .heartbeatFailed => ({ e with lease_lost := true, token := true }, some .leaseLost)
  | .renewed l now =>
    if e.outcome.isSome then (e, none)
    else ({ e with
      lease := l
      next_heartbeat_at := max now l.val.heartbeat_at + cfg.leaseInterval l }, none)
  | .releasing => ({ e with calls := e.calls ++ [.cancelLease] }, some .released)
  | .released => ({ e with answers := e.answers ++ [a] }, some (afterRelease e a))
  | .releaseFailed => ({ e with queue_error_detected := true }, some (.ending .cancelled none))
  | .failing code retryable =>
    -- The clock may raise before the queue is called.
    match a with
    | .error isLease => (e, some (raised isLease (some code)))
    | _ =>
      match failureOf e.job code retryable now with
      | none => (e, some (.ending .queueError (some code)))
      | some f => ({ e with calls := e.calls ++ [.fail f] }, some (.failed code))
  | .failed code => ({ e with answers := e.answers ++ [a] }, some (afterFail e code a))
  | .acknowledging seen now result =>
    -- An injected fault may raise before the queue is called.
    match a with
    | .error isLease => (e, some (raised isLease none))
    | _ => ({ e with calls := e.calls ++ [.acknowledge seen now result] }, some .acknowledged)
  | .acknowledged => ({ e with answers := e.answers ++ [a] }, some (afterAcknowledge e a))
  | .ending outcome code => ({ e.record outcome code with finalizing := false }, none)

/-- `_monitor_one`: what a monitor does to an execution. -/
def Execution.inspect (e : Execution) (now : ℚ) : Option Task :=
  if e.busy then none
  else if e.lease_lost then some .leaseLost
  else if e.cancel_requested || e.token then some .cancel
  else if e.deadline ≤ now then some .timeout
  else if e.handler_done then some .handler
  else if e.next_heartbeat_at ≤ now then some (.heartbeat now)
  else none

/-! ## Threads -/

/-- An item that the queue returned for a claim; what is no pair of a job and a lease is none. -/
abbrev Item := Option (Job × JobLease)

/-- Where a thread is in a polling cycle. -/
inductive Cycle where
  | out
  /-- It holds the drive lock, and is about to take the cycle. -/
  | entering
  /-- It owns the cycle, and is about to check the flags of the runtime. -/
  | checking
  /-- The executions are looked after before the claim. -/
  | monitoring
  | claiming (capacity : ℕ) (admitted : List String)
  | admitting (items : List Item) (admitted : List String)
  /-- The execution is active, and its thread is about to start. -/
  | launching (n : ℕ) (items : List Item) (admitted : List String)
  | waiting

/-- The thread owns the cycle. -/
def Cycle.owns : Cycle → Bool
  | .out | .entering => false
  | _ => true

/-- A thread: its polling cycle, its pass over the executions with the time that it read, its task, and
the executions that it is about to cancel. -/
structure Thread where
  cycle : Cycle
  pass : Option (ℚ × List ℕ)
  task : Option (ℕ × Task)
  requests : List ℕ

/-- A thread that is not in a call of the runtime. -/
def Thread.idle : Thread := ⟨.out, none, none, []⟩

/-- The runtime. -/
structure State where
  executions : ℕ → Option Execution
  count : ℕ
  active : List (String × ℕ)
  threads : ℕ → Thread
  drive_owner : Option ℕ
  cycle_owner : Option ℕ
  daemon_owner : Option ℕ
  closing : Bool
  closed : Bool
  stop_requested : Bool
  last_now : ℚ

/-- A runtime that has not started. -/
def State.initial : State :=
  ⟨fun _ => none, 0, [], fun _ => Thread.idle, none, none, none, false, false, false, 0⟩

namespace State

/-- The state with another thread. -/
def setThread (s : State) (t : ℕ) (th : Thread) : State :=
  { s with threads := Function.update s.threads t th }

/-- The state with another execution. -/
def setExecution (s : State) (n : ℕ) (e : Execution) : State :=
  { s with executions := Function.update s.executions n (some e) }

/-- An execution is removed when its handler, its outcome and its thread are done. -/
def finished (s : State) (n : ℕ) : Bool :=
  (s.executions n).any fun e => e.handler_done && e.outcome.isSome &&
    (e.phase == .notStarted || e.phase == .exited)

/-- `_reap`. -/
def reap (s : State) : State := { s with active := s.active.filter fun p => !s.finished p.2 }

/-- `_active[job_id] = execution`. -/
def activate (s : State) (id : String) (n : ℕ) : State :=
  { s with active := s.active.filter (·.1 ≠ id) ++ [(id, n)] }

/-- The thread leaves its polling cycle. -/
def leaveCycle (s : State) (t : ℕ) : State :=
  let s' := s.setThread t { s.threads t with cycle := .out }
  match (s.threads t).cycle with
  | .out => s'
  | .entering => { s' with drive_owner := none }
  | _ => { s' with drive_owner := none, cycle_owner := none }

end State

/-- `_validate_claim`. -/
def validateClaim (cfg : Config) (now : ℚ) : Item → Option (Job × JobLease)
  | none => none
  | some (j, l) =>
    if j.scope = cfg.scope.val ∧ l.val.scope.val = cfg.scope.val ∧ l.val.worker_id = cfg.worker_id ∧
        l.val.job_id = j.val.job_id ∧ j.val.state = .running ∧ l.val.acquired_at ≤ now ∧
        now < l.val.expires_at then some (j, l)
    else none

/-- The execution that `_start_execution` makes. -/
def newExecution (cfg : Config) (j : Job) (l : JobLease) (now : ℚ) : Execution where
  job := j
  lease := l
  deadline := now + cfg.handler_timeout_seconds
  next_heartbeat_at := now + cfg.leaseInterval l
  handler_done := false
  result := none
  error := none
  outcome := none
  failure_code := none
  launched := false
  launch_failed := false
  cancel_requested := false
  token := false
  lease_lost := false
  finalizing := false
  timed_out := false
  queue_error_detected := false
  phase := .notStarted
  calls := []
  answers := []

/-- How the start of a thread ends: the handler runs; it does not run; or an error that is not handled
ends the cycle, with or without a handler that runs. -/
inductive Launch where
  | started
  | notStarted
  | interrupted
  | startedInterrupted

/-! ## The machine -/

/-- The steps of the runtime. -/
inductive Label where
  /-- The clock is read. -/
  | tick (observed : ℚ)
  /-- `_monitor_active`. -/
  | startPass (t : ℕ)
  | inspect (t : ℕ)
  | endPass (t : ℕ)
  /-- A step of a task. -/
  | work (t : ℕ) (a : Answer)
  /-- An error that is not handled ends the call of a thread. -/
  | abort (t : ℕ)
  /-- `run_once`. -/
  | enter (t : ℕ)
  | take (t : ℕ)
  | check (t : ℕ)
  | observe (t : ℕ)
  | claim (t : ℕ) (items : List Item)
  | admitJob (t : ℕ) (startable : Bool)
  | launch (t : ℕ) (l : Launch)
  | wait (t : ℕ)
  | leave (t : ℕ)
  /-- `run_forever`. -/
  | enterDaemon (t : ℕ)
  | leaveDaemon (t : ℕ)
  /-- `cancel`. -/
  | cancelJob (t : ℕ) (job_id : String)
  | request (t : ℕ)
  /-- `shutdown`. -/
  | shutdown (t : ℕ)
  | close (t : ℕ)
  | requestStop
  /-- The thread of a handler. -/
  | handlerReturns (n : ℕ) (out : Except HandlerError (Option JobResult))
  | handlerDone (n : ℕ)
  | handlerExits (n : ℕ)
  /-- `_reap`. -/
  | reap

/-- The thread has no pass, no task and no request open. -/
def Thread.free (th : Thread) : Bool := th.pass.isNone && th.task.isNone && th.requests.isEmpty

/-- One item of the loop of `_run_cycle`: the item is left, or an execution becomes active. -/
def admitItem (cfg : Config) (s : State) (t : ℕ) (item : Item) (items : List Item)
    (admitted : List String) (startable : Bool) : State :=
  let th := s.threads t
  match validateClaim cfg s.last_now item with
  | none => s.setThread t { th with cycle := .admitting items admitted }
  | some (j, l) =>
    if j.val.job_id ∈ admitted then s.setThread t { th with cycle := .admitting items admitted }
    else if cfg.max_payload_bytes < cfg.payloadSize j ∨ cfg.registered j.val.operation = false ∨
        startable = false then
      -- `_poison_claim` fails the claim, for which there is no execution.
      s.setThread t { th with cycle := .admitting items (j.val.job_id :: admitted) }
    else
      { ((s.setExecution s.count (newExecution cfg j l s.last_now)).activate j.val.job_id
          s.count).setThread t
          { th with cycle := .launching s.count items (j.val.job_id :: admitted) } with
        count := s.count + 1 }

/-- The start of the thread of an execution. -/
def launchExecution (s : State) (t n : ℕ) (items : List Item) (admitted : List String) (e : Execution) :
    Launch → State
  | .started => (s.setExecution n { e with phase := .running, launched := true }).setThread t
      { s.threads t with cycle := .admitting items admitted }
  | .notStarted =>
    (s.setExecution n { e with launch_failed := true, handler_done := true,
                               error := some (.other none) }).setThread t
      { s.threads t with cycle := .admitting items admitted }
  | .interrupted => { s with active := s.active.filter fun p => p ≠ (e.job.val.job_id, n) }.leaveCycle t
  | .startedInterrupted =>
    (s.setExecution n { e with phase := .running, launched := true }).leaveCycle t

/-- One step of the runtime. -/
def step (cfg : Config) (s : State) : Label → Option State
  | .tick observed => some { s with last_now := max s.last_now observed }
  | .startPass t =>
    let th := s.threads t
    if th.free then
      match th.cycle with
      | .out | .monitoring | .waiting =>
        some (s.setThread t { th with pass := some (s.last_now, s.active.map Prod.snd) })
      | _ => none
    else none
  | .inspect t =>
    let th := s.threads t
    match th.pass, th.task with
    | some (now, n :: rest), none =>
      some (s.setThread t { th with
        pass := some (now, rest)
        task := ((s.executions n).bind fun e => e.inspect now).map fun task => (n, task) })
    | _, _ => none
  | .endPass t =>
    let th := s.threads t
    match th.pass, th.task with
    | some (_, []), none => some (s.setThread t { th with pass := none }).reap
    | _, _ => none
  | .work t a =>
    let th := s.threads t
    match th.task with
    | some (n, task) =>
      (s.executions n).map fun e =>
        let (e', next) := task.step cfg e s.last_now a
        (s.setExecution n e').setThread t { th with task := next.map fun task => (n, task) }
    | none => none
  | .abort t =>
    let s' := s.leaveCycle t
    some (s'.setThread t { s'.threads t with pass := none, task := none, requests := [] })
  | .enter t =>
    let th := s.threads t
    match th.cycle with
    | .out =>
      if th.free ∧ s.drive_owner = none then
        some { s.setThread t { th with cycle := .entering } with drive_owner := some t }
      else none
    | _ => none
  | .take t =>
    let th := s.threads t
    match th.cycle with
    | .entering =>
      if (s.daemon_owner ≠ none ∧ s.daemon_owner ≠ some t) ∨ s.cycle_owner ≠ none then
        some (s.leaveCycle t)
      else some { s.setThread t { th with cycle := .checking } with cycle_owner := some t }
    | _ => none
  | .check t =>
    match (s.threads t).cycle with
    | .checking =>
      if s.closing || s.closed || s.stop_requested then some (s.leaveCycle t)
      else some (s.setThread t { s.threads t with cycle := .monitoring })
    | _ => none
  | .observe t =>
    let th := s.threads t
    match th.cycle with
    | .monitoring =>
      if th.free then
        if s.active.length < cfg.max_concurrency then
          some (s.setThread t { th with
            cycle := .claiming (cfg.max_concurrency - s.active.length) (s.active.map Prod.fst) })
        else some (s.setThread t { th with cycle := .waiting })
      else none
    | _ => none
  | .claim t items =>
    match (s.threads t).cycle with
    | .claiming capacity admitted =>
      -- More items than were asked for are an error, and none of them is taken.
      let bounded := if items.length ≤ capacity then items else []
      some (s.setThread t { s.threads t with cycle := .admitting bounded admitted })
    | _ => none
  | .admitJob t startable =>
    match (s.threads t).cycle with
    | .admitting (item :: items) admitted => some (admitItem cfg s t item items admitted startable)
    | _ => none
  | .launch t l =>
    match (s.threads t).cycle with
    | .launching n items admitted =>
      (s.executions n).map fun e => launchExecution s t n items admitted e l
    | _ => none
  | .wait t =>
    match (s.threads t).cycle with
    | .admitting [] _ => some (s.setThread t { s.threads t with cycle := .waiting })
    | _ => none
  | .leave t =>
    match (s.threads t).cycle with
    | .waiting => if (s.threads t).free then some (s.reap.leaveCycle t) else none
    | _ => none
  | .enterDaemon t =>
    if s.drive_owner = none ∧ s.daemon_owner = none ∧ s.cycle_owner = none then
      some { s with daemon_owner := some t }
    else none
  | .leaveDaemon t =>
    if s.daemon_owner = some t then some { s with daemon_owner := none } else none
  | .cancelJob t job_id =>
    let th := s.threads t
    if th.free then
      some (s.setThread t { th with requests := (s.active.lookup job_id).toList })
    else none
  | .request t =>
    let th := s.threads t
    match th.requests with
    | n :: rest =>
      (s.executions n).map fun e =>
        (s.setExecution n (if e.outcome.isSome then e
          else { e with cancel_requested := true, token := true })).setThread t
          { th with requests := rest }
    | [] => none
  | .shutdown t =>
    let th := s.threads t
    if th.free then
      if s.closed then some s
      else some { s.setThread t { th with requests := s.active.map Prod.snd } with
        closing := true, stop_requested := true }
    else none
  | .close t => if (s.threads t).free then some { s with closed := true } else none
  | .requestStop => some { s with stop_requested := true }
  | .handlerReturns n out =>
    (s.executions n).bind fun e =>
      if e.phase = .running then
        some (s.setExecution n (match out with
          | .ok result => { e with phase := .returned, result := result }
          | .error error => { e with phase := .returned, error := some error }))
      else none
  | .handlerDone n =>
    (s.executions n).bind fun e =>
      if e.phase = .returned then some (s.setExecution n { e with handler_done := true }) else none
  | .handlerExits n =>
    (s.executions n).bind fun e =>
      if e.phase = .returned ∧ e.handler_done = true then
        some (s.setExecution n { e with phase := .exited })
      else none
  | .reap => some s.reap

end RickIntelligence.Worker
