import RickIntelligence.Lib.Dict

/-!
# Audited operations

`run_operation` and `reconcile_operation` of `apps/api/src/services/audit_operations.py`, over the
ledger in memory or in SQLite, as a machine for the record of one operation id. Any number of callers
run the operation or reconcile it. A label is one step of one caller up to its next transaction, with
the answer of the environment: a transaction may raise before it takes effect or after it did, a guard
may not be held, a callback returns or raises, and a caller may die between any two steps.

A transaction of the ledger is one step, for it holds the lock of the ledger in memory, or begins
`IMMEDIATE` in SQLite. An error before the effect stands for every way a transaction may raise, with a
record that is too large or an outcome that cannot be appended among them. The ledger outlives a caller
that dies; the one in memory ends with its process, and its run with it.
-/

namespace RickIntelligence.Audit

open Lib

/-! ## Records -/

/-- The statuses of a record. -/
inductive Status where
  | inProgress
  | reconciliationRequired
  | completed
  | failed
  | reconciled (resolution : String)
  deriving DecidableEq, Repr

namespace Status

/-- The text of a status. -/
def text : Status → String
  | inProgress => "in_progress"
  | reconciliationRequired => "reconciliation_required"
  | completed => "completed"
  | failed => "failed"
  | reconciled resolution => "reconciled_" ++ resolution

/-- `status in _UNRESOLVED`. -/
def unresolved : Status → Bool
  | inProgress | reconciliationRequired => true
  | _ => false

end Status

/-- The phases of an execution. -/
inductive Phase where
  | admitted
  | atomic
  | dispatched
  | returned
  | uncertain
  | notStarted
  | rolledBack
  deriving DecidableEq, Repr

/-- The execution of a record. Its identifier is drawn afresh for each call, so the number of the caller
stands for it. -/
structure Execution where
  id : ℕ
  phase : Phase
  process_owner : String
  deriving DecidableEq, Repr

/-- The event of a record. -/
structure Event where
  action : String
  actor_user_id : String
  tenant_id : String
  workspace_id : String
  target_id : Option String
  request_id : Option String
  reason : Option String
  deriving DecidableEq, Repr

/-- The proof of a reconciliation. -/
structure Reconciliation where
  resolution : String
  evidence_ref : String
  actor_user_id : String
  recorded_at : String
  deriving DecidableEq, Repr

/-- A record of the ledger. A result that is none is a null. -/
structure Record where
  event : Event
  fingerprint : String
  status : Status
  result : Json
  execution : Execution
  created_at : String
  error_code : Option String
  response_status : Option ℕ
  reconciliation : Option Reconciliation

/-! ## Errors and transactions -/

/-- What a call raises: an `ApiError`, another exception, or one that is no `Exception`; the latter two
may have a code of their own. -/
inductive Raised where
  | api (code : String)
  | error (code : Option String)
  | base (code : Option String)
  deriving DecidableEq, Repr

/-- `isinstance(exc, Exception)`. -/
def Raised.isException : Raised → Bool
  | .base _ => false
  | _ => true

/-- `getattr(exc, "code", None)`. -/
def Raised.code : Raised → Option String
  | .api code => some code
  | .error code | .base code => code

/-- `ERROR_CODES`. -/
def errorCodes : List String :=
  ["validation_error", "unauthorized", "forbidden", "not_found", "conflict", "rate_limited",
    "request_too_large", "unsupported_media_type", "provider_timeout", "provider_unavailable",
    "provider_rate_limit", "vector_store_unavailable", "storage_unavailable", "recovery_required",
    "lock_unavailable", "ingestion_failed", "retrieval_failed", "generation_failed", "internal_error"]

/-- How a transaction ends: it commits; it raises, and has no effect; or it raises, and has committed. -/
inductive Commit where
  | done
  | lost (e : Raised)
  | unknown (e : Raised)

/-- A transaction on the record: what it leaves, and what it returns or raises. -/
def transact {α : Type} (ledger : Option Record) (body : Except Raised (Option Record × α)) :
    Commit → Option Record × Except Raised α
  | .lost e => (ledger, .error e)
  | .done =>
    match body with
    | .error e => (ledger, .error e)
    | .ok (ledger', a) => (ledger', .ok a)
  | .unknown e =>
    match body with
    | .error e' => (ledger, .error e')
    | .ok (ledger', _) => (ledger', .error e)

/-! ## Calls of `run_operation` -/

/-- A call of `run_operation` after its checks. `atomic` is a call with a transaction of the owner, and
`shared` one whose ledger is in the database of the owner. -/
structure Call where
  operation_id : String
  event : Event
  fingerprint : String
  execution_id : ℕ
  process_owner : String
  created_at : String
  atomic : Bool
  shared : Bool
  success_status : Option ℕ

/-- What a caller answers: a result of the operation, with a status if it has one. -/
structure Response where
  status_code : Option ℕ
  content : Json

/-- `completed_response`. -/
def completedResponse (previous : Record) : Response := ⟨previous.response_status, previous.result⟩

/-- The members that `operation_response` sets. -/
def operationMembers (operation_id : String) (r : Record) : Json.Members :=
  [("audit_operation_id", .str operation_id), ("audit_status", .str r.status.text),
    ("reconciliation_required", .bool (r.status == .reconciliationRequired))]

/-- `operation_response`. A result that is no mapping cannot be spread. -/
def operationResponse (operation_id : String) (r : Record) : Except Raised Response :=
  match r.result with
  | .obj ms => .ok ⟨some 202, .obj (Json.merge ms (operationMembers operation_id r))⟩
  | value =>
    if value.truthy then .error (.error none)
    else .ok ⟨some 202, .obj (operationMembers operation_id r)⟩

namespace Call

/-- The record that a call admits. -/
def record (c : Call) : Record where
  event := c.event
  fingerprint := c.fingerprint
  status := .inProgress
  result := .null
  execution := ⟨c.execution_id, if c.atomic then .atomic else .admitted, c.process_owner⟩
  created_at := c.created_at
  error_code := none
  response_status := none
  reconciliation := none

/-- The record with another phase. -/
def recordAt (c : Call) (phase : Phase) : Record :=
  { c.record with execution := { c.record.execution with phase := phase } }

/-- The record of a callback that returned. -/
def completed (c : Call) (result : Json) : Record :=
  { c.recordAt .returned with status := .completed, result := result }

/-- The record of an atomic callback that returned. -/
def owned (c : Call) (result : Json) : Record :=
  { c.completed result with response_status := c.success_status }

/-- The record of an outcome that could not be written. -/
def unsettled (c : Call) (result : Json) : Record :=
  { c.completed result with
    status := .reconciliationRequired
    error_code := some "provider_unavailable" }

/-- The result of an atomic callback, with the members of a success. -/
def successResult (c : Call) (result : Json) : Except Raised Json :=
  match c.success_status, result with
  | none, result => .ok result
  | some _, .obj ms => .ok (.obj (Json.merge ms
      [("audit_status", .str "pending"), ("audit_event_id", .str (c.operation_id ++ "-completed")),
        ("reconciliation_required", .bool true),
        ("request_id", .ofOptionalText c.event.request_id)]))
  | some _, _ => .error (.error none)

/-- The code of an error that has none of its own. -/
def defaultCode (c : Call) (started : Bool) : String :=
  if c.atomic || !started then "provider_unavailable" else "internal_error"

/-- The code of a failure. -/
def failureCode (c : Call) (started : Bool) (e : Raised) : String :=
  match e.code with
  | none => c.defaultCode started
  | some code => if code ∈ errorCodes then code else c.defaultCode started

/-- The record of a failure. -/
def failure (c : Call) (started : Bool) (response_status : Option ℕ) (e : Raised) : Record :=
  { c.recordAt (if c.atomic then .rolledBack else if started then .uncertain else .notStarted) with
    status := if c.atomic || !started then .failed else .reconciliationRequired
    error_code := some (c.failureCode started e)
    response_status := response_status }

/-- What a failed call raises. -/
def raises (c : Call) (started : Bool) (e : Raised) : Raised :=
  match e with
  | .error _ =>
    .api (if c.atomic || !started then "provider_unavailable" else c.failureCode started e)
  | e => e

/-! ## The transactions of a call -/

/-- `replay`. -/
def replay (c : Call) : Option Record → Except Raised (Option Response)
  | none => .ok none
  | some previous =>
    if previous.fingerprint ≠ c.fingerprint then .error (.api "conflict")
    else
      match previous.status with
      | .failed => .error (.api (previous.error_code.getD "internal_error"))
      | .completed => .ok (some (completedResponse previous))
      | _ => (operationResponse c.operation_id previous).map some

/-- The first transaction: the call is replayed, or admitted. -/
def admission (c : Call) (ledger : Option Record) : Except Raised (Option Record × Option Response) :=
  match c.replay ledger with
  | .error e => .error e
  | .ok (some response) => .ok (ledger, some response)
  | .ok none => .ok (some c.record, none)

/-- The second transaction: the record of the call is dispatched. -/
def dispatch (c : Call) (ledger : Option Record) : Except Raised (Option Record × Unit) :=
  match ledger with
  | none => .error (.api "conflict")
  | some previous =>
    if previous.status = .inProgress ∧ previous.execution = c.record.execution then
      .ok (some (c.recordAt .dispatched), ())
    else .error (.api "conflict")

/-- The third transaction: the result is written. -/
def finish (c : Call) (result : Json) (ledger : Option Record) :
    Except Raised (Option Record × Unit) :=
  match ledger with
  | none => .error (.api "conflict")
  | some previous =>
    if previous.status = .inProgress ∧ previous.execution.id = c.execution_id then
      .ok (some (c.completed result), ())
    else .error (.api "conflict")

/-- The fourth transaction: the third one raised. -/
def settle (c : Call) (result : Json) (ledger : Option Record) : Option Record :=
  match ledger with
  | none => none
  | some previous =>
    if previous.status = .inProgress ∧ previous.execution.id = c.execution_id then
      some (c.unsettled result)
    else some previous

/-- The transaction of an atomic call, with its callback. -/
def own (c : Call) (callback : Except Raised Json) (ledger : Option Record) :
    Except Raised (Option Record × (Option Response)) :=
  match c.replay ledger with
  | .error e => .error e
  | .ok (some response) => .ok (ledger, some response)
  | .ok none =>
    match callback.bind c.successResult with
    | .error e => .error e
    | .ok result => .ok (some (c.owned result), none)

/-- The transaction of the failure handler. It does not compare the executions. -/
def fail (c : Call) (failure : Record) : Option Record → Option Record
  | none => some failure
  | some previous =>
    if previous.fingerprint = c.fingerprint ∧ previous.status.unresolved then some failure
    else some previous

end Call

/-! ## Callers -/

/-- Where a call of `run_operation` is. -/
inductive Point where
  /-- The execution guard is tried. -/
  | guard
  /-- The guard was not free, and the call is replayed. -/
  | replaying
  | admitting
  /-- The guard is checked before the dispatch. -/
  | admitted
  | dispatching
  /-- The guard is checked before the callback is invoked. -/
  | dispatched
  | running
  | returning (result : Json)
  | unsettled (result : Json)
  /-- The owner's transaction of an atomic call. -/
  | owning
  /-- The ledger has committed, and the owner's transaction is about to; `response` is a replay. -/
  | committing (response : Option Response)
  /-- The failure handler. -/
  | failing (started : Bool) (response_status : Option ℕ) (e : Raised)
  /-- The call has returned or raised, and leaves the guard. -/
  | leaving
  | dead

/-- A caller of `run_operation`. -/
structure Runner where
  call : Call
  point : Point

/-- A call of `reconcile_operation`. -/
structure Operator where
  tenant_id : String
  workspace_id : String
  user_id : String
  audit_read : Bool
  users_manage : Bool
  resolution : String
  evidence_ref : String
  recorded_at : String

/-- Where a call of `reconcile_operation` is. -/
inductive OperatorPoint where
  | reading
  | guard (event : Event)
  | checking (event : Event)
  | writing (event : Event)
  | leaving
  | dead

/-- A caller. -/
inductive Party where
  | runner (r : Runner)
  | operator (o : Operator) (point : OperatorPoint)

/-- What the environment answers to a step. -/
structure Answer where
  commit : Commit
  callback : Except Raised Json

/-- What a step of a caller does to the record and to the guard, and whether it invokes the callback, or
commits the owner's transaction with what the callback did. -/
structure Turn where
  party : Party
  record : Option Record
  acquires : Bool := false
  releases : Bool := false
  invokes : Bool := false
  commits : Bool := false

namespace Runner

/-- The caller goes on at another point. -/
def goto (r : Runner) (point : Point) : Party := .runner { r with point := point }

/-- The response status that an atomic call had set when its transaction raised: it is set once the
callback has returned, and a callback that was not reached has no result. -/
def ownStatus (r : Runner) (ledger : Option Record) (callback : Except Raised Json) : Option ℕ :=
  match ledger, callback with
  | none, .ok _ => r.call.success_status
  | _, _ => none

/-- The turn of a caller that goes on at another point. -/
def turn (r : Runner) (point : Point) (ledger : Option Record) : Turn :=
  { party := r.goto point, record := ledger }

/-- After the first transaction: a replay ends the call. -/
def afterAdmit (r : Runner) : Option Record × Except Raised (Option Response) → Turn
  | (ledger, .error e) => r.turn (.failing false none e) ledger
  | (ledger, .ok (some _)) => r.turn .leaving ledger
  | (ledger, .ok none) => r.turn .admitted ledger

/-- After the second transaction. -/
def afterDispatch (r : Runner) : Option Record × Except Raised Unit → Turn
  | (ledger, .error e) => r.turn (.failing false none e) ledger
  | (ledger, .ok ()) => r.turn .dispatched ledger

/-- After the third transaction: an exception leads to the fourth. -/
def afterFinish (r : Runner) (result : Json) : Option Record × Except Raised Unit → Turn
  | (ledger, .ok ()) => r.turn .leaving ledger
  | (ledger, .error e) =>
    if e.isException then r.turn (.unsettled result) ledger
    else r.turn (.failing true none e) ledger

/-- After the fourth transaction: an exception is passed over, and the call answers. -/
def afterSettle (r : Runner) (result : Json) : Option Record × Except Raised Unit → Turn
  | (ledger, .error (.base code)) => r.turn (.failing true none (.base code)) ledger
  | (ledger, _) =>
    match operationResponse r.call.operation_id (r.call.unsettled result) with
    | .error e => r.turn (.failing true none e) ledger
    | .ok _ => r.turn .leaving ledger

/-- After the transaction of an atomic call on the ledger. An owner with the ledger in its own database
commits both at once. -/
def afterOwn (r : Runner) (before : Option Record) (callback : Except Raised Json) :
    Option Record × Except Raised (Option Response) → Turn
  | (ledger, .error e) =>
    { r.turn (.failing true (r.ownStatus before callback) e) ledger with
      commits := r.call.shared && before.isNone && ledger.isSome }
  | (ledger, .ok response) =>
    { r.turn (if r.call.shared then .leaving else .committing response) ledger with
      commits := r.call.shared && before.isNone && ledger.isSome }

/-- The end of the owner's transaction of an atomic call. -/
def commit (r : Runner) (response : Option Response) (ledger : Option Record) : Commit → Turn
  | .done => { r.turn .leaving ledger with commits := response.isNone }
  | .lost e =>
    r.turn (.failing true (if response.isSome then none else r.call.success_status) e) ledger
  | .unknown e =>
    { r.turn (.failing true (if response.isSome then none else r.call.success_status) e) ledger with
      commits := response.isNone }

/-- The guard is tried. An error of the guard is not handled. -/
def tryGuard (r : Runner) (ledger : Option Record) (guardFree : Bool) : Commit → Turn
  | .done =>
    if guardFree then { r.turn .admitting ledger with acquires := true }
    else r.turn .replaying ledger
  | _ => r.turn .leaving ledger

/-- `assert_held`. -/
def assertHeld (r : Runner) (next : Turn) (ledger : Option Record) : Commit → Turn
  | .done => next
  | _ => r.turn (.failing false none (.api "provider_unavailable")) ledger

/-- The callback ends. -/
def afterCallback (r : Runner) (ledger : Option Record) : Except Raised Json → Turn
  | .error e => r.turn (.failing true none e) ledger
  | .ok result => r.turn (.returning result) ledger

/-- One step of a call of `run_operation`. -/
def step (r : Runner) (ledger : Option Record) (guardFree : Bool) (a : Answer) : Option Turn :=
  match r.point with
  | .guard => some (r.tryGuard ledger guardFree a.commit)
  | .replaying => some (r.turn .leaving ledger)
  | .admitting => some (r.afterAdmit (transact ledger (r.call.admission ledger) a.commit))
  | .admitted => some (r.assertHeld (r.turn .dispatching ledger) ledger a.commit)
  | .dispatching => some (r.afterDispatch (transact ledger (r.call.dispatch ledger) a.commit))
  | .dispatched =>
    some (r.assertHeld { r.turn .running ledger with invokes := true } ledger a.commit)
  | .running => some (r.afterCallback ledger a.callback)
  | .returning result =>
    some (r.afterFinish result (transact ledger (r.call.finish result ledger) a.commit))
  | .unsettled result =>
    some (r.afterSettle result (transact ledger (.ok (r.call.settle result ledger, ())) a.commit))
  | .owning =>
    some (r.afterOwn ledger a.callback (transact ledger (r.call.own a.callback ledger) a.commit))
  | .committing response => some (r.commit response ledger a.commit)
  | .failing started response_status e =>
    let failure := r.call.failure started response_status e
    some (r.turn .leaving (transact ledger (.ok (r.call.fail failure ledger, ())) a.commit).1)
  | .leaving => some { r.turn .dead ledger with releases := true }
  | .dead => none

end Runner

namespace Operator

/-- The operator may see the record. -/
def sees (o : Operator) (r : Record) : Bool :=
  r.event.tenant_id == o.tenant_id && r.event.workspace_id == o.workspace_id &&
    (r.event.actor_user_id == o.user_id || o.audit_read)

/-- The record that is reconciled. -/
def reconciled (o : Operator) (r : Record) : Record :=
  { r with
    status := .reconciled o.resolution
    reconciliation := some ⟨o.resolution, o.evidence_ref, o.user_id, o.recorded_at⟩
    event := { r.event with reason := some o.evidence_ref } }

/-- The proof of an earlier reconciliation is the same. -/
def sameProof (o : Operator) (r : Record) : Bool :=
  r.reconciliation.any fun p =>
    p.resolution == o.resolution && p.evidence_ref == o.evidence_ref && p.actor_user_id == o.user_id

/-- The resolution may be recorded. The ledgers in memory and in SQLite hold the guard as long as a
callback lives, so `executor_absent` is true of them. -/
def resolves (o : Operator) (r : Record) : Bool :=
  if o.resolution = "no_effect" then r.status.unresolved && r.execution.phase == .admitted
  else r.status == .reconciliationRequired ||
    r.status == .inProgress && r.execution.phase == .dispatched

/-- The transaction of `reconcile_operation`. -/
def write (o : Operator) (event : Event) (ledger : Option Record) :
    Except Raised (Option Record × Unit) :=
  match ledger with
  | none => .error (.api "conflict")
  | some r =>
    if r.event ≠ event then .error (.api "conflict")
    else
      match r.status with
      | .reconciled _ => if o.sameProof r then .ok (some r, ()) else .error (.api "conflict")
      | _ => if o.resolves r then .ok (some (o.reconciled r), ()) else .error (.api "conflict")

/-- One step of a call of `reconcile_operation`. -/
def step (o : Operator) (point : OperatorPoint) (ledger : Option Record) (guardFree : Bool)
    (a : Answer) : Option Turn :=
  match point with
  | .reading =>
    match a.commit, ledger with
    | .done, some r =>
      if o.audit_read ∧ o.users_manage ∧ o.sees r then
        some { party := .operator o (.guard r.event), record := ledger }
      else some { party := .operator o .leaving, record := ledger }
    | _, _ => some { party := .operator o .leaving, record := ledger }
  | .guard event =>
    match a.commit with
    | .done =>
      if guardFree then
        some { party := .operator o (.checking event), record := ledger, acquires := true }
      else some { party := .operator o .leaving, record := ledger }
    | _ => some { party := .operator o .leaving, record := ledger }
  | .checking event =>
    match a.commit with
    | .done => some { party := .operator o (.writing event), record := ledger }
    | _ => some { party := .operator o .leaving, record := ledger }
  | .writing event =>
    some {
      party := .operator o .leaving
      record := (transact ledger (o.write event ledger) a.commit).1 }
  | .leaving => some { party := .operator o .dead, record := ledger, releases := true }
  | .dead => none

end Operator

/-! ## The machine -/

/-- The record of an operation, its execution guard, its callers, and the callers that invoked the
callback or committed the owner's transaction. -/
structure State where
  record : Option Record
  guard : Option ℕ
  parties : ℕ → Option Party
  invoked : List ℕ
  committed : List ℕ

/-- No call was made. -/
def State.initial : State := ⟨none, none, fun _ => none, [], []⟩

/-- The guard is given up by its holder only. -/
def State.released (s : State) (n : ℕ) : Option ℕ := if s.guard = some n then none else s.guard

/-- A step of a caller takes place. -/
def State.take (s : State) (n : ℕ) (t : Turn) : State where
  record := t.record
  guard := if t.acquires then some n else if t.releases then s.released n else s.guard
  parties := Function.update s.parties n (some t.party)
  invoked := if t.invokes then s.invoked ++ [n] else s.invoked
  committed := if t.commits then s.committed ++ [n] else s.committed

/-- A caller that has died. -/
def Party.died : Party → Party
  | .runner r => r.goto .dead
  | .operator o _ => .operator o .dead

/-- The steps of the machine. -/
inductive Label where
  | run (n : ℕ) (call : Call)
  | reconcile (n : ℕ) (o : Operator)
  | work (n : ℕ) (a : Answer)
  | die (n : ℕ)

/-- The caller is at its next step. -/
def Party.step (p : Party) (ledger : Option Record) (guardFree : Bool) (a : Answer) : Option Turn :=
  match p with
  | .runner r => r.step ledger guardFree a
  | .operator o point => o.step point ledger guardFree a

/-- One step of the machine. -/
def step (s : State) : Label → Option State
  | .run n call =>
    match s.parties n with
    | none =>
      let point : Point := if call.atomic then .owning else .guard
      let runner : Runner := ⟨{ call with execution_id := n }, point⟩
      some { s with parties := Function.update s.parties n (some (.runner runner)) }
    | some _ => none
  | .reconcile n o =>
    match s.parties n with
    | none => some { s with parties := Function.update s.parties n (some (.operator o .reading)) }
    | some _ => none
  | .work n a =>
    (s.parties n).bind fun p => (p.step s.record s.guard.isNone a).map fun t => s.take n t
  | .die n =>
    (s.parties n).map fun p => { s with
      parties := Function.update s.parties n (some p.died)
      guard := s.released n }

end RickIntelligence.Audit
