import RickIntelligence.Lib.Trace
import RickIntelligence.Locking.Executor

/-!
# Acquiring a lease over a network that loses messages

`RedisLeaseStore.acquire` sends `SET key owner NX`. When the answer does not come it asks with `GET`
who holds the key, and sends the `SET` again if it does not learn that either. The machine here is one
such call, the server, and the commands of other owners in between (`Acquisition.exec`). Every request
is lost, is executed and its answer is lost, or is executed and answered, and no key expires.

The second `SET` may find the owner of the call in the key, which the first one has put there. Its
answer is then read as that another owner holds the lease. Up to this the result is exact
(`acquire_exact_iff`).
-/

namespace RickIntelligence.Locking

open Lib

/-! ## The server and its client -/

/-- The keys of the server that hold an owner. -/
abbrev LeaseKeys := String → Option String

/-- The commands of the lease stores: `SET NX`, `GET`, `RENEW_SCRIPT` and `RELEASE_SCRIPT`. -/
inductive Command where
  | setNx (key owner : String)
  | get (key : String)
  | renew (key owner : String)
  | release (key owner : String)
  deriving DecidableEq, Repr

/-- The owner that a command is for. -/
def Command.owner? : Command → Option String
  | setNx _ owner | renew _ owner | release _ owner => some owner
  | get _ => none

/-- The keys after a command. To renew a lease changes when it expires only. -/
def LeaseKeys.run (s : LeaseKeys) : Command → LeaseKeys
  | .setNx key owner => if s key = none then Function.update s key (some owner) else s
  | .release key owner => if s key = some owner then Function.update s key none else s
  | .get _ | .renew _ _ => s

/-- What a client returns. -/
inductive RedisValue where
  | none
  | bool (b : Bool)
  | text (s : String)
  | bytes (b : ByteArray)
  deriving DecidableEq

/-- `_set_result`. -/
def setResult : RedisValue → Except LeaseErrorCode Bool
  | .none | .bool false => .ok false
  | .bool true => .ok true
  | .text s => if s = "OK" then .ok true else .error .internalError
  | .bytes b => if b = "OK".toUTF8 then .ok true else .error .internalError

/-- A client: whether it has `get`, whether it decodes texts, and what it returns for `OK`. -/
structure RedisClient where
  has_get : Bool
  decodes : Bool
  ok : RedisValue
  ok_result : setResult ok = .ok true

/-- What `set` returns, where the key held an owner before. -/
def RedisClient.setReply (client : RedisClient) (found : Option String) : RedisValue :=
  if found = none then client.ok else .none

/-- What `get` returns. -/
def RedisClient.getReply (client : RedisClient) : Option String → RedisValue
  | none => .none
  | some v => if client.decodes then .text v else .bytes v.toUTF8

/-- `_reconcile_acquire`, on what `get` returns. No result stands for `_NO_RECONCILIATION`. -/
def reconcileAcquire (owner : String) : RedisValue → Option RedisValue
  | .none => none
  | .bytes b => some (.bool (b = owner.toUTF8))
  | .text s => some (.bool (s = owner))
  | .bool _ => some (.bool false)

/-! ## The call -/

/-- A call of `acquire` whose arguments are checked, with the parts of the store that it reads. -/
structure AcquireCall where
  redis_key : String
  owner : String
  client : RedisClient
  timeout : ℚ
  retry_policy : RedisRetryPolicy

/-- The server and the call. Once the request that the call waits for is executed, `found` is what the
server found under the key. -/
structure Acquisition where
  keys : LeaseKeys
  phase : CallPhase RedisValue
  deadline : ℚ
  found : Option (Option String)

/-- What happens to the call and around it: commands of other owners, readings of the clock, and
what becomes of messages. -/
inductive AcquireEvent where
  | other (command : Command)
  | rejects
  | begins (now : ℚ)
  | sends (now : ℚ)
  | executes
  | delivers
  | fails (code : LeaseErrorCode)
  | reconciles (now : ℚ)
  | delays (now random : ℚ)
  | cancels
  deriving DecidableEq, Repr

namespace Acquisition

/-- A call that has not begun. -/
def new (keys : LeaseKeys) : Acquisition := ⟨keys, .starting, 0, none⟩

/-- The call goes on to another phase. -/
def goTo (s : Acquisition) (phase : CallPhase RedisValue) : Acquisition :=
  { s with phase, found := none }

/-- The call and the server after an event that may happen. A request fails with its answer lost if
it was executed before, and without having an effect if not. -/
def exec (call : AcquireCall) (s : Acquisition) : AcquireEvent → Option Acquisition
  | .other command =>
    if command.owner? = some call.owner then none else some { s with keys := s.keys.run command }
  | .rejects =>
    match s.phase with
    | .starting => some (s.goTo (.raised (.lease .unavailable)))
    | _ => none
  | .begins now =>
    match s.phase with
    | .starting => some { s.goTo (.attempting 0) with deadline := now + call.timeout }
    | _ => none
  | .sends now =>
    match s.phase with
    | .attempting attempt =>
      if s.deadline - now ≤ 0 then
        some (s.goTo (.afterAttempt call.retry_policy true attempt (.error .timeout)))
      else some (s.goTo (.sent attempt))
    | _ => none
  | .executes =>
    match s.phase, s.found with
    | .sent _, none =>
      some { s with
        keys := s.keys.run (.setNx call.redis_key call.owner)
        found := some (s.keys call.redis_key) }
    | .reading _ _, none => some { s with found := some (s.keys call.redis_key) }
    | _, _ => none
  | .delivers =>
    match s.phase, s.found with
    | .sent attempt, some found =>
      some (s.goTo (.afterAttempt call.retry_policy true attempt
        (.result (call.client.setReply found))))
    | .reading attempt code, some found =>
      some (s.goTo (.afterReconcile attempt code
        (.result (reconcileAcquire call.owner (call.client.getReply found)))))
    | _, _ => none
  | .fails error =>
    match s.phase with
    | .sent attempt =>
      some (s.goTo (.afterAttempt call.retry_policy true attempt (.error error)))
    | .reading attempt code => some (s.goTo (.afterReconcile attempt code (.error error)))
    | _ => none
  | .reconciles now =>
    match s.phase with
    | .reconciling attempt code =>
      if s.deadline - now ≤ 0 then some (s.goTo (.delaying attempt code))
      else if call.client.has_get then some (s.goTo (.reading attempt code))
      else some (s.goTo (.afterReconcile attempt code (.result none)))
    | _ => none
  | .delays now random =>
    match s.phase with
    | .delaying attempt code =>
      some (s.goTo (.afterDelay call.retry_policy attempt code (s.deadline - now) random))
    | _ => none
  | .cancels =>
    match s.phase with
    | .sent _ | .reading _ _ | .delaying _ _ => some (s.goTo (.raised .cancelled))
    | _ => none

/-- What `acquire` returns, once it does. -/
def returns? (s : Acquisition) : Option Bool :=
  match s.phase with
  | .returned r => (setResult r).toOption
  | _ => none

/-- The key holds the owner of the call. -/
def Holds (call : AcquireCall) (s : Acquisition) : Prop := s.keys call.redis_key = some call.owner

/-- A `SET` of the call is executed on the free key. -/
def Writes (call : AcquireCall) (s : Acquisition) (e : AcquireEvent) : Prop :=
  e = .executes ∧ (∃ attempt, s.phase = .sent attempt) ∧ s.keys call.redis_key = none

/-- The call is answered that a `SET` of it has found the owner of the call in the key. -/
def FindsItself (call : AcquireCall) (s : Acquisition) (e : AcquireEvent) : Prop :=
  e = .delivers ∧ (∃ attempt, s.phase = .sent attempt) ∧ s.found = some (some call.owner)

/-! ## What an event does -/

section Steps

variable {call : AcquireCall} {s s' : Acquisition} {e : AcquireEvent}

/-- What an event does: another owner runs a command, a request of the call is executed, an answer
arrives, or the call goes on without one. -/
inductive Effect (call : AcquireCall) (s : Acquisition) : AcquireEvent → Acquisition → Prop
  | other {command : Command} (howner : command.owner? ≠ some call.owner) :
      Effect call s (.other command) { s with keys := s.keys.run command }
  | sets {attempt : ℕ} (hphase : s.phase = .sent attempt) (hfound : s.found = none) :
      Effect call s .executes { s with
        keys := s.keys.run (.setNx call.redis_key call.owner)
        found := some (s.keys call.redis_key) }
  | gets {attempt : ℕ} {code : LeaseErrorCode} (hphase : s.phase = .reading attempt code)
      (hfound : s.found = none) :
      Effect call s .executes { s with found := some (s.keys call.redis_key) }
  | answers {attempt : ℕ} {found : Option String} (hphase : s.phase = .sent attempt)
      (hfound : s.found = some found) :
      Effect call s .delivers (s.goTo (.returned (call.client.setReply found)))
  | reconciles {attempt : ℕ} {code : LeaseErrorCode} {found : Option String}
      (hphase : s.phase = .reading attempt code) (hfound : s.found = some found) :
      Effect call s .delivers (s.goTo (.afterReconcile attempt code
        (.result (reconcileAcquire call.owner (call.client.getReply found)))))
  | moves {e : AcquireEvent} {s' : Acquisition} (hbefore : ∀ r, s.phase ≠ .returned r)
      (hkeys : s'.keys = s.keys) (hfound : s'.found = none) (hphase : ∀ r, s'.phase ≠ .returned r)
      (hexecutes : e ≠ .executes) (hdelivers : e ≠ .delivers) : Effect call s e s'

/-- A failed attempt returns nothing. -/
theorem afterAttempt_error (policy : RedisRetryPolicy) (attempt : ℕ) (code : LeaseErrorCode)
    (r : RedisValue) : CallPhase.afterAttempt policy true attempt (.error code) ≠ .returned r := by
  simp only [CallPhase.afterAttempt]
  split
  · simp
  · simp

/-- A delay returns nothing. -/
theorem afterDelay_ne (policy : RedisRetryPolicy) (attempt : ℕ) (code : LeaseErrorCode)
    (remaining random : ℚ) (r : RedisValue) :
    CallPhase.afterDelay policy attempt code remaining random ≠ .returned r := by
  unfold CallPhase.afterDelay
  split
  · simp
  · split
    · simp
    · simp

/-- Every event has one of the effects. -/
theorem exec_effect (h : s.exec call e = some s') : Effect call s e s' := by
  cases e with
  | other command =>
    simp only [exec, Option.ite_none_left_eq_some, Option.some.injEq] at h
    obtain ⟨howner, rfl⟩ := h
    exact .other howner
  | rejects =>
    cases hphase : s.phase with
    | starting =>
      simp only [exec, hphase, Option.some.injEq] at h
      subst h
      exact .moves (by simp [hphase]) rfl rfl (by simp [goTo]) (by simp) (by simp)
    | _ => simp [exec, hphase] at h
  | begins now =>
    cases hphase : s.phase with
    | starting =>
      simp only [exec, hphase, Option.some.injEq] at h
      subst h
      exact .moves (by simp [hphase]) rfl rfl (by simp [goTo]) (by simp) (by simp)
    | _ => simp [exec, hphase] at h
  | sends now =>
    cases hphase : s.phase with
    | attempting attempt =>
      simp only [exec, hphase] at h
      split at h
      · cases h
        exact .moves (by simp [hphase]) rfl rfl (afterAttempt_error _ _ _) (by simp) (by simp)
      · cases h
        exact .moves (by simp [hphase]) rfl rfl (by simp [goTo]) (by simp) (by simp)
    | _ => simp [exec, hphase] at h
  | executes =>
    cases hfound : s.found with
    | some found => cases hphase : s.phase <;> simp [exec, hphase, hfound] at h
    | none =>
      cases hphase : s.phase with
      | sent attempt =>
        simp only [exec, hphase, hfound, Option.some.injEq] at h
        subst h
        have heffect : Effect call s .executes _ := .sets hphase hfound
        rwa [hphase] at heffect
      | reading attempt code =>
        simp only [exec, hphase, hfound, Option.some.injEq] at h
        subst h
        have heffect : Effect call s .executes _ := .gets hphase hfound
        rwa [hphase] at heffect
      | _ => simp [exec, hphase] at h
  | delivers =>
    cases hfound : s.found with
    | none => cases hphase : s.phase <;> simp [exec, hphase, hfound] at h
    | some found =>
      cases hphase : s.phase with
      | sent attempt =>
        simp only [exec, hphase, hfound, Option.some.injEq] at h
        subst h
        exact .answers hphase hfound
      | reading attempt code =>
        simp only [exec, hphase, hfound, Option.some.injEq] at h
        subst h
        exact .reconciles hphase hfound
      | _ => simp [exec, hphase] at h
  | fails error =>
    cases hphase : s.phase with
    | sent attempt =>
      simp only [exec, hphase, Option.some.injEq] at h
      subst h
      exact .moves (by simp [hphase]) rfl rfl (afterAttempt_error _ _ _) (by simp) (by simp)
    | reading attempt code =>
      simp only [exec, hphase, Option.some.injEq] at h
      subst h
      exact .moves (by simp [hphase]) rfl rfl (by simp [goTo, CallPhase.afterReconcile]) (by simp)
        (by simp)
    | _ => simp [exec, hphase] at h
  | reconciles now =>
    cases hphase : s.phase with
    | reconciling attempt code =>
      simp only [exec, hphase] at h
      split at h
      · cases h
        exact .moves (by simp [hphase]) rfl rfl (by simp [goTo]) (by simp) (by simp)
      · split at h
        · cases h
          exact .moves (by simp [hphase]) rfl rfl (by simp [goTo]) (by simp) (by simp)
        · cases h
          exact .moves (by simp [hphase]) rfl rfl (by simp [goTo, CallPhase.afterReconcile])
            (by simp) (by simp)
    | _ => simp [exec, hphase] at h
  | delays now random =>
    cases hphase : s.phase with
    | delaying attempt code =>
      simp only [exec, hphase, Option.some.injEq] at h
      subst h
      exact .moves (by simp [hphase]) rfl rfl (afterDelay_ne _ _ _ _ _) (by simp) (by simp)
    | _ => simp [exec, hphase] at h
  | cancels =>
    rcases hphase : s.phase with _ | _ | _ | _ | _ | _ | _ | _
    case sent | reading | delaying =>
      simp only [exec, hphase, Option.some.injEq] at h
      subst h
      exact .moves (by simp [hphase]) rfl rfl (by simp [goTo]) (by simp) (by simp)
    all_goals simp [exec, hphase] at h

/-- A command of another owner neither puts the owner of the call into a key nor takes it away. -/
theorem run_other (keys : LeaseKeys) {command : Command} (key : String) {owner : String}
    (h : command.owner? ≠ some owner) : (keys.run command) key = some owner ↔ keys key = some owner := by
  cases command with
  | setNx key' owner' =>
    have hne : owner' ≠ owner := fun heq => h (by rw [Command.owner?, heq])
    simp only [LeaseKeys.run]
    split
    · next hfree =>
      by_cases hkey : key = key'
      · subst hkey
        simp [hfree, hne]
      · simp [hkey]
    · rfl
  | release key' owner' =>
    have hne : owner' ≠ owner := fun heq => h (by rw [Command.owner?, heq])
    simp only [LeaseKeys.run]
    split
    · next hheld =>
      by_cases hkey : key = key'
      · subst hkey
        simp [hheld, hne]
      · simp [hkey]
    · rfl
  | get key' => rfl
  | renew key' owner' => rfl

/-- A `SET` of the call leaves its owner in the key, unless it finds another. -/
theorem run_setNx (keys : LeaseKeys) (key owner : String) :
    (keys.run (.setNx key owner)) key = some owner ↔
      keys key = none ∨ keys key = some owner := by
  simp only [LeaseKeys.run]
  split
  · next hfree => simp [hfree]
  · next hheld => simp [hheld]

/-! ## What holds along a trace -/

/-- What is known after the events of a trace: the key holds the owner of the call if it did from the
start or a `SET` of the call put it there, what an answer that is under way tells about the key, and
what the result of the call tells about it. -/
structure Track (call : AcquireCall) (start : Acquisition) (es : List AcquireEvent)
    (s : Acquisition) : Prop where
  held : s.Holds call ↔ start.Holds call ∨ Happens (exec call) start es (Writes call)
  once : start.Holds call → ¬ Happens (exec call) start es (Writes call)
  sent : ∀ attempt found, s.phase = .sent attempt → s.found = some found →
    (s.Holds call ↔ found = none ∨ found = some call.owner)
  reading : ∀ attempt code found, s.phase = .reading attempt code → s.found = some found →
    (s.Holds call ↔ found = some call.owner)
  waiting : (∀ r, s.phase ≠ .returned r) → ¬ Happens (exec call) start es (FindsItself call)
  acquired : s.returns? = some true →
    s.Holds call ∧ ¬ Happens (exec call) start es (FindsItself call)
  refused : s.returns? = some false →
    (s.Holds call ↔ Happens (exec call) start es (FindsItself call))

variable {start : Acquisition} {es : List AcquireEvent}

/-- Nothing has happened to a call that has not begun. -/
theorem track_nil (call : AcquireCall) (hphase : start.phase = .starting) :
    Track call start [] start := by
  have hreturns : start.returns? = none := by simp [returns?, hphase]
  refine ⟨?_, fun _ => not_happens_nil, ?_, ?_, fun _ => not_happens_nil, ?_, ?_⟩
  · exact ⟨.inl, fun h => h.resolve_right not_happens_nil⟩
  · simp [hphase]
  · simp [hphase]
  · simp [hreturns]
  · simp [hreturns]

/-- A call that has not returned has no result. -/
theorem returns_eq_none (h : ∀ r, s.phase ≠ .returned r) : s.returns? = none := by
  unfold returns?
  split
  · next r hr => exact absurd hr (h r)
  · rfl

/-- An event that is no `SET` and finds nothing keeps what has happened. -/
theorem happens_other {P : Acquisition → AcquireEvent → Prop}
    (hrun : execAll (exec call) start es = some s) (he : ¬ P s e) :
    Happens (exec call) start (es ++ [e]) P ↔ Happens (exec call) start es P := by
  rw [happens_snoc hrun]
  exact ⟨fun h => h.resolve_right he, .inl⟩

/-- The result of a `SET`. -/
theorem returns_setReply (client : RedisClient) (found : Option String) :
    (setResult (client.setReply found)).toOption = some (decide (found = none)) := by
  unfold RedisClient.setReply
  split
  · next h => simp [client.ok_result, h, Except.toOption]
  · next h => simp [setResult, h, Except.toOption]

/-- What `_reconcile_acquire` makes of the answer to `GET`. -/
theorem reconcileAcquire_getReply (client : RedisClient) (owner : String) (found : Option String) :
    reconcileAcquire owner (client.getReply found) =
      found.map fun v => .bool (decide (v = owner)) := by
  cases found with
  | none => rfl
  | some v =>
    simp only [RedisClient.getReply, Option.map_some]
    split
    · rfl
    · have hutf8 : v.toUTF8 = owner.toUTF8 ↔ v = owner := String.toByteArray_inj
      simp only [reconcileAcquire, hutf8]

/-- A command of another owner keeps what is known. -/
theorem Track.other (h : Track call start es s) (hrun : execAll (exec call) start es = some s)
    {command : Command} (howner : command.owner? ≠ some call.owner) :
    Track call start (es ++ [.other command]) { s with keys := s.keys.run command } := by
  have hwrites := happens_other hrun
    (show ¬ Writes call s (.other command) from fun hw => by cases hw.1)
  have hfinds := happens_other hrun
    (show ¬ FindsItself call s (.other command) from fun hf => by cases hf.1)
  have hholds : Holds call { s with keys := s.keys.run command } ↔ s.Holds call :=
    run_other s.keys call.redis_key howner
  refine ⟨?_, ?_, ?_, ?_, ?_, ?_, ?_⟩
  · rw [hholds, hwrites]
    exact h.held
  · rw [hwrites]
    exact h.once
  · intro attempt found hphase hfound
    rw [hholds]
    exact h.sent attempt found hphase hfound
  · intro attempt code found hphase hfound
    rw [hholds]
    exact h.reading attempt code found hphase hfound
  · rw [hfinds]
    exact h.waiting
  · rw [hholds, hfinds]
    exact h.acquired
  · rw [hholds, hfinds]
    exact h.refused

/-- A `SET` that is executed keeps what is known. -/
theorem Track.sets (h : Track call start es s) (hrun : execAll (exec call) start es = some s)
    {attempt : ℕ} (hphase : s.phase = .sent attempt) :
    Track call start (es ++ [.executes]) { s with
      keys := s.keys.run (.setNx call.redis_key call.owner)
      found := some (s.keys call.redis_key) } := by
  have hwrites : Writes call s .executes ↔ s.keys call.redis_key = none :=
    ⟨fun hw => hw.2.2, fun hfree => ⟨rfl, ⟨attempt, hphase⟩, hfree⟩⟩
  have hfinds := happens_other hrun
    (show ¬ FindsItself call s .executes from fun hf => by cases hf.1)
  have hholds : Holds call { s with
      keys := s.keys.run (.setNx call.redis_key call.owner)
      found := some (s.keys call.redis_key) } ↔
      s.keys call.redis_key = none ∨ s.keys call.redis_key = some call.owner :=
    run_setNx s.keys call.redis_key call.owner
  have hpending : ∀ r, s.phase ≠ .returned r := by simp [hphase]
  have hreturns : returns? { s with
      keys := s.keys.run (.setNx call.redis_key call.owner)
      found := some (s.keys call.redis_key) } = none := returns_eq_none hpending
  refine ⟨?_, ?_, ?_, ?_, ?_, ?_, ?_⟩
  · rw [hholds, happens_snoc hrun, hwrites, ← or_assoc, ← h.held, or_comm]
    rfl
  · intro hstart
    have hheld : s.keys call.redis_key = some call.owner := h.held.mpr (.inl hstart)
    rw [happens_snoc hrun, hwrites, hheld]
    simpa using h.once hstart
  · intro attempt found _ hfound
    cases hfound
    exact hholds
  · simp [hphase]
  · intro _
    rw [hfinds]
    exact h.waiting hpending
  · simp [hreturns]
  · simp [hreturns]

/-- A `GET` that is executed keeps what is known. -/
theorem Track.gets (h : Track call start es s) (hrun : execAll (exec call) start es = some s)
    {attempt : ℕ} {code : LeaseErrorCode} (hphase : s.phase = .reading attempt code) :
    Track call start (es ++ [.executes]) { s with found := some (s.keys call.redis_key) } := by
  have hwrites := happens_other hrun (show ¬ Writes call s .executes from fun hw => by
    obtain ⟨-, ⟨attempt', hsent⟩, -⟩ := hw
    rw [hphase] at hsent
    cases hsent)
  have hfinds := happens_other hrun
    (show ¬ FindsItself call s .executes from fun hf => by cases hf.1)
  have hpending : ∀ r, s.phase ≠ .returned r := by simp [hphase]
  have hreturns : returns? { s with found := some (s.keys call.redis_key) } = none :=
    returns_eq_none hpending
  refine ⟨?_, ?_, ?_, ?_, ?_, ?_, ?_⟩
  · rw [hwrites]
    exact h.held
  · rw [hwrites]
    exact h.once
  · simp [hphase]
  · intro attempt code found _ hfound
    cases hfound
    rfl
  · intro _
    rw [hfinds]
    exact h.waiting hpending
  · simp [hreturns]
  · simp [hreturns]

/-- A call that goes on without an answer, or is given no result, keeps what is known. -/
theorem Track.moves (h : Track call start es s) (hrun : execAll (exec call) start es = some s)
    (hbefore : ∀ r, s.phase ≠ .returned r) (hkeys : s'.keys = s.keys) (hfound : s'.found = none)
    (hphase : ∀ r, s'.phase ≠ .returned r) (hwrites : ¬ Writes call s e)
    (hfinds : ¬ FindsItself call s e) : Track call start (es ++ [e]) s' := by
  have hholds : s'.Holds call ↔ s.Holds call := by rw [Holds, Holds, hkeys]
  have hreturns : s'.returns? = none := returns_eq_none hphase
  refine ⟨?_, ?_, ?_, ?_, ?_, ?_, ?_⟩
  · rw [hholds, happens_other hrun hwrites]
    exact h.held
  · rw [happens_other hrun hwrites]
    exact h.once
  · simp [hfound]
  · simp [hfound]
  · intro _
    rw [happens_other hrun hfinds]
    exact h.waiting hbefore
  · simp [hreturns]
  · simp [hreturns]

/-- An answer ends the call. -/
theorem Track.returns (h : Track call start es s) (hrun : execAll (exec call) start es = some s)
    {r : RedisValue} {b : Bool} (hb : (setResult r).toOption = some b)
    (htrue : b = true → s.Holds call ∧ ¬ Happens (exec call) start (es ++ [.delivers]) (FindsItself call))
    (hfalse : b = false →
      (s.Holds call ↔ Happens (exec call) start (es ++ [.delivers]) (FindsItself call))) :
    Track call start (es ++ [.delivers]) (s.goTo (.returned r)) := by
  have hwrites := happens_other hrun
    (show ¬ Writes call s .delivers from fun hw => by cases hw.1)
  have hreturns : (s.goTo (.returned r)).returns? = some b := hb
  refine ⟨?_, ?_, ?_, ?_, ?_, ?_, ?_⟩
  · rw [hwrites]
    exact h.held
  · rw [hwrites]
    exact h.once
  · simp [goTo]
  · simp [goTo]
  · intro hphase
    exact absurd rfl (hphase r)
  · rw [hreturns]
    intro heq
    exact htrue (Option.some.inj heq)
  · rw [hreturns]
    intro heq
    exact hfalse (Option.some.inj heq)

/-- What is known is kept by every event. -/
theorem Track.step (h : Track call start es s) (hrun : execAll (exec call) start es = some s)
    (he : s.exec call e = some s') : Track call start (es ++ [e]) s' := by
  cases exec_effect he with
  | other howner => exact h.other hrun howner
  | sets hphase _ => exact h.sets hrun hphase
  | gets hphase _ => exact h.gets hrun hphase
  | @answers attempt found hphase hfound =>
    have hpending : ∀ r, s.phase ≠ .returned r := by simp [hphase]
    have hfinds : FindsItself call s .delivers ↔ found = some call.owner := by
      constructor
      · intro hf
        exact Option.some.inj (hfound.symm.trans hf.2.2)
      · rintro rfl
        exact ⟨rfl, ⟨attempt, hphase⟩, hfound⟩
    have hnever := h.waiting hpending
    have hheld := h.sent attempt found hphase hfound
    refine h.returns hrun (returns_setReply call.client found) ?_ ?_
    · intro hfree
      have hfree : found = none := of_decide_eq_true hfree
      refine ⟨hheld.mpr (.inl hfree), ?_⟩
      rw [happens_snoc hrun, hfinds, hfree]
      simpa using hnever
    · intro hfree
      have hfree : found ≠ none := of_decide_eq_false hfree
      rw [happens_snoc hrun, hfinds, hheld]
      exact ⟨fun hor => .inr (hor.resolve_left hfree), fun hor => .inr (hor.resolve_left hnever)⟩
  | @reconciles attempt code found hphase hfound =>
    have hpending : ∀ r, s.phase ≠ .returned r := by simp [hphase]
    have hnot : ¬ FindsItself call s .delivers := by
      rintro ⟨-, ⟨attempt', hsent⟩, -⟩
      rw [hphase] at hsent
      cases hsent
    have hnever : ¬ Happens (exec call) start (es ++ [.delivers]) (FindsItself call) := by
      rw [happens_other hrun hnot]
      exact h.waiting hpending
    have hheld := h.reading attempt code found hphase hfound
    rw [reconcileAcquire_getReply]
    cases found with
    | none =>
      refine h.moves hrun hpending rfl rfl ?_ (fun hw => by cases hw.1) hnot
      simp [goTo, CallPhase.afterReconcile]
    | some v =>
      have hv : s.Holds call ↔ v = call.owner := by simpa using hheld
      refine h.returns hrun (b := decide (v = call.owner)) ?_ ?_ ?_
      · show (setResult (.bool (decide (v = call.owner)))).toOption = _
        cases decide (v = call.owner) <;> rfl
      · intro heq
        exact ⟨hv.mpr (of_decide_eq_true heq), hnever⟩
      · intro hne
        exact iff_of_false (fun hh => of_decide_eq_false hne (hv.mp hh)) hnever
  | moves hbefore hkeys hfound hphase hexecutes hdelivers =>
    exact h.moves hrun hbefore hkeys hfound hphase (fun hw => hexecutes hw.1)
      fun hf => hdelivers hf.1

/-- What is known holds after every trace. -/
theorem track (hstart : start.phase = .starting) (hrun : execAll (exec call) start es = some s) :
    Track call start es s :=
  trace_invariant (track_nil call hstart) (fun _ _ _ _ hu h he => h.step hu he) hrun

/-- **When the result of `acquire` is exact.** A call that has returned tells the truth, that a `SET`
of its own took the key if it returns `True`, and that the key does not hold its owner if it
returns `False`, exactly if the key did not hold its owner at first, and no `SET` of the call is
answered that was executed when an earlier one had already taken effect. -/
theorem acquire_exact_iff (call : AcquireCall) (keys : LeaseKeys) (es : List AcquireEvent)
    (s : Acquisition) (b : Bool) (hrun : execAll (exec call) (new keys) es = some s)
    (hreturns : s.returns? = some b) :
    ((b = true → Happens (exec call) (new keys) es (Writes call)) ∧
      (b = false → s.keys call.redis_key ≠ some call.owner)) ↔
    (keys call.redis_key ≠ some call.owner ∧
      ¬ Happens (exec call) (new keys) es (FindsItself call)) := by
  have h : Track call (new keys) es s := track rfl hrun
  cases b with
  | true =>
    obtain ⟨hholds, hnever⟩ := h.acquired hreturns
    constructor
    · rintro ⟨hwrites, -⟩
      exact ⟨fun hstart => h.once hstart (hwrites rfl), hnever⟩
    · rintro ⟨hstart, -⟩
      exact ⟨fun _ => (h.held.mp hholds).resolve_left hstart, by simp⟩
  | false =>
    have hrefused := h.refused hreturns
    constructor
    · rintro ⟨-, hfree⟩
      have hnot : ¬ s.Holds call := hfree rfl
      exact ⟨fun hstart => hnot (h.held.mpr (.inl hstart)), fun hfinds => hnot (hrefused.mpr hfinds)⟩
    · rintro ⟨-, hnever⟩
      exact ⟨by simp, fun _ hholds => hnever (hrefused.mp hholds)⟩

end Steps

/-! ## Two lost answers -/

/-- A policy of two attempts. -/
def twoAttempts : RedisRetryPolicy :=
  ⟨2, 0, 0, 0, by decide, RedisRetryPolicy.singleAttempt.base_range, RedisRetryPolicy.singleAttempt.max_range,
    RedisRetryPolicy.singleAttempt.jitter_range⟩

/-- A call with five seconds for two attempts. -/
def plainCall : AcquireCall where
  redis_key := "lease"
  owner := "owner-a"
  client := ⟨true, true, .bool true, rfl⟩
  timeout := 5
  retry_policy := twoAttempts

/-- The first `SET` takes the key, and its answer is lost. -/
def lostAnswer : List AcquireEvent :=
  [.begins 0, .sends 0, .executes, .fails .timeout, .reconciles 1]

/-- The call after some events, from when no key is held. -/
def plainAcquisition (es : List AcquireEvent) : Acquisition :=
  (execAll (exec plainCall) (new fun _ => none) es).getD (new fun _ => none)

/-- Events that may happen lead to the call after them. -/
theorem plainAcquisition_run {es : List AcquireEvent}
    (h : (execAll (exec plainCall) (new fun _ => none) es).isSome = true) :
    execAll (exec plainCall) (new fun _ => none) es = some (plainAcquisition es) := by
  obtain ⟨s, hs⟩ := Option.isSome_iff_exists.mp h
  rw [plainAcquisition, hs]
  rfl

/-- If the `GET` is answered, the result is exact. -/
theorem answered_get_exact :
    ((true = true → Happens (exec plainCall) (new fun _ => none)
        (lostAnswer ++ [.executes, .delivers]) (Writes plainCall)) ∧
      (true = false → (plainAcquisition (lostAnswer ++ [.executes, .delivers])).keys
        plainCall.redis_key ≠ some plainCall.owner)) ↔
    (none ≠ some plainCall.owner ∧
      ¬ Happens (exec plainCall) (new fun _ => none) (lostAnswer ++ [.executes, .delivers])
        (FindsItself plainCall)) :=
  acquire_exact_iff plainCall (fun _ => none) (lostAnswer ++ [.executes, .delivers])
    (plainAcquisition (lostAnswer ++ [.executes, .delivers])) true
    (plainAcquisition_run (by decide +kernel)) (by decide +kernel)

/-- If the answer to the `GET` is lost too, the second `SET` finds the owner of the call in the key, and
the call returns `False` though it holds the lease. -/
theorem lost_get_refuses :
    ¬ ∀ (call : AcquireCall) (keys : LeaseKeys) (es : List AcquireEvent) (s : Acquisition),
      execAll (exec call) (new keys) es = some s →
      (s.returns? = some true → Happens (exec call) (new keys) es (Writes call)) ∧
      (s.returns? = some false → s.keys call.redis_key ≠ some call.owner) := by
  intro h
  have hrefused := (h plainCall (fun _ => none)
    (lostAnswer ++ [.fails .timeout, .delays 2 0, .sends 2, .executes, .delivers]) _
    (plainAcquisition_run (by decide +kernel))).2 (by decide +kernel)
  exact hrefused (by decide +kernel)

end Acquisition

end RickIntelligence.Locking
