import RickIntelligence.Lib.Trace
import RickIntelligence.Audit.Operations

/-!
# One effect of an audited operation

An operation has an effect when its callback is invoked, or when the transaction of an atomic call
commits with what its callback did. A caller is armed when it may have the effect with its next step: it
has dispatched the record, or its ledger has committed before the owner's transaction.

The record decides. A caller gets armed only over a record that its own admission left as it was, or
over none, and the record never goes back to such a one: so either nobody is armed and there was no
effect, or one caller is armed and there was none, or there was one effect and nobody is armed
(`Inv.effects`). The execution guard is not needed for this.
-/

namespace RickIntelligence.Audit

open Lib

variable {s s' : State} {r r' : Runner} {o : Operator} {l : Option Record} {guardFree : Bool} {a : Answer}
  {t : Turn} {n m : ℕ} {rec : Record}

/-! ## What a step does -/

/-- The caller may have the effect with its next step. -/
def Point.armed : Point → Bool
  | .dispatched | .committing none => true
  | _ => false

/-- The points of a call that is not atomic before its dispatch. -/
def Point.plain : Point → Bool
  | .guard | .admitting | .admitted | .dispatching => true
  | _ => false

/-- What one step of a call of `run_operation` does to the record, and to the effects. -/
inductive Runs (r : Runner) (l : Option Record) : Turn → Prop
  /-- The record stays, and there is no effect. -/
  | quiet (p : Point) (acquires releases : Bool) (harmed : p.armed = false)
      (hplain : p.plain = true → r.point.plain = true) :
      Runs r l { party := r.goto p, record := l, acquires := acquires, releases := releases }
  /-- The record of the call is admitted. -/
  | admits (p : Point) (harmed : p.armed = false) (hplain : p.plain = true → r.point.plain = true)
      (hnone : l = none) : Runs r l { party := r.goto p, record := some r.call.record }
  /-- The record of the call is dispatched. -/
  | dispatches (p : Point) (hpoint : r.point = .dispatching) (hplain : p.plain = false) (rec : Record)
      (hrec : l = some rec) (hstatus : rec.status = .inProgress)
      (hexecution : rec.execution = r.call.record.execution) :
      Runs r l { party := r.goto p, record := some (r.call.recordAt .dispatched) }
  /-- The callback is invoked. -/
  | invokes (hpoint : r.point = .dispatched) :
      Runs r l { party := r.goto .running, record := l, invokes := true }
  /-- The outcome of the callback is written. -/
  | finishes (p : Point) (harmed : p.armed = false) (hplain : p.plain = false) (rec rec' : Record)
      (hrec : l = some rec) (hstatus : rec.status = .inProgress)
      (hid : rec.execution.id = r.call.execution_id)
      (hrec' : ∃ result, rec' = r.call.completed result ∨ rec' = r.call.unsettled result) :
      Runs r l { party := r.goto p, record := some rec' }
  /-- The ledger commits the record of an atomic call. -/
  | owns (p : Point) (result : Json) (hplain : p.plain = false) (hnone : l = none)
      (harmed : r.call.shared = true → p.armed = false) :
      Runs r l {
        party := r.goto p
        record := some (r.call.owned result)
        commits := r.call.shared }
  /-- The owner's transaction commits. -/
  | commits (p : Point) (hpoint : r.point = .committing none) (harmed : p.armed = false)
      (hplain : p.plain = false) : Runs r l { party := r.goto p, record := l, commits := true }
  /-- The failure handler writes its record. -/
  | fails (started : Bool) (response_status : Option ℕ) (e : Raised)
      (hpoint : r.point = .failing started response_status e)
      (hrec : ∀ rec, l = some rec → rec.fingerprint = r.call.fingerprint ∧ rec.status.unresolved = true) :
      Runs r l { party := r.goto .leaving, record := some (r.call.failure started response_status e) }

variable {α : Type} {x : Option Response} {point : OperatorPoint} {q : Runner} {rec' : Record}

/-- What a transaction leaves: the record as it was, or what its body wrote. -/
theorem transact_cases (l : Option Record) (body : Except Raised (Option Record × α)) (c : Commit) :
    (∃ e, transact l body c = (l, .error e)) ∨
    ∃ l' x, body = .ok (l', x) ∧
      (transact l body c = (l', .ok x) ∨ ∃ e, transact l body c = (l', .error e)) := by
  cases c with
  | lost e => exact .inl ⟨e, rfl⟩
  | done =>
    cases body with
    | error e => exact .inl ⟨e, rfl⟩
    | ok x => exact .inr ⟨x.1, x.2, rfl, .inl rfl⟩
  | unknown e =>
    cases body with
    | error e' => exact .inl ⟨e', rfl⟩
    | ok x => exact .inr ⟨x.1, x.2, rfl, .inr ⟨e, rfl⟩⟩

/-- The record that a transaction with a body that does not raise leaves. -/
theorem transact_fst (l l' : Option Record) (x : α) (c : Commit) :
    (transact l (.ok (l', x)) c).1 = l ∨ (transact l (.ok (l', x)) c).1 = l' := by
  cases c with
  | lost e => exact .inl rfl
  | done => exact .inr rfl
  | unknown e => exact .inr rfl

variable {c : Call} {l' : Option Record} {p : Point} {label : Label}

/-- A call that is not replayed finds no record. -/
theorem replay_none (h : c.replay l = .ok none) : l = none := by
  cases l with
  | none => rfl
  | some previous =>
    unfold Call.replay at h
    dsimp only at h
    split at h
    · cases h
    · split at h
      · cases h
      · cases h
      · cases hresponse : operationResponse c.operation_id previous with
        | error e =>
          rw [hresponse] at h
          cases h
        | ok response =>
          rw [hresponse] at h
          cases h

/-- What the first transaction leaves. -/
theorem admit_ok (h : c.admission l = .ok (l', x)) :
    (l' = l ∧ x.isSome) ∨ (l = none ∧ l' = some c.record ∧ x = none) := by
  unfold Call.admission at h
  split at h
  · cases h
  · cases h
    exact .inl ⟨rfl, rfl⟩
  · next hreplay =>
    cases h
    exact .inr ⟨replay_none hreplay, rfl, rfl⟩

/-- What the second transaction leaves. -/
theorem dispatch_ok {x : Unit} (h : c.dispatch l = .ok (l', x)) :
    ∃ rec, l = some rec ∧ rec.status = .inProgress ∧ rec.execution = c.record.execution ∧
      l' = some (c.recordAt .dispatched) := by
  unfold Call.dispatch at h
  split at h
  · cases h
  · next previous =>
    split at h
    · next hsame =>
      cases h
      exact ⟨previous, rfl, hsame.1, hsame.2, rfl⟩
    · cases h

/-- What the third transaction leaves. -/
theorem finish_ok {result : Json} {x : Unit} (h : c.finish result l = .ok (l', x)) :
    ∃ rec, l = some rec ∧ rec.status = .inProgress ∧ rec.execution.id = c.execution_id ∧
      l' = some (c.completed result) := by
  unfold Call.finish at h
  split at h
  · cases h
  · next previous =>
    split at h
    · next hsame =>
      cases h
      exact ⟨previous, rfl, hsame.1, hsame.2, rfl⟩
    · cases h

/-- What the fourth transaction leaves. -/
theorem settle_cases (c : Call) (result : Json) (l : Option Record) :
    c.settle result l = l ∨
    ∃ rec, l = some rec ∧ rec.status = .inProgress ∧ rec.execution.id = c.execution_id ∧
      c.settle result l = some (c.unsettled result) := by
  unfold Call.settle
  split
  · exact .inl rfl
  · next previous =>
    split
    · next hsame => exact .inr ⟨previous, rfl, hsame.1, hsame.2, rfl⟩
    · exact .inl rfl

/-- What the transaction of an atomic call leaves. -/
theorem own_ok {callback : Except Raised Json} (h : c.own callback l = .ok (l', x)) :
    (l' = l ∧ x.isSome) ∨ (l = none ∧ x = none ∧
      ∃ result, l' = some (c.owned result)) := by
  unfold Call.own at h
  split at h
  · cases h
  · cases h
    exact .inl ⟨rfl, rfl⟩
  · next hreplay =>
    split at h
    · cases h
    · next result hresult =>
      cases h
      exact .inr ⟨replay_none hreplay, rfl, result, rfl⟩

/-- What the failure handler leaves. -/
theorem fail_cases (c : Call) (failure : Record) (l : Option Record) :
    c.fail failure l = l ∨ (c.fail failure l = some failure ∧
      ∀ rec, l = some rec → rec.fingerprint = c.fingerprint ∧ rec.status.unresolved = true) := by
  unfold Call.fail
  split
  · exact .inr ⟨rfl, fun _ hrec => nomatch hrec⟩
  · next previous =>
    split
    · next hsame =>
      refine .inr ⟨rfl, ?_⟩
      intro rec hrec
      cases hrec
      exact hsame
    · exact .inl rfl

/-- The first transaction. -/
theorem runs_admit (hpoint : r.point = .admitting) (c : Commit) :
    Runs r l (r.afterAdmit (transact l (r.call.admission l) c)) := by
  have hplain : r.point.plain = true := by rw [hpoint]; rfl
  rcases transact_cases l (r.call.admission l) c with ⟨e, hout⟩ | ⟨l', x, hbody, hout⟩
  · rw [hout]
    exact .quiet (.failing false none e) false false rfl fun _ => hplain
  · rcases admit_ok hbody with ⟨hsame, hx⟩ | ⟨hnone, hnew, hx⟩
    · obtain ⟨response, rfl⟩ := Option.isSome_iff_exists.mp hx
      rcases hout with hout | ⟨e, hout⟩
      · rw [hout, hsame]
        exact .quiet .leaving false false rfl fun _ => hplain
      · rw [hout, hsame]
        exact .quiet (.failing false none e) false false rfl fun _ => hplain
    · subst hx
      rcases hout with hout | ⟨e, hout⟩
      · rw [hout, hnew]
        exact .admits .admitted rfl (fun _ => hplain) hnone
      · rw [hout, hnew]
        exact .admits (.failing false none e) rfl (fun _ => hplain) hnone

/-- The second transaction. -/
theorem runs_dispatch (hpoint : r.point = .dispatching) (c : Commit) :
    Runs r l (r.afterDispatch (transact l (r.call.dispatch l) c)) := by
  rcases transact_cases l (r.call.dispatch l) c with ⟨e, hout⟩ | ⟨l', x, hbody, hout⟩
  · rw [hout]
    exact .quiet (.failing false none e) false false rfl nofun
  · obtain ⟨rec, hrec, hstatus, hexecution, hnew⟩ := dispatch_ok hbody
    rcases hout with hout | ⟨e, hout⟩
    · rw [hout, hnew]
      exact .dispatches .dispatched hpoint rfl rec hrec hstatus hexecution
    · rw [hout, hnew]
      exact .dispatches (.failing false none e) hpoint rfl rec hrec hstatus hexecution

/-- The caller goes on after the third transaction, and is not armed. -/
theorem afterFinish_turn (r : Runner) (result : Json) (x : Option Record × Except Raised Unit) :
    ∃ p : Point, r.afterFinish result x = r.turn p x.1 ∧ p.armed = false ∧ p.plain = false := by
  unfold Runner.afterFinish
  split
  · exact ⟨.leaving, rfl, rfl, rfl⟩
  · split
    · exact ⟨.unsettled result, rfl, rfl, rfl⟩
    · exact ⟨.failing true none _, rfl, rfl, rfl⟩

/-- The caller goes on after the fourth transaction, and is not armed. -/
theorem afterSettle_turn (r : Runner) (result : Json) (x : Option Record × Except Raised Unit) :
    ∃ p : Point, r.afterSettle result x = r.turn p x.1 ∧ p.armed = false ∧ p.plain = false := by
  unfold Runner.afterSettle
  split
  · exact ⟨.failing true none _, rfl, rfl, rfl⟩
  · split
    · exact ⟨.failing true none _, rfl, rfl, rfl⟩
    · exact ⟨.leaving, rfl, rfl, rfl⟩

/-- The third transaction. -/
theorem runs_finish (result : Json) (c : Commit) :
    Runs r l (r.afterFinish result (transact l (r.call.finish result l) c)) := by
  obtain ⟨p, hturn, harmed, hplain⟩ :=
    afterFinish_turn r result (transact l (r.call.finish result l) c)
  rw [hturn]
  have hfst : (transact l (r.call.finish result l) c).1 = l ∨
      ∃ l', r.call.finish result l = .ok (l', ()) ∧ (transact l (r.call.finish result l) c).1 = l' := by
    rcases transact_cases l (r.call.finish result l) c with ⟨e, hout⟩ | ⟨l', x, hbody, hout | ⟨e, hout⟩⟩
    · exact .inl (by rw [hout])
    · exact .inr ⟨l', hbody, by rw [hout]⟩
    · exact .inr ⟨l', hbody, by rw [hout]⟩
  rcases hfst with hl | ⟨l', hbody, hl⟩
  · rw [hl]
    exact .quiet p false false harmed fun htrue => by simp [hplain] at htrue
  · obtain ⟨rec, hrec, hstatus, hid, hnew⟩ := finish_ok hbody
    rw [hl, hnew]
    exact .finishes p harmed hplain rec _ hrec hstatus hid ⟨result, .inl rfl⟩

/-- The fourth transaction. -/
theorem runs_settle (result : Json) (c : Commit) :
    Runs r l (r.afterSettle result (transact l (.ok (r.call.settle result l, ())) c)) := by
  obtain ⟨p, hturn, harmed, hplain⟩ :=
    afterSettle_turn r result (transact l (.ok (r.call.settle result l, ())) c)
  have hquiet : Runs r l (r.turn p l) :=
    .quiet p false false harmed fun htrue => by simp [hplain] at htrue
  rw [hturn]
  rcases transact_fst l (r.call.settle result l) () c with hl | hl
  · rw [hl]
    exact hquiet
  · rw [hl]
    rcases settle_cases r.call result l with hsame | ⟨rec, hrec, hstatus, hid, hnew⟩
    · rw [hsame]
      exact hquiet
    · rw [hnew]
      exact .finishes p harmed hplain rec _ hrec hstatus hid ⟨result, .inr rfl⟩

/-- The transaction of an atomic call. -/
theorem runs_own (callback : Except Raised Json) (c : Commit) :
    Runs r l (r.afterOwn l callback (transact l (r.call.own callback l) c)) := by
  -- A transaction that leaves the record as it was commits nothing.
  have hflag : (r.call.shared && l.isNone && l.isSome) = false := by
    cases l <;> simp
  have hquiet : ∀ p : Point, p.armed = false → p.plain = false →
      Runs r l { r.turn p l with commits := r.call.shared && l.isNone && l.isSome } := by
    intro p harmed hplain
    rw [hflag]
    exact .quiet p false false harmed fun htrue => by simp [hplain] at htrue
  rcases transact_cases l (r.call.own callback l) c with ⟨e, hout⟩ | ⟨l', x, hbody, hout⟩
  · rw [hout]
    exact hquiet (.failing true _ e) rfl rfl
  · rcases own_ok hbody with ⟨hsame, hx⟩ | ⟨hnone, hx, result, hnew⟩
    · obtain ⟨response, rfl⟩ := Option.isSome_iff_exists.mp hx
      rcases hout with hout | ⟨e, hout⟩
      · rw [hout, hsame]
        apply hquiet
        · cases r.call.shared <;> rfl
        · cases r.call.shared <;> rfl
      · rw [hout, hsame]
        exact hquiet (.failing true _ e) rfl rfl
    · subst hx hnew hnone
      have hcommits : (r.call.shared && (none : Option Record).isNone &&
          (some (r.call.owned result)).isSome) = r.call.shared := by simp
      rcases hout with hout | ⟨e, hout⟩
      · rw [hout]
        show Runs r none { r.turn (if r.call.shared then .leaving else .committing none)
          (some (r.call.owned result)) with
            commits := r.call.shared && (none : Option Record).isNone &&
              (some (r.call.owned result)).isSome }
        rw [hcommits]
        refine .owns _ result ?_ rfl ?_
        · cases r.call.shared <;> rfl
        · intro hshared
          rw [hshared]
          rfl
      · rw [hout]
        show Runs r none { r.turn (.failing true (r.ownStatus none callback) e)
          (some (r.call.owned result)) with
            commits := r.call.shared && (none : Option Record).isNone &&
              (some (r.call.owned result)).isSome }
        rw [hcommits]
        exact .owns _ result rfl rfl fun _ => rfl

/-- The failure handler. -/
theorem runs_fail {started : Bool} {response_status : Option ℕ} {e : Raised}
    (hpoint : r.point = .failing started response_status e) (c : Commit) :
    Runs r l (r.turn .leaving (transact l
      (.ok (r.call.fail (r.call.failure started response_status e) l, ())) c).1) := by
  rcases transact_fst l (r.call.fail (r.call.failure started response_status e) l) () c with hl | hl
  · rw [hl]
    exact .quiet .leaving false false rfl nofun
  · rw [hl]
    rcases fail_cases r.call (r.call.failure started response_status e) l with hsame | ⟨hnew, hrec⟩
    · rw [hsame]
      exact .quiet .leaving false false rfl nofun
    · rw [hnew]
      exact .fails started response_status e hpoint hrec

/-- Every step of a call of `run_operation` is one of the list. -/
theorem runner_runs (h : r.step l guardFree a = some t) : Runs r l t := by
  unfold Runner.step at h
  split at h
  · next hpoint =>
    have hplain : r.point.plain = true := by rw [hpoint]; rfl
    cases h
    unfold Runner.tryGuard
    split
    · split
      · exact .quiet .admitting true false rfl fun _ => hplain
      · exact .quiet .replaying false false rfl fun _ => hplain
    · exact .quiet .leaving false false rfl fun _ => hplain
  · cases h
    exact .quiet .leaving false false rfl nofun
  · next hpoint =>
    cases h
    exact runs_admit hpoint a.commit
  · next hpoint =>
    have hplain : r.point.plain = true := by rw [hpoint]; rfl
    cases h
    unfold Runner.assertHeld
    split
    · exact .quiet .dispatching false false rfl fun _ => hplain
    · exact .quiet (.failing false none (.api "provider_unavailable")) false false rfl fun _ => hplain
  · next hpoint =>
    cases h
    exact runs_dispatch hpoint a.commit
  · next hpoint =>
    cases h
    unfold Runner.assertHeld
    split
    · exact .invokes hpoint
    · exact .quiet (.failing false none (.api "provider_unavailable")) false false rfl nofun
  · cases h
    unfold Runner.afterCallback
    split
    · exact .quiet (.failing true none _) false false rfl nofun
    · exact .quiet (.returning _) false false rfl nofun
  · next result hpoint =>
    cases h
    exact runs_finish result a.commit
  · next result hpoint =>
    cases h
    exact runs_settle result a.commit
  · cases h
    exact runs_own a.callback a.commit
  · next response hpoint =>
    cases h
    cases response with
    | none =>
      cases a.commit with
      | done => exact .commits .leaving hpoint rfl rfl
      | lost e => exact .quiet (.failing true _ e) false false rfl nofun
      | unknown e => exact .commits (.failing true _ e) hpoint rfl rfl
    | some response =>
      cases a.commit with
      | done => exact .quiet .leaving false false rfl nofun
      | lost e => exact .quiet (.failing true _ e) false false rfl nofun
      | unknown e => exact .quiet (.failing true _ e) false false rfl nofun
  · next hpoint =>
    cases h
    exact runs_fail hpoint a.commit
  · cases h
    exact .quiet .dead false true rfl nofun
  · cases h

/-- What one step of a call of `reconcile_operation` does: nothing to the record, or the resolution of
an unresolved one. -/
theorem operator_resolves (h : o.step point l guardFree a = some t) :
    (∃ p, t.party = .operator o p) ∧ t.invokes = false ∧ t.commits = false ∧
    (t.record = l ∨ ∃ rec, l = some rec ∧ rec.status.unresolved = true ∧ o.resolves rec = true ∧
      t.record = some (o.reconciled rec)) := by
  unfold Operator.step at h
  split at h
  · split at h
    · split at h <;> cases h <;> exact ⟨⟨_, rfl⟩, rfl, rfl, .inl rfl⟩
    · cases h
      exact ⟨⟨_, rfl⟩, rfl, rfl, .inl rfl⟩
  · split at h
    · split at h <;> cases h <;> exact ⟨⟨_, rfl⟩, rfl, rfl, .inl rfl⟩
    · cases h
      exact ⟨⟨_, rfl⟩, rfl, rfl, .inl rfl⟩
  · split at h <;> cases h <;> exact ⟨⟨_, rfl⟩, rfl, rfl, .inl rfl⟩
  · next event =>
    cases h
    refine ⟨⟨_, rfl⟩, rfl, rfl, ?_⟩
    dsimp only
    rcases transact_cases l (o.write event l) a.commit with ⟨e, hout⟩ | ⟨l', x, hbody, hout⟩
    · rw [hout]
      exact .inl rfl
    · have hfst : (transact l (o.write event l) a.commit).1 = l' := by
        rcases hout with hout | ⟨e, hout⟩
        · rw [hout]
        · rw [hout]
      rw [hfst]
      unfold Operator.write at hbody
      split at hbody
      · cases hbody
      · next rec =>
        split at hbody
        · cases hbody
        · split at hbody
          · split at hbody
            · cases hbody
              exact .inl rfl
            · cases hbody
          · split at hbody
            · next hresolves =>
              cases hbody
              refine .inr ⟨rec, rfl, ?_, hresolves, rfl⟩
              unfold Operator.resolves at hresolves
              split at hresolves
              · exact (Bool.and_eq_true_iff.mp hresolves).1
              · cases hstatus : rec.status <;> simp_all [Status.unresolved]
            · cases hbody
  · cases h
    exact ⟨⟨_, rfl⟩, rfl, rfl, .inl rfl⟩
  · cases h

/-! ## The invariant -/

/-- No caller is armed. -/
def NoneArmed (s : State) : Prop :=
  ∀ n r, s.parties n = some (.runner r) → r.point.armed = false

/-- There was no effect, and no caller is armed. -/
structure Free (s : State) : Prop where
  invoked : s.invoked = []
  committed : s.committed = []
  armed : NoneArmed s

/-- The caller alone may have an effect, or alone had one, over a record with its fingerprint that is
past the admission. -/
structure Claimed (s : State) (m : ℕ) (r : Runner) (rec : Record) : Prop where
  record : s.record = some rec
  phase : rec.execution.phase ≠ .admitted
  runner : s.parties m = some (.runner r)
  fingerprint : r.call.fingerprint = rec.fingerprint
  effects :
    (s.invoked = [] ∧ s.committed = [] ∧
      ∀ n r', s.parties n = some (.runner r') → r'.point.armed = true → n = m) ∨
    (s.invoked ++ s.committed = [m] ∧ NoneArmed s)

/-- What holds in every run. -/
structure Inv (s : State) : Prop where
  /-- A call has the identifier of its caller. -/
  ids : ∀ n r, s.parties n = some (.runner r) → r.call.execution_id = n
  /-- An atomic call has no dispatch. -/
  plain : ∀ n r, s.parties n = some (.runner r) → r.point.plain = true → r.call.atomic = false
  /-- The record has the fingerprint of the call that wrote it. -/
  writer : ∀ rec, s.record = some rec →
    ∃ r, s.parties rec.execution.id = some (.runner r) ∧ r.call.fingerprint = rec.fingerprint
  effects : Free s ∨ ∃ m r rec, Claimed s m r rec

/-- A machine with no calls. -/
theorem inv_initial : Inv State.initial where
  ids _ _ h := nomatch h
  plain _ _ h := nomatch h
  writer _ h := nomatch h
  effects := .inl ⟨rfl, rfl, fun _ _ h => nomatch h⟩

/-- Nobody has an effect before the record is past its admission. -/
theorem Inv.free (h : Inv s) (hrec : ∀ rec, s.record = some rec → rec.execution.phase = .admitted) :
    Free s := by
  rcases h.effects with hfree | ⟨m, r, rec, hclaimed⟩
  · exact hfree
  · exact absurd (hrec rec hclaimed.record) hclaimed.phase

/-- The callers after one of them moved. -/
theorem parties_take (s : State) (n m : ℕ) (t : Turn) :
    (s.take n t).parties m = if m = n then some t.party else s.parties m := by
  show Function.update s.parties n (some t.party) m = _
  by_cases hm : m = n
  · rw [if_pos hm, hm, Function.update_self]
  · rw [if_neg hm, Function.update_of_ne hm]

/-- A runner after another caller moved, or the runner itself did. -/
theorem runner_take (ht : t.party = r.goto p) {r' : Runner} (h : (s.take n t).parties m = some (.runner r')) :
    (m = n ∧ r' = { r with point := p }) ∨ (m ≠ n ∧ s.parties m = some (.runner r')) := by
  rw [parties_take] at h
  by_cases hm : m = n
  · rw [if_pos hm, ht] at h
    cases h
    exact .inl ⟨hm, rfl⟩
  · rw [if_neg hm] at h
    exact .inr ⟨hm, h⟩

/-- A runner stays with its call. -/
theorem runner_stays (hr : s.parties n = some (.runner r)) (ht : t.party = r.goto p) {r' : Runner}
    (h : s.parties m = some (.runner r')) :
    ∃ r'', (s.take n t).parties m = some (.runner r'') ∧ r''.call = r'.call := by
  by_cases hm : m = n
  · subst hm
    cases hr.symm.trans h
    refine ⟨{ r with point := p }, ?_, rfl⟩
    rw [parties_take, if_pos rfl, ht]
    rfl
  · exact ⟨r', by rw [parties_take, if_neg hm, h], rfl⟩

/-- The identifiers, the kinds of calls and the writer after a step of a runner: the record is one that
was there, or one of this call. -/
theorem Inv.take (h : Inv s) (hr : s.parties n = some (.runner r)) (ht : t.party = r.goto p)
    (hplain : p.plain = true → r.point.plain = true)
    (hwriter : ∀ rec, t.record = some rec → s.record = some rec ∨ (rec.execution.id = r.call.execution_id ∧ rec.fingerprint = r.call.fingerprint))
    (heffects : Free (s.take n t) ∨ ∃ m r rec, Claimed (s.take n t) m r rec) : Inv (s.take n t) where
  ids := by
    intro m r' hr'
    rcases runner_take ht hr' with ⟨hm, heq⟩ | ⟨-, hr'⟩
    · rw [hm, heq]
      exact h.ids n r hr
    · exact h.ids m r' hr'
  plain := by
    intro m r' hr' hp
    rcases runner_take ht hr' with ⟨hm, heq⟩ | ⟨-, hr'⟩
    · rw [heq] at hp ⊢
      exact h.plain n r hr (hplain hp)
    · exact h.plain m r' hr' hp
  writer := by
    intro rec hrec
    rcases hwriter rec hrec with hold | ⟨hid, hfingerprint⟩
    · obtain ⟨r', hr', hfingerprint⟩ := h.writer rec hold
      obtain ⟨r'', hr'', hcall⟩ := runner_stays hr ht hr'
      exact ⟨r'', hr'', by rw [hcall, hfingerprint]⟩
    · obtain ⟨r'', hr'', hcall⟩ := runner_stays hr ht hr
      refine ⟨r'', ?_, by rw [hcall, hfingerprint]⟩
      rw [hid, h.ids n r hr]
      exact hr''
  effects := heffects

/-- A step of a caller that does not get armed keeps the others unarmed. -/
theorem NoneArmed.take (h : NoneArmed s) (ht : t.party = r.goto p) (harmed : p.armed = false) :
    NoneArmed (s.take n t) := by
  intro m r' hr'
  rcases runner_take ht hr' with ⟨-, heq⟩ | ⟨-, hr'⟩
  · rw [heq]
    exact harmed
  · exact h m r' hr'

/-- A step without effect that leaves its caller unarmed. -/
theorem Free.take (h : Free s) (ht : t.party = r.goto p) (harmed : p.armed = false) (hinvokes : t.invokes = false)
    (hcommits : t.commits = false) : Free (s.take n t) where
  invoked := by
    show (if t.invokes then _ else s.invoked) = []
    rw [hinvokes]
    exact h.invoked
  committed := by
    show (if t.commits then _ else s.committed) = []
    rw [hcommits]
    exact h.committed
  armed := h.armed.take ht harmed

/-- A step without effect that leaves its caller unarmed, and the record past its admission. -/
theorem Claimed.take (h : Claimed s m q rec) (hr : s.parties n = some (.runner r)) (ht : t.party = r.goto p)
    (harmed : p.armed = false) (hinvokes : t.invokes = false) (hcommits : t.commits = false)
    (hrec : t.record = some rec') (hphase : rec'.execution.phase ≠ .admitted)
    (hfingerprint : rec'.fingerprint = rec.fingerprint) :
    ∃ m r rec, Claimed (s.take n t) m r rec := by
  obtain ⟨q', hq', hcall⟩ := runner_stays hr ht h.runner
  refine ⟨m, q', rec', hrec, hphase, hq', ?_, ?_⟩
  · rw [hcall, hfingerprint]
    exact h.fingerprint
  · have hinvoked : (s.take n t).invoked = s.invoked := by
      show (if t.invokes then _ else s.invoked) = s.invoked
      rw [hinvokes]
      rfl
    have hcommitted : (s.take n t).committed = s.committed := by
      show (if t.commits then _ else s.committed) = s.committed
      rw [hcommits]
      rfl
    rw [hinvoked, hcommitted]
    rcases h.effects with ⟨hnone, hnone', honly⟩ | ⟨hone, hnone⟩
    · refine .inl ⟨hnone, hnone', ?_⟩
      intro k r' hr' harmed'
      rcases runner_take ht hr' with ⟨-, heq⟩ | ⟨-, hr'⟩
      · rw [heq] at harmed'
        cases harmed.symm.trans harmed'
      · exact honly k r' hr' harmed'
    · exact .inr ⟨hone, hnone.take ht harmed⟩

/-- The armed caller has its effect. -/
theorem Claimed.effect (h : Claimed s m q rec) (hr : s.parties n = some (.runner r)) (harmed : r.point.armed = true)
    (ht : t.party = r.goto p) (hp : p.armed = false) (hrec : t.record = s.record)
    (hflags : (t.invokes = true ∧ t.commits = false) ∨ (t.invokes = false ∧ t.commits = true)) :
    ∃ m r rec, Claimed (s.take n t) m r rec := by
  rcases h.effects with ⟨hnone, hnone', honly⟩ | ⟨-, hnone⟩
  · -- The armed caller is the one that claimed the effect.
    have hm : n = m := honly n r hr harmed
    subst hm
    cases hr.symm.trans h.runner
    refine ⟨n, { r with point := p }, rec, hrec.trans h.record, h.phase, ?_, h.fingerprint, .inr ⟨?_, ?_⟩⟩
    · rw [parties_take, if_pos rfl, ht]
      rfl
    · show (if t.invokes then s.invoked ++ [n] else s.invoked) ++
        (if t.commits then s.committed ++ [n] else s.committed) = [n]
      rcases hflags with ⟨hinvokes, hcommits⟩ | ⟨hinvokes, hcommits⟩
      · rw [hinvokes, hcommits, hnone, hnone']
        rfl
      · rw [hinvokes, hcommits, hnone, hnone']
        rfl
    · intro k r' hr'
      rcases runner_take ht hr' with ⟨-, heq⟩ | ⟨hk, hr'⟩
      · rw [heq]
        exact hp
      · cases harmed' : r'.point.armed with
        | false => rfl
        | true => exact absurd (honly k r' hr' harmed') hk
  · rw [hnone n r hr] at harmed
    cases harmed

/-- Over a record that nobody has passed, the caller claims the effect for itself. -/
theorem Free.claim (h : Free s) (ht : t.party = r.goto p) (hrec : t.record = some rec')
    (hphase : rec'.execution.phase ≠ .admitted) (hfingerprint : r.call.fingerprint = rec'.fingerprint)
    (hinvokes : t.invokes = false) (hcommits : t.commits = true → p.armed = false) :
    ∃ m r rec, Claimed (s.take n t) m r rec := by
  refine ⟨n, { r with point := p }, rec', hrec, hphase, ?_, hfingerprint, ?_⟩
  · rw [parties_take, if_pos rfl, ht]
    rfl
  · have hinvoked : (s.take n t).invoked = [] := by
      show (if t.invokes then _ else s.invoked) = []
      rw [hinvokes]
      exact h.invoked
    rw [hinvoked]
    cases hflag : t.commits with
    | true =>
      refine .inr ⟨?_, h.armed.take ht (hcommits hflag)⟩
      show [] ++ (if t.commits then s.committed ++ [n] else s.committed) = [n]
      rw [hflag, h.committed]
      rfl
    | false =>
      refine .inl ⟨rfl, ?_, ?_⟩
      · show (if t.commits then _ else s.committed) = []
        rw [hflag]
        exact h.committed
      · intro k r' hr' harmed
        rcases runner_take ht hr' with ⟨hk, -⟩ | ⟨-, hr'⟩
        · exact hk
        · rw [h.armed k r' hr'] at harmed
          cases harmed

/-- A step of a call of `run_operation` keeps the invariant. -/
theorem inv_runs (h : Inv s) (hr : s.parties n = some (.runner r)) (hruns : Runs r s.record t) :
    Inv (s.take n t) := by
  cases hruns with
  | quiet p acquires releases harmed hplain =>
    refine h.take hr rfl hplain (fun rec hrec => .inl hrec) ?_
    rcases h.effects with hfree | ⟨m, q, rec, hclaimed⟩
    · exact .inl (hfree.take rfl harmed rfl rfl)
    · exact .inr (hclaimed.take hr rfl harmed rfl rfl hclaimed.record hclaimed.phase rfl)
  | admits p harmed hplain hnone =>
    refine h.take hr rfl hplain (fun rec hrec => .inr ?_) (.inl ?_)
    · cases hrec
      exact ⟨rfl, rfl⟩
    · have hfree : Free s := h.free fun rec hrec => by simp [hnone] at hrec
      exact hfree.take rfl harmed rfl rfl
  | dispatches p hpoint hplain rec hrec hstatus hexecution =>
    have hatomic : r.call.atomic = false := h.plain n r hr (by rw [hpoint]; rfl)
    refine h.take hr rfl (fun htrue => by simp [hplain] at htrue) (fun rec hrec => .inr ?_) (.inr ?_)
    · cases hrec
      exact ⟨rfl, rfl⟩
    · -- The record is still the one that the call admitted.
      have hfree : Free s := by
        apply h.free
        intro rec' hrec'
        cases hrec.symm.trans hrec'
        rw [hexecution]
        show (if r.call.atomic then Phase.atomic else Phase.admitted) = .admitted
        rw [hatomic]
        rfl
      exact hfree.claim rfl rfl (fun heq => nomatch heq) rfl rfl nofun
  | invokes hpoint =>
    refine h.take hr rfl nofun (fun rec hrec => .inl hrec) ?_
    have harmed : r.point.armed = true := by
      rw [hpoint]
      rfl
    rcases h.effects with hfree | ⟨m, q, rec, hclaimed⟩
    · cases (hfree.armed n r hr).symm.trans harmed
    · exact .inr (hclaimed.effect hr harmed rfl rfl rfl (.inl ⟨rfl, rfl⟩))
  | finishes p harmed hplain rec rec' hrec hstatus hid hrec' =>
    obtain ⟨result, hrec'⟩ := hrec'
    have hown : rec'.execution.id = r.call.execution_id ∧ rec'.fingerprint = r.call.fingerprint ∧
        rec'.execution.phase = .returned := by
      rcases hrec' with hrec' | hrec' <;> rw [hrec'] <;> exact ⟨rfl, rfl, rfl⟩
    -- The record with the identifier of the call has its fingerprint.
    have hfingerprint : rec.fingerprint = r.call.fingerprint := by
      obtain ⟨q, hq, hq'⟩ := h.writer rec hrec
      rw [hid, h.ids n r hr] at hq
      cases hr.symm.trans hq
      exact hq'.symm
    refine h.take hr rfl (fun htrue => by simp [hplain] at htrue) (fun rec hrec => .inr ?_) ?_
    · cases hrec
      exact ⟨hown.1, hown.2.1⟩
    · rcases h.effects with hfree | ⟨m, q, rec₀, hclaimed⟩
      · exact .inl (hfree.take rfl harmed rfl rfl)
      · cases hrec.symm.trans hclaimed.record
        exact .inr (hclaimed.take hr rfl harmed rfl rfl rfl (by rw [hown.2.2]; exact nofun)
          (hown.2.1.trans hfingerprint.symm))
  | owns p result hplain hnone harmed =>
    refine h.take hr rfl (fun htrue => by simp [hplain] at htrue) (fun rec hrec => .inr ?_) (.inr ?_)
    · cases hrec
      exact ⟨rfl, rfl⟩
    · have hfree : Free s := h.free fun rec hrec => by simp [hnone] at hrec
      exact hfree.claim rfl rfl (fun heq => nomatch heq) rfl rfl harmed
  | commits p hpoint harmed hplain =>
    refine h.take hr rfl (fun htrue => by simp [hplain] at htrue) (fun rec hrec => .inl hrec) ?_
    have harmed' : r.point.armed = true := by
      rw [hpoint]
      rfl
    rcases h.effects with hfree | ⟨m, q, rec, hclaimed⟩
    · cases (hfree.armed n r hr).symm.trans harmed'
    · exact .inr (hclaimed.effect hr harmed' rfl harmed rfl (.inr ⟨rfl, rfl⟩))
  | fails started response_status e hpoint hrec =>
    refine h.take hr rfl nofun (fun rec hrec => .inr ?_) ?_
    · cases hrec
      exact ⟨rfl, rfl⟩
    · rcases h.effects with hfree | ⟨m, q, rec, hclaimed⟩
      · exact .inl (hfree.take rfl rfl rfl rfl)
      · refine .inr (hclaimed.take hr rfl rfl rfl rfl rfl ?_ (hrec rec hclaimed.record).1.symm)
        show (if r.call.atomic then Phase.rolledBack
          else if started then Phase.uncertain else Phase.notStarted) ≠ .admitted
        split
        · exact nofun
        · split <;> exact nofun

/-- The invariant for other callers of `reconcile_operation`, another guard, and a record that keeps its
execution and its fingerprint. -/
theorem Inv.other (h : Inv s)
    (hrunners : ∀ m r, s'.parties m = some (.runner r) ↔ s.parties m = some (.runner r))
    (hinvoked : s'.invoked = s.invoked) (hcommitted : s'.committed = s.committed)
    (hrec : s'.record = s.record ∨ ∃ rec rec', s.record = some rec ∧ s'.record = some rec' ∧
      rec'.execution = rec.execution ∧ rec'.fingerprint = rec.fingerprint) : Inv s' := by
  have hnone : NoneArmed s → NoneArmed s' := fun hnone m r hr => hnone m r ((hrunners m r).mp hr)
  refine ⟨fun m r hr => h.ids m r ((hrunners m r).mp hr),
    fun m r hr => h.plain m r ((hrunners m r).mp hr), ?_, ?_⟩
  · intro rec' hrec'
    have hold : ∃ rec, s.record = some rec ∧ rec'.execution = rec.execution ∧
        rec'.fingerprint = rec.fingerprint := by
      rcases hrec with hsame | ⟨rec, rec₁, hrec, hrec₁, hexecution, hfingerprint⟩
      · exact ⟨rec', hsame.symm.trans hrec', rfl, rfl⟩
      · cases hrec₁.symm.trans hrec'
        exact ⟨rec, hrec, hexecution, hfingerprint⟩
    obtain ⟨rec, hrec, hexecution, hfingerprint⟩ := hold
    obtain ⟨r, hr, hr'⟩ := h.writer rec hrec
    refine ⟨r, ?_, hr'.trans hfingerprint.symm⟩
    rw [hexecution]
    exact (hrunners _ r).mpr hr
  · rcases h.effects with hfree | ⟨m, q, rec, hclaimed⟩
    · exact .inl ⟨hinvoked.trans hfree.invoked, hcommitted.trans hfree.committed, hnone hfree.armed⟩
    · have hnew : ∃ rec', s'.record = some rec' ∧ rec'.execution = rec.execution ∧
          rec'.fingerprint = rec.fingerprint := by
        rcases hrec with hsame | ⟨rec₀, rec', hrec₀, hrec', hexecution, hfingerprint⟩
        · exact ⟨rec, hsame.trans hclaimed.record, rfl, rfl⟩
        · cases hrec₀.symm.trans hclaimed.record
          exact ⟨rec', hrec', hexecution, hfingerprint⟩
      obtain ⟨rec', hrec', hexecution, hfingerprint⟩ := hnew
      refine .inr ⟨m, q, rec', hrec', ?_, (hrunners m q).mpr hclaimed.runner, ?_, ?_⟩
      · rw [hexecution]
        exact hclaimed.phase
      · rw [hfingerprint]
        exact hclaimed.fingerprint
      · rw [hinvoked, hcommitted]
        rcases hclaimed.effects with ⟨hnil, hnil', honly⟩ | ⟨hone, harmed⟩
        · exact .inl ⟨hnil, hnil', fun k r hr => honly k r ((hrunners k r).mp hr)⟩
        · exact .inr ⟨hone, hnone harmed⟩

/-- The runners do not change when a caller that is none takes a step. -/
theorem runners_operator {p : Party} (hp : s.parties n = some (.operator o point))
    (hnew : ∃ point', p = .operator o point') (m : ℕ) (r : Runner) :
    Function.update s.parties n (some p) m = some (.runner r) ↔ s.parties m = some (.runner r) := by
  obtain ⟨point', rfl⟩ := hnew
  by_cases hm : m = n
  · rw [hm, Function.update_self, hp]
    exact ⟨fun heq => (nomatch heq), fun heq => (nomatch heq)⟩
  · rw [Function.update_of_ne hm]

/-- A caller that begins. -/
theorem Inv.begin (h : Inv s) (hn : s.parties n = none) {p : Party}
    (hrunner : ∀ r, p = .runner r → r.call.execution_id = n ∧ r.point.armed = false ∧
      (r.point.plain = true → r.call.atomic = false)) :
    Inv { s with parties := Function.update s.parties n (some p) } := by
  have hcases : ∀ m r, Function.update s.parties n (some p) m = some (.runner r) →
      (m = n ∧ p = .runner r) ∨ s.parties m = some (.runner r) := by
    intro m r hr
    by_cases hm : m = n
    · rw [hm, Function.update_self] at hr
      exact .inl ⟨hm, Option.some.inj hr⟩
    · rw [Function.update_of_ne hm] at hr
      exact .inr hr
  have hold : ∀ m r, s.parties m = some (.runner r) →
      Function.update s.parties n (some p) m = some (.runner r) := by
    intro m r hr
    have hm : m ≠ n := by
      intro hm
      rw [hm, hn] at hr
      cases hr
    rw [Function.update_of_ne hm, hr]
  have harmed : ∀ m r, Function.update s.parties n (some p) m = some (.runner r) →
      r.point.armed = true → s.parties m = some (.runner r) := by
    intro m r hr harmed
    rcases hcases m r hr with ⟨-, hp⟩ | hr
    · cases (hrunner r hp).2.1.symm.trans harmed
    · exact hr
  have hnone : NoneArmed s →
      NoneArmed { s with parties := Function.update s.parties n (some p) } := by
    intro hnone m r hr
    cases hflag : r.point.armed with
    | false => rfl
    | true => exact hflag.symm.trans (hnone m r (harmed m r hr hflag))
  refine ⟨?_, ?_, ?_, ?_⟩
  · intro m r hr
    rcases hcases m r hr with ⟨hm, hp⟩ | hr
    · rw [hm]
      exact (hrunner r hp).1
    · exact h.ids m r hr
  · intro m r hr hplain
    rcases hcases m r hr with ⟨-, hp⟩ | hr
    · exact (hrunner r hp).2.2 hplain
    · exact h.plain m r hr hplain
  · intro rec hrec
    obtain ⟨r, hr, hfingerprint⟩ := h.writer rec hrec
    exact ⟨r, hold _ r hr, hfingerprint⟩
  · rcases h.effects with hfree | ⟨m, q, rec, hclaimed⟩
    · exact .inl ⟨hfree.invoked, hfree.committed, hnone hfree.armed⟩
    · refine .inr ⟨m, q, rec, hclaimed.record, hclaimed.phase, hold m q hclaimed.runner,
        hclaimed.fingerprint, ?_⟩
      rcases hclaimed.effects with ⟨hnil, hnil', honly⟩ | ⟨hone, hnone'⟩
      · exact .inl ⟨hnil, hnil', fun k r hr hflag => honly k r (harmed k r hr hflag) hflag⟩
      · exact .inr ⟨hone, hnone hnone'⟩

/-! ## Runs -/

/-- What one step of the machine does: a caller begins; a call of `run_operation` takes a step, or dies;
or a call of `reconcile_operation` does. -/
theorem step_cases (h : step s label = some s') :
    (∃ n p, s.parties n = none ∧ s' = { s with parties := Function.update s.parties n (some p) } ∧
      ∀ r, p = .runner r → r.call.execution_id = n ∧ r.point.armed = false ∧
        (r.point.plain = true → r.call.atomic = false)) ∨
    (∃ n r t, s.parties n = some (.runner r) ∧ Runs r s.record t ∧ s' = s.take n t ∧
      ((∃ a, label = .work n a ∧ r.step s.record s.guard.isNone a = some t) ∨ t.record = s.record)) ∨
    (∃ n o point t, s.parties n = some (.operator o point) ∧ (∃ p, t.party = .operator o p) ∧
      t.invokes = false ∧ t.commits = false ∧ s' = s.take n t ∧
      (t.record = s.record ∨ ∃ rec, s.record = some rec ∧ rec.status.unresolved = true ∧
        o.resolves rec = true ∧ t.record = some (o.reconciled rec))) := by
  cases label with
  | run n call =>
    simp only [step] at h
    split at h
    · next hn =>
      cases h
      refine .inl ⟨n, _, hn, rfl, ?_⟩
      intro r hr
      cases hr
      refine ⟨rfl, ?_, ?_⟩
      · cases call.atomic <;> rfl
      · intro hplain
        cases hatomic : call.atomic with
        | false => rfl
        | true =>
          rw [hatomic] at hplain
          cases hplain
    · cases h
  | reconcile n o =>
    simp only [step] at h
    split at h
    · next hn =>
      cases h
      exact .inl ⟨n, _, hn, rfl, fun _ hr => nomatch hr⟩
    · cases h
  | work n a =>
    simp only [step, Option.bind_eq_some_iff, Option.map_eq_some_iff] at h
    obtain ⟨p, hp, t, ht, rfl⟩ := h
    cases p with
    | runner r => exact .inr (.inl ⟨n, r, t, hp, runner_runs ht, rfl, .inl ⟨a, rfl, ht⟩⟩)
    | operator o point =>
      obtain ⟨hparty, hinvokes, hcommits, hrec⟩ := operator_resolves ht
      exact .inr (.inr ⟨n, o, point, t, hp, hparty, hinvokes, hcommits, rfl, hrec⟩)
  | die n =>
    simp only [step, Option.map_eq_some_iff] at h
    obtain ⟨p, hp, rfl⟩ := h
    cases p with
    | runner r =>
      exact .inr (.inl ⟨n, r, _, hp, .quiet .dead false true rfl nofun, rfl, .inr rfl⟩)
    | operator o point =>
      exact .inr (.inr ⟨n, o, point,
        { party := .operator o .dead, record := s.record, releases := true }, hp, ⟨_, rfl⟩, rfl, rfl, rfl,
        .inl rfl⟩)

/-- Every step keeps the invariant. -/
theorem step_inv (hstep : step s label = some s') (h : Inv s) : Inv s' := by
  rcases step_cases hstep with ⟨n, p, hn, rfl, hrunner⟩ | ⟨n, r, t, hr, hruns, rfl, -⟩ |
    ⟨n, o, point, t, hp, hparty, hinvokes, hcommits, rfl, hrec⟩
  · exact h.begin hn hrunner
  · exact inv_runs h hr hruns
  · refine h.other (runners_operator hp hparty) ?_ ?_ ?_
    · show (if t.invokes then _ else s.invoked) = s.invoked
      rw [hinvokes]
      rfl
    · show (if t.commits then _ else s.committed) = s.committed
      rw [hcommits]
      rfl
    · rcases hrec with hsame | ⟨rec, hrec, -, -, hnew⟩
      · exact .inl hsame
      · exact .inr ⟨rec, _, hrec, hnew, rfl, rfl⟩

/-- A step leaves a resolved record as it is. -/
theorem step_resolved (hstep : step s label = some s') (hrec : s.record = some rec)
    (hresolved : rec.status.unresolved = false) : s'.record = some rec := by
  have hinProgress : rec.status ≠ .inProgress := by
    intro heq
    rw [heq] at hresolved
    cases hresolved
  rcases step_cases hstep with ⟨n, p, hn, rfl, hrunner⟩ | ⟨n, r, t, hr, hruns, rfl, -⟩ |
    ⟨n, o, point, t, hp, hparty, hinvokes, hcommits, rfl, hsame | ⟨rec', hrec', hunresolved, -, -⟩⟩
  · exact hrec
  · cases hruns with
    | quiet => exact hrec
    | admits p harmed hplain hnone => cases hrec.symm.trans hnone
    | dispatches p hpoint hplain rec' hrec' hstatus =>
      cases hrec.symm.trans hrec'
      exact absurd hstatus hinProgress
    | invokes => exact hrec
    | finishes p harmed hplain rec' rec'' hrec' hstatus =>
      cases hrec.symm.trans hrec'
      exact absurd hstatus hinProgress
    | owns p result hplain hnone => cases hrec.symm.trans hnone
    | commits => exact hrec
    | fails started response_status e hpoint hunresolved =>
      cases hresolved.symm.trans (hunresolved rec hrec).2
  · exact hsame.trans hrec
  · cases hrec.symm.trans hrec'
    cases hresolved.symm.trans hunresolved

/-- Every state of a run has the invariant. -/
theorem run_inv {labels : List Label} (hrun : execAll step State.initial labels = some s) : Inv s :=
  trace_invariant (I := fun _ s => Inv s) inv_initial (fun _ _ _ _ _ hu he => step_inv he hu) hrun

/-- **One effect of an audited operation.** In every run of calls of an operation, of its
reconciliations, of deaths of callers and of errors before or after the effect of a transaction: the
callback of the calls that are not atomic is invoked once at most, the owner's transaction of the atomic
ones commits once at most, and only one of both happens; the call that had the effect has the
fingerprint of the record; and a record that is completed, failed or reconciled stays as it is. -/
theorem at_most_one_effect (labels : List Label) (s : State)
    (hrun : execAll step State.initial labels = some s) :
    s.invoked.length + s.committed.length ≤ 1 ∧
    (∀ n ∈ s.invoked ++ s.committed, ∃ r rec, s.parties n = some (.runner r) ∧
      s.record = some rec ∧ r.call.fingerprint = rec.fingerprint) ∧
    ∀ rec, s.record = some rec → rec.status.unresolved = false →
      ∀ labels' s', execAll step s labels' = some s' → s'.record = some rec := by
  have hinv : Inv s := run_inv hrun
  refine ⟨?_, ?_, ?_⟩
  · rw [← List.length_append]
    rcases hinv.effects with hfree | ⟨m, r, rec, hclaimed⟩
    · rw [hfree.invoked, hfree.committed]
      exact Nat.zero_le 1
    · rcases hclaimed.effects with ⟨hnil, hnil', -⟩ | ⟨hone, -⟩
      · rw [hnil, hnil']
        exact Nat.zero_le 1
      · rw [hone]
        exact le_rfl
  · intro n hn
    rcases hinv.effects with hfree | ⟨m, r, rec, hclaimed⟩
    · rw [hfree.invoked, hfree.committed] at hn
      cases hn
    · rcases hclaimed.effects with ⟨hnil, hnil', -⟩ | ⟨hone, -⟩
      · rw [hnil, hnil'] at hn
        cases hn
      · rw [hone] at hn
        cases List.mem_singleton.mp hn
        exact ⟨r, rec, hclaimed.runner, hclaimed.record, hclaimed.fingerprint⟩
  · intro rec hrec hresolved labels' s' hrun'
    exact trace_invariant (I := fun _ s' => s'.record = some rec) hrec
      (fun _ _ _ _ _ hu he => step_resolved he hu hresolved) hrun'

/-- The event of the example. -/
def deletedEvent : Event := ⟨"document.delete", "admin", "t1", "w1", some "doc", none, none⟩

/-- A call that is not atomic. -/
def deleteCall : Call where
  operation_id := "auditop-1"
  event := deletedEvent
  fingerprint := "f1"
  execution_id := 0
  process_owner := "p1"
  created_at := "2026-01-01T00:00:00+00:00"
  atomic := false
  shared := false
  success_status := none

/-- The answer to a step that goes well. -/
def goesWell : Answer := ⟨.done, .ok (.obj [("deleted", .bool true)])⟩

/-- A call that completes, and its retry. -/
def completedRun : List Label :=
  .run 0 deleteCall :: List.replicate 8 (.work 0 goesWell) ++
    .run 1 deleteCall :: List.replicate 3 (.work 1 goesWell)

/-- The callback of the example is invoked, and once. -/
theorem completedRun_once : ∃ s, execAll step State.initial completedRun = some s ∧ s.invoked = [0] ∧
    s.record.map Record.status = some .completed ∧ s.invoked.length + s.committed.length ≤ 1 := by
  have hsome : ((execAll step State.initial completedRun).any fun s =>
      s.invoked == [0] && s.record.map Record.status == some .completed) = true := by decide +kernel
  obtain ⟨s, hrun, hresult⟩ := (Option.any_eq_true _ _).mp hsome
  obtain ⟨hinvoked, hstatus⟩ := Bool.and_eq_true_iff.mp hresult
  exact ⟨s, hrun, beq_iff_eq.mp hinvoked, beq_iff_eq.mp hstatus,
    (at_most_one_effect completedRun s hrun).1⟩

end RickIntelligence.Audit
