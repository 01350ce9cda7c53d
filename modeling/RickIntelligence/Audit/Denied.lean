import RickIntelligence.Audit.AtMostOnce

/-!
# Effects that are denied

A record that reads failed, not started or reconciled without effect denies the effect of its operation.
The failure handler of a call that has not invoked its callback writes such a record over any unresolved
one with its fingerprint, and does not look at whose execution that is: so a retry that meets an error of
the storage denies an effect that an earlier caller dispatched. In the runs where this does not happen,
no record denies an effect.
-/

namespace RickIntelligence.Audit

open Lib

variable {s s' : State} {r : Runner} {n : ℕ} {rec : Record} {label : Label}

/-- The record denies that the operation had an effect. -/
def Record.Denies (rec : Record) : Prop :=
  rec.status = .failed ∨ rec.execution.phase = .notStarted ∨ rec.status = .reconciled "no_effect"

/-- The record was dispatched, and has no other phase than those after it. -/
def Record.Passed (rec : Record) : Prop :=
  rec.execution.phase = .dispatched ∨ rec.execution.phase = .returned ∨ rec.execution.phase = .uncertain

/-- A record that was dispatched is past its admission. -/
theorem Record.Passed.not_admitted (h : rec.Passed) : rec.execution.phase ≠ .admitted := by
  intro hphase
  unfold Record.Passed at h
  rw [hphase] at h
  simp at h

/-- Between a state and a later one: a record that was dispatched is not denied later, and a record that
reads failed or reconciled without effect had none. -/
def Honest (s s' : State) : Prop :=
  (∀ rec rec', s.record = some rec → rec.execution.phase = .dispatched → s'.record = some rec' →
    ¬ rec'.Denies) ∧
  ∀ rec', s'.record = some rec' → rec'.status = .failed ∨ rec'.status = .reconciled "no_effect" →
    s'.invoked = [] ∧ s'.committed = []

/-- The transaction has an effect, if its body does not raise. -/
def Commit.takesEffect : Commit → Bool
  | .lost _ => false
  | _ => true

/-- The failure handler of the call is about to write over the record, which is unresolved and past its
admission, though the call did not invoke its callback, or is an atomic one. -/
def Runner.overwrites (r : Runner) (rec : Record) : Bool :=
  match r.point with
  | .failing started _ _ => (r.call.atomic || !started) && rec.fingerprint == r.call.fingerprint &&
      rec.status.unresolved && rec.execution.phase != .admitted
  | _ => false

/-- The step is such a write, and takes effect. -/
def overwrites (s : State) : Label → Bool
  | .work n a =>
    match s.parties n, s.record with
    | some (.runner r), some rec => a.commit.takesEffect && r.overwrites rec
    | _, _ => false
  | _ => false

/-- The step is such a write. -/
def Overwrites (s : State) (label : Label) : Prop := overwrites s label = true

/-! ## The invariant of runs that do not overwrite -/

/-- What holds of a record in these runs. -/
structure Sound (s : State) (rec : Record) : Prop where
  /-- A record that denies the effect is resolved, and there is no effect. -/
  denied : rec.Denies → rec.status.unresolved = false ∧ Free s
  passed : rec.Passed → ¬ rec.Denies

/-- The armed callers and the effects decide whether the machine is free. -/
theorem Free.of (h : Free s) (hinvoked : s'.invoked = s.invoked) (hcommitted : s'.committed = s.committed)
    (harmed : ∀ m r, s'.parties m = some (.runner r) → r.point.armed = true →
      s.parties m = some (.runner r)) : Free s' := by
  refine ⟨hinvoked.trans h.invoked, hcommitted.trans h.committed, ?_⟩
  intro m r hr
  cases hflag : r.point.armed with
  | false => rfl
  | true => exact hflag.symm.trans (h.armed m r (harmed m r hr hflag))

/-- A record that does not deny is sound. -/
theorem Sound.of_not (h : ¬ rec.Denies) : Sound s rec := ⟨fun hdenies => absurd hdenies h, fun _ => h⟩

/-- A record with a status that is not resolved and another phase than `not_started` does not deny. -/
theorem not_denies (hstatus : rec.status ≠ .failed) (hphase : rec.execution.phase ≠ .notStarted)
    (hresolution : rec.status ≠ .reconciled "no_effect") : ¬ rec.Denies := by
  rintro (hfailed | hnot | hnone)
  · exact hstatus hfailed
  · exact hphase hnot
  · exact hresolution hnone

/-- The record that is sound stays so, as long as there is no effect. -/
theorem Sound.of_free (h : Sound s rec) (hfree : rec.status.unresolved = false → Free s → Free s') :
    Sound s' rec := by
  refine ⟨fun hdenies => ?_, h.passed⟩
  obtain ⟨hresolved, hs⟩ := h.denied hdenies
  exact ⟨hresolved, hfree hresolved hs⟩

/-- The phase of a failure. -/
theorem failure_phase (c : Call) (started : Bool) (response_status : Option ℕ) (e : Raised) :
    (c.failure started response_status e).execution.phase =
      if c.atomic then .rolledBack else if started then .uncertain else .notStarted := rfl

/-- The status of a failure. -/
theorem failure_status (c : Call) (started : Bool) (response_status : Option ℕ) (e : Raised) :
    (c.failure started response_status e).status =
      if c.atomic || !started then .failed else .reconciliationRequired := rfl

variable {started : Bool} {t : Turn} {o : Operator} {point : OperatorPoint}

/-- The failure of a call that invoked its callback does not deny. -/
theorem failure_not_denies {c : Call} (response_status : Option ℕ) (e : Raised) (hatomic : c.atomic = false)
    (hstarted : started = true) :
    (c.failure started response_status e).Passed ∧ ¬ (c.failure started response_status e).Denies := by
  subst hstarted
  have hphase : (c.failure true response_status e).execution.phase = .uncertain := by
    rw [failure_phase, hatomic]
    rfl
  have hstatus : (c.failure true response_status e).status = .reconciliationRequired := by
    rw [failure_status, hatomic]
    rfl
  refine ⟨.inr (.inr hphase), not_denies ?_ ?_ ?_⟩
  · rw [hstatus]
    exact nofun
  · rw [hphase]
    exact nofun
  · rw [hstatus]
    exact nofun

/-- The failure handler of a call that did not invoke its callback writes over no record, or one that is
not past its admission, unless the step overwrites. -/
theorem fails_admitted {a : Answer} {response_status : Option ℕ} {e : Raised} (hr : s.parties n = some (.runner r))
    (hpoint : r.point = .failing started response_status e) (hstep : r.step s.record s.guard.isNone a = some t)
    (hnew : t.record = some (r.call.failure started response_status e))
    (hrec : ∀ rec, s.record = some rec → rec.fingerprint = r.call.fingerprint ∧
      rec.status.unresolved = true) (hkind : r.call.atomic = true ∨ started = false)
    (hgood : ¬ Overwrites s (.work n a)) :
    ∀ rec, s.record = some rec → rec.execution.phase = .admitted := by
  intro rec hs
  by_contra hphase
  obtain ⟨hfingerprint, hunresolved⟩ := hrec rec hs
  cases hcommit : a.commit.takesEffect with
  | true =>
    apply hgood
    have hflag : (r.call.atomic || !started) = true := by
      rcases hkind with hatomic | hstarted
      · rw [hatomic, Bool.true_or]
      · rw [hstarted, Bool.not_false, Bool.or_true]
    have hrunner : r.overwrites rec = true := by
      simp only [Runner.overwrites, hpoint, hflag, hfingerprint, hunresolved, beq_self_eq_true,
        Bool.and_self, Bool.true_and, bne_iff_ne]
      exact hphase
    simp only [Overwrites, overwrites, hr, hs, hcommit, hrunner, Bool.and_self]
  | false =>
    -- The transaction had no effect, so the failure is the record that was there.
    cases hlost : a.commit with
    | lost e' =>
      simp only [Runner.step, hpoint, hlost] at hstep
      cases hstep
      have hsame : some rec = some (r.call.failure started response_status e) := hs.symm.trans hnew
      cases hsame
      rw [failure_status] at hunresolved
      have hflag : (r.call.atomic || !started) = true := by
        rcases hkind with hatomic | hstarted
        · rw [hatomic]
          rfl
        · rw [hstarted]
          simp
      rw [hflag] at hunresolved
      cases hunresolved
    | done =>
      rw [hlost] at hcommit
      cases hcommit
    | unknown e' =>
      rw [hlost] at hcommit
      cases hcommit

/-- The armed callers after a step of a call of `reconcile_operation`. -/
theorem Free.operator (h : Free s) (hp : s.parties n = some (.operator o point))
    (hparty : ∃ p, t.party = .operator o p) (hinvokes : t.invokes = false) (hcommits : t.commits = false) :
    Free (s.take n t) := by
  refine h.of ?_ ?_ fun m r hr _ => (runners_operator hp hparty m r).mp hr
  · show (if t.invokes then _ else s.invoked) = s.invoked
    rw [hinvokes]
    rfl
  · show (if t.commits then _ else s.committed) = s.committed
    rw [hcommits]
    rfl

/-- A resolution of an unresolved record that is sound. -/
theorem resolves_sound (hinv : Inv s) (hs : s.record = some rec) (hsound : Sound s rec)
    (hunresolved : rec.status.unresolved = true) (hresolves : o.resolves rec = true)
    (hp : s.parties n = some (.operator o point)) (hparty : ∃ p, t.party = .operator o p)
    (hinvokes : t.invokes = false) (hcommits : t.commits = false) :
    Sound (s.take n t) (o.reconciled rec) ∧ (rec.Passed → (o.reconciled rec).Passed) := by
  have hnotStarted : rec.execution.phase ≠ .notStarted := by
    intro hphase
    have hresolved := (hsound.denied (.inr (.inl hphase))).1
    cases hresolved.symm.trans hunresolved
  refine ⟨?_, id⟩
  by_cases hresolution : o.resolution = "no_effect"
  · -- Only a record that nobody dispatched is reconciled without effect.
    have hphase : rec.execution.phase = .admitted := by
      unfold Operator.resolves at hresolves
      rw [if_pos hresolution] at hresolves
      exact beq_iff_eq.mp (Bool.and_eq_true_iff.mp hresolves).2
    have hfree : Free s := by
      apply hinv.free
      intro rec' hrec'
      cases hs.symm.trans hrec'
      exact hphase
    refine ⟨fun _ => ⟨rfl, hfree.operator hp hparty hinvokes hcommits⟩, ?_⟩
    exact fun hpassed => absurd hphase hpassed.not_admitted
  · refine .of_not (not_denies nofun hnotStarted ?_)
    intro heq
    exact hresolution (Status.reconciled.inj heq)

/-- Every step that does not overwrite keeps the record sound, and a record that was dispatched past its
dispatch. -/
theorem step_sound (hstep : step s label = some s') (hinv : Inv s) (hgood : ¬ Overwrites s label)
    (h : ∀ rec, s.record = some rec → Sound s rec) :
    (∀ rec', s'.record = some rec' → Sound s' rec') ∧
    ∀ rec, s.record = some rec → rec.Passed → ∃ rec', s'.record = some rec' ∧ rec'.Passed := by
  rcases step_cases hstep with ⟨n, p, hn, rfl, hrunner⟩ | ⟨n, r, t, hr, hruns, rfl, hlabel⟩ |
    ⟨n, o, point, t, hp, hparty, hinvokes, hcommits, rfl, hrec⟩
  · -- A caller begins.
    refine ⟨fun rec hrec => (h rec hrec).of_free fun _ hfree => ?_, fun rec hrec hpassed =>
      ⟨rec, hrec, hpassed⟩⟩
    refine hfree.of rfl rfl ?_
    intro m r hr harmed
    by_cases hm : m = n
    · subst hm
      have hself : Function.update s.parties m (some p) m = some (.runner r) := hr
      rw [Function.update_self] at hself
      cases (hrunner r (Option.some.inj hself)).2.1.symm.trans harmed
    · have hother : Function.update s.parties n (some p) m = some (.runner r) := hr
      rw [Function.update_of_ne hm] at hother
      exact hother
  · cases hruns with
    | quiet p acquires releases harmed hplain =>
      exact ⟨fun rec hrec => (h rec hrec).of_free fun _ hfree => hfree.take rfl harmed rfl rfl,
        fun rec hrec hpassed => ⟨rec, hrec, hpassed⟩⟩
    | admits p harmed hplain hnone =>
      refine ⟨?_, fun rec hrec => by cases hrec.symm.trans hnone⟩
      intro rec' hrec'
      cases hrec'
      refine .of_not (not_denies nofun ?_ nofun)
      show (if r.call.atomic then Phase.atomic else Phase.admitted) ≠ .notStarted
      split <;> exact nofun
    | dispatches p hpoint hplain rec hrec hstatus hexecution =>
      refine ⟨?_, fun _ _ _ => ⟨_, rfl, .inl rfl⟩⟩
      intro rec' hrec'
      cases hrec'
      exact .of_not (not_denies nofun nofun nofun)
    | invokes hpoint =>
      have harmed : r.point.armed = true := by
        rw [hpoint]
        rfl
      refine ⟨fun rec hrec => (h rec hrec).of_free fun _ hfree => ?_,
        fun rec hrec hpassed => ⟨rec, hrec, hpassed⟩⟩
      cases (hfree.armed n r hr).symm.trans harmed
    | finishes p harmed hplain rec rec' hrec hstatus hid hrec' =>
      obtain ⟨result, hrec'⟩ := hrec'
      have hnew : rec'.Passed ∧ ¬ rec'.Denies := by
        rcases hrec' with hrec' | hrec'
        · rw [hrec']
          exact ⟨.inr (.inl rfl), not_denies nofun nofun nofun⟩
        · rw [hrec']
          exact ⟨.inr (.inl rfl), not_denies nofun nofun nofun⟩
      refine ⟨?_, fun _ _ _ => ⟨rec', rfl, hnew.1⟩⟩
      intro rec'' hrec''
      cases hrec''
      exact .of_not hnew.2
    | owns p result hplain hnone harmed =>
      refine ⟨?_, fun rec hrec => by cases hrec.symm.trans hnone⟩
      intro rec' hrec'
      cases hrec'
      exact .of_not (not_denies nofun nofun nofun)
    | commits p hpoint harmed hplain =>
      have harmed' : r.point.armed = true := by
        rw [hpoint]
        rfl
      refine ⟨fun rec hrec => (h rec hrec).of_free fun _ hfree => ?_,
        fun rec hrec hpassed => ⟨rec, hrec, hpassed⟩⟩
      cases (hfree.armed n r hr).symm.trans harmed'
    | fails started response_status e hpoint hrec =>
      rcases hlabel with ⟨a, rfl, hwork⟩ | hsame
      · by_cases hkind : r.call.atomic = true ∨ started = false
        · have hadmitted := fails_admitted hr hpoint hwork rfl hrec hkind hgood
          have hfree : Free s := hinv.free hadmitted
          have hresolved : (r.call.failure started response_status e).status.unresolved = false := by
            rw [failure_status]
            rcases hkind with hatomic | hstarted
            · rw [hatomic]
              rfl
            · rw [hstarted, Bool.not_false, Bool.or_true]
              rfl
          have hphase : ¬ (r.call.failure started response_status e).Passed := by
            have heq := failure_phase r.call started response_status e
            unfold Record.Passed
            rw [heq]
            rcases hkind with hatomic | hstarted
            · rw [hatomic]
              simp
            · rw [hstarted]
              cases r.call.atomic <;> simp
          refine ⟨?_, ?_⟩
          · intro rec' hrec'
            cases hrec'
            exact ⟨fun _ => ⟨hresolved, hfree.take rfl rfl rfl rfl⟩, fun hpassed => absurd hpassed hphase⟩
          · intro rec hs hpassed
            exact absurd (hadmitted rec hs) hpassed.not_admitted
        · rw [not_or, Bool.not_eq_true, Bool.not_eq_false] at hkind
          have hnew := failure_not_denies response_status e hkind.1 hkind.2
          refine ⟨?_, fun _ _ _ => ⟨_, rfl, hnew.1⟩⟩
          intro rec' hrec'
          cases hrec'
          exact .of_not hnew.2
      · refine ⟨fun rec hs => ?_, fun rec hs hpassed => ⟨rec, hsame.trans hs, hpassed⟩⟩
        exact (h rec (hsame.symm.trans hs)).of_free fun _ hfree => hfree.take rfl rfl rfl rfl
  · rcases hrec with hsame | ⟨rec, hs, hunresolved, hresolves, hnew⟩
    · refine ⟨fun rec hrec => ?_, fun rec hrec hpassed => ⟨rec, hsame.trans hrec, hpassed⟩⟩
      exact (h rec (hsame.symm.trans hrec)).of_free fun _ hfree =>
        hfree.operator hp hparty hinvokes hcommits
    · obtain ⟨hsound, hkeeps⟩ := resolves_sound (t := t) hinv hs (h rec hs) hunresolved hresolves hp
        hparty hinvokes hcommits
      refine ⟨?_, ?_⟩
      · intro rec' hrec'
        cases hnew.symm.trans hrec'
        exact hsound
      · intro rec' hrec' hpassed
        cases hs.symm.trans hrec'
        exact ⟨_, hnew, hkeeps hpassed⟩

/-! ## Runs -/

/-- In a run that does not overwrite, the record is sound at every state. -/
theorem run_sound {labels : List Label} (hrun : execAll step State.initial labels = some s)
    (hgood : ¬ Happens step State.initial labels Overwrites) :
    ∀ rec, s.record = some rec → Sound s rec := by
  revert hgood
  refine trace_invariant (I := fun es u => ¬ Happens step State.initial es Overwrites →
    ∀ rec, u.record = some rec → Sound u rec) (fun _ _ hrec => by cases hrec) ?_ hrun
  intro es u label u' hes hu hstep hgood
  rw [happens_snoc hes, not_or] at hgood
  exact (step_sound hstep (run_inv hes) hgood.2 (hu hgood.1)).1

/-- **No effect is denied where no record is overwritten.** In every run in which no call that did not
invoke its callback, and no atomic one, writes its failure over an unresolved record that is past its
admission: a record that was dispatched never reads failed, not started or reconciled without effect
later, and a record that reads failed or reconciled without effect had none. -/
theorem honest_of_not_overwritten (labels labels' : List Label) (s s' : State)
    (hrun : execAll step State.initial labels = some s) (hrun' : execAll step s labels' = some s')
    (hgood : ¬ Happens step State.initial (labels ++ labels') Overwrites) : Honest s s' := by
  have happend : ∀ es u, execAll step s es = some u →
      execAll step State.initial (labels ++ es) = some u := by
    intro es u hes
    rw [execAll_append, hrun]
    exact hes
  constructor
  · intro rec rec' hrec hphase hrec' hdenies
    -- The record stays past its dispatch to the end of the run.
    have hlater : ¬ Happens step State.initial (labels ++ labels') Overwrites →
        ∃ rec', s'.record = some rec' ∧ rec'.Passed := by
      refine trace_invariant (I := fun es u =>
        ¬ Happens step State.initial (labels ++ es) Overwrites →
          ∃ rec', u.record = some rec' ∧ rec'.Passed) (fun _ => ⟨rec, hrec, .inl hphase⟩) ?_ hrun'
      intro es u label u' hes hu hstep hno
      rw [← List.append_assoc, happens_snoc (happend es u hes), not_or] at hno
      obtain ⟨rec₁, hrec₁, hpassed⟩ := hu hno.1
      exact (step_sound hstep (run_inv (happend es u hes)) hno.2
        (run_sound (happend es u hes) hno.1)).2 rec₁ hrec₁ hpassed
    obtain ⟨rec₁, hrec₁, hpassed⟩ := hlater hgood
    cases hrec₁.symm.trans hrec'
    exact (run_sound (happend labels' s' hrun') hgood rec' hrec').passed hpassed hdenies
  · intro rec' hrec' hstatus
    have hdenies : rec'.Denies := by
      rcases hstatus with hfailed | hnone
      · exact .inl hfailed
      · exact .inr (.inr hnone)
    have hfree := ((run_sound (happend labels' s' hrun') hgood rec' hrec').denied hdenies).2
    exact ⟨hfree.invoked, hfree.committed⟩

/-- A callback that raises. -/
def raisesAnswer : Answer := ⟨.done, .error (.error none)⟩

/-- An error of the storage before a transaction takes effect. -/
def storageError : Answer := ⟨.lost (.error none), .error (.error none)⟩

/-- A call whose callback is invoked. -/
def invokedRun : List Label := .run 0 deleteCall :: List.replicate 5 (.work 0 goesWell)

/-- The callback raises, and the retry of the call meets an error of the storage in its first
transaction. -/
def retriedRun : List Label :=
  [.work 0 raisesAnswer, .work 0 goesWell, .work 0 goesWell, .run 1 deleteCall, .work 1 goesWell,
    .work 1 storageError, .work 1 goesWell]

/-- The run of a call that is dispatched keeps to the condition. -/
theorem invokedRun_honest : ∃ s, execAll step State.initial invokedRun = some s ∧ s.invoked = [0] ∧
    Honest s s := by
  have hsome : ((execAll step State.initial invokedRun).any fun s => s.invoked == [0]) = true := by
    decide +kernel
  obtain ⟨s, hrun, hinvoked⟩ := (Option.any_eq_true _ _).mp hsome
  refine ⟨s, hrun, beq_iff_eq.mp hinvoked, honest_of_not_overwritten invokedRun [] s s hrun rfl ?_⟩
  rintro ⟨u, label, hvisit, hoverwrites⟩
  have hnone : ((visits step State.initial (invokedRun ++ [])).all fun x => !overwrites x.1 x.2) =
      true := by decide +kernel
  have hu := List.all_eq_true.mp hnone (u, label) hvisit
  rw [show overwrites u label = true from hoverwrites] at hu
  cases hu

/-- A retry that meets an error of the storage denies the effect of the call before it. -/
theorem retriedRun_denies : ¬ ∀ labels labels' s s', execAll step State.initial labels = some s →
    execAll step s labels' = some s' → Honest s s' := by
  intro hhonest
  have hsome : ((execAll step State.initial invokedRun).any fun s =>
      s.record.map (fun rec => rec.execution.phase) == some .dispatched &&
      (execAll step s retriedRun).any fun s' =>
        s'.record.map Record.status == some .failed && s'.invoked == [0]) = true := by decide +kernel
  obtain ⟨s, hrun, hs⟩ := (Option.any_eq_true _ _).mp hsome
  obtain ⟨hphase, hs'⟩ := Bool.and_eq_true_iff.mp hs
  obtain ⟨s', hrun', hs'⟩ := (Option.any_eq_true _ _).mp hs'
  obtain ⟨hstatus, -⟩ := Bool.and_eq_true_iff.mp hs'
  obtain ⟨rec, hrec, hphase⟩ := Option.map_eq_some_iff.mp (beq_iff_eq.mp hphase)
  obtain ⟨rec', hrec', hstatus⟩ := Option.map_eq_some_iff.mp (beq_iff_eq.mp hstatus)
  exact (hhonest invokedRun retriedRun s s' hrun hrun').1 rec rec' hrec hphase hrec' (.inl hstatus)

end RickIntelligence.Audit
