import RickIntelligence.Postgres.Machine

/-!
# The states of a durable job

Every operation but `save` and `schedule` moves a row along an edge of the lifecycle, or leaves its
state. These two write the state that their caller built: `save` compares the request and the
history of attempts, and not the states. A run in which their callers keep to the edges does so as a
whole (`run_follows_lifecycle`), and one in which they do not reopens a cancelled job
(`reopened_by_save`).
-/

namespace RickIntelligence.Postgres

open Lib Jobs

/-- A state follows another: it is the same, or an edge away. -/
def Follows (from_state to_state : JobState) : Prop :=
  to_state = from_state ∨ canTransition from_state to_state = true

/-- A version step of a row leaves its state or goes along an edge of the lifecycle. -/
def RowChange.FollowsLifecycle (c : RowChange) : Prop :=
  ∀ old new a b, c.before = some old → c.after = some new → old.contract_state = some a →
    new.contract_state = some b → Follows a b

/-- Nothing but itself follows a terminal state. -/
theorem Follows.terminal {a b : JobState} (h : Follows a b) (ha : a.terminal = true) : b = a := by
  rcases h with h | h
  · exact h
  · rw [(terminal_iff a).mp ha b] at h
    cases h

/-- A change that persists a state which follows the one before it. -/
def Change.Follows : Change → Prop
  | persist before j _ => Postgres.Follows before.val.state j.val.state
  | _ => True

/-- A change that settles a job goes along an edge. -/
theorem Change.Settles.follows {id : String} {c : Change} (h : c.Settles id) : c.Follows := by
  cases c with
  | persist before j a => exact .inr h.2.edge
  | insert | touch | log | draw | delete => trivial

/-- A claim takes a queued job along an edge, and leaves the state of a running one. -/
theorem Change.Claims.follows {env : Env} {worker : String} {c : Change} (h : c.Claims env worker) :
    c.Follows := by
  cases c with
  | persist before j a =>
    obtain ⟨token, hleases⟩ := h
    show Postgres.Follows before.val.state j.val.state
    rw [hleases.running]
    rcases hleases.claimable with hq | hr
    · rw [hq]
      exact .inr rfl
    · rw [hr]
      exact .inl rfl
  | insert | touch | log | draw | delete => trivial

/-- What the caller of `save` or `schedule` has to keep to: at the version it expects, the row is in
a state that the new one follows. -/
def Entry.KeepsLifecycle (e : Entry) : Prop :=
  match e.step.call with
  | .save j expected => ∀ r a, e.before.jobs.find? j.val.job_id = some r → r.version = expected →
      r.contract_state = some a → Follows a j.val.state
  | .schedule j _ expected => ∀ r a, e.before.jobs.find? j.val.job_id = some r →
      r.version = expected → r.contract_state = some a → Follows a .queued
  | _ => True

section

variable {cfg : Config} {env : Env}

variable {c : Change} {s s' : Session} {s₀ : Store} {h : List Entry} {id : String} {a : JobState}

/-- A call other than `save` and `schedule` keeps to the lifecycle by itself. -/
theorem Call.Permits.follows {call : Call} (h : call.Permits env c) (hsave : ∀ j expected, call ≠ .save j expected)
    (hschedule : ∀ j t expected, call ≠ .schedule j t expected) : c.Follows := by
  cases call with
  | save j expected => exact absurd rfl (hsave j expected)
  | schedule j t expected => exact absurd rfl (hschedule j t expected)
  | createOrReplay j expected =>
    obtain rfl : c = .insert j := h
    trivial
  | enqueue j expected =>
    rcases h with rfl | ⟨id, hc⟩
    · trivial
    · exact hc.follows
  | replayDeadLetter id scope new_id new_key now expected max_attempts =>
    rcases h with ⟨j, rfl, -⟩ | ⟨id, hc⟩
    · trivial
    · exact hc.follows
  | claim worker scope versions limit now =>
    rcases h with ⟨id, hc⟩ | hc
    · exact hc.follows
    · exact hc.follows
  | recoverPublication id scope now => exact h.choose_spec.follows
  | cancel id scope now expected => exact h.choose_spec.follows
  | transition j to_state now expected => exact Change.Settles.follows h
  | acknowledge lease result now expected deadline => exact Change.Settles.follows h
  | fail lease failure now expected => exact Change.Settles.follows h
  | cancelLease lease now expected => exact Change.Settles.follows h
  | heartbeat lease now expected =>
    cases c with
    | persist before j a => exact h.elim
    | insert | touch | log | draw | delete => trivial
  | pruneTerminal scope older_than limit =>
    cases c with
    | persist before j a => exact h.elim
    | insert | touch | log | draw | delete => trivial

/-- A saved job follows the stored one if its state does. -/
theorem save_follows {j out : Job} {expected : ℕ} (hs : s.store.Sound)
    (h : save cfg env j expected s = .ok (out, s'))
    (hkeeps : ∀ r a, s.store.jobs.find? j.val.job_id = some r → r.version = expected →
      r.contract_state = some a → Follows a j.val.state) :
    Writes cfg env (fun c => c.Follows ∧ ∀ id, c ≠ .delete id) s s' := by
  obtain ⟨row, existing, a, hold, hversion, hsaves, hw, -⟩ := save_writes hs h
  refine .single hw ⟨hkeeps row _ ?_ ?_ hold.carries.state, by simp⟩
  · rw [hsaves.job_id]
    exact hold.found
  · rw [hold.carries.version, hversion]

/-- A step whose caller keeps to the lifecycle makes only changes that follow it, and removes rows
only if it is there for that. -/
theorem Step.follows {x : Step} {s : Store} {r : Reply} (hs : s.Sound)
    (hrun : x.call.run cfg x.env (.start s) = .ok (r, s')) (hkeeps : (x.exec cfg s).KeepsLifecycle) :
    Writes cfg x.env (fun c => c.Follows ∧ (x.call.prunes = false → ∀ id, c ≠ .delete id))
      (.start s) s' := by
  have hstart : (Session.start s).store.Sound := hs
  unfold Entry.KeepsLifecycle at hkeeps
  rw [Step.exec_step, Step.exec_before] at hkeeps
  -- The two calls that write what their caller built are those with a condition.
  by_cases hsave : ∃ j expected, x.call = .save j expected
  · obtain ⟨j, expected, hcall⟩ := hsave
    rw [hcall] at hrun hkeeps
    obtain ⟨out, hop, -⟩ := Tx.map_ok.mp hrun
    exact (save_follows hstart hop hkeeps).mono fun c hc => ⟨hc.1, fun _ => hc.2⟩
  · by_cases hschedule : ∃ j t expected, x.call = .schedule j t expected
    · obtain ⟨j, t, expected, hcall⟩ := hschedule
      rw [hcall] at hrun hkeeps
      obtain ⟨out, hop, -⟩ := Tx.map_ok.mp hrun
      obtain ⟨next, hnext, hqueued, hid, -⟩ := schedule_saves hop
      have hw := save_follows hstart hnext (by rw [hid, hqueued]; exact hkeeps)
      exact hw.mono fun c hc => ⟨hc.1, fun _ => hc.2⟩
    · refine (Call.writes hstart hrun).mono fun c hc => ⟨hc.follows ?_ ?_, hc.ne_delete⟩
      · exact fun j expected hcall => hsave ⟨j, expected, hcall⟩
      · exact fun j t expected hcall => hschedule ⟨j, t, expected, hcall⟩

/-- A change that follows the lifecycle writes a row version that does. -/
theorem Write.follows (h : Write cfg env s c s') (hc : c.Follows) :
    ∀ x ∈ s'.written, x ∈ s.written ∨ x.FollowsLifecycle := by
  have hlast : ∀ {x y : RowChange}, y.FollowsLifecycle → x ∈ s.written ++ [y] →
      x ∈ s.written ∨ x.FollowsLifecycle := by
    intro x y hy hx
    rcases List.mem_append.mp hx with hx | hx
    · exact .inl hx
    · rw [List.mem_singleton.mp hx]
      exact .inr hy
  cases h with
  | insert h =>
    intro x hx
    refine hlast ?_ hx
    intro old new a b hold
    cases hold
  | @persist before j out a old jobs rows hold hp =>
    intro x hx
    refine hlast ?_ hx
    intro old' new' a' b' ho hn ha hb
    cases ho
    cases hn
    rw [hold.carries.state] at ha
    rw [hp.carries.state] at hb
    cases ha
    cases hb
    exact hc
  | @touch job_id p f old jobs hu hf =>
    intro x hx
    refine hlast ?_ hx
    intro old' new' a' b' ho hn ha hb
    cases ho
    cases hn
    rw [hf old] at hb
    exact .inl (Option.some.inj (hb.symm.trans ha))
  | log => exact fun x hx => .inl hx
  | draw => exact fun x hx => .inl hx
  | delete h =>
    intro x hx
    refine hlast ?_ hx
    intro old new a b _ hnew
    cases hnew

/-- A sequence of changes that follow the lifecycle writes row versions that do. -/
theorem Writes.follows {P : Change → Prop} (h : Writes cfg env P s s') (hP : ∀ c, P c → c.Follows) :
    ∀ x ∈ s'.written, x ∈ s.written ∨ x.FollowsLifecycle := by
  refine h.invariant (I := fun t => ∀ x ∈ t.written, x ∈ s.written ∨ x.FollowsLifecycle) ?_
    fun x hx => .inl hx
  intro t t' c hc hw ht x hx
  rcases hw.follows (hP c hc) x hx with hx | hx
  · exact ht x hx
  · exact .inr hx

/-- Every version step of a run whose callers keep to the lifecycle follows it. -/
theorem Run.follows {s : Store} (hrun : Run cfg s₀ h s) (hs : s₀.Sound) (hkeeps : ∀ e ∈ h, e.KeepsLifecycle) :
    ∀ e ∈ h, ∀ c ∈ e.written, c.FollowsLifecycle := by
  induction hrun with
  | nil => simp
  | @step h t x hrun ih =>
    intro e he c hc
    rcases List.mem_append.mp he with he | he
    · exact ih (fun e he => hkeeps e (List.mem_append_left _ he)) e he c hc
    · rw [List.mem_singleton.mp he] at hc
      cases hreply : (x.exec cfg t).reply with
      | error err =>
        rw [(Step.exec_error hreply).2] at hc
        cases hc
      | ok r =>
        obtain ⟨s', hstep, -, hwritten⟩ := Step.exec_ok hreply
        rw [hwritten] at hc
        have hw := Step.follows (hrun.sound hs) hstep (hkeeps _ (by simp))
        rcases hw.follows (fun c hc => hc.1) c hc with hnil | hfollows
        · cases hnil
        · exact hfollows

/-- A row in a terminal state stays in it under changes that follow the lifecycle. -/
theorem Write.terminal (h : Write cfg env s c s') (hc : c.Follows) (hdelete : ∀ id, c ≠ .delete id)
    (ha : a.terminal = true) (hr : ∃ r, s.store.jobs.find? id = some r ∧ r.contract_state = some a) :
    ∃ r, s'.store.jobs.find? id = some r ∧ r.contract_state = some a := by
  obtain ⟨r, hfound, hstate⟩ := hr
  obtain ⟨r', hr'⟩ := h.kept hfound hdelete
  refine ⟨r', hr', ?_⟩
  rcases h.found hr' with hsame | ⟨j, -, -, hnone, -⟩ |
    ⟨before, j, args, old, rfl, hid, hold, hold', hmatch, -, rfl⟩ | ⟨f, old, -, hf, hold, rfl⟩
  · rw [hfound] at hsame
    cases hsame
    exact hstate
  · rw [hfound] at hnone
    cases hnone
  · obtain rfl : old = r := Option.some.inj (hold'.symm.trans hfound)
    have hbefore : before.val.state = a := Option.some.inj (hold.carries.state.symm.trans hstate)
    have hterm : j.val.state = before.val.state :=
      Follows.terminal hc (by rw [hbefore]; exact ha)
    have hcarries : (persistRow cfg env j args old).Carries j := by
      simp only [persistWhere, Bool.and_eq_true] at hmatch
      exact persistRow_carries ((Table.find?_eq_some.mp hold').2.trans hid.symm) hmatch.1.1.1.1
    rw [hcarries.state, hterm, hbefore]
  · obtain rfl : old = r := Option.some.inj (hold.symm.trans hfound)
    rw [hf old]
    exact hstate

/-- A row in a terminal state stays in it in a run whose callers keep to the lifecycle and which
removes no rows. -/
theorem Run.terminal {s : Store} (hrun : Run cfg s₀ h s) (hs : s₀.Sound)
    (hkeeps : ∀ e ∈ h, e.KeepsLifecycle ∧ e.step.call.prunes = false) (ha : a.terminal = true)
    (hr : ∃ r, s₀.jobs.find? id = some r ∧ r.contract_state = some a) :
    ∃ r, s.jobs.find? id = some r ∧ r.contract_state = some a := by
  refine hrun.invariant (I := fun t => ∃ r, t.jobs.find? id = some r ∧ r.contract_state = some a)
    hs hr hkeeps ?_
  rintro x t ht ⟨hlife, hprunes⟩ hrow
  rw [Step.exec_step] at hprunes
  cases hreply : (x.exec cfg t).reply with
  | error err =>
    rw [(Step.exec_error hreply).1]
    exact hrow
  | ok reply =>
    obtain ⟨s', hstep, hafter, -⟩ := Step.exec_ok hreply
    rw [hafter]
    have hw := Step.follows ht hstep hlife
    refine hw.invariant (I := fun u => ∃ r, u.store.jobs.find? id = some r ∧
      r.contract_state = some a) ?_ hrow
    rintro u u' c ⟨hc, hdelete⟩ hwrite hu
    exact hwrite.terminal hc (hdelete hprunes) ha hu

/-- **Every durable state change of a run obeys the state machine, if the callers of `save` and
`schedule` do:** each row version that a step writes leaves the state or goes along an edge, and a
terminal state is never left while the row exists. -/
theorem run_follows_lifecycle (cfg : Config) (h : List Entry) (s : Store)
    (hrun : Run cfg Store.empty h s) (hkeeps : ∀ e ∈ h, e.KeepsLifecycle) :
    (∀ e ∈ h, ∀ c ∈ e.written, c.FollowsLifecycle) ∧
      ∀ h' t, Run cfg s h' t → (∀ e ∈ h', e.KeepsLifecycle ∧ e.step.call.prunes = false) →
        ∀ id r a, s.jobs.find? id = some r → r.contract_state = some a → a.terminal = true →
          ∃ r', t.jobs.find? id = some r' ∧ r'.contract_state = some a := by
  refine ⟨hrun.follows Store.sound_empty hkeeps, ?_⟩
  intro h' t hrun' hkeeps' id r a hfound hstate hterm
  exact hrun'.terminal (hrun.sound Store.sound_empty) hkeeps' hterm ⟨r, hfound, hstate⟩

end

/-! ### A job that is reopened -/

/-- The enqueued job is cancelled. -/
def cancelledEntry : Entry :=
  Step.exec smallQueue ⟨plainEnv 1001000000, .cancel "job-1" plainJob.scope 1001 2⟩
    enqueuedEntry.after

/-- A queued job of the next version. -/
def reopenedJob : Job :=
  (Validated.make { plainJob.val with
    state := .queued, updated_at := 1001, version := 4 }).toOption.get (by decide +kernel)

/-- It is saved over the cancelled one. -/
def reopenedEntry : Entry :=
  Step.exec smallQueue ⟨plainEnv 1002000000, .save reopenedJob 3⟩ cancelledEntry.after

/-- The two steps before the job is reopened are a run. -/
theorem cancelledEntry_run :
    Run smallQueue Store.empty [enqueuedEntry, cancelledEntry] cancelledEntry.after :=
  (Run.nil.step ⟨plainEnv 1000000000, .enqueue plainJob 0⟩).step
    ⟨plainEnv 1001000000, .cancel "job-1" plainJob.scope 1001 2⟩

/-- The run without `save` keeps to the lifecycle, and the cancelled job stays cancelled. -/
theorem cancelledEntry_follows :
    (∀ c ∈ cancelledEntry.written, c.FollowsLifecycle) ∧ cancelledEntry.written.length = 1 ∧
      ∀ h t, Run smallQueue cancelledEntry.after h t →
        (∀ e ∈ h, e.KeepsLifecycle ∧ e.step.call.prunes = false) →
        ∃ r, t.jobs.find? "job-1" = some r ∧ r.contract_state = some .cancelled := by
  have hkeeps : ∀ e ∈ [enqueuedEntry, cancelledEntry], e.KeepsLifecycle := by
    simp [Entry.KeepsLifecycle, enqueuedEntry, cancelledEntry]
  obtain ⟨hsteps, hstays⟩ :=
    run_follows_lifecycle smallQueue _ _ cancelledEntry_run hkeeps
  have hstate : (cancelledEntry.after.jobs.find? "job-1").map Row.contract_state =
      some (some .cancelled) := by decide +kernel
  obtain ⟨r, hr, hcancelled⟩ := Option.map_eq_some_iff.mp hstate
  refine ⟨hsteps cancelledEntry (by simp), by decide +kernel, ?_⟩
  intro h t hrun hk
  exact hstays h t hrun hk "job-1" r .cancelled hr hcancelled rfl

/-- **A cancelled job is queued again by `save`:** the third step of this run returns, and its
version step goes from `CANCELLED` to `QUEUED`, which is no edge. -/
theorem reopened_by_save :
    Run smallQueue Store.empty [enqueuedEntry, cancelledEntry, reopenedEntry] reopenedEntry.after ∧
      ∃ c ∈ reopenedEntry.written, ∃ old new, c.before = some old ∧ c.after = some new ∧
        old.contract_state = some .cancelled ∧ new.contract_state = some .queued ∧
        ¬ c.FollowsLifecycle := by
  refine ⟨cancelledEntry_run.step ⟨plainEnv 1002000000, .save reopenedJob 3⟩, ?_⟩
  have hstates : (reopenedEntry.written.head?.map fun c =>
      (c.before.map Row.contract_state, c.after.map Row.contract_state)) =
      some (some (some .cancelled), some (some .queued)) := by decide +kernel
  obtain ⟨c, hc, heq⟩ := Option.map_eq_some_iff.mp hstates
  simp only [Prod.mk.injEq, Option.map_eq_some_iff] at heq
  obtain ⟨⟨old, hold, hcancelled⟩, new, hnew, hqueued⟩ := heq
  refine ⟨c, List.mem_of_mem_head? hc, old, new, hold, hnew, hcancelled, hqueued, ?_⟩
  intro hfollows
  have := (hfollows old new _ _ hold hnew hcancelled hqueued).terminal rfl
  cases this

end RickIntelligence.Postgres
