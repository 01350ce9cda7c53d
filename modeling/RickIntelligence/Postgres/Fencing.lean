import RickIntelligence.Postgres.Machine
import RickIntelligence.Postgres.Persisting

/-!
# Fencing of leases

An operation that a worker calls with its lease returns only while the row runs under that lease.
Rows come to run only in `claim`, with a token that was just drawn, so that the token of a running
row is that of the last lease which was issued for it (`Fenced`), and a lease that was taken from
its worker never comes back (`Store.Lost`).

The attempts follow: a row that leaves `RUNNING` has finished its attempt, and a finished attempt is
never written again (`FinishedOnce`).
-/

namespace RickIntelligence.Postgres

open Lib Jobs

/-! ## The leases of a run -/

/-- The lease that a call is made with, and the version that it expects. -/
def Call.lease? : Call → Option (JobLease × ℕ)
  | heartbeat lease _ expected => some (lease, expected)
  | acknowledge lease _ _ expected _ => some (lease, expected)
  | fail lease _ _ expected => some (lease, expected)
  | cancelLease lease _ expected => some (lease, expected)
  | _ => none

/-- The leases that a step issued. -/
def Entry.issued (e : Entry) : List JobLease :=
  match e.reply with
  | .ok (.claimed l) => l.map Prod.snd
  | _ => []

/-- The lease of a job that was issued last. -/
def lastIssued (h : List Entry) (job_id : String) : Option JobLease :=
  ((h.flatMap Entry.issued).filter fun l => l.val.job_id == job_id).getLast?

/-- Tokens are fresh: no two transactions draw the same one. -/
def FreshTokens (h : List Entry) : Prop :=
  h.Pairwise fun e e' => ∀ m n, e.step.env.token m ≠ e'.step.env.token n

/-- A row runs under a token. -/
def Row.RunsUnder (r : Row) (token : String) : Prop :=
  r.contract_state = some .running ∧ r.lease_owner = some token

/-- A row version takes a job from a lease: the row is no longer there, or does not run under the
token of the lease. -/
def RowChange.Revokes (c : RowChange) (lease : JobLease) : Prop :=
  ∃ old, c.before = some old ∧ old.job_id = lease.val.job_id ∧
    ∀ new, c.after = some new → ¬ new.RunsUnder lease.val.token

/-- A row version finishes an attempt: the row leaves `RUNNING`. -/
def RowChange.Finishes (c : RowChange) (id : String) (n : ℕ) : Prop :=
  ∃ old new, c.before = some old ∧ c.after = some new ∧ old.job_id = id ∧ old.attempts = n ∧
    old.contract_state = some .running ∧ new.contract_state ≠ some .running

/-- After another step, the lease issued last is its own, or the one before. -/
theorem lastIssued_snoc (h : List Entry) (e : Entry) (id : String) :
    lastIssued (h ++ [e]) id =
      ((e.issued.filter fun l => l.val.job_id == id).getLast?).or (lastIssued h id) := by
  unfold lastIssued
  rw [List.flatMap_append, List.flatMap_singleton, List.filter_append, List.getLast?_append]

section

variable {cfg : Config} {env : Env} {s s' : Session}

/-! ## Leases under changes -/

/-- The state and the lease of a persisted row. -/
theorem persistRow_lease (cfg : Config) (env : Env) (j : Job) (a : PersistArgs) (old : Row) :
    (persistRow cfg env j a old).contract_state = some j.val.state ∧
      ∀ worker token, a.lease = .issue worker token →
        (persistRow cfg env j a old).lease_owner = some token := by
  unfold persistRow LeaseArg.assign
  split
  · next h => exact ⟨rfl, by simp [h]⟩
  · next h => exact ⟨rfl, by simp [h]⟩
  · next h => exact ⟨rfl, by simp [h]⟩

/-- A change that makes a job run. -/
def Change.Issues : Change → Prop
  | persist _ j _ => j.val.state = .running
  | _ => False

variable {call : Call} {c : Change} {id : String} {x : Step} {t s₀ : Store} {h : List Entry} {a : AttemptRow}
  {j : Job}

variable {r : Row} {lease : JobLease} {expected : ℕ} {rows rows' : List AttemptRow}

/-- A row that runs after a change did so before, with its worker and its token, or the change
gave it its lease. -/
theorem Write.running (h : Write cfg env s c s') (hc : call.Permits env c) (hr : s'.store.jobs.find? id = some r)
    (hrun : r.contract_state = some .running) :
    (∃ old, s.store.jobs.find? id = some old ∧ old.contract_state = some .running ∧
      old.lease_worker_id = r.lease_worker_id ∧ old.lease_owner = r.lease_owner) ∨
    (c.Issues ∧ ∃ n, r.lease_owner = some ("lease-" ++ env.token n)) := by
  rcases h.found hr with hsame | ⟨j, -, -, -, rfl⟩ |
    ⟨before, j, a, old, rfl, -, -, -, -, -, rfl⟩ | ⟨f, old, -, hf, hold, rfl⟩
  · exact .inl ⟨r, hsame, hrun, rfl, rfl⟩
  · -- The constraints of the table admit no inserted row that runs.
    have hchecks := s'.store.jobs.checked _ (Table.find?_eq_some.mp hr).1
    exact absurd (Option.some.inj hrun) ((insertRow_checks j).mp hchecks)
  · obtain ⟨hstate, howner⟩ := persistRow_lease cfg env j a old
    rw [hstate] at hrun
    have hrunning : j.val.state = .running := Option.some.inj hrun
    rcases hc.cases with ⟨_, h⟩ | ⟨_, h⟩ | ⟨_, _, _, h, hsaves⟩ | ⟨_, h, -⟩ | ⟨_, h⟩ | ⟨h, -⟩
    · cases h
    · exact absurd hrunning h.2.not_running
    · cases h
      exact absurd hrunning hsaves.not_running
    · obtain ⟨n, hleases⟩ := h
      exact .inr ⟨hrunning, n, howner _ _ hleases.lease⟩
    · exact h.elim
    · exact h.elim
  · rw [hf old] at hrun ⊢
    exact .inl ⟨old, hold, hrun, rfl, rfl⟩

/-! ## The owner of a running row -/

/-- Every running row runs under the worker and the token of the lease that was issued last. -/
def Fenced (h : List Entry) (s : Store) : Prop :=
  ∀ id r, s.jobs.find? id = some r → r.contract_state = some .running →
    ∃ lease worker, lastIssued h id = some lease ∧ r.lease_worker_id = some worker ∧
      lease.val.worker_id = strip worker ∧ r.lease_owner = some lease.val.token

/-- Changes that give no lease: a row that runs after them ran before, under the same lease. -/
def KeepsLeases (s s' : Store) : Prop :=
  ∀ id r, s'.jobs.find? id = some r → r.contract_state = some .running →
    ∃ old, s.jobs.find? id = some old ∧ old.contract_state = some .running ∧
      old.lease_worker_id = r.lease_worker_id ∧ old.lease_owner = r.lease_owner

/-- A sequence of permitted changes none of which makes a job run gives no lease. -/
theorem Writes.keepsLeases {P : Change → Prop} (call : Call) (h : Writes cfg env P s s')
    (hP : ∀ c, P c → call.Permits env c ∧ ¬ c.Issues) : KeepsLeases s.store s'.store := by
  refine h.invariant (I := fun t => KeepsLeases s.store t.store) ?_
    fun id r hr hrun => ⟨r, hr, hrun, rfl, rfl⟩
  intro t t' c hc hw ht id r hr hrun
  obtain ⟨hpermits, hissues⟩ := hP c hc
  rcases hw.running hpermits hr hrun with ⟨old, hold, hrun', hworker, howner⟩ | ⟨h, -⟩
  · obtain ⟨old', hold', hrun'', hworker', howner'⟩ := ht id old hold hrun'
    exact ⟨old', hold', hrun'', hworker'.trans hworker, howner'.trans howner⟩
  · exact absurd h hissues

/-- A change that settles a job does not make it run. -/
theorem Change.Settles.not_issues (h : c.Settles id) : ¬ c.Issues := by
  cases c with
  | persist before j a => exact h.2.not_running
  | insert | touch | log | draw | delete => exact not_false

/-- Only `claim` makes jobs run. -/
theorem Call.Permits.not_issues (h : call.Permits env c)
    (hcall : ∀ worker scope versions limit now, call ≠ .claim worker scope versions limit now) :
    ¬ c.Issues := by
  rcases h.cases with ⟨j, rfl⟩ | ⟨_, h⟩ | ⟨_, _, _, rfl, hsaves⟩ |
    ⟨worker, -, scope, versions, limit, now, h⟩ | ⟨_, h⟩ | ⟨h, -⟩
  · exact not_false
  · exact h.not_issues
  · exact hsaves.not_running
  · exact absurd h (hcall worker scope versions limit now)
  · cases c with
    | persist before j a => exact h.elim
    | insert | touch | log | draw | delete => exact not_false
  · cases c with
    | persist before j a => exact h.elim
    | insert | touch | log | draw | delete => exact not_false

/-- A step that issued leases is a claim that returned them. -/
theorem Step.issued_ne_nil (h : (x.exec cfg t).issued ≠ []) :
    ∃ worker scope versions limit now claimed s', x.call = .claim worker scope versions limit now ∧
      claim cfg x.env worker scope versions limit now (.start t) = .ok (claimed, s') ∧
      (x.exec cfg t).after = s'.store ∧ (x.exec cfg t).issued = claimed.map Prod.snd := by
  unfold Entry.issued at h ⊢
  cases hreply : (x.exec cfg t).reply with
  | error e => simp [hreply] at h
  | ok r =>
    obtain ⟨s', hrun, hafter, -⟩ := Step.exec_ok hreply
    cases r with
    | claimed l =>
      cases hcall : x.call with
      | claim worker scope versions limit now =>
        rw [hcall] at hrun
        obtain ⟨out, hop, hout⟩ := Tx.map_ok.mp hrun
        cases hout
        exact ⟨worker, scope, versions, limit, now, l, s', rfl, hop, hafter, rfl⟩
      | _ =>
        rw [hcall] at hrun
        obtain ⟨out, -, hout⟩ := Tx.map_ok.mp hrun
        cases hout
    | job j => simp [hreply] at h
    | found j => simp [hreply] at h
    | lease l => simp [hreply] at h
    | removed n => simp [hreply] at h

/-- The leases that `claim` returns are those of their rows, and no other row gets one. -/
theorem claim_leases {worker : String} {scope : JobScope} {versions : List (String × ℕ)}
    {limit : ℕ} {now : ℚ} {claimed : List (Job × JobLease)} (hs : s.store.Sound)
    (h : claim cfg env worker scope versions limit now s = .ok (claimed, s')) :
    (∀ lease ∈ claimed.map Prod.snd, lease.val.worker_id = strip worker ∧
      (∃ n, lease.val.token = "lease-" ++ env.token n) ∧
      ∃ r, s'.store.jobs.find? lease.val.job_id = some r ∧ r.lease_worker_id = some worker ∧
        r.lease_owner = some lease.val.token) ∧
    ∀ id r, (∀ lease ∈ claimed.map Prod.snd, lease.val.job_id ≠ id) →
      s'.store.jobs.find? id = some r → r.contract_state = some .running →
      ∃ old, s.store.jobs.find? id = some old ∧ old.contract_state = some .running ∧
        old.lease_worker_id = r.lease_worker_id ∧ old.lease_owner = r.lease_owner := by
  obtain ⟨rows, s₁, l, -, hw, -, -, hw', hleased⟩ := claim_writes hs h
  constructor
  · intro lease hlease
    obtain ⟨p, hp, rfl⟩ := List.mem_map.mp hlease
    obtain ⟨i, hi, rfl⟩ := List.getElem_of_mem hp
    have hlen := hleased.length_eq
    have hl := hleased.get (by omega) hi
    obtain ⟨r, hr, -, hworker, howner⟩ := hl.row
    refine ⟨hl.worker_id, hl.token, r, ?_, hworker, howner⟩
    have hid : claimed[i].2.val.job_id = claimed[i].1.val.job_id :=
      hl.lease_job_id.trans hl.job_id.symm
    rw [hid]
    exact hr.found
  · intro id r hid hr hrun
    -- The candidates are the jobs of the leases, and the changes of the claims are theirs.
    have hother : ∀ j ∈ l, id ≠ j.val.job_id := by
      intro j hj heq
      obtain ⟨i, hi, rfl⟩ := List.getElem_of_mem hj
      have hlen := hleased.length_eq
      have hl := hleased.get hi (by omega)
      refine hid claimed[i].2 (List.mem_map_of_mem (List.getElem_mem _)) ?_
      exact hl.lease_job_id.trans heq.symm
    rw [(hw'.frame fun c hc => hc.2 id hother).1] at hr
    have hkeeps : KeepsLeases s.store s₁.store := by
      refine hw.keepsLeases (.claim worker scope versions limit now) ?_
      rintro c ⟨row, -, hc⟩
      exact ⟨.inl ⟨_, hc⟩, hc.not_issues⟩
    exact hkeeps id r hr hrun

/-- A step keeps the rows fenced. -/
theorem Step.fenced (cfg : Config) (x : Step) (ht : t.Sound) (hf : Fenced h t) :
    Fenced (h ++ [x.exec cfg t]) (x.exec cfg t).after := by
  -- A step that issues nothing leaves the last lease of every job.
  have hkeeps : (x.exec cfg t).issued = [] → KeepsLeases t (x.exec cfg t).after →
      Fenced (h ++ [x.exec cfg t]) (x.exec cfg t).after := by
    intro hnil hk id r hr hrun
    obtain ⟨old, hold, hrun', hworker, howner⟩ := hk id r hr hrun
    obtain ⟨lease, worker, hlast, hw, hstrip, ho⟩ := hf id old hold hrun'
    refine ⟨lease, worker, ?_, hworker.symm.trans hw, hstrip, howner.symm.trans ho⟩
    rw [lastIssued_snoc, hnil]
    exact hlast
  by_cases hclaim : ∃ worker scope versions limit now, x.call = .claim worker scope versions limit now
  · obtain ⟨worker, scope, versions, limit, now, hcall⟩ := hclaim
    cases hreply : (x.exec cfg t).reply with
    | error e =>
      refine hkeeps (by simp [Entry.issued, hreply]) ?_
      rw [(Step.exec_error hreply).1]
      exact fun id r hr hrun => ⟨r, hr, hrun, rfl, rfl⟩
    | ok reply =>
      obtain ⟨s', hrun, hafter, -⟩ := Step.exec_ok hreply
      rw [hcall] at hrun
      obtain ⟨claimed, hop, rfl⟩ := Tx.map_ok.mp hrun
      have hissued : (x.exec cfg t).issued = claimed.map Prod.snd := by simp [Entry.issued, hreply]
      obtain ⟨hleases, hothers⟩ := claim_leases (s := .start t) ht hop
      intro id r hr hrunning
      rw [hafter] at hr
      rw [lastIssued_snoc, hissued]
      cases hlast : ((claimed.map Prod.snd).filter fun l => l.val.job_id == id).getLast? with
      | some lease =>
        obtain ⟨hmem, hid⟩ := List.mem_filter.mp (List.mem_of_getLast? hlast)
        obtain ⟨hworker, -, r', hr', hw, ho⟩ := hleases lease hmem
        rw [beq_iff_eq.mp hid, hr] at hr'
        cases hr'
        exact ⟨lease, worker, rfl, hw, hworker, ho⟩
      | none =>
        rw [List.getLast?_eq_none_iff, List.filter_eq_nil_iff] at hlast
        obtain ⟨old, hold, hrun', hw', ho'⟩ := hothers id r (by simpa using hlast) hr hrunning
        obtain ⟨lease, w, hl, hw, hstrip, ho⟩ := hf id old hold hrun'
        exact ⟨lease, w, hl, hw'.symm.trans hw, hstrip, ho'.symm.trans ho⟩
  · have hnil : (x.exec cfg t).issued = [] := by
      by_contra hne
      obtain ⟨worker, scope, versions, limit, now, -, -, hcall, -⟩ := Step.issued_ne_nil hne
      exact hclaim ⟨worker, scope, versions, limit, now, hcall⟩
    obtain ⟨s', hw, hafter, -⟩ := x.writes cfg ht
    refine hkeeps hnil ?_
    rw [hafter]
    refine hw.keepsLeases x.call fun c hc => ⟨hc, hc.not_issues ?_⟩
    exact fun worker scope versions limit now hcall => hclaim ⟨worker, scope, versions, limit, now, hcall⟩

/-- Every running row of a run runs under the lease that was issued last. -/
theorem Run.fenced (hrun : Run cfg s₀ h t) (hs : s₀.Sound) (h₀ : Fenced [] s₀) : Fenced h t := by
  induction hrun with
  | nil => exact h₀
  | step x hrun ih => exact x.fenced cfg (hrun.sound hs) ih

/-- A call with a lease that returns is made by the owner. -/
theorem Step.owned {r : Reply} (ht : t.Sound) (hcall : x.call.lease? = some (lease, expected))
    (h : (x.exec cfg t).reply = .ok r) :
    ∃ row j, Owned x.env t lease expected row j := by
  obtain ⟨s', hrun, -⟩ := Step.exec_ok h
  have hstart : (Session.start t).store.Sound := ht
  cases hx : x.call with
  | heartbeat l now v =>
    simp only [hx, Call.lease?, Option.some.injEq, Prod.mk.injEq] at hcall
    obtain ⟨rfl, rfl⟩ := hcall
    rw [hx] at hrun
    obtain ⟨out, hop, -⟩ := Tx.map_ok.mp hrun
    exact (heartbeat_writes hstart hop).1
  | acknowledge l result now v deadline =>
    simp only [hx, Call.lease?, Option.some.injEq, Prod.mk.injEq] at hcall
    obtain ⟨rfl, rfl⟩ := hcall
    rw [hx] at hrun
    obtain ⟨out, hop, -⟩ := Tx.map_ok.mp hrun
    exact (acknowledge_writes hstart hop).1
  | fail l failure now v =>
    simp only [hx, Call.lease?, Option.some.injEq, Prod.mk.injEq] at hcall
    obtain ⟨rfl, rfl⟩ := hcall
    rw [hx] at hrun
    obtain ⟨out, hop, -⟩ := Tx.map_ok.mp hrun
    exact (fail_writes hstart hop).1
  | cancelLease l now v =>
    simp only [hx, Call.lease?, Option.some.injEq, Prod.mk.injEq] at hcall
    obtain ⟨rfl, rfl⟩ := hcall
    rw [hx] at hrun
    obtain ⟨out, hop, -⟩ := Tx.map_ok.mp hrun
    exact (cancelLease_writes hstart hop).1
  | _ => simp [hx, Call.lease?] at hcall

/-! ## Leases that were taken -/

/-- A job does not run under a token. -/
def Store.Lost (t : Store) (id token : String) : Prop :=
  ∀ r, t.jobs.find? id = some r → ¬ r.RunsUnder token

/-- Changes whose tokens are others do not give a lost lease back. -/
theorem Write.lost (h : Write cfg env s c s') (hc : call.Permits env c) {token : String}
    (hfresh : ∀ n, "lease-" ++ env.token n ≠ token) (hlost : s.store.Lost id token) : s'.store.Lost id token := by
  rintro r hr ⟨hrun, howner⟩
  rcases h.running hc hr hrun with ⟨old, hold, hrun', -, howner'⟩ | ⟨-, n, hn⟩
  · exact hlost old hold ⟨hrun', howner'.trans howner⟩
  · exact hfresh n (Option.some.inj (hn.symm.trans howner))

/-- Once a row version has taken a job from a lease, steps whose tokens are others do not give it
back. -/
theorem Run.lost (hrun : Run cfg s₀ h t) (hs : s₀.Sound)
    (hfresh : ∀ e ∈ h, ∀ n, "lease-" ++ e.step.env.token n ≠ lease.val.token)
    (hrevoked : ∃ c ∈ h.flatMap Entry.written, c.Revokes lease) :
    t.Lost lease.val.job_id lease.val.token := by
  refine hrun.changes (I := fun past u => (∃ c ∈ past, c.Revokes lease) →
    u.Lost lease.val.job_id lease.val.token)
    (Q := fun x => ∀ n, "lease-" ++ x.env.token n ≠ lease.val.token) hs (by simp) hfresh ?_ hrevoked
  rintro x c u u' past hx hc hw - hlost ⟨d, hd, hrev⟩
  rcases hw.written with heq | ⟨id, -, heq⟩
  · rw [heq] at hd
    exact hw.lost hc hx (hlost ⟨d, hd, hrev⟩)
  · rw [heq, ← List.append_assoc] at hd
    rcases List.mem_append.mp hd with hd | hd
    · exact hw.lost hc hx (hlost ⟨d, hd, hrev⟩)
    · -- The new row version is the row of the job as it now is.
      rw [List.mem_singleton.mp hd] at hrev
      obtain ⟨old, hold, hid, hnew⟩ := hrev
      obtain rfl : id = lease.val.job_id := by
        rw [← hid]
        exact (Table.find?_eq_some.mp hold).2.symm
      exact hnew

/-- The token of a lease was drawn by the transaction that issued it. -/
theorem Run.issued_token (hrun : Run cfg s₀ h t) (hs : s₀.Sound) :
    ∀ e ∈ h, ∀ lease ∈ e.issued, ∃ n, lease.val.token = "lease-" ++ e.step.env.token n := by
  induction hrun with
  | nil => simp
  | @step h u x hrun ih =>
    intro e he lease hlease
    rcases List.mem_append.mp he with he | he
    · exact ih e he lease hlease
    · rw [List.mem_singleton.mp he] at hlease ⊢
      obtain ⟨worker, scope, versions, limit, now, claimed, s', -, hop, -, hissued⟩ :=
        Step.issued_ne_nil (List.ne_nil_of_mem hlease)
      rw [hissued] at hlease
      rw [Step.exec_step]
      exact ((claim_leases (s := .start u) (hrun.sound hs) hop).1 lease hlease).2.1

/-! ## Attempts that are finished -/

/-- A job has finished an attempt. -/
def Store.HasFinished (t : Store) (id : String) (n : ℕ) : Prop :=
  ∃ a ∈ t.attempts id, a.attempt_no = n ∧ a.state ≠ .running

/-- A statement of `_write_attempts` keeps the numbers, and the attempts that are finished. -/
theorem upsertAttempt_keeps {new : AttemptRow} (h : upsertAttempt new rows = .ok rows') (ha : a ∈ rows) :
    (a.state ≠ .running → a ∈ rows') ∧ ∃ a' ∈ rows', a'.attempt_no = a.attempt_no := by
  induction rows generalizing rows' with
  | nil => cases ha
  | cons b rows ih =>
    rw [upsertAttempt] at h
    split_ifs at h with hlt heq hrun hsame
    · cases h
      have hmem : a ∈ new :: b :: rows := List.mem_cons_of_mem new ha
      exact ⟨fun _ => hmem, a, hmem, rfl⟩
    · cases h
      rcases List.mem_cons.mp ha with rfl | ha
      · exact ⟨fun hne => absurd hrun hne, new, by simp, heq⟩
      · exact ⟨fun _ => List.mem_cons_of_mem new ha, a, List.mem_cons_of_mem new ha, rfl⟩
    · cases h
      exact ⟨fun _ => ha, a, ha, rfl⟩
    · obtain ⟨rest, hrest, rfl⟩ := except_map_ok.mp h
      rcases List.mem_cons.mp ha with rfl | ha
      · exact ⟨fun _ => by simp, a, by simp, rfl⟩
      · obtain ⟨hfin, a', ha', hno⟩ := ih hrest ha
        exact ⟨fun hne => List.mem_cons_of_mem b (hfin hne), a', List.mem_cons_of_mem b ha', hno⟩

/-- `_write_attempts` keeps the numbers, and the attempts that are finished. -/
theorem upsertAttempts_keeps {news : List AttemptRow} (h : upsertAttempts news rows = .ok rows') (ha : a ∈ rows) :
    (a.state ≠ .running → a ∈ rows') ∧ ∃ a' ∈ rows', a'.attempt_no = a.attempt_no := by
  induction news generalizing rows a with
  | nil =>
    cases h
    exact ⟨fun _ => ha, a, ha, rfl⟩
  | cons new news ih =>
    simp only [upsertAttempts, except_bind_ok] at h
    obtain ⟨_, -, rows₁, hone, hrest⟩ := h
    obtain ⟨hfin, a₁, ha₁, hno₁⟩ := upsertAttempt_keeps hone ha
    obtain ⟨-, a₂, ha₂, hno₂⟩ := ih hrest ha₁
    exact ⟨fun hne => (ih hrest (hfin hne)).1 hne, a₂, ha₂, hno₂.trans hno₁⟩

/-- A change that deletes nothing keeps the numbers of the attempts, and those that are finished. -/
theorem Write.keeps_attempts (h : Write cfg env s c s') (hs : s.store.Sound) (hdelete : ∀ id, c ≠ .delete id)
    (ha : a ∈ s.store.attempts id) : (a.state ≠ .running → a ∈ s'.store.attempts id) ∧
      ∃ a' ∈ s'.store.attempts id, a'.attempt_no = a.attempt_no := by
  cases h with
  | @insert j _ jobs rows h =>
    by_cases hid : id = j.val.job_id
    · rw [hid, hs.orphans _ h.absent] at ha
      cases ha
    · have heq : (s.inserted j jobs rows).store.attempts id = s.store.attempts id := by
        show Function.update s.store.attempts j.val.job_id rows id = _
        exact Function.update_of_ne hid rows s.store.attempts
      rw [heq]
      exact ⟨fun _ => ha, a, ha, rfl⟩
  | @persist before j _ args old jobs rows _ h =>
    by_cases hid : id = j.val.job_id
    · have heq : (s.persisted cfg env j args old jobs rows).store.attempts id = rows := by
        rw [hid]
        exact Function.update_self j.val.job_id rows s.store.attempts
      rw [heq]
      exact upsertAttempts_keeps h.attempts (hid ▸ ha)
    · have heq : (s.persisted cfg env j args old jobs rows).store.attempts id =
          s.store.attempts id := by
        show Function.update s.store.attempts j.val.job_id rows id = _
        exact Function.update_of_ne hid rows s.store.attempts
      rw [heq]
      exact ⟨fun _ => ha, a, ha, rfl⟩
  | touch h hf => exact ⟨fun _ => ha, a, ha, rfl⟩
  | log => exact ⟨fun _ => ha, a, ha, rfl⟩
  | draw => exact ⟨fun _ => ha, a, ha, rfl⟩
  | @delete job_id _ _ => exact absurd rfl (hdelete job_id)

/-- The rows of a held job's attempts have their numbers and states. -/
theorem Store.Holds.attempt (h : t.Holds r j) :
    List.Forall₂ (fun row a => a.val.number = row.attempt_no ∧ a.val.state = row.state)
      (t.attempts j.val.job_id) j.val.attempts := by
  refine (loadAttempts_forall h.attempts).imp ?_
  intro row a hload
  obtain ⟨_, -, hval⟩ := loadAttempt_ok hload
  rw [hval]
  exact ⟨rfl, rfl⟩

/-- An attempt of a job runs only if the job does and it is the last one. -/
theorem attempt_running {a : JobAttempt} (ha : a ∈ j.val.attempts) (hrun : a.val.state = .running) :
    j.val.state = .running := by
  have hlast : j.val.lastAttempt = some a := by
    obtain ⟨l, l', heq⟩ := List.append_of_mem ha
    cases l' with
    | nil =>
      unfold JobFields.lastAttempt
      rw [heq, List.getLast?_concat]
    | cons b l' =>
      -- An attempt with another after it has its end.
      have hchain := j.consistent.history.chronological
      rw [heq] at hchain
      obtain ⟨t, ht, -⟩ := (List.isChain_cons_cons.mp (List.isChain_append.mp hchain).2.1).1
      rw [(a.ok.running_open hrun).1] at ht
      cases ht
  have hshape := j.consistent.shape
  unfold JobFields.Shape at hshape
  cases hs : j.val.state with
  | running => rfl
  | pending =>
    simp only [hs] at hshape
    rw [hshape.1] at ha
    cases ha
  | queued =>
    simp only [hs] at hshape
    rw [(hshape.2.2 a hlast).1] at hrun
    cases hrun
  | succeeded =>
    simp only [hs] at hshape
    obtain ⟨-, last, _, hl, -, hstate, -⟩ := hshape
    obtain rfl : last = a := Option.some.inj (hl.symm.trans hlast)
    rw [hstate] at hrun
    cases hrun
  | cancelled =>
    simp only [hs] at hshape
    rcases hshape.2.2 a hlast with h | h <;>
      · rw [h] at hrun
        cases hrun
  | failed | retrying | deadLetter =>
    simp only [hs] at hshape
    obtain ⟨last, _, hl, -, hfailed⟩ := hshape
    obtain rfl : last = a := Option.some.inj (hl.symm.trans hlast)
    rw [hfailed.last_failed] at hrun
    cases hrun

/-- The last attempt of a running job runs. -/
theorem last_running {a : JobAttempt} (ha : a ∈ j.val.attempts) (hrun : j.val.state = .running)
    (hno : a.val.number = j.attemptCount) :
    a.val.state = .running := by
  obtain ⟨last, hlast, hstate⟩ := Job.running_last hrun
  have hmem := JobFields.mem_of_last hlast
  have hnumber := j.consistent.history.number_of_last hlast
  have hnodup : (j.val.attempts.map fun a => a.val.number).Nodup :=
    (numbers_sorted j).imp fun h => Nat.ne_of_lt h
  rw [List.inj_on_of_nodup_map hnodup ha hmem (hno.trans hnumber.symm)]
  exact hstate

/-- A row version that finishes an attempt finishes it for the first time. -/
theorem Write.finishes (h : Write cfg env s c s') (hs : s.store.Sound) (hdelete : ∀ id, c ≠ .delete id) {k : String}
    {n : ℕ} (hfin : RowChange.Finishes ⟨s.store.jobs.find? k, s'.store.jobs.find? k⟩ id n) :
    ¬ s.store.HasFinished id n ∧ s'.store.HasFinished id n := by
  obtain ⟨old, new, hold, hnew, hid, hn, hrun, hstop⟩ := hfin
  simp only at hold hnew
  obtain ⟨j, hj⟩ := hs.holds k old hold
  obtain ⟨j', hj'⟩ := (h.sound hs).holds k new hnew
  obtain rfl : k = id := (Table.find?_eq_some.mp hold).2.symm.trans hid
  obtain rfl : j.val.job_id = k := hj.carries.job_id.symm.trans hid
  have hstate : j.val.state = .running := Option.some.inj (hj.carries.state.symm.trans hrun)
  have hcount : j.attemptCount = n := hj.carries.attempts.symm.trans hn
  have hlen := hj.attempt.length_eq
  constructor
  · -- The attempt is the last one of the job, which runs.
    rintro ⟨a, ha, hno, hne⟩
    obtain ⟨i, hi, rfl⟩ := List.getElem_of_mem ha
    obtain ⟨hnumber, hs⟩ := hj.attempt.get hi (by omega)
    refine hne (hs.symm.trans (last_running (List.getElem_mem _) hstate ?_))
    exact hnumber.trans (hno.trans hcount.symm)
  · -- The attempt is still there, and the job that is now read does not run.
    obtain ⟨last, hlast, -⟩ := Job.running_last hstate
    obtain ⟨i, hi, rfl⟩ := List.getElem_of_mem (JobFields.mem_of_last hlast)
    have hi' : i < (s.store.attempts j.val.job_id).length := by omega
    obtain ⟨hnumber, -⟩ := hj.attempt.get hi' hi
    have hlastno := j.consistent.history.number_of_last hlast
    obtain ⟨-, a, ha, hno⟩ := h.keeps_attempts hs hdelete (List.getElem_mem hi')
    refine ⟨a, ha, ?_, ?_⟩
    · calc a.attempt_no = _ := hno
        _ = _ := hnumber.symm
        _ = n := hlastno.trans hcount
    · intro hrun'
      have hid' : j'.val.job_id = j.val.job_id :=
        hj'.carries.job_id.symm.trans (Table.find?_eq_some.mp hnew).2
      rw [← hid'] at ha
      obtain ⟨k, hk, rfl⟩ := List.getElem_of_mem ha
      have hlen' := hj'.attempt.length_eq
      obtain ⟨-, hs'⟩ := hj'.attempt.get hk (by omega)
      have hrunning := attempt_running (List.getElem_mem _) (hs'.trans hrun')
      exact hstop (hj'.carries.state.trans (congrArg some hrunning))

/-- No two of these row versions finish the same attempt of a job. -/
def FinishedOnce (past : List RowChange) : Prop :=
  past.Pairwise fun c c' => ∀ id n, ¬ (c.Finishes id n ∧ c'.Finishes id n)

/-- In a run that removes no rows, no attempt is finished twice, and one that is finished stays as
it is. -/
theorem Run.finishedOnce (hrun : Run cfg s₀ h t) (hs : s₀.Sound) (hprunes : ∀ e ∈ h, e.step.call.prunes = false) :
    FinishedOnce (h.flatMap Entry.written) ∧
      ∀ id a, a ∈ s₀.attempts id → a.state ≠ .running → a ∈ t.attempts id := by
  -- What was finished is found among the attempts, which is what the induction needs.
  have hinv := hrun.changes (I := fun past u => FinishedOnce past ∧
      (∀ c ∈ past, ∀ id n, c.Finishes id n → u.HasFinished id n) ∧
      ∀ id a, a ∈ s₀.attempts id → a.state ≠ .running → a ∈ u.attempts id)
    (Q := fun x => x.call.prunes = false) hs ⟨.nil, by simp, fun _ _ ha _ => ha⟩ hprunes ?_
  · exact ⟨hinv.1, hinv.2.2⟩
  rintro x c u u' past hx hc hw hu ⟨honce, hfound, hkept⟩
  have hdelete : ∀ id, c ≠ .delete id := hc.ne_delete hx
  have hkept' : ∀ id a, a ∈ s₀.attempts id → a.state ≠ .running → a ∈ u'.store.attempts id :=
    fun id a ha hne => (hw.keeps_attempts hu hdelete (hkept id a ha hne)).1 hne
  have hfinished : ∀ id n, u.store.HasFinished id n → u'.store.HasFinished id n := by
    rintro id n ⟨a, ha, hno, hne⟩
    exact ⟨a, (hw.keeps_attempts hu hdelete ha).1 hne, hno, hne⟩
  rcases hw.written with heq | ⟨k, -, heq⟩
  · rw [heq]
    exact ⟨honce, fun c hc id n hf => hfinished id n (hfound c hc id n hf), hkept'⟩
  · rw [heq, ← List.append_assoc]
    refine ⟨?_, ?_, hkept'⟩
    · refine List.pairwise_append.mpr ⟨honce, List.pairwise_singleton _ _, ?_⟩
      intro d hd d' hd' id n hboth
      rw [List.mem_singleton.mp hd'] at hboth
      exact (hw.finishes hu hdelete hboth.2).1 (hfound d hd id n hboth.1)
    · intro d hd id n hf
      rcases List.mem_append.mp hd with hd | hd
      · exact hfinished id n (hfound d hd id n hf)
      · rw [List.mem_singleton.mp hd] at hf
        exact (hw.finishes hu hdelete hf).2

/-! ## Fencing -/

/-- The worker of a lease is stripped. -/
theorem worker_stripped (lease : JobLease) : strip lease.val.worker_id = lease.val.worker_id := by
  have h := lease.accepted
  simp only [JobLeaseFields.postInit, except_bind_ok, identifier_ok, pure, Except.pure,
    Except.ok.injEq] at h
  obtain ⟨_, -, _, ⟨rfl, -⟩, _, -, _, -, hval⟩ := h
  rw [← hval]
  exact strip_strip _

/-- A call with a lease whose token is not that of its running row raises, and changes nothing. -/
theorem Step.refused {stale : JobLease} (ht : t.Sound) (hcall : x.call.lease? = some (stale, expected))
    (hlost : t.Lost stale.val.job_id stale.val.token) :
    (∃ e, (x.exec cfg t).reply = .error e) ∧ (x.exec cfg t).after = t ∧
      (x.exec cfg t).written = [] := by
  cases hreply : (x.exec cfg t).reply with
  | error e => exact ⟨⟨e, rfl⟩, Step.exec_error hreply⟩
  | ok r =>
    obtain ⟨row, j, howned⟩ := Step.owned ht hcall hreply
    obtain ⟨-, hstate, -, howner, -⟩ := leaseWhere_iff.mp howned.leased
    refine absurd ⟨hstate, howner⟩ (hlost row ?_)
    rw [← howned.job_id]
    exact howned.holds.found

/-- The lease of a job that was issued last is one of those issued after a point, if there is one. -/
theorem lastIssued_append (h₁ : List Entry) {h₂ : List Entry}
    (hlater : ∃ lease ∈ h₂.flatMap Entry.issued, lease.val.job_id = id) :
    ∃ last ∈ h₂.flatMap Entry.issued, lastIssued (h₁ ++ h₂) id = some last := by
  obtain ⟨lease, hlease, hid⟩ := hlater
  unfold lastIssued
  rw [List.flatMap_append, List.filter_append, List.getLast?_append]
  cases hlast : ((h₂.flatMap Entry.issued).filter fun l => l.val.job_id == id).getLast? with
  | none =>
    rw [List.getLast?_eq_none_iff, List.filter_eq_nil_iff] at hlast
    exact absurd (beq_iff_eq.mpr hid) (hlast lease hlease)
  | some last => exact ⟨last, List.mem_of_mem_filter (List.mem_of_getLast? hlast), rfl⟩

/-- **Fencing of leases:** for any interleaving of the operations by any number of workers, with
fresh tokens, a call with a lease that returns had the worker and the token that were issued last
for its job, whose row was running at the expected version, with the lease not yet over. A worker
whose lease was taken by a row version or by a later claim can no longer change the job. Without
removals no attempt of a job is finished twice, and a finished attempt stays as it is. -/
theorem lease_fencing (cfg : Config) (h : List Entry) (t : Store)
    (hrun : Run cfg Store.empty h t) (hfresh : FreshTokens h) :
    (∀ (x : Step) (lease : JobLease) (expected : ℕ) (r : Reply),
      x.call.lease? = some (lease, expected) → (x.exec cfg t).reply = .ok r →
      ∃ row last, t.jobs.find? lease.val.job_id = some row ∧
        row.contract_state = some .running ∧ row.version = expected ∧
        row.lease_worker_id = some lease.val.worker_id ∧
        row.lease_owner = some lease.val.token ∧
        (∃ expires, row.lease_until = some expires ∧ (x.env.clock : ℤ) < expires) ∧
        lastIssued h lease.val.job_id = some last ∧
        last.val.worker_id = lease.val.worker_id ∧ last.val.token = lease.val.token) ∧
    (∀ h₁ h₂, h = h₁ ++ h₂ → ∀ lease ∈ h₁.flatMap Entry.issued,
      ((∃ c ∈ h₂.flatMap Entry.written, c.Revokes lease) ∨
        ∃ later ∈ h₂.flatMap Entry.issued, later.val.job_id = lease.val.job_id) →
      ∀ (x : Step) (stale : JobLease) (expected : ℕ), x.call.lease? = some (stale, expected) →
        stale.val.job_id = lease.val.job_id → stale.val.token = lease.val.token →
        (∃ e, (x.exec cfg t).reply = .error e) ∧ (x.exec cfg t).after = t ∧
          (x.exec cfg t).written = []) ∧
    ((∀ e ∈ h, e.step.call.prunes = false) → FinishedOnce (h.flatMap Entry.written) ∧
      ∀ h₁ h₂ s₁, h = h₁ ++ h₂ → Run cfg Store.empty h₁ s₁ → Run cfg s₁ h₂ t →
        ∀ id a, a ∈ s₁.attempts id → a.state ≠ .running → a ∈ t.attempts id) := by
  have hempty := Store.sound_empty
  have hsound := hrun.sound hempty
  have hfenced : Fenced h t := by
    refine hrun.fenced hempty fun id r hr => ?_
    simp [Store.empty, Table.empty, Table.find?] at hr
  refine ⟨?_, ?_, ?_⟩
  · intro x lease expected r hcall hreply
    obtain ⟨row, j, howned⟩ := Step.owned hsound hcall hreply
    obtain ⟨-, hstate, hworker, howner, huntil, hversion⟩ := leaseWhere_iff.mp howned.leased
    have hfound : t.jobs.find? lease.val.job_id = some row := by
      rw [← howned.job_id]
      exact howned.holds.found
    obtain ⟨last, worker, hlast, hw, hstrip, ho⟩ := hfenced _ row hfound hstate
    refine ⟨row, last, hfound, hstate, hversion, hworker, howner, huntil, hlast, ?_, ?_⟩
    · obtain rfl : worker = lease.val.worker_id := Option.some.inj (hw.symm.trans hworker)
      rw [hstrip, worker_stripped]
    · exact Option.some.inj (ho.symm.trans howner)
  · intro h₁ h₂ heq lease hlease htaken x stale expected hcall hid htoken
    subst heq
    obtain ⟨s₁, hrun₁, hrun₂⟩ := hrun.split
    have hsound₁ := hrun₁.sound hempty
    obtain ⟨e, he, hissued⟩ := List.mem_flatMap.mp hlease
    obtain ⟨m, hm⟩ := hrun₁.issued_token hempty e he lease hissued
    -- The tokens of the later steps are not the one of the lease.
    have hother : ∀ e' ∈ h₂, ∀ n, "lease-" ++ e'.step.env.token n ≠ lease.val.token := by
      intro e' he' n heq
      rw [hm, String.append_right_inj] at heq
      exact (List.pairwise_append.mp hfresh).2.2 e he e' he' m n heq.symm
    refine Step.refused hsound hcall ?_
    rw [hid, htoken]
    rcases htaken with hrevoked | hlater
    · exact hrun₂.lost hsound₁ hother hrevoked
    · rintro row hrow ⟨hstate, howner⟩
      obtain ⟨last, hlast, heq⟩ := lastIssued_append h₁ hlater
      obtain ⟨last', _, heq', -, -, ho⟩ := hfenced _ row hrow hstate
      obtain rfl : last = last' := Option.some.inj (heq.symm.trans heq')
      obtain ⟨e', he', hissued'⟩ := List.mem_flatMap.mp hlast
      obtain ⟨n, hn⟩ := hrun₂.issued_token hsound₁ e' he' last hissued'
      refine hother e' he' n ?_
      rw [← hn]
      exact Option.some.inj (ho.symm.trans howner)
  · intro hprunes
    refine ⟨(hrun.finishedOnce hempty hprunes).1, ?_⟩
    intro h₁ h₂ s₁ heq hrun₁ hrun₂ id a ha hne
    have hprunes₂ : ∀ e ∈ h₂, e.step.call.prunes = false := by
      intro e he
      exact hprunes e (heq ▸ List.mem_append_right h₁ he)
    exact (hrun₂.finishedOnce (hrun₁.sound hempty) hprunes₂).2 id a ha hne

end

/-! ### A lease that is held -/

/-- A transaction with a token of its own. -/
def otherEnv (clock : ℕ) : Env :=
  { plainEnv clock with
    token := fun _ => "BBBBBBBBBBBBBBBBBBBBBBBBBBBBBBBB"
    token_urlsafe := fun _ => ⟨by decide +kernel, List.all_eq_true.mp (by decide +kernel)⟩ }

/-- The scope of the concrete runs. -/
def plainScope : JobScope := (Validated.make plainJob.scope).toOption.get (by decide +kernel)

/-- The enqueued job is claimed. -/
def claimedEntry : Entry :=
  Step.exec smallQueue ⟨otherEnv 1001000000, .claim "worker-1" plainScope [] 1 1001⟩
    enqueuedEntry.after

/-- Its lease. -/
def claimedLease : JobLease := claimedEntry.issued.head?.get (by decide +kernel)

/-- The worker sends a heartbeat. -/
def beatStep : Step := ⟨plainEnv 1002000000, .heartbeat claimedLease 1002 3⟩

/-- The heartbeat of the worker returns, and its token is the one that was issued last. -/
theorem claimedEntry_fenced :
    (beatStep.exec smallQueue claimedEntry.after).reply.toOption.isSome = true ∧
      ∃ last, lastIssued [enqueuedEntry, claimedEntry] "job-1" = some last ∧
        last.val.token = claimedLease.val.token := by
  have hrun : Run smallQueue Store.empty [enqueuedEntry, claimedEntry] claimedEntry.after :=
    (Run.nil.step ⟨plainEnv 1000000000, .enqueue plainJob 0⟩).step
      ⟨otherEnv 1001000000, .claim "worker-1" plainScope [] 1 1001⟩
  have hfresh : FreshTokens [enqueuedEntry, claimedEntry] := by
    simp [FreshTokens, enqueuedEntry, claimedEntry, plainEnv, otherEnv]
  have hreturns : (beatStep.exec smallQueue claimedEntry.after).reply.toOption.isSome = true := by
    decide +kernel
  refine ⟨hreturns, ?_⟩
  cases hreply : (beatStep.exec smallQueue claimedEntry.after).reply with
  | error e => simp [hreply, Except.toOption] at hreturns
  | ok r =>
    obtain ⟨-, last, -, -, -, -, -, -, hlast, -, htoken⟩ :=
      (lease_fencing smallQueue _ _ hrun hfresh).1 beatStep claimedLease 3 r rfl hreply
    have hid : claimedLease.val.job_id = "job-1" := by decide +kernel
    exact ⟨last, hid ▸ hlast, htoken⟩

end RickIntelligence.Postgres
