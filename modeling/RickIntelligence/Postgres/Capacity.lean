import RickIntelligence.Postgres.Machine

/-!
# The capacity of a scope

`enqueue` counts the active rows of a scope before it inserts another one. `create_or_replay` and
`replay_dead_letter` insert without counting, and `save`, `schedule`, and `transition` may make an
inactive row active again. The bound holds in every run in which the scope has room whenever one of
these five adds to it (`run_within_capacity`), and a run of two calls of `create_or_replay` exceeds it
(`capacity_exceeded`).
-/

namespace RickIntelligence.Postgres

open Lib Jobs

/-- A row is active. -/
def Row.active (r : Row) : Bool := r.contract_state.any fun s => activeStates.contains s

/-- The scope of a row. -/
def Row.scope (r : Row) : JobScopeFields := ⟨r.tenant_id, r.workspace_id, r.collection_id⟩

/-- A row counts towards a scope if it is active and of that scope. -/
theorem Row.activeIn_iff {r : Row} {scope : JobScopeFields} :
    r.activeIn scope = true ↔ r.active = true ∧ r.scope = scope := by
  unfold Row.activeIn Row.active Row.scope
  rw [Bool.and_eq_true, Row.inScope_iff, and_comm, JobScopeFields.mk.injEq]

/-- The scope of a row is that of its job. -/
theorem Row.Carries.scope {r : Row} {j : Job} (h : r.Carries j) : r.scope = j.scope :=
  ((h.inScope_iff r.scope).mp (Row.inScope_iff.mpr ⟨rfl, rfl, rfl⟩)).symm

/-- A row is active when its job is. -/
theorem Row.Carries.active {r : Row} {j : Job} (h : r.Carries j) :
    r.active = activeStates.contains j.val.state := by
  unfold Row.active
  rw [h.state]
  rfl

/-- A persisted row stays in its scope. -/
theorem persistRow_scope (cfg : Config) (env : Env) (j : Job) (a : PersistArgs) (r : Row) :
    (persistRow cfg env j a r).scope = r.scope := by
  unfold persistRow LeaseArg.assign
  split <;> rfl

/-! ## How a step moves the count -/

/-- Every active row was active before, in its scope. -/
def Store.Shrinks (s s' : Store) : Prop :=
  ∀ k r', s'.jobs.find? k = some r' → r'.active = true →
    ∃ r, s.jobs.find? k = some r ∧ r.active = true ∧ r.scope = r'.scope

/-- Every active row but those of one job was active before, and that job is of the scope. -/
def Store.GrowsIn (scope : JobScopeFields) (s s' : Store) : Prop :=
  ∃ id, ∀ k r', s'.jobs.find? k = some r' → r'.active = true →
    (k = id ∧ r'.scope = scope) ∨
      ∃ r, s.jobs.find? k = some r ∧ r.active = true ∧ r.scope = r'.scope

/-- Without new active rows no count grows. -/
theorem Store.Shrinks.count_le {s s' : Store} (h : s.Shrinks s') (scope : JobScopeFields) :
    activeCount s' scope ≤ activeCount s scope := by
  refine Table.countP_le_of_find? _ [] ?_
  intro k r' hr' hactive
  obtain ⟨hact, hscope⟩ := Row.activeIn_iff.mp hactive
  obtain ⟨r, hr, hract, hrscope⟩ := h k r' hr' hact
  exact .inr ⟨r, hr, Row.activeIn_iff.mpr ⟨hract, hrscope.trans hscope⟩⟩

/-- One new active row adds one to the count of its scope. -/
theorem Store.GrowsIn.count_le {scope : JobScopeFields} {s s' : Store} (h : s.GrowsIn scope s')
    (scope' : JobScopeFields) :
    activeCount s' scope' ≤ activeCount s scope' + if scope' = scope then 1 else 0 := by
  obtain ⟨id, h⟩ := h
  split_ifs with heq
  · refine Table.countP_le_of_find? _ [id] ?_
    intro k r' hr' hactive
    obtain ⟨hact, hscope⟩ := Row.activeIn_iff.mp hactive
    rcases h k r' hr' hact with ⟨rfl, -⟩ | ⟨r, hr, hract, hrscope⟩
    · exact .inl (by simp)
    · exact .inr ⟨r, hr, Row.activeIn_iff.mpr ⟨hract, hrscope.trans hscope⟩⟩
  · refine Table.countP_le_of_find? _ [] ?_
    intro k r' hr' hactive
    obtain ⟨hact, hscope⟩ := Row.activeIn_iff.mp hactive
    rcases h k r' hr' hact with ⟨-, hrscope⟩ | ⟨r, hr, hract, hrscope⟩
    · exact absurd (hscope.symm.trans hrscope) heq
    · exact .inr ⟨r, hr, Row.activeIn_iff.mpr ⟨hract, hrscope.trans hscope⟩⟩

/-- A change that neither adds nor removes a row. -/
def Change.InPlace : Change → Prop
  | insert _ => False
  | delete _ => False
  | _ => True

section

variable {cfg : Config} {env : Env} {P : Change → Prop} {s s' : Session}

variable {c : Change} {id : String} {row : Row} {j out : Job} {expected : ℕ} {lease : JobLease}

/-- A change in place leaves a row in its scope. -/
theorem Write.scope (h : Write cfg env s c s') (hc : c.InPlace) {scope : JobScopeFields}
    (hr : ∀ r, s.store.jobs.find? id = some r → r.scope = scope) :
    ∀ r, s'.store.jobs.find? id = some r → r.scope = scope := by
  intro r' hr'
  rcases h.found hr' with hsame | ⟨j, rfl, -⟩ | ⟨before, j, a, old, -, -, -, hold, -, -, rfl⟩ |
    ⟨f, old, -, hf, hold, rfl⟩
  · exact hr r' hsame
  · exact hc.elim
  · rw [persistRow_scope]
    exact hr old hold
  · rw [hf old]
    exact hr old hold

/-- Changes in place of active rows make no other row active. -/
theorem Writes.shrinks (h : Writes cfg env P s s') (hP : ∀ c, P c → c.InPlace)
    (changed : String → Prop)
    (hactive : ∀ k, changed k → ∃ r, s.store.jobs.find? k = some r ∧ r.active = true)
    (hframe : ∀ k, ¬ changed k → s'.store.jobs.find? k = s.store.jobs.find? k) :
    s.store.Shrinks s'.store := by
  intro k r' hr' hact
  by_cases hk : changed k
  · obtain ⟨r, hr, hract⟩ := hactive k hk
    refine ⟨r, hr, hract, ?_⟩
    have hscope := h.invariant (I := fun t => ∀ x, t.store.jobs.find? k = some x →
      x.scope = r.scope) (fun hc hw ht => hw.scope (hP _ hc) ht) (by
        intro x hx
        rw [hr] at hx
        cases hx
        rfl)
    exact (hscope r' hr').symm
  · rw [hframe k hk] at hr'
    exact ⟨r', hr', hact, rfl⟩

/-- A change that settles a job is in place. -/
theorem Change.Settles.inPlace (h : c.Settles id) : c.InPlace := by
  cases c with
  | persist | touch => trivial
  | insert | log | draw | delete => exact h.elim

/-- A claim is in place. -/
theorem Change.Claims.inPlace {env : Env} {worker : String} (h : c.Claims env worker) :
    c.InPlace := by
  cases c with
  | persist | draw => trivial
  | insert | touch | log | delete => exact h.elim

/-- A settled job that was active makes no other row active. -/
theorem settles_shrinks (hold : s.store.Holds row j) (hactive : activeStates.contains j.val.state = true)
    (h : Writes cfg env (Change.Settles j.val.job_id) s s') : s.store.Shrinks s'.store := by
  refine h.shrinks (fun c hc => hc.inPlace) (fun k => k = j.val.job_id) ?_ ?_
  · rintro k rfl
    exact ⟨row, hold.found, by rw [hold.carries.active]; exact hactive⟩
  · intro k hk
    exact (h.frame fun c hc => ⟨_, hc.isOf, hk⟩).1

/-- Changes of one job that ends inactive make no other row active. -/
theorem inactive_shrinks (h : Writes cfg env P s s') (hP : ∀ c, P c → c.IsOf id) (hold : s'.store.Holds row out)
    (hid : out.val.job_id = id) (hinactive : activeStates.contains out.val.state = false) :
    s.store.Shrinks s'.store := by
  intro k r' hr' hact
  by_cases hk : k = id
  · have hfound := hold.found
    rw [hid, ← hk, hr'] at hfound
    cases hfound
    rw [hold.carries.active, hinactive] at hact
    cases hact
  · rw [(h.frame fun c hc => ⟨id, hP c hc, hk⟩).1] at hr'
    exact ⟨r', hr', hact, rfl⟩

/-- Changes of one job add at most its own row to the active ones. -/
theorem grows_of_local (h : Writes cfg env P s s') (hP : ∀ c, P c → c.IsOf id) (hold : s'.store.Holds row out)
    (hid : out.val.job_id = id) :
    s.store.GrowsIn out.scope s'.store := by
  refine ⟨id, ?_⟩
  intro k r' hr' hact
  by_cases hk : k = id
  · have hfound := hold.found
    rw [hid, ← hk, hr'] at hfound
    cases hfound
    exact .inl ⟨hk, hold.carries.scope⟩
  · rw [(h.frame fun c hc => ⟨id, hP c hc, hk⟩).1] at hr'
    exact .inr ⟨r', hr', hact, rfl⟩

/-- A job that is changed in place keeps the count, or becomes active where there is room. -/
theorem inPlace_count {max : ℕ} {row' : Row} {before : Job} (hold : s.store.Holds row before)
    (h : Writes cfg env P s s') (hP : ∀ c, P c → c.IsOf before.val.job_id ∧ c.InPlace)
    (hout : s'.store.Holds row' out) (hcont : Continues before out)
    (hroom : activeStates.contains before.val.state = false →
      activeStates.contains out.val.state = true → activeCount s.store before.scope < max) :
    s.store.Shrinks s'.store ∨
      ∃ scope, activeCount s.store scope < max ∧ s.store.GrowsIn scope s'.store := by
  cases hb : activeStates.contains before.val.state with
  | true =>
    refine .inl (h.shrinks (fun c hc => (hP c hc).2) (fun k => k = before.val.job_id) ?_ ?_)
    · rintro k rfl
      exact ⟨row, hold.found, by rw [hold.carries.active]; exact hb⟩
    · intro k hk
      exact (h.frame fun c hc => ⟨_, (hP c hc).1, hk⟩).1
  | false =>
    cases ho : activeStates.contains out.val.state with
    | false => exact .inl (inactive_shrinks h (fun c hc => (hP c hc).1) hout hcont.job_id ho)
    | true =>
      have hgrows := grows_of_local h (fun c hc => (hP c hc).1) hout hcont.job_id
      rw [hcont.scope] at hgrows
      exact .inr ⟨before.scope, hroom hb ho, hgrows⟩

/-- A saved job keeps the count, or becomes active where there is room. -/
theorem save_count (hs : s.store.Sound) (h : save cfg env j expected s = .ok (out, s'))
    (hroom : ∀ r, s.store.jobs.find? j.val.job_id = some r → r.version = expected →
      r.active = false → activeStates.contains j.val.state = true →
      activeCount s.store j.scope < cfg.max_pending) :
    s.store.Shrinks s'.store ∨
      ∃ scope, activeCount s.store scope < cfg.max_pending ∧ s.store.GrowsIn scope s'.store := by
  obtain ⟨row, existing, a, hold, hversion, hsaves, hw, row', hout, hcont, hstate⟩ := save_writes hs h
  have hw' : Writes cfg env (fun c => c = .persist existing j a) s s' := .single hw rfl
  refine inPlace_count hold hw' ?_ hout hcont ?_
  · rintro c rfl
    exact ⟨hsaves.job_id, trivial⟩
  · intro hb ho
    rw [hstate] at ho
    rw [← hsaves.scope]
    refine hroom row ?_ (by rw [hold.carries.version, hversion]) ?_ ho
    · rw [hsaves.job_id]
      exact hold.found
    · rw [hold.carries.active]
      exact hb

/-- A row with the identity of a request. -/
def Store.hasIdentity (s : Store) (identity : String × String × String × String) : Prop :=
  ∃ r ∈ s.jobs.rows, r.identity = identity

/-- The operations that add to the active rows without counting them find room in the scope. -/
def Entry.HasRoom (cfg : Config) (e : Entry) : Prop :=
  match e.step.call with
  | .createOrReplay j _ => ¬ e.before.hasIdentity j.idempotencyIdentity →
      activeStates.contains j.val.state = true → activeCount e.before j.scope < cfg.max_pending
  | .replayDeadLetter _ scope _ new_key _ _ _ => ∀ clean, scope.postInit = .ok clean →
      ¬ e.before.hasIdentity
        (clean.tenant_id, clean.workspace_id, clean.collection_id, strip new_key) →
      activeCount e.before clean < cfg.max_pending
  | .save j expected => ∀ r, e.before.jobs.find? j.val.job_id = some r → r.version = expected →
      r.active = false → activeStates.contains j.val.state = true →
      activeCount e.before j.scope < cfg.max_pending
  | .schedule j _ expected => ∀ r, e.before.jobs.find? j.val.job_id = some r →
      r.version = expected → r.active = false → activeCount e.before j.scope < cfg.max_pending
  | .transition j to_state _ _ => activeStates.contains j.val.state = false →
      activeStates.contains to_state = true → activeCount e.before j.scope < cfg.max_pending
  | _ => True

/-- Removing rows makes none active. -/
theorem prunes_shrinks (h : Writes cfg env Change.Prunes s s') : s.store.Shrinks s'.store := by
  have hkept := h.invariant (I := fun t => ∀ k r, t.store.jobs.find? k = some r →
    s.store.jobs.find? k = some r) (by
      intro t t' c hc hw ht k r hr
      rcases hw.found hr with hsame | ⟨j, rfl, -⟩ | ⟨before, j, a, old, rfl, -⟩ | ⟨f, old, rfl, -⟩
      · exact ht k r hsame
      · exact hc.elim
      · exact hc.elim
      · exact hc.elim) fun k r hr => hr
  intro k r' hr' hact
  exact ⟨r', hkept k r' hr', hact, rfl⟩

/-- The store of a claim has no other active rows than before. -/
theorem claim_shrinks {worker : String} {scope : JobScope} {versions : List (String × ℕ)}
    {limit : ℕ} {now : ℚ} {claimed : List (Job × JobLease)} (hs : s.store.Sound)
    (h : claim cfg env worker scope versions limit now s = .ok (claimed, s')) :
    s.store.Shrinks s'.store := by
  obtain ⟨rows, s₁, l, hrows, hw, hl, -, hw', -⟩ := claim_writes hs h
  -- First the expired rows, which are running, and then the candidates, which are active.
  have hfirst : s.store.Shrinks s₁.store := by
    refine hw.shrinks ?_ (fun k => ∃ r ∈ rows, k = r.job_id) ?_ ?_
    · rintro c ⟨r, -, hc⟩
      exact hc.inPlace
    · rintro k ⟨r, hr, rfl⟩
      obtain ⟨hfound, hexp⟩ := hrows r hr
      simp only [expiredWhere, Bool.and_eq_true, beq_iff_eq] at hexp
      exact ⟨r, hfound, by simp [Row.active, hexp.1.1.2, activeStates]⟩
    · intro k hk
      refine (hw.frame ?_).1
      rintro c ⟨r, hr, hc⟩
      exact ⟨r.job_id, hc.isOf, fun heq => hk ⟨r, hr, heq⟩⟩
  have hsecond : s₁.store.Shrinks s'.store := by
    refine hw'.shrinks (fun c hc => hc.1.inPlace) (fun k => ∃ j ∈ l, k = j.val.job_id) ?_ ?_
    · rintro k ⟨j, hj, rfl⟩
      obtain ⟨⟨r, hold⟩, hstate⟩ := hl j hj
      refine ⟨r, hold.found, ?_⟩
      rw [hold.carries.active]
      rcases hstate with hstate | hstate <;> rw [hstate] <;> rfl
    · intro k hk
      exact (hw'.frame fun c hc => hc.2 k fun j hj heq => hk ⟨j, hj, heq⟩).1
  intro k r' hr' hact
  obtain ⟨r₁, hr₁, hact₁, hscope₁⟩ := hsecond k r' hr' hact
  obtain ⟨r, hr, hract, hscope⟩ := hfirst k r₁ hr₁ hact₁
  exact ⟨r, hr, hract, hscope.trans hscope₁⟩

/-- An owned job is active. -/
theorem Owned.active (h : Owned env s.store lease expected row j) : activeStates.contains j.val.state = true := by
  rw [h.running]
  rfl

/-- A heartbeat makes no row active. -/
theorem heartbeat_shrinks {out : JobLease} {now : ℚ} (hs : s.store.Sound)
    (h : heartbeat cfg env lease now expected s = .ok (out, s')) : s.store.Shrinks s'.store := by
  obtain ⟨⟨row, j, howned⟩, hw⟩ := heartbeat_writes hs h
  have hbeats : ∀ c, Change.Beats lease.val.job_id c → c.IsOf lease.val.job_id ∧ c.InPlace := by
    intro c hc
    cases c with
    | touch i => exact ⟨hc, trivial⟩
    | log | draw => exact ⟨trivial, trivial⟩
    | insert | persist | delete => exact hc.elim
  refine hw.shrinks (fun c hc => (hbeats c hc).2) (fun k => k = lease.val.job_id) ?_ ?_
  · rintro k rfl
    refine ⟨row, howned.job_id ▸ howned.holds.found, ?_⟩
    rw [howned.holds.carries.active]
    exact howned.active
  · intro k hk
    exact (hw.frame fun c hc => ⟨_, (hbeats c hc).1, hk⟩).1

/-- The changes of an owner make no row active. -/
theorem owned_shrinks (howned : ∃ row j, Owned env s.store lease expected row j)
    (h : Writes cfg env (Change.Settles lease.val.job_id) s s') : s.store.Shrinks s'.store := by
  obtain ⟨row, j, howned⟩ := howned
  rw [← howned.job_id] at h
  exact settles_shrinks howned.holds howned.active h

/-- A store has the active rows that it has. -/
theorem Store.Shrinks.refl (s : Store) : s.Shrinks s := fun _ r' hr' hact => ⟨r', hr', hact, rfl⟩

/-- An inserted job, and what settles it, is of the job. -/
theorem insert_settles_local {s₁ : Session} (hw : Write cfg env s (.insert j) s₁)
    (hw' : Writes cfg env (Change.Settles j.val.job_id) s₁ s') :
    Writes cfg env (Change.IsOf j.val.job_id) s s' := by
  have hfirst : Writes cfg env (Change.IsOf j.val.job_id) s s₁ := .single hw rfl
  exact hfirst.trans (hw'.mono fun c hc => hc.isOf)

/-- A call keeps the count of every scope, or adds one active row where there is room. -/
theorem Step.count {x : Step} {t : Store} {r : Reply} {t' : Session} (ht : t.Sound)
    (hrun : x.call.run cfg x.env (.start t) = .ok (r, t')) (hroom : (x.exec cfg t).HasRoom cfg) :
    t.Shrinks t'.store ∨
      ∃ scope, activeCount t scope < cfg.max_pending ∧ t.GrowsIn scope t'.store := by
  have hs : (Session.start t).store.Sound := ht
  unfold Entry.HasRoom at hroom
  rw [Step.exec_step, Step.exec_before] at hroom
  cases hcall : x.call with
  | createOrReplay j expected =>
    rw [hcall] at hrun hroom
    obtain ⟨out, hop, -⟩ := Tx.map_ok.mp hrun
    rcases createOrReplay_writes hs hop with ⟨rfl, -⟩ | ⟨hnone, hw, hold⟩
    · exact .inl (.refl t)
    · have hlocal : Writes cfg x.env (Change.IsOf j.val.job_id) (.start t) t' := .single hw rfl
      have hcont := (insertRow_carries j).continues hold.carries
      cases hact : activeStates.contains j.val.state with
      | false =>
        refine .inl (inactive_shrinks hlocal (fun c hc => hc) hold hcont.1.job_id ?_)
        rw [hcont.2.1]
        exact hact
      | true =>
        have hgrows := grows_of_local hlocal (fun c hc => hc) hold hcont.1.job_id
        rw [hcont.1.scope] at hgrows
        exact .inr ⟨j.scope, hroom (fun ⟨r, hr, hid⟩ => hnone r hr hid) hact, hgrows⟩
  | enqueue j expected =>
    rw [hcall] at hrun
    obtain ⟨out, hop, -⟩ := Tx.map_ok.mp hrun
    rcases enqueue_writes hs hop with
      ⟨row, existing, hold, -, -, -, -, ⟨rfl, -⟩ | ⟨hpend, hw⟩⟩ |
      ⟨-, hcap, s₁, inserted, hw, hold₁, -, -, ⟨row', hold'⟩, hcont, hrest⟩
    · exact .inl (.refl t)
    · exact .inl (settles_shrinks hold (by rw [hpend]; rfl) hw)
    · have hlocal : Writes cfg x.env (Change.IsOf j.val.job_id) (.start t) t' := by
        rcases hrest with ⟨rfl, -⟩ | ⟨-, hw'⟩
        · exact .single hw rfl
        · exact insert_settles_local hw hw'
      have hgrows := grows_of_local hlocal (fun c hc => hc) hold' hcont.job_id
      rw [hcont.scope] at hgrows
      exact .inr ⟨j.scope, hcap, hgrows⟩
  | save j expected =>
    rw [hcall] at hrun hroom
    obtain ⟨out, hop, -⟩ := Tx.map_ok.mp hrun
    exact save_count hs hop hroom
  | schedule j available_at expected =>
    rw [hcall] at hrun hroom
    obtain ⟨out, hop, -⟩ := Tx.map_ok.mp hrun
    obtain ⟨next, hsave, -, hid, hscope⟩ := schedule_saves hop
    refine save_count hs hsave ?_
    rw [hid, hscope]
    exact fun r hr hv hinactive _ => hroom r hr hv hinactive
  | transition j to_state now expected =>
    rw [hcall] at hrun hroom
    obtain ⟨out, hop, -⟩ := Tx.map_ok.mp hrun
    obtain ⟨row, hold, -, hw, row', hout, hcont, hstate⟩ := transition_writes hs hop
    refine inPlace_count hold hw (fun c hc => ⟨hc.isOf, hc.inPlace⟩) hout hcont ?_
    rw [hstate]
    exact hroom
  | recoverPublication id scope now =>
    rw [hcall] at hrun
    obtain ⟨out, hop, -⟩ := Tx.map_ok.mp hrun
    rcases (recoverPublication_writes hs hop).1 with rfl | ⟨row, j, hold, hrunning, hw⟩
    · exact .inl (.refl t)
    · exact .inl (settles_shrinks hold (by rw [hrunning]; rfl) hw)
  | claim worker scope versions limit now =>
    rw [hcall] at hrun
    obtain ⟨out, hop, -⟩ := Tx.map_ok.mp hrun
    exact .inl (claim_shrinks hs hop)
  | heartbeat lease now expected =>
    rw [hcall] at hrun
    obtain ⟨out, hop, -⟩ := Tx.map_ok.mp hrun
    exact .inl (heartbeat_shrinks hs hop)
  | acknowledge lease result now expected deadline =>
    rw [hcall] at hrun
    obtain ⟨out, hop, -⟩ := Tx.map_ok.mp hrun
    obtain ⟨howned, hw, -⟩ := acknowledge_writes hs hop
    exact .inl (owned_shrinks howned hw)
  | fail lease failure now expected =>
    rw [hcall] at hrun
    obtain ⟨out, hop, -⟩ := Tx.map_ok.mp hrun
    obtain ⟨howned, hw, -⟩ := fail_writes hs hop
    exact .inl (owned_shrinks howned hw)
  | cancel id scope now expected =>
    rw [hcall] at hrun
    obtain ⟨out, hop, -⟩ := Tx.map_ok.mp hrun
    obtain ⟨row, j, hold, -, hw, row', hout, hrunning | ⟨hcont, hcancelled⟩⟩ := cancel_writes hs hop
    · exact .inl (settles_shrinks hold (by rw [hrunning]; rfl) hw)
    · exact .inl (inactive_shrinks hw (fun c hc => hc.isOf) hout hcont.job_id
        (by rw [hcancelled]; rfl))
  | cancelLease lease now expected =>
    rw [hcall] at hrun
    obtain ⟨out, hop, -⟩ := Tx.map_ok.mp hrun
    obtain ⟨howned, hw, -⟩ := cancelLease_writes hs hop
    exact .inl (owned_shrinks howned hw)
  | replayDeadLetter id scope new_id new_key now expected max_attempts =>
    rw [hcall] at hrun hroom
    obtain ⟨out, hop, -⟩ := Tx.map_ok.mp hrun
    rcases replayDeadLetter_writes hs hop with
      ⟨rfl, -⟩ | ⟨candidate, s₁, -, -, hclean, hnone, hkey, hw, hw', row', hout, hcont⟩
    · exact .inl (.refl t)
    · have hlocal := insert_settles_local hw hw'
      have hgrows := grows_of_local hlocal (fun c hc => hc) hout hcont.job_id
      rw [hcont.scope] at hgrows
      refine .inr ⟨candidate.scope, hroom _ hclean ?_, hgrows⟩
      rintro ⟨r, hr, hident⟩
      refine hnone r hr ?_
      rw [hident, ← hkey]
      rfl
  | pruneTerminal scope older_than limit =>
    rw [hcall] at hrun
    obtain ⟨out, hop, -⟩ := Tx.map_ok.mp hrun
    have hw : Writes cfg x.env Change.Prunes (.start t) t' := pruneTerminal_writes hop
    exact .inl (prunes_shrinks hw)

end

/-- **The capacity of every scope holds in every run in which the operations that do not count find
room.** -/
theorem run_within_capacity (cfg : Config) (h : List Entry) (s : Store)
    (hrun : Run cfg Store.empty h s) (hroom : ∀ e ∈ h, e.HasRoom cfg) (scope : JobScopeFields) :
    activeCount s scope ≤ cfg.max_pending := by
  refine hrun.invariant (I := fun t => ∀ scope, activeCount t scope ≤ cfg.max_pending)
    Store.sound_empty (fun _ => Nat.zero_le _) hroom ?_ scope
  intro x t ht hx hcount scope
  cases hreply : (x.exec cfg t).reply with
  | error e =>
    rw [(Step.exec_error hreply).1]
    exact hcount scope
  | ok r =>
    obtain ⟨t', hstep, hafter, -⟩ := Step.exec_ok hreply
    rw [hafter]
    have hle := hcount scope
    rcases Step.count ht hstep hx with hshrinks | ⟨grown, hlt, hgrows⟩
    · exact le_trans (hshrinks.count_le scope) hle
    · have hgrown := hgrows.count_le scope
      split_ifs at hgrown with heq
      · rw [heq] at hgrown ⊢
        omega
      · omega

/-! ### A scope with too many jobs -/

/-- The second pending job of the scope. -/
def secondJob : Job :=
  (Job.create (plainRequest "job-2" "key-2") 1000).toOption.get (by decide +kernel)

/-- The first job is created. -/
def firstEntry : Entry :=
  Step.exec smallQueue ⟨plainEnv 1000000000, .createOrReplay plainJob 0⟩ Store.empty

/-- The second job is created in the full scope. -/
def secondEntry : Entry :=
  Step.exec smallQueue ⟨plainEnv 1001000000, .createOrReplay secondJob 0⟩ firstEntry.after

/-- The first job is created where there is room. -/
theorem firstEntry_within_capacity :
    activeCount firstEntry.after plainJob.scope ≤ smallQueue.max_pending ∧
      activeCount firstEntry.after plainJob.scope = 1 := by
  refine ⟨run_within_capacity smallQueue [firstEntry] firstEntry.after
    (Run.nil.step ⟨plainEnv 1000000000, .createOrReplay plainJob 0⟩) ?_ plainJob.scope,
    by decide +kernel⟩
  intro e he
  rw [List.mem_singleton.mp he]
  unfold Entry.HasRoom firstEntry
  rw [Step.exec_step, Step.exec_before]
  intro _ _
  decide +kernel

/-- **`create_or_replay` exceeds the capacity:** two calls with new identities in one scope leave two
pending rows where one is allowed. -/
theorem capacity_exceeded :
    Run smallQueue Store.empty [firstEntry, secondEntry] secondEntry.after ∧
      smallQueue.max_pending = 1 ∧ activeCount secondEntry.after plainJob.scope = 2 :=
  ⟨(Run.nil.step ⟨plainEnv 1000000000, .createOrReplay plainJob 0⟩).step
      ⟨plainEnv 1001000000, .createOrReplay secondJob 0⟩, rfl, by decide +kernel⟩

end RickIntelligence.Postgres
