import RickIntelligence.Postgres.Machine

/-!
# Reading the queue

The operations that only read: `get`, `get_for_workspace`, `get_by_idempotency`, `list_for_workspace` and
`list_dead_letters`. In every store that a run reaches they return, and what they return is what the store holds
(`reads_exact`). A job that a call returned is what the next reader finds (`reply_read_back`), and a job that is
read twice in one version is the same job (`version_fixes_job`).
-/

namespace RickIntelligence.Postgres

open Lib Jobs

/-! ## The operations -/

/-- `_select_one` and `_decode`: the job of the row that matches. -/
def readOne (p : Row → Bool) : QTx (Option Job) := do
  let s : Session ← get
  match s.store.jobs.rows.find? p with
  | none => return none
  | some row => some <$> decodeStored row

/-- `get`. -/
def getJob (job_id : String) (scope : JobScopeFields) : QTx (Option Job) := do
  let scope ← contractStep scope.postInit
  readOne fun r => r.job_id == job_id && r.inScope scope

/-- `get_for_workspace`. -/
def getForWorkspace (job_id tenant_id workspace_id : String) : QTx (Option Job) := do
  Tx.raiseIf (strip job_id == "") (.invalidInput "job_id is invalid")
  readOne fun r => r.job_id == job_id && r.tenant_id == tenant_id && r.workspace_id == workspace_id

/-- `get_by_idempotency`. -/
def getByIdempotency (scope : JobScopeFields) (idempotency_key : String) : QTx (Option Job) := do
  let scope ← contractStep scope.postInit
  readOne fun r => r.inScope scope && r.idempotency_key == idempotency_key

/-- `_select_many` and `_decode`: the jobs of the rows that match, up to a limit. -/
def readMany (p : Row → Bool) (limit : ℕ) : QTx (List Job) := do
  Tx.raiseIf (!(decide (1 ≤ limit) && decide (limit ≤ 1000))) (.invalidInput "limit is out of range")
  let rows ← selectMany p rowLE limit
  decodeEach rows

/-- `list_for_workspace`. -/
def listForWorkspace (tenant_id workspace_id : String) (limit : ℕ) : QTx (List Job) :=
  readMany (fun r => r.tenant_id == tenant_id && r.workspace_id == workspace_id) limit

/-- `list_dead_letters`. -/
def listDeadLetters (scope : JobScope) (limit : ℕ) : QTx (List Job) :=
  readMany (fun r => r.inScope scope.val && r.contract_state == some .deadLetter) limit

/-! ## What they return -/

/-- The read returns the one stored job that matches, and nothing if there is none. -/
def Answers (s : Store) (read : QTx (Option Job)) (q : Job → Prop) : Prop :=
  ∃ out, read (.start s) = .ok (out, .start s) ∧ ∀ j, j ∈ out ↔ (∃ row, s.Holds row j) ∧ q j

/-- The jobs are those of the first rows that match, in the order of their age. -/
structure Listing (s : Store) (p : Row → Bool) (limit : ℕ) (jobs : List Job) (rows : List Row) : Prop where
  held : List.Forall₂ s.Holds rows jobs
  matching : ∀ r ∈ rows, r ∈ s.jobs.rows ∧ p r = true
  distinct : (rows.map Row.job_id).Nodup
  ordered : rows.Pairwise rowLE
  complete : ∀ r ∈ s.jobs.rows, p r = true → r ∈ rows ∨ rows.length = limit ∧ ∀ r' ∈ rows, rowLE r' r

/-- The read lists the rows that match. -/
def Lists (s : Store) (read : QTx (List Job)) (p : Row → Bool) (limit : ℕ) : Prop :=
  ∃ jobs rows, read (.start s) = .ok (jobs, .start s) ∧ Listing s p limit jobs rows

section

variable {s : Store} {row : Row} {scope clean : JobScopeFields} {id : String} {j : Job} {cfg : Config} {env : Env}
  {u u' : Session}

/-- A row of a sound store is read as the job that it holds. -/
theorem decodeStored_returns (hs : s.Sound) (hrow : row ∈ s.jobs.rows) :
    ∃ j, s.Holds row j ∧ decodeStored row (.start s) = .ok (j, .start s) := by
  obtain ⟨j, hold⟩ := hs.holds _ row (Table.find?_of_mem hrow)
  have hdec := hold.decoded
  rw [← hold.carries.job_id] at hdec
  exact ⟨j, hold, decodeStored_ok.mpr ⟨hdec, rfl⟩⟩

/-- A read of one row, for which no two rows match, returns the stored job that matches. -/
theorem readOne_answers (hs : s.Sound) {p : Row → Bool} {q : Job → Prop}
    (hp : ∀ r ∈ s.jobs.rows, ∀ r' ∈ s.jobs.rows, p r = true → p r' = true → r = r')
    (hq : ∀ row j, row.Carries j → (p row = true ↔ q j)) : Answers s (readOne p) q := by
  cases hfind : s.jobs.rows.find? p with
  | none =>
    have hread : readOne p (.start s) = .ok (none, .start s) := by
      refine Tx.bind_ok.mpr ⟨.start s, .start s, rfl, ?_⟩
      rw [show (Session.start s).store.jobs.rows.find? p = none from hfind]
      rfl
    refine ⟨none, hread, fun j => ⟨fun h => by simp at h, ?_⟩⟩
    rintro ⟨⟨row, hold⟩, hj⟩
    exact absurd ((hq row j hold.carries).mpr hj)
      (List.find?_eq_none.mp hfind row (Table.find?_eq_some.mp hold.found).1)
  | some row =>
    have hrow := List.mem_of_find?_eq_some hfind
    have hmatch := List.find?_some hfind
    obtain ⟨j, hold, hdec⟩ := decodeStored_returns hs hrow
    have hread : readOne p (.start s) = .ok (some j, .start s) := by
      refine Tx.bind_ok.mpr ⟨.start s, .start s, rfl, ?_⟩
      rw [show (Session.start s).store.jobs.rows.find? p = some row from hfind]
      exact Tx.map_ok.mpr ⟨j, hdec, rfl⟩
    refine ⟨some j, hread, fun j' => ⟨?_, ?_⟩⟩
    · rintro ⟨⟩
      exact ⟨⟨row, hold⟩, (hq row j hold.carries).mp hmatch⟩
    · rintro ⟨⟨row', hold'⟩, hj'⟩
      have hfound := Table.find?_eq_some.mp hold'.found
      obtain rfl := hp row hrow row' hfound.1 hmatch ((hq row' j' hold'.carries).mpr hj')
      exact congrArg some (hold.unique hold' (hold.carries.job_id.symm.trans hfound.2)).2

/-- `get` finds the job of the id in the scope. -/
theorem getJob_answers (hs : s.Sound) (id : String) (hscope : scope.postInit = .ok clean) :
    Answers s (getJob id scope) fun j => j.val.job_id = id ∧ j.scope = clean := by
  obtain ⟨out, hread, hout⟩ := readOne_answers (p := fun r => r.job_id == id && r.inScope clean)
    (q := fun j => j.val.job_id = id ∧ j.scope = clean) hs (by
      intro r hr r' hr' h h'
      simp only [Bool.and_eq_true, beq_iff_eq] at h h'
      exact Table.eq_of_pk hr hr' (h.1.trans h'.1.symm)) (by
      intro row j hc
      rw [Bool.and_eq_true, beq_iff_eq, hc.job_id, hc.inScope_iff])
  exact ⟨out, Tx.bind_ok.mpr ⟨clean, _, contractStep_ok.mpr ⟨hscope, rfl⟩, hread⟩, hout⟩

/-- `get_for_workspace` finds the job of the id in the workspace. -/
theorem getForWorkspace_answers (hs : s.Sound) (hid : strip id ≠ "") (tenant workspace : String) :
    Answers s (getForWorkspace id tenant workspace) fun j =>
      j.val.job_id = id ∧ j.val.tenant_id = tenant ∧ j.val.workspace_id = workspace := by
  obtain ⟨out, hread, hout⟩ := readOne_answers
    (p := fun r => r.job_id == id && r.tenant_id == tenant && r.workspace_id == workspace)
    (q := fun j => j.val.job_id = id ∧ j.val.tenant_id = tenant ∧ j.val.workspace_id = workspace) hs (by
      intro r hr r' hr' h h'
      simp only [Bool.and_eq_true, beq_iff_eq] at h h'
      exact Table.eq_of_pk hr hr' (h.1.1.trans h'.1.1.symm)) (by
      intro row j hc
      simp only [Bool.and_eq_true, beq_iff_eq, hc.job_id, hc.tenant_id, hc.workspace_id, and_assoc])
  exact ⟨out, Tx.bind_ok.mpr ⟨(), _, Tx.raiseIf_ok.mpr ⟨by simpa using hid, rfl⟩, hread⟩, hout⟩

/-- `get_by_idempotency` finds the job of the key in the scope. -/
theorem getByIdempotency_answers (hs : s.Sound) (key : String) (hscope : scope.postInit = .ok clean) :
    Answers s (getByIdempotency scope key) fun j => j.scope = clean ∧ j.val.idempotency_key = key := by
  obtain ⟨out, hread, hout⟩ := readOne_answers (p := fun r => r.inScope clean && r.idempotency_key == key)
    (q := fun j => j.scope = clean ∧ j.val.idempotency_key = key) hs (by
      intro r hr r' hr' h h'
      simp only [Bool.and_eq_true, beq_iff_eq, Row.inScope_iff] at h h'
      refine Table.eq_of_uk hr hr' ?_
      unfold Row.identity
      rw [h.1.1, h.1.2.1, h.1.2.2, h.2, h'.1.1, h'.1.2.1, h'.1.2.2, h'.2]) (by
      intro row j hc
      rw [Bool.and_eq_true, beq_iff_eq, hc.idempotency_key, hc.inScope_iff])
  exact ⟨out, Tx.bind_ok.mpr ⟨clean, _, contractStep_ok.mpr ⟨hscope, rfl⟩, hread⟩, hout⟩

/-- Rows are in the order that they are listed in, one way or the other. -/
instance : Std.Total rowLE where
  total a b := by
    unfold rowLE
    rcases lt_trichotomy a.created_at b.created_at with h | h | h
    · exact .inl (.inl h)
    · exact (le_total a.job_id b.job_id).imp (fun hid => .inr ⟨h, hid⟩) fun hid => .inr ⟨h.symm, hid⟩
    · exact .inr (.inl h)

instance : IsTrans Row rowLE where
  trans a b c := by
    rintro (hab | ⟨hab, hid⟩) (hbc | ⟨hbc, hid'⟩)
    · exact .inl (hab.trans hbc)
    · exact .inl (hbc ▸ hab)
    · exact .inl (hab ▸ hbc)
    · exact .inr ⟨hab.trans hbc, hid.trans hid'⟩

/-- A listing returns what is stored. -/
theorem readMany_lists (hs : s.Sound) (p : Row → Bool) {limit : ℕ} (hmin : 1 ≤ limit)
    (hmax : limit ≤ 1000) : Lists s (readMany p limit) p limit := by
  have hdecodes : ∀ rows : List Row, (∀ r ∈ rows, r ∈ s.jobs.rows) →
      ∃ jobs, decodeEach rows (.start s) = .ok (jobs, .start s) ∧ List.Forall₂ s.Holds rows jobs := by
    intro rows
    induction rows with
    | nil => exact fun _ => ⟨[], rfl, .nil⟩
    | cons row rows ih =>
      intro hrows
      obtain ⟨j, hold, hdec⟩ := decodeStored_returns hs (hrows row List.mem_cons_self)
      obtain ⟨jobs, hrest, hheld⟩ := ih fun r hr => hrows r (List.mem_cons_of_mem row hr)
      refine ⟨j :: jobs, ?_, .cons hold hheld⟩
      simp only [decodeEach, Tx.bind_ok, Tx.pure_ok]
      exact ⟨j, _, hdec, jobs, _, hrest, rfl, rfl⟩
  have hselect : selectMany p rowLE limit (.start s) =
      .ok (((s.jobs.rows.filter p).insertionSort rowLE).take limit, .start s) := selectMany_ok.mpr ⟨rfl, rfl⟩
  obtain ⟨-, hrows, hdistinct⟩ := selectMany_rows hselect
  have hsorted := List.pairwise_insertionSort rowLE (s.jobs.rows.filter p)
  have hmem := fun r => (List.perm_insertionSort rowLE (s.jobs.rows.filter p)).mem_iff (a := r)
  generalize (s.jobs.rows.filter p).insertionSort rowLE = sorted at *
  have hstored : ∀ r ∈ sorted.take limit, r ∈ s.jobs.rows := fun r hr =>
    (Table.find?_eq_some.mp (hrows r hr).1).1
  obtain ⟨jobs, hdecode, hheld⟩ := hdecodes _ hstored
  refine ⟨jobs, sorted.take limit, ?_, hheld, fun r hr => ⟨hstored r hr, (hrows r hr).2⟩, hdistinct,
    hsorted.sublist (List.take_sublist _ _), ?_⟩
  · simp only [readMany, Tx.bind_ok, Tx.raiseIf_ok]
    exact ⟨(), _, ⟨by simp [hmin, hmax], rfl⟩, _, _, hselect, hdecode⟩
  · intro r hr hmatch
    have hin := (hmem r).mpr (List.mem_filter.mpr ⟨hr, hmatch⟩)
    rw [← List.take_append_drop limit sorted] at hin hsorted
    rcases List.mem_append.mp hin with htake | hdrop
    · exact .inl htake
    · have hlong : limit < sorted.length := by
        by_contra hshort
        rw [List.drop_eq_nil_of_le (by omega)] at hdrop
        cases hdrop
      exact .inr ⟨List.length_take_of_le hlong.le, fun r' hr' => (List.pairwise_append.mp hsorted).2.2 r' hr' r hdrop⟩

/-- **Reads over every reachable store return exactly what is stored:** none of them raises on valid arguments, a
single read finds the one job that matches, in the scope of the caller only, and a listing has the oldest rows that
match, each once and in order. -/
theorem reads_exact (cfg : Config) (h : List Entry) (hrun : Run cfg Store.empty h s) :
    (∀ id (scope clean : JobScopeFields), scope.postInit = .ok clean →
      Answers s (getJob id scope) fun j => j.val.job_id = id ∧ j.scope = clean) ∧
    (∀ id tenant workspace, strip id ≠ "" → Answers s (getForWorkspace id tenant workspace) fun j =>
      j.val.job_id = id ∧ j.val.tenant_id = tenant ∧ j.val.workspace_id = workspace) ∧
    (∀ key (scope clean : JobScopeFields), scope.postInit = .ok clean →
      Answers s (getByIdempotency scope key) fun j => j.scope = clean ∧ j.val.idempotency_key = key) ∧
    ∀ limit, 1 ≤ limit → limit ≤ 1000 →
      (∀ tenant workspace, Lists s (listForWorkspace tenant workspace limit)
        (fun r => r.tenant_id == tenant && r.workspace_id == workspace) limit) ∧
      ∀ scope : JobScope, Lists s (listDeadLetters scope limit)
        (fun r => r.inScope scope.val && r.contract_state == some .deadLetter) limit := by
  have hs := hrun.sound Store.sound_empty
  exact ⟨fun id _ _ hscope => getJob_answers hs id hscope,
    fun _ tenant workspace hid => getForWorkspace_answers hs hid tenant workspace,
    fun key _ _ hscope => getByIdempotency_answers hs key hscope,
    fun _ hmin hmax => ⟨fun _ _ => readMany_lists hs _ hmin hmax, fun _ => readMany_lists hs _ hmin hmax⟩⟩

/-- The listing of the workspace in which a job was enqueued. -/
theorem enqueuedEntry_reads : Lists enqueuedEntry.after (listForWorkspace "tenant-1" "workspace-1" 10)
    (fun r => r.tenant_id == "tenant-1" && r.workspace_id == "workspace-1") 10 :=
  ((reads_exact smallQueue [enqueuedEntry] (Run.nil.step ⟨plainEnv 1000000000, .enqueue plainJob 0⟩)).2.2.2 10
    (by decide) (by decide)).1 "tenant-1" "workspace-1"

/-! ## Versions -/

/-- A job as it was, or in a later version. -/
def Later (j j' : Job) : Prop := j'.val.job_id = j.val.job_id ∧ (j' = j ∨ j.val.version < j'.val.version)

/-- What is later than a later version is later. -/
theorem Later.trans {j' j'' : Job} (h : Later j j') (h' : Later j' j'') : Later j j'' := by
  obtain ⟨hid, rfl | hversion⟩ := h
  · exact h'
  · obtain ⟨hid', rfl | hversion'⟩ := h'
    · exact ⟨hid, .inr hversion⟩
    · exact ⟨hid'.trans hid, .inr (hversion.trans hversion')⟩

/-- The store holds the job, or a later version of it. -/
def Store.HoldsLater (s : Store) (j : Job) : Prop := ∃ row j', s.Holds row j' ∧ Later j j'

/-- What a store holds is not later than itself. -/
theorem Store.Holds.later (h : s.Holds row j) : s.HoldsLater j :=
  ⟨row, j, h, rfl, .inl rfl⟩

/-- A change keeps a stored job, writes its next version, or deletes its row. -/
theorem Write.later {c : Change} (h : Write cfg env u c u') (hold : u.store.Holds row j)
    (hdelete : c ≠ .delete j.val.job_id) : u'.store.HoldsLater j := by
  -- A change of another job leaves the row and the attempts.
  have hother : ∀ id, c.IsOf id → j.val.job_id ≠ id → u'.store.HoldsLater j := fun id hc hne =>
    (hold.congr (h.frame hc hne).1 (h.frame hc hne).2).later
  cases h with
  | @insert i out jobs rows hi =>
    refine hother i.val.job_id rfl fun heq => ?_
    have habsent := hi.absent
    rw [← heq, hold.found] at habsent
    cases habsent
  | @persist before i out a old jobs rows _ hp =>
    by_cases heq : j.val.job_id = i.val.job_id
    · obtain rfl : old = row := Option.some.inj (hp.found.symm.trans (heq ▸ hold.found))
      have hcarried := hp.carries.continues hp.holds.carries
      have hversion := hp.matched
      simp only [persistWhere, Bool.and_eq_true, beq_iff_eq] at hversion
      refine ⟨_, out, hp.holds, hcarried.1.job_id.trans heq.symm, .inr ?_⟩
      rw [hcarried.2.2, hp.version, ← hversion.1.1.1.2, hold.carries.version]
      exact Nat.lt_succ_self _
    · exact hother i.val.job_id rfl heq
  | @touch id p f old jobs hu hf =>
    by_cases heq : j.val.job_id = id
    · subst heq
      obtain rfl : old = row := Option.some.inj (hu.found.symm.trans hold.found)
      have hfound := hu.find? (hf.keys old).1 j.val.job_id
      rw [if_pos rfl] at hfound
      exact Store.Holds.later ⟨hfound, hold.carries.touched hf, (decode_touched hf old _).trans hold.decoded⟩
    · exact hother id rfl heq
  | log | draw => exact Store.Holds.later (hold.congr rfl rfl)
  | @delete id old hd =>
    refine hother id rfl fun heq => hdelete ?_
    rw [heq]

/-- While its row is there, a stored job is kept by a step, or the step writes a later version of it. -/
theorem Step.later (cfg : Config) (x : Step) (hs : s.Sound) (hold : s.HoldsLater j)
    (hkept : ((x.exec cfg s).after.jobs.find? j.val.job_id).isSome = true) : (x.exec cfg s).after.HoldsLater j := by
  obtain ⟨s', hw, hafter, -⟩ := x.writes cfg hs
  rw [hafter] at hkept ⊢
  -- A row that the step removed is not written again by it.
  refine (hw.invariant (I := fun u => x.call.prunes = true ∧ u.store.jobs.find? j.val.job_id = none ∨
    u.store.HoldsLater j) ?_ (.inr hold)).resolve_left fun hgone => by simp [hgone.2] at hkept
  rintro u u' c hc hwrite (⟨hprunes, hnone⟩ | ⟨row', j', hold', hlater⟩)
  · have hcp : c.Prunes := by
      cases hcall : x.call with
      | pruneTerminal _ _ _ =>
        rw [hcall] at hc
        exact hc
      | _ =>
        rw [hcall] at hprunes
        cases hprunes
    refine .inl ⟨hprunes, Option.eq_none_iff_forall_ne_some.mpr fun r hr => ?_⟩
    rcases hwrite.found hr with hsame | ⟨_, rfl, -⟩ | ⟨_, _, _, _, rfl, -⟩ | ⟨_, _, rfl, -⟩
    · rw [hnone] at hsame
      cases hsame
    · exact hcp
    · exact hcp
    · exact hcp
  · by_cases hdelete : c = .delete j'.val.job_id
    · refine .inl ⟨by_contra fun hcall => hc.ne_delete (Bool.eq_false_iff.mpr hcall) _ hdelete, ?_⟩
      subst hdelete
      cases hwrite with
      | delete _ => exact (Table.find?_erase _ _).trans (if_pos hlater.1.symm)
    · obtain ⟨row'', j'', hold'', hlater'⟩ := hwrite.later hold' hdelete
      exact .inr ⟨row'', j'', hold'', hlater.trans hlater'⟩

/-- What `get` returns is stored. -/
theorem getJob_holds (hs : s.Sound) (hread : getJob id scope (.start s) = .ok (some j, .start s)) :
    (∃ row, s.Holds row j) ∧ j.val.job_id = id := by
  obtain ⟨clean, _, hclean, -⟩ := Tx.bind_ok.mp hread
  obtain ⟨out, hout, hiff⟩ := getJob_answers hs id (contractStep_ok.mp hclean).1
  rw [hread, Except.ok.injEq, Prod.mk.injEq] at hout
  obtain ⟨hrow, hid, -⟩ := (hiff j).mp hout.1.symm
  exact ⟨hrow, hid⟩

/-- **A version of a job is one job:** of two reads of a job in a run, whose row was there in between, the later one
has the greater version, or it reads the same job. An update that checks the version overwrites nothing that its
caller has not read. -/
theorem version_fixes_job (cfg : Config) (h h' : List Entry) (t : Store) (hrun : Run cfg Store.empty h s)
    (hrun' : Run cfg s h' t) (id : String) (hkept : ∀ e ∈ h', (e.after.jobs.find? id).isSome = true)
    (scope scope' : JobScopeFields) (j j' : Job) (hread : getJob id scope (.start s) = .ok (some j, .start s))
    (hread' : getJob id scope' (.start t) = .ok (some j', .start t)) :
    j.val.version < j'.val.version ∨ j' = j := by
  have hs := hrun.sound Store.sound_empty
  obtain ⟨⟨row, hold⟩, rfl⟩ := getJob_holds hs hread
  obtain ⟨⟨row', hold'⟩, hid'⟩ := getJob_holds (hrun'.sound hs) hread'
  obtain ⟨row₁, j₁, hold₁, hid₁, hlater⟩ := hrun'.invariant (I := fun u => u.HoldsLater j) hs hold.later hkept
    fun x u hu hstays hlater => x.later cfg hu hlater hstays
  obtain rfl := (hold'.unique hold₁ (hid'.trans hid₁.symm)).2
  exact hlater.symm

/-- A job that is found is read. -/
theorem getJob_found (hs : s.Sound)
    (hfound : (getJob "job-1" plainJob.scope (.start s)).toOption.any (fun r => r.1.isSome) = true) :
    ∃ j, getJob "job-1" plainJob.scope (.start s) = .ok (some j, .start s) := by
  obtain ⟨out, hread, -⟩ :=
    getJob_answers hs "job-1" (show plainJob.scope.postInit = .ok plainJob.scope by decide +kernel)
  cases out with
  | none => simp [hread, Except.toOption] at hfound
  | some j => exact ⟨j, hread⟩

/-- The enqueued job is cancelled. -/
def cancelStep : Step := ⟨plainEnv 1001000000, .cancel "job-1" plainJob.scope 1001 2⟩

/-- The job is read before and after its cancellation. -/
theorem cancelStep_versions : ∃ j j',
    getJob "job-1" plainJob.scope (.start enqueuedEntry.after) = .ok (some j, .start enqueuedEntry.after) ∧
      getJob "job-1" plainJob.scope (.start (cancelStep.exec smallQueue enqueuedEntry.after).after) =
        .ok (some j', .start (cancelStep.exec smallQueue enqueuedEntry.after).after) ∧
      (j.val.version < j'.val.version ∨ j' = j) := by
  have hrun : Run smallQueue Store.empty [enqueuedEntry] enqueuedEntry.after :=
    Run.nil.step ⟨plainEnv 1000000000, .enqueue plainJob 0⟩
  have hs := hrun.sound Store.sound_empty
  obtain ⟨j, hread⟩ := getJob_found hs (by decide +kernel)
  obtain ⟨j', hread'⟩ := getJob_found (cancelStep.sound smallQueue hs) (by decide +kernel)
  refine ⟨j, j', hread, hread', version_fixes_job smallQueue _ _ _ hrun (Run.nil.step cancelStep) "job-1" ?_ _ _ j j'
    hread hread'⟩
  intro e he
  rw [List.mem_singleton.mp he]
  decide +kernel

/-! ## Replies -/

/-- The jobs that a call returned. -/
def Reply.jobs : Reply → List Job
  | job j => [j]
  | found j => j.toList
  | claimed l => l.map Prod.fst
  | lease _ | removed _ => []

/-- A call returns its jobs as the store has them afterwards. -/
theorem Call.stored {call : Call} {r : Reply} (hs : u.store.Sound) (h : call.run cfg env u = .ok (r, u')) :
    ∀ j ∈ r.jobs, ∃ row, u'.store.Holds row j := by
  cases call <;> obtain ⟨out, hop, rfl⟩ := Tx.map_ok.mp h
  case heartbeat | pruneTerminal => simp [Reply.jobs]
  case recoverPublication => simpa [Reply.jobs] using (recoverPublication_writes hs hop).2
  case claim =>
    obtain ⟨_, _, _, -, -, -, -, -, hleased⟩ := claim_writes hs hop
    intro j hj
    obtain ⟨claimed, hclaimed, rfl⟩ := List.mem_map.mp hj
    obtain ⟨i, hi, rfl⟩ := List.getElem_of_mem hclaimed
    exact (hleased.get (hleased.length_eq.symm ▸ hi) hi).row.imp fun _ hrow => hrow.1
  all_goals refine List.forall_mem_singleton.mpr ?_
  case createOrReplay =>
    rcases @createOrReplay_writes cfg env u u' _ _ _ hs hop with ⟨rfl, row, hold, -⟩ | ⟨-, -, hold⟩
    · exact ⟨row, hold⟩
    · exact ⟨_, hold⟩
  case enqueue =>
    rcases enqueue_writes hs hop with ⟨_, _, -, -, -, hold, -⟩ | ⟨-, -, _, _, -, -, -, -, hold, -⟩
    · exact hold
    · exact hold
  case save =>
    obtain ⟨_, _, _, -, -, -, -, row, hold, -⟩ := save_writes hs hop
    exact ⟨row, hold⟩
  case schedule =>
    obtain ⟨_, hsave, -⟩ := schedule_saves hop
    obtain ⟨_, _, _, -, -, -, -, row, hold, -⟩ := save_writes hs hsave
    exact ⟨row, hold⟩
  case transition =>
    obtain ⟨_, -, -, -, row, hold, -⟩ := transition_writes hs hop
    exact ⟨row, hold⟩
  case acknowledge => exact (acknowledge_writes hs hop).2.2
  case fail => exact (fail_writes hs hop).2.2
  case cancelLease => exact (cancelLease_writes hs hop).2.2
  case cancel =>
    obtain ⟨_, _, -, -, -, row, hold, -⟩ := cancel_writes hs hop
    exact ⟨row, hold⟩
  case replayDeadLetter =>
    rcases replayDeadLetter_writes hs hop with ⟨rfl, row, hold⟩ | ⟨_, _, -, -, -, -, -, -, -, row, hold, -⟩
    · exact ⟨row, hold⟩
    · exact ⟨row, hold⟩

/-- **What a call returned is what is read next:** after every step of a run, `get` returns each job of the reply. -/
theorem reply_read_back (cfg : Config) (h : List Entry) (hrun : Run cfg Store.empty h s) (x : Step) (r : Reply)
    (hreply : (x.exec cfg s).reply = .ok r) (j : Job) (hj : j ∈ r.jobs) (scope : JobScopeFields)
    (hscope : scope.postInit = .ok j.scope) :
    getJob j.val.job_id scope (.start (x.exec cfg s).after) = .ok (some j, .start (x.exec cfg s).after) := by
  have hs := hrun.sound Store.sound_empty
  obtain ⟨s', hcall, hafter, -⟩ := Step.exec_ok hreply
  obtain ⟨out, hread, hout⟩ := getJob_answers (x.sound cfg hs) j.val.job_id hscope
  obtain rfl : out = some j := (hout j).mpr ⟨hafter ▸ Call.stored hs hcall j hj, rfl, rfl⟩
  exact hread

/-- The cancelled job is what is read next. -/
theorem cancelStep_read_back : ∃ j, j.val.job_id = "job-1" ∧
    getJob j.val.job_id plainJob.scope (.start (cancelStep.exec smallQueue enqueuedEntry.after).after) =
      .ok (some j, .start (cancelStep.exec smallQueue enqueuedEntry.after).after) := by
  have hrun : Run smallQueue Store.empty [enqueuedEntry] enqueuedEntry.after :=
    Run.nil.step ⟨plainEnv 1000000000, .enqueue plainJob 0⟩
  have hjobs : (cancelStep.exec smallQueue enqueuedEntry.after).reply.toOption.map (fun r => r.jobs.map fun j =>
      (j.val.job_id, j.scope)) = some [("job-1", plainJob.scope)] := by decide +kernel
  have hscope : plainJob.scope.postInit = .ok plainJob.scope := by decide +kernel
  cases hreply : (cancelStep.exec smallQueue enqueuedEntry.after).reply with
  | error e => simp [hreply, Except.toOption] at hjobs
  | ok r =>
    rw [hreply] at hjobs
    have hmem := List.mem_singleton_self ("job-1", plainJob.scope)
    rw [← (Option.some.inj hjobs : r.jobs.map _ = _)] at hmem
    obtain ⟨j, hj, heq⟩ := List.mem_map.mp hmem
    obtain ⟨hid, heq⟩ := Prod.mk.inj heq
    have hclean : plainJob.scope.postInit = .ok j.scope := by
      rw [heq]
      exact hscope
    exact ⟨j, hid, reply_read_back smallQueue _ hrun cancelStep r hreply j hj _ hclean⟩

end

end RickIntelligence.Postgres
