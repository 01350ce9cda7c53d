import RickIntelligence.Postgres.Statements
import RickIntelligence.Lib.Run

/-!
# The changes that a transaction makes

A row of the store carries a job (`Row.Carries`) and is read back as it (`Store.Holds`); a store all
of whose rows are so is sound. `Write` is one change of the tables by a statement, with what the
statement was for, and `Writes` a sequence of them. Every operation is shown to be such a sequence
once, in `Postgres/Operations.lean`, and what holds of whole runs is proved from the changes.
-/

namespace RickIntelligence.Postgres

open Lib Jobs

/-! ## The job of a row -/

/-- The columns of a row that hold no time are those of a job. -/
structure Row.Carries (r : Row) (j : Job) : Prop where
  job_id : r.job_id = j.val.job_id
  tenant_id : r.tenant_id = j.val.tenant_id
  workspace_id : r.workspace_id = j.val.workspace_id
  collection_id : r.collection_id = j.val.collection_id
  idempotency_key : r.idempotency_key = j.val.idempotency_key
  operation : r.operation = j.val.operation
  payload : r.payload = .ofMapping j.val.payload
  state : r.contract_state = some j.val.state
  max_attempts : r.max_attempts = j.val.max_attempts
  attempts : r.attempts = j.attemptCount
  version : r.version = j.val.version

/-- A row is in the scope of a job exactly when its scope columns are those of the job. -/
theorem Row.inScope_iff {r : Row} {scope : JobScopeFields} :
    r.inScope scope = true ↔ r.tenant_id = scope.tenant_id ∧ r.workspace_id = scope.workspace_id ∧
      r.collection_id = scope.collection_id := by
  simp [Row.inScope, and_assoc]

namespace Row.Carries

variable {r : Row} {j : Job}

/-- The identity of a row is that of its job. -/
theorem identity (h : r.Carries j) : r.identity = j.idempotencyIdentity := by
  unfold Row.identity Job.idempotencyIdentity
  rw [h.tenant_id, h.workspace_id, h.collection_id, h.idempotency_key]

/-- A row is in a scope exactly when its job is. -/
theorem inScope_iff (h : r.Carries j) (scope : JobScopeFields) :
    r.inScope scope = true ↔ j.scope = scope := by
  rw [Row.inScope_iff, h.tenant_id, h.workspace_id, h.collection_id]
  unfold Job.scope
  constructor
  · rintro ⟨h1, h2, h3⟩
    rw [h1, h2, h3]
  · rintro rfl
    exact ⟨rfl, rfl, rfl⟩

end Row.Carries

/-- An inserted row carries its job. -/
theorem insertRow_carries (j : Job) : (insertRow j).Carries j := by
  constructor <;> rfl

/-- A persisted row carries its job, if it was a row of the job's scope under its id. -/
theorem persistRow_carries {cfg : Config} {env : Env} {j : Job} {a : PersistArgs} {r : Row}
    (hid : r.job_id = j.val.job_id) (hscope : r.inScope j.scope = true) :
    (persistRow cfg env j a r).Carries j := by
  obtain ⟨ht, hw, hc⟩ := Row.inScope_iff.mp hscope
  unfold persistRow LeaseArg.assign
  split <;> exact ⟨hid, ht, hw, hc, rfl, rfl, rfl, rfl, rfl, rfl, rfl⟩

/-- A row that carries a job is read as its own columns. -/
theorem decode_carried {r : Row} {j out : Job} (hr : r.Carries j) {history : List AttemptRow} :
    decode r history = .ok out ↔ ∃ attempts result failure,
      Reads r j.val.state history j.val.payload attempts result failure ∧
        out.val = rowFields r j.val.state j.val.payload attempts result failure := by
  -- The text columns are those of a job, so the constructor has nothing to normalise.
  have hclean : ∀ attempts result failure,
      (rowFields r j.val.state j.val.payload attempts result failure).Clean := by
    intro attempts result failure
    have h := j.clean
    refine ⟨?_, ?_, ?_, ?_, ?_, ?_, h.payload⟩
    · simpa only [rowFields, hr.job_id] using h.job_id
    · simpa only [rowFields, hr.tenant_id] using h.tenant_id
    · simpa only [rowFields, hr.workspace_id] using h.workspace_id
    · simpa only [rowFields, hr.collection_id] using h.collection_id
    · simpa only [rowFields, hr.operation, operation_read] using h.operation
    · simpa only [rowFields, hr.idempotency_key] using h.idempotency_key
  rw [decode_ok hr.state]
  constructor
  · rintro ⟨payload, attempts, result, failure, h, hout⟩
    obtain ⟨ms, hms, hpayload⟩ := h.payload_eq
    obtain ⟨ms', hms', hpayload'⟩ := payload_read j.val.payload
    rw [hr.payload, hms'] at hms
    cases hms
    rw [hpayload'] at hpayload
    cases hpayload
    exact ⟨attempts, result, failure, h,
      ((JobFields.postInit_clean (hclean _ _ _)).mp hout).1⟩
  · rintro ⟨attempts, result, failure, h, hout⟩
    refine ⟨_, attempts, result, failure, h, ?_⟩
    rw [JobFields.postInit_clean (hclean _ _ _)]
    exact ⟨hout, hout ▸ out.consistent⟩

/-- A row that carries a job carries what is read from it. -/
theorem Row.Carries.decoded {r : Row} {j out : Job} (hr : r.Carries j) {history : List AttemptRow}
    (h : decode r history = .ok out) : r.Carries out := by
  obtain ⟨attempts, result, failure, hreads, hout⟩ := (decode_carried hr).mp h
  constructor
  · rw [hout]; rfl
  · rw [hout]; rfl
  · rw [hout]; rfl
  · rw [hout]; rfl
  · rw [hout]; rfl
  · rw [hout]
    simp [rowFields, hr.operation, operation_read]
  · rw [hout]
    exact hr.payload
  · rw [hout]
    exact hr.state
  · rw [hout]; rfl
  · rw [Job.attemptCount, hout]
    exact hreads.count
  · rw [hout]
    simp [rowFields, hr.version, version_read]

/-! ## Sound stores -/

/-- A store holds a job in a row: the row is found, carries the job, and is read as it. -/
structure Store.Holds (s : Store) (r : Row) (j : Job) : Prop where
  found : s.jobs.find? j.val.job_id = some r
  carries : r.Carries j
  decoded : decode r (s.attempts j.val.job_id) = .ok j

/-- Every row of a sound store holds a job, and there are no attempts without a row. -/
structure Store.Sound (s : Store) : Prop where
  holds : ∀ id r, s.jobs.find? id = some r → ∃ j, s.Holds r j
  orphans : ∀ id, s.jobs.find? id = none → s.attempts id = []

/-- The empty store is sound. -/
theorem Store.sound_empty : Store.empty.Sound :=
  ⟨fun id r h => by simp [Store.empty, Table.empty, Table.find?] at h, fun _ _ => rfl⟩

namespace Store.Holds

variable {s : Store} {r : Row} {j : Job}

/-- A found row that is read as a job holds it. -/
theorem of_decoded (hs : s.Sound) {id : String} (hfound : s.jobs.find? id = some r)
    (hdec : decode r (s.attempts r.job_id) = .ok j) : s.Holds r j := by
  obtain ⟨j', h⟩ := hs.holds id r hfound
  have hj := h.decoded
  rw [← h.carries.job_id, hdec] at hj
  cases hj
  exact h

/-- Two jobs of one row are equal. -/
theorem unique {r' : Row} {j' : Job} (h : s.Holds r j) (h' : s.Holds r' j')
    (hid : j.val.job_id = j'.val.job_id) : r = r' ∧ j = j' := by
  have hr := h.found
  rw [hid, h'.found] at hr
  cases hr
  have hj := h.decoded
  rw [hid, h'.decoded] at hj
  cases hj
  exact ⟨rfl, rfl⟩

/-- The row of a job is found under its own id. -/
theorem found_row (h : s.Holds r j) : s.jobs.find? r.job_id = some r := by
  rw [h.carries.job_id]
  exact h.found

end Store.Holds

/-! ## Changes -/

/-- A function on rows that sets no column but the end of the lease and the recovery markers. -/
def Touches (f : Row → Row) : Prop :=
  ∀ r, f r = { r with
    lease_until := (f r).lease_until, publication_recovery_at := (f r).publication_recovery_at,
    last_error_code := (f r).last_error_code }

/-- What a statement changed the tables for. -/
inductive Change where
  /-- `_insert` of a job. -/
  | insert (j : Job)
  /-- `_persist` of a job over the one before it. -/
  | persist (before j : Job) (a : PersistArgs)
  /-- A lease was prolonged, or a recovery marked. -/
  | touch (job_id : String)
  /-- An event that belongs to no version. -/
  | log (j : Job) (event_id event_type : String)
  /-- A random value was drawn. -/
  | draw
  /-- A row was removed. -/
  | delete (job_id : String)

/-- The change is of no other row than that of the id. -/
def Change.IsOf (id : String) : Change → Prop
  | insert j => j.val.job_id = id
  | persist _ j _ => j.val.job_id = id
  | touch i => i = id
  | log _ _ _ => True
  | draw => True
  | delete i => i = id

/-- The store without the row of a job and what belongs to it. -/
def Store.deleted (s : Store) (job_id : String) : Store :=
  { s with
    jobs := s.jobs.erase job_id
    attempts := Function.update s.attempts job_id []
    events := s.events.filter fun e => e.job_id != job_id }

/-- The store with an event that belongs to no version. -/
def Store.logged (s : Store) (j : Job) (event_id event_type : String) (metadata : Json) : Store :=
  (s.logLifecycle
    (lifecycleEvent j event_id (some j.val.state) event_type metadata)).logProjection
      (outboxEvent j event_id event_type metadata) (auditEvent j event_id event_type metadata)

/-- One change of the tables. -/
inductive Write (cfg : Config) (env : Env) : Session → Change → Session → Prop where
  | insert {s : Session} {j out : Job} {jobs : JobTable} {rows : List AttemptRow}
      (h : Inserted env s j jobs rows out) : Write cfg env s (.insert j) (s.inserted j jobs rows)
  | persist {s : Session} {before j out : Job} {a : PersistArgs} {old : Row} {jobs : JobTable}
      {rows : List AttemptRow} (hold : s.store.Holds old before)
      (h : Persisted cfg env s j a old jobs rows out) :
      Write cfg env s (.persist before j a) (s.persisted cfg env j a old jobs rows)
  | touch {s : Session} {job_id : String} {p : Row → Bool} {f : Row → Row} {old : Row}
      {jobs : JobTable} (h : Updated env s job_id p f old jobs) (hf : Touches f) :
      Write cfg env s (.touch job_id) (s.update jobs old (f old))
  | log {s : Session} {j : Job} {event_id event_type : String} {metadata : Json} :
      Write cfg env s (.log j event_id event_type)
        { s with store := s.store.logged j event_id event_type metadata }
  | draw {s : Session} : Write cfg env s .draw { s with draws := s.draws + 1 }
  | delete {s : Session} {job_id : String} {old : Row}
      (h : s.store.jobs.find? job_id = some old) :
      Write cfg env s (.delete job_id) (s.write (s.store.deleted job_id) ⟨some old, none⟩)

/-! ### The rows after a change -/

variable {cfg : Config} {env : Env} {s s' : Session} {c : Change} {id : String} {r old : Row} {j out : Job}
  {a : PersistArgs} {jobs : JobTable} {rows : List AttemptRow} {f : Row → Row}

/-- A touched row is read as before. -/
theorem decode_touched (hf : Touches f) (r : Row) (history : List AttemptRow) :
    decode (f r) history = decode r history := by
  rw [hf r]
  rfl

/-- A touched row has the key and the identity that it had. -/
theorem Touches.keys (hf : Touches f) (r : Row) :
    (f r).job_id = r.job_id ∧ (f r).identity = r.identity := by
  rw [hf r]
  exact ⟨rfl, rfl⟩

/-- A touched row carries what it carried. -/
theorem Row.Carries.touched (h : r.Carries j) (hf : Touches f) : (f r).Carries j := by
  rw [hf r]
  exact ⟨h.job_id, h.tenant_id, h.workspace_id, h.collection_id, h.idempotency_key, h.operation,
    h.payload, h.state, h.max_attempts, h.attempts, h.version⟩

/-- The rows after an update: the new one under its key, and the others. -/
theorem Updated.find? {p : Row → Bool} (h : Updated env s id p f old jobs) (hf : (f old).job_id = old.job_id)
    (k : String) :
    jobs.find? k = if k = id then some (f old) else s.store.jobs.find? k := by
  have hid := (Table.find?_eq_some.mp h.found).2
  have hkey : (f old).job_id = id := hf.trans hid
  have := Table.find?_replace h.replaced (by rw [hkey]; exact h.found) k
  rwa [hkey] at this

/-- The rows after `_persist`. -/
theorem Persisted.find? (h : Persisted cfg env s j a old jobs rows out) (k : String) :
    jobs.find? k =
      if k = j.val.job_id then some (persistRow cfg env j a old) else s.store.jobs.find? k :=
  h.toUpdated.find? (persistRow_job_id cfg env j a old) k

/-- The row that `_persist` wrote carries its job. -/
theorem Persisted.carries (h : Persisted cfg env s j a old jobs rows out) :
    (persistRow cfg env j a old).Carries j := by
  have hmatch := h.matched
  simp only [persistWhere, Bool.and_eq_true] at hmatch
  exact persistRow_carries (Table.find?_eq_some.mp h.found).2 hmatch.1.1.1.1

/-- The rows after `_insert`. -/
theorem Inserted.find? (h : Inserted env s j jobs rows out) (k : String) :
    jobs.find? k = if k = j.val.job_id then some (insertRow j) else s.store.jobs.find? k :=
  Table.find?_insert h.inserted k

/-- `_insert` finds no row of the job. -/
theorem Inserted.absent (h : Inserted env s j jobs rows out) :
    s.store.jobs.find? j.val.job_id = none := by
  obtain ⟨⟨-, hkey, -⟩, -⟩ := Table.insert?_eq_some.mp h.inserted
  apply Table.find?_eq_none.mpr
  intro r hr heq
  exact hkey (List.mem_map.mpr ⟨r, hr, heq⟩)

/-- A row after a change was there before, or the change wrote it. -/
theorem Write.found (h : Write cfg env s c s') (hr : s'.store.jobs.find? id = some r) :
    s.store.jobs.find? id = some r ∨
    (∃ j, c = .insert j ∧ j.val.job_id = id ∧ s.store.jobs.find? id = none ∧ r = insertRow j) ∨
    (∃ before j a old, c = .persist before j a ∧ j.val.job_id = id ∧ s.store.Holds old before ∧
      s.store.jobs.find? id = some old ∧ persistWhere env j a a.deadline old = true ∧
      j.val.version = a.expected_version + 1 ∧ r = persistRow cfg env j a old) ∨
    (∃ f old, c = .touch id ∧ Touches f ∧ s.store.jobs.find? id = some old ∧ r = f old) := by
  cases h with
  | @insert j _ jobs _ h =>
    change jobs.find? id = some r at hr
    rw [h.find?] at hr
    split_ifs at hr with hid
    · cases hr
      exact .inr (.inl ⟨j, rfl, hid.symm, hid ▸ h.absent, rfl⟩)
    · exact .inl hr
  | @persist before j _ a old jobs _ hold h =>
    change jobs.find? id = some r at hr
    rw [h.find?] at hr
    split_ifs at hr with hid
    · cases hr
      exact .inr (.inr (.inl ⟨before, j, a, old, rfl, hid.symm, hold, hid ▸ h.found, h.matched,
        h.version, rfl⟩))
    · exact .inl hr
  | @touch job_id _ f old jobs h hf =>
    change jobs.find? id = some r at hr
    rw [h.find? (hf.keys old).1] at hr
    split_ifs at hr with hid
    · cases hr
      exact .inr (.inr (.inr ⟨f, old, by rw [hid], hf, hid ▸ h.found, rfl⟩))
    · exact .inl hr
  | log => exact .inl hr
  | draw => exact .inl hr
  | @delete job_id _ _ =>
    change (s.store.jobs.erase job_id).find? id = some r at hr
    rw [Table.find?_erase] at hr
    split_ifs at hr
    exact .inl hr

/-- A row stays unless the change deletes one. -/
theorem Write.kept (h : Write cfg env s c s') (hr : s.store.jobs.find? id = some r) (hc : ∀ i, c ≠ .delete i) :
    ∃ r', s'.store.jobs.find? id = some r' := by
  cases h with
  | @insert j _ jobs _ h =>
    change ∃ r', jobs.find? id = some r'
    rw [h.find?]
    split_ifs
    · exact ⟨_, rfl⟩
    · exact ⟨r, hr⟩
  | @persist before j _ a old jobs _ _ h =>
    change ∃ r', jobs.find? id = some r'
    rw [h.find?]
    split_ifs
    · exact ⟨_, rfl⟩
    · exact ⟨r, hr⟩
  | @touch job_id _ f old jobs h hf =>
    change ∃ r', jobs.find? id = some r'
    rw [h.find? (hf.keys old).1]
    split_ifs
    · exact ⟨_, rfl⟩
    · exact ⟨r, hr⟩
  | log => exact ⟨r, hr⟩
  | draw => exact ⟨r, hr⟩
  | @delete job_id _ _ => exact absurd rfl (hc job_id)

/-- A change writes no row version, or that of one job: its row before and after. -/
theorem Write.written (h : Write cfg env s c s') : s'.written = s.written ∨
      ∃ id, c.IsOf id ∧
        s'.written = s.written ++ [⟨s.store.jobs.find? id, s'.store.jobs.find? id⟩] := by
  cases h with
  | @insert j _ jobs rows h =>
    refine .inr ⟨j.val.job_id, rfl, ?_⟩
    show _ = s.written ++ [⟨_, jobs.find? j.val.job_id⟩]
    rw [h.absent, h.find?, if_pos rfl]
    rfl
  | @persist before j _ a old jobs rows _ h =>
    refine .inr ⟨j.val.job_id, rfl, ?_⟩
    show _ = s.written ++ [⟨_, jobs.find? j.val.job_id⟩]
    rw [h.found, h.find?, if_pos rfl]
    rfl
  | @touch job_id _ f old jobs h hf =>
    refine .inr ⟨job_id, rfl, ?_⟩
    show _ = s.written ++ [⟨_, jobs.find? job_id⟩]
    rw [h.found, h.find? (hf.keys old).1, if_pos rfl]
    rfl
  | log => exact .inl rfl
  | draw => exact .inl rfl
  | @delete job_id old h =>
    refine .inr ⟨job_id, rfl, ?_⟩
    show _ = s.written ++ [⟨_, (s.store.jobs.erase job_id).find? job_id⟩]
    rw [h, Table.find?_erase, if_pos rfl]
    rfl

/-- A change of one job leaves the rows and the attempts of the others. -/
theorem Write.frame (h : Write cfg env s c s') {k : String} (hc : c.IsOf id) (hk : k ≠ id) :
    s'.store.jobs.find? k = s.store.jobs.find? k ∧ s'.store.attempts k = s.store.attempts k := by
  cases h with
  | @insert j _ jobs rows h =>
    obtain rfl : j.val.job_id = id := hc
    refine ⟨(h.find? k).trans (if_neg hk), ?_⟩
    exact Function.update_of_ne hk rows s.store.attempts
  | @persist before j _ a old jobs rows _ h =>
    obtain rfl : j.val.job_id = id := hc
    refine ⟨(h.find? k).trans (if_neg hk), ?_⟩
    exact Function.update_of_ne hk rows s.store.attempts
  | @touch job_id _ f old jobs h hf =>
    obtain rfl : job_id = id := hc
    exact ⟨(h.find? (hf.keys old).1 k).trans (if_neg hk), rfl⟩
  | log => exact ⟨rfl, rfl⟩
  | draw => exact ⟨rfl, rfl⟩
  | @delete job_id _ _ =>
    obtain rfl : job_id = id := hc
    refine ⟨(Table.find?_erase job_id k).trans (if_neg hk), ?_⟩
    exact Function.update_of_ne hk [] s.store.attempts

/-- What a store holds of a job depends on its row and its attempts only. -/
theorem Store.Holds.congr {s s' : Store} (h : s.Holds r j)
    (hfound : s'.jobs.find? j.val.job_id = s.jobs.find? j.val.job_id)
    (hattempts : s'.attempts j.val.job_id = s.attempts j.val.job_id) : s'.Holds r j :=
  ⟨hfound.trans h.found, h.carries, by rw [hattempts]; exact h.decoded⟩

/-- The store after `_insert` holds the job that was read back. -/
theorem Inserted.holds (h : Inserted env s j jobs rows out) :
    (s.inserted j jobs rows).store.Holds (insertRow j) out := by
  have hout := (insertRow_carries j).decoded h.decoded
  have hid : out.val.job_id = j.val.job_id := hout.job_id.symm
  refine ⟨?_, hout, ?_⟩
  · rw [hid]
    exact (h.find? _).trans (if_pos rfl)
  · rw [hid]
    show decode (insertRow j) (Function.update s.store.attempts j.val.job_id rows _) = _
    rw [Function.update_self]
    exact h.decoded

/-- The store after `_persist` holds the job that was read back. -/
theorem Persisted.holds (h : Persisted cfg env s j a old jobs rows out) :
    (s.persisted cfg env j a old jobs rows).store.Holds (persistRow cfg env j a old) out := by
  have hout := h.carries.decoded h.decoded
  have hid : out.val.job_id = j.val.job_id := by rw [← hout.job_id, h.carries.job_id]
  refine ⟨?_, hout, ?_⟩
  · rw [hid]
    exact (h.find? _).trans (if_pos rfl)
  · rw [hid]
    show decode _ (Function.update s.store.attempts j.val.job_id rows _) = _
    rw [Function.update_self]
    exact h.decoded

/-- A change keeps the store sound. -/
theorem Write.sound (h : Write cfg env s c s') (hs : s.store.Sound) : s'.store.Sound := by
  -- A change of one job: its row is what the change wrote, and the others are framed.
  have hframe : ∀ id : String, c.IsOf id →
      (∀ r, s'.store.jobs.find? id = some r → ∃ j, s'.store.Holds r j) →
      (s'.store.jobs.find? id = none → s'.store.attempts id = []) → s'.store.Sound := by
    intro id hc hrow horphan
    constructor
    · intro k r hr
      by_cases hk : k = id
      · exact hrow r (hk ▸ hr)
      · obtain ⟨hfound, hatt⟩ := h.frame hc hk
        obtain ⟨j, hj⟩ := hs.holds k r (hfound ▸ hr)
        obtain rfl : j.val.job_id = k := by
          rw [← hj.carries.job_id]
          exact (Table.find?_eq_some.mp (hfound ▸ hr)).2
        exact ⟨j, hj.congr hfound hatt⟩
    · intro k hk'
      by_cases hk : k = id
      · exact hk ▸ horphan (hk ▸ hk')
      · obtain ⟨hfound, hatt⟩ := h.frame hc hk
        rw [hatt]
        exact hs.orphans k (hfound ▸ hk')
  cases h with
  | @insert j out jobs rows hi =>
    have hfound := hi.find? j.val.job_id
    rw [if_pos rfl] at hfound
    refine hframe j.val.job_id rfl ?_ ?_
    · intro r hr
      obtain rfl : insertRow j = r := Option.some.inj (hfound.symm.trans hr)
      exact ⟨out, hi.holds⟩
    · intro hnone
      exact absurd (hfound.symm.trans hnone) (by simp)
  | @persist before j out a old jobs rows _ hp =>
    have hfound := hp.find? j.val.job_id
    rw [if_pos rfl] at hfound
    refine hframe j.val.job_id rfl ?_ ?_
    · intro r hr
      obtain rfl : persistRow cfg env j a old = r := Option.some.inj (hfound.symm.trans hr)
      exact ⟨out, hp.holds⟩
    · intro hnone
      exact absurd (hfound.symm.trans hnone) (by simp)
  | @touch job_id p f old jobs hu hf =>
    have hfound := hu.find? (hf.keys old).1 job_id
    rw [if_pos rfl] at hfound
    obtain ⟨j, hj⟩ := hs.holds job_id old hu.found
    obtain rfl : j.val.job_id = job_id := by
      rw [← hj.carries.job_id]
      exact (Table.find?_eq_some.mp hu.found).2
    refine hframe j.val.job_id rfl ?_ ?_
    · intro r hr
      obtain rfl : f old = r := Option.some.inj (hfound.symm.trans hr)
      exact ⟨j, hfound, hj.carries.touched hf, (decode_touched hf old _).trans hj.decoded⟩
    · intro hnone
      exact absurd (hfound.symm.trans hnone) (by simp)
  | log => exact ⟨fun id r hr => (hs.holds id r hr).imp fun _ hj => hj.congr rfl rfl, hs.orphans⟩
  | draw => exact hs
  | @delete job_id old hd =>
    refine hframe job_id rfl ?_ ?_
    · intro r hr
      have := Table.find?_erase (t := s.store.jobs) job_id job_id
      rw [if_pos rfl] at this
      exact absurd (this.symm.trans hr) (by simp)
    · intro _
      exact Function.update_self job_id [] s.store.attempts

/-! ## Sequences of changes -/

/-- A sequence of changes of a kind. -/
def Writes (cfg : Config) (env : Env) (P : Change → Prop) : Session → Session → Prop :=
  Relation.ReflTransGen fun s s' => ∃ c, P c ∧ Write cfg env s c s'

namespace Writes

variable {cfg : Config} {env : Env} {P Q : Change → Prop} {s s' s'' : Session}

/-- One change is a sequence. -/
theorem single {c : Change} (h : Write cfg env s c s') (hc : P c) : Writes cfg env P s s' :=
  Relation.ReflTransGen.single ⟨c, hc, h⟩

/-- Without a change the session stays. -/
theorem refl : Writes cfg env P s s := Relation.ReflTransGen.refl

/-- Two sequences are one. -/
theorem trans (h : Writes cfg env P s s') (h' : Writes cfg env P s' s'') :
    Writes cfg env P s s'' :=
  Relation.ReflTransGen.trans h h'

/-- Changes of a kind are changes of every wider kind. -/
theorem mono (h : Writes cfg env P s s') (hPQ : ∀ c, P c → Q c) : Writes cfg env Q s s' := by
  refine Relation.ReflTransGen.mono ?_ _ _ h
  rintro a b ⟨c, hc, hw⟩
  exact ⟨c, hPQ c hc, hw⟩

/-- What every change keeps, a sequence keeps. -/
theorem invariant {I : Session → Prop}
    (hI : ∀ {s s' : Session} {c : Change}, P c → Write cfg env s c s' → I s → I s')
    (h : Writes cfg env P s s') (hs : I s) : I s' := by
  refine run_invariant ?_ hs h
  rintro a b ha ⟨c, hc, hw⟩
  exact hI hc hw ha

/-- A sequence of changes keeps the store sound. -/
theorem sound (h : Writes cfg env P s s') (hs : s.store.Sound) : s'.store.Sound :=
  h.invariant (I := fun s => s.store.Sound) (fun _ hw hs => hw.sound hs) hs

/-- A sequence of changes of other jobs leaves the row and the attempts of a job. -/
theorem frame {k : String} (h : Writes cfg env P s s') (hP : ∀ c, P c → ∃ id, c.IsOf id ∧ k ≠ id) :
    s'.store.jobs.find? k = s.store.jobs.find? k ∧ s'.store.attempts k = s.store.attempts k := by
  refine h.invariant (I := fun t => t.store.jobs.find? k = s.store.jobs.find? k ∧
    t.store.attempts k = s.store.attempts k) ?_ ⟨rfl, rfl⟩
  intro t t' c hc hw ht
  obtain ⟨id, hid, hk⟩ := hP c hc
  obtain ⟨hfound, hatt⟩ := hw.frame hid hk
  exact ⟨hfound.trans ht.1, hatt.trans ht.2⟩

end Writes

end RickIntelligence.Postgres
