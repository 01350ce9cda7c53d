import RickIntelligence.Sqlite.Safety

/-!
# Replays of the local queue

`enqueue` under a stored idempotency key compares the job and the payload of the request with those
of the row, and not the scope, which is in columns of its own. A request that differs in its scope
only is answered with the row of another scope (`replay_in_scope_iff`, `foreign_replay`).
-/

namespace RickIntelligence.Sqlite

open Lib Jobs

/-- The scope of a row. -/
def Request.scope (r : Request) : String × String × String :=
  (r.tenant_id, r.workspace_id, r.collection_id)

/-- The scope of a request. -/
def Checked.scope (c : Checked) : String × String × String :=
  (c.tenant_id, c.workspace_id, c.collection_id)

/-- The scope of a record. -/
def QueueRecord.scope (r : QueueRecord) : String × String × String :=
  (r.tenant_id, r.workspace_id, r.collection_id)

section

variable {cfg : Config} {s : Session}

/-! ## Transactions that do not raise -/

/-- An update returns. -/
theorem updateRow_returns (id : String) (cause : Cause) (f : Progress → Progress) (s : Session) :
    ∃ s', updateRow id cause f s = .ok ((), s') := by
  unfold updateRow
  rw [Tx.get_bind]
  cases hf : s.jobs.find? id with
  | none => exact ⟨_, rfl⟩
  | some old => exact ⟨_, rfl⟩

/-- A deletion returns. -/
theorem deleteRow_returns (id : String) (s : Session) : ∃ s', deleteRow id s = .ok ((), s') := by
  unfold deleteRow
  rw [Tx.get_bind]
  cases hf : s.jobs.find? id with
  | none => exact ⟨_, rfl⟩
  | some old => exact ⟨_, rfl⟩

/-- The recovery of rows returns. -/
theorem recoverEach_returns (cfg : Config) (now : ℚ) (rows : List Row) (s : Session) :
    ∃ s', recoverEach cfg now rows s = .ok ((), s') := by
  induction rows generalizing s with
  | nil => exact ⟨s, rfl⟩
  | cons row rows ih =>
    obtain ⟨s₁, h₁⟩ : ∃ s₁, recoverRow cfg now row s = .ok ((), s₁) := updateRow_returns _ _ _ s
    obtain ⟨s₂, h₂⟩ := ih s₁
    exact ⟨s₂, (Tx.bind_of_ok h₁).trans h₂⟩

/-- `_recover_expired` returns. -/
theorem recoverExpired_returns (cfg : Config) (now : ℚ) (s : Session) :
    ∃ n s', recoverExpired cfg now s = .ok (n, s') := by
  obtain ⟨s', h⟩ := recoverEach_returns cfg now (s.jobs.rows.filter (expired now)) s
  refine ⟨(s.jobs.rows.filter (expired now)).length, s', ?_⟩
  unfold recoverExpired
  rw [Tx.get_bind, Tx.bind_of_ok h]
  rfl

/-- The deletion of rows returns. -/
theorem deleteEach_returns (ids : List String) (s : Session) :
    ∃ s', deleteEach ids s = .ok ((), s') := by
  induction ids generalizing s with
  | nil => exact ⟨s, rfl⟩
  | cons id ids ih =>
    obtain ⟨s₁, h₁⟩ := deleteRow_returns id s
    obtain ⟨s₂, h₂⟩ := ih s₁
    exact ⟨s₂, (Tx.bind_of_ok h₁).trans h₂⟩

/-- `_prune_terminal_rows` returns. -/
theorem pruneTerminalRows_returns (cfg : Config) (preserve : Option String) (s : Session) :
    ∃ s', pruneTerminalRows cfg preserve s = .ok ((), s') := by
  obtain ⟨s', h⟩ := deleteEach_returns ((pruned cfg preserve s.jobs).map Row.key) s
  refine ⟨s', ?_⟩
  unfold pruneTerminalRows
  rw [Tx.get_bind]
  exact h

/-! ## Stored keys -/

variable {s' : Session} {key : String} {row : Row} {c : Checked}

/-- Recovery leaves what rows ask for. -/
theorem Writes.requests (h : Writes cfg (· = .recover) s s') (k : String) :
    (s'.jobs.find? k).map Row.toRequest = (s.jobs.find? k).map Row.toRequest := by
  refine h.invariant (I := fun t => (t.jobs.find? k).map Row.toRequest =
    (s.jobs.find? k).map Row.toRequest) ?_ rfl
  intro t t' v hc hv hw ht
  rw [← ht, hw.find?]
  by_cases hk : k = v.key
  · rw [if_pos hk, hk, hw.before]
    unfold Allowed at hv
    rw [show v.cause = .recover from hc] at hv
    generalize v.before = before at hv
    generalize v.after = after at hv
    cases hv with
    | release _ hrequest => simp [hrequest]
  · rw [if_neg hk]

/-- The row of a stored key, after the recovery. -/
theorem find_key (h : Writes cfg (· = .recover) s s') (hrow : row ∈ s.jobs.rows) (hkey : row.idempotency_key = key) :
    ∃ row', (s'.jobs.rows.find? fun r => r.idempotency_key == key) = some row' ∧
      row'.toRequest = row.toRequest := by
  have hrequests := h.requests row.key
  rw [Table.find?_of_mem hrow] at hrequests
  obtain ⟨row', hrow', hreq⟩ := Option.map_eq_some_iff.mp hrequests
  have hmem := (Table.find?_eq_some.mp hrow').1
  have hkey' : row'.idempotency_key = key := by
    rw [← hkey]
    exact congrArg Request.idempotency_key hreq
  refine ⟨row', ?_, hreq⟩
  cases hf : s'.jobs.rows.find? fun r => r.idempotency_key == key with
  | none => exact absurd (List.find?_eq_none.mp hf row' hmem) (by simp [hkey'])
  | some x =>
    have hx : x.idempotency_key = key := by simpa using List.find?_some hf
    rw [s'.jobs.eq_of_uk (List.mem_of_find?_eq_some hf) hmem (hx.trans hkey'.symm)]

/-- The row that is found under a key after the recovery was there before it. -/
theorem find_key_inv (h : Writes cfg (· = .recover) s s') {row' : Row}
    (hfind : (s'.jobs.rows.find? fun r => r.idempotency_key == key) = some row') :
    ∃ row ∈ s.jobs.rows, row.idempotency_key = key ∧ row'.toRequest = row.toRequest := by
  have hrow' := Table.find?_of_mem (List.mem_of_find?_eq_some hfind)
  have hrequests := h.requests row'.key
  rw [hrow'] at hrequests
  obtain ⟨row, hrow, hreq⟩ := Option.map_eq_some_iff.mp hrequests.symm
  refine ⟨row, (Table.find?_eq_some.mp hrow).1, ?_, hreq.symm⟩
  have hkey : row'.idempotency_key = key := by simpa using List.find?_some hfind
  rw [← hkey]
  exact congrArg Request.idempotency_key hreq

/-- The comparison that `enqueue` makes of the stored row with the request. -/
def Request.Same (r : Request) (c : Checked) : Prop :=
  r.job_id = c.job_id ∧ decodePayload r.payload_json = c.payload

instance (r : Request) (c : Checked) : Decidable (r.Same c) :=
  inferInstanceAs (Decidable (_ ∧ _))

/-- The comparison of a record is that of the row it was decoded from. -/
theorem decode_differs (row : Row) (c : Checked) :
    ((decode row).payload != c.payload || (decode row).job_id != c.job_id) =
      !decide (row.toRequest.Same c) := by
  unfold Request.Same decode
  by_cases hid : row.job_id = c.job_id <;>
    by_cases hpayload : decodePayload row.payload_json = c.payload <;> simp [hid, hpayload]

/-- The transaction of `enqueue` for a stored key: the row of the key is replayed, or the request is
refused for its job or its payload. The scope is not looked at. -/
theorem enqueueChecked_stored (cfg : Config) (hrow : row ∈ s.jobs.rows)
    (hkey : row.idempotency_key = c.idempotency_key) :
    (row.toRequest.Same c → ∃ record s', enqueueChecked cfg c s = .ok ((record, true), s') ∧
      record.scope = row.toRequest.scope) ∧
    (¬ row.toRequest.Same c → enqueueChecked cfg c s =
      .error (.idempotency "idempotency key conflicts with an existing job")) := by
  obtain ⟨n, s₁, hrec⟩ := recoverExpired_returns cfg c.now s
  obtain ⟨row', hfind, hreq⟩ := find_key (recoverExpired_writes hrec) hrow hkey
  unfold enqueueChecked
  rw [Tx.bind_of_ok hrec, Tx.get_bind]
  simp only [hfind, decode_differs, hreq]
  constructor
  · intro hsame
    obtain ⟨s', hprune⟩ := pruneTerminalRows_returns cfg (some (decode row').job_id) s₁
    refine ⟨decode row', s', ?_, ?_⟩
    · rw [Tx.bind_of_ok (Tx.raiseIf_ok (u := ()).mpr ⟨by simp [hsame], rfl⟩), Tx.bind_of_ok hprune]
      rfl
    · show row'.toRequest.scope = row.toRequest.scope
      rw [hreq]
  · intro hdiffers
    apply Tx.bind_of_error
    simp [hdiffers, Tx.raiseIf, Tx.raise]

/-- A replay is the row of the key, for the same job and payload. -/
theorem enqueueChecked_replayed {record : QueueRecord} (h : enqueueChecked cfg c s = .ok ((record, true), s')) :
    ∃ row ∈ s.jobs.rows, row.idempotency_key = c.idempotency_key ∧ row.toRequest.Same c ∧
      record.scope = row.toRequest.scope := by
  obtain ⟨n, s₁, hrec⟩ := recoverExpired_returns cfg c.now s
  have hrun := h
  unfold enqueueChecked at hrun
  rw [Tx.bind_of_ok hrec, Tx.get_bind] at hrun
  cases hfind : s₁.jobs.rows.find? fun r => r.idempotency_key == c.idempotency_key with
  | none =>
    simp only [hfind, Tx.bind_ok, Tx.pure_ok] at hrun
    obtain ⟨_, _, _, _, _, _, _, _, _, hpair, _⟩ := hrun
    cases hpair
  | some row' =>
    obtain ⟨row, hrow, hkey, -⟩ := find_key_inv (recoverExpired_writes hrec) hfind
    obtain ⟨hsame, hdiffers⟩ := enqueueChecked_stored cfg hrow hkey
    by_cases hreq : row.toRequest.Same c
    · obtain ⟨record', s'', hreturns, hscope⟩ := hsame hreq
      cases hreturns.symm.trans h
      exact ⟨row, hrow, hkey, hreq, hscope⟩
    · cases (hdiffers hreq).symm.trans h

/-! ## Replays and scopes -/

/-- A call of `enqueue` whose arguments pass their checks is its transaction. -/
theorem enqueue_exec {a : EnqueueArgs} (hc : a.check = .ok c) (s : Session) :
    (Call.enqueue a).exec cfg s =
      (((enqueueChecked cfg c).commit s).1.map fun p => Reply.enqueued p.1 p.2,
        ((enqueueChecked cfg c).commit s).2) := by
  have hlift : (Tx.lift a.check : QTx Checked) s = .ok (c, s) := Tx.lift_ok.mpr ⟨hc, rfl⟩
  have hrun : (enqueue cfg a).commit s = (enqueueChecked cfg c).commit s := by
    unfold Tx.commit enqueue
    rw [Tx.bind_of_ok hlift]
  unfold Call.exec Call.run
  rw [Tx.commit_map, hrun]

/-- **Replays stay in their scope exactly when no row of another scope has the key, the job and the
payload of the request.** A replayed record has the scope of the request, and a request whose key is
stored for another scope is refused and leaves the file as it was, if and only if there is no such
row. -/
theorem replay_in_scope_iff (cfg : Config) (s : Session) (a : EnqueueArgs) (c : Checked)
    (hc : a.check = .ok c) :
    ((∀ record, ((Call.enqueue a).exec cfg s).1 = .ok (.enqueued record true) →
        record.scope = c.scope) ∧
      ∀ row ∈ s.jobs.rows, row.idempotency_key = c.idempotency_key → row.toRequest.scope ≠ c.scope →
        (∃ message, ((Call.enqueue a).exec cfg s).1 = .error (.idempotency message)) ∧
          ((Call.enqueue a).exec cfg s).2 = s) ↔
    ¬ ∃ row ∈ s.jobs.rows, row.idempotency_key = c.idempotency_key ∧ row.job_id = c.job_id ∧
      decodePayload row.payload_json = c.payload ∧ row.toRequest.scope ≠ c.scope := by
  rw [enqueue_exec hc]
  constructor
  · rintro ⟨hreplay, -⟩ ⟨row, hrow, hkey, hid, hpayload, hscope⟩
    obtain ⟨record, s', hreturns, hrecord⟩ := (enqueueChecked_stored _ hrow hkey).1 ⟨hid, hpayload⟩
    apply hscope
    rw [← hrecord]
    apply hreplay
    unfold Tx.commit
    rw [hreturns]
    rfl
  · intro hnone
    constructor
    · intro record hrecord
      cases hrun : enqueueChecked cfg c s with
      | error e => simp [Tx.commit, hrun, Except.map] at hrecord
      | ok p =>
        obtain ⟨⟨record', replayed⟩, s'⟩ := p
        simp only [Tx.commit, hrun, Except.map, Except.ok.injEq, Reply.enqueued.injEq] at hrecord
        obtain ⟨rfl, rfl⟩ := hrecord
        obtain ⟨row, hrow, hkey, hsame, hscope⟩ := enqueueChecked_replayed hrun
        by_contra hne
        exact hnone ⟨row, hrow, hkey, hsame.1, hsame.2, hscope ▸ hne⟩
    · intro row hrow hkey hscope
      have hdiffers : ¬ row.toRequest.Same c :=
        fun hsame => hnone ⟨row, hrow, hkey, hsame.1, hsame.2, hscope⟩
      have hrun := (enqueueChecked_stored cfg hrow hkey).2 hdiffers
      unfold Tx.commit
      rw [hrun]
      exact ⟨⟨_, rfl⟩, rfl⟩

end

/-- The checked arguments of a tenant. -/
def plainChecked (tenant_id : String) : Checked where
  job_id := "job-1"
  idempotency_key := "key-1"
  payload := [("operation", "ingest")]
  tenant_id := tenant_id
  workspace_id := "workspace-1"
  collection_id := "collection-1"
  now := 100

/-- The request of the tenant that enqueued the job is replayed in its scope. -/
theorem enqueuedFile_replay : (plainArgs "tenant-1").check = .ok (plainChecked "tenant-1") ∧
    ∀ record, ((Call.enqueue (plainArgs "tenant-1")).exec smallQueue enqueuedFile).1 =
      .ok (.enqueued record true) → record.scope = (plainChecked "tenant-1").scope := by
  have hscope : (enqueuedFile.jobs.rows.all fun row =>
      decide (row.toRequest.scope = (plainChecked "tenant-1").scope)) = true := by decide +kernel
  have hcheck : (plainArgs "tenant-1").check = .ok (plainChecked "tenant-1") := by decide +kernel
  refine ⟨hcheck, ((replay_in_scope_iff smallQueue enqueuedFile (plainArgs "tenant-1")
    (plainChecked "tenant-1") hcheck).mpr ?_).1⟩
  rintro ⟨row, hrow, -, -, -, hne⟩
  exact hne (by simpa using List.all_eq_true.mp hscope row hrow)

/-- The tenant of a replayed record. -/
def replayedTenant : Except QueueError Reply → Option String
  | .ok (.enqueued r true) => some r.tenant_id
  | _ => none

/-- The same request of another tenant is answered with the job of the first. -/
theorem foreign_replay :
    Reachable smallQueue enqueuedFile ∧
    (plainArgs "tenant-2").check = .ok (plainChecked "tenant-2") ∧
    ∃ record, ((Call.enqueue (plainArgs "tenant-2")).exec smallQueue enqueuedFile).1 =
        .ok (.enqueued record true) ∧ record.scope ≠ (plainChecked "tenant-2").scope := by
  refine ⟨enqueuedFile_reachable, by decide +kernel, ?_⟩
  have htenant : replayedTenant ((Call.enqueue (plainArgs "tenant-2")).exec smallQueue
      enqueuedFile).1 = some "tenant-1" := by decide +kernel
  generalize ((Call.enqueue (plainArgs "tenant-2")).exec smallQueue enqueuedFile).1 = reply
    at htenant ⊢
  unfold replayedTenant at htenant
  split at htenant
  · next record =>
    refine ⟨record, rfl, ?_⟩
    intro hscope
    have heq : record.tenant_id = "tenant-2" := congrArg Prod.fst hscope
    rw [heq] at htenant
    simp at htenant
  · cases htenant

end RickIntelligence.Sqlite
