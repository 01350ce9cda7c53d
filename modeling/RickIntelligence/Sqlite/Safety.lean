import RickIntelligence.Sqlite.Moves

/-!
# Invariants and leases of the local queue

What holds of every file that calls lead to: the two budgets, the keys, and the shape of the rows
(`reachable_invariant`); what the history of the file says of its leases (`lease_safety`); and that no
request is lost (`requests_not_lost`).
-/

namespace RickIntelligence.Sqlite

open Lib Jobs

/-! ## The shape of rows -/

/-- A row of its status: only a leased row has a lease, and a job is not queued without an attempt
left. -/
structure Row.Ok (cfg : Config) (r : Row) : Prop where
  queued : r.status = .queued → r.Free ∧ r.attempts < cfg.max_attempts
  leased : r.status = .leased → r.lease_owner.isSome = true ∧ r.lease_until.isSome = true ∧
    1 ≤ r.attempts ∧ r.attempts ≤ cfg.max_attempts
  terminal : r.status.terminal = true → r.Free
  attempts_le : r.attempts ≤ cfg.max_attempts

variable {cfg : Config} {cause : Cause} {before after : Option Row} {s : Session}

/-- A move keeps the shape of rows. -/
theorem Moves.ok (h : Moves cfg cause before after) (hbefore : ∀ r, before = some r → r.Ok cfg) :
    ∀ r, after = some r → r.Ok cfg := by
  have hpos := cfg.max_attempts_pos
  cases h with
  | @enqueue r hstatus hattempts hfree =>
    rintro r' h
    cases h
    exact ⟨fun _ => ⟨hfree, by omega⟩, by simp [hstatus], by simp [hstatus, Status.terminal], by omega⟩
  | @release _ r r' _ _ hstatus hstatus' hattempts hfree =>
    have hok := (hbefore r rfl).leased hstatus
    rintro x h
    cases h
    refine ⟨?_, ?_, fun _ => hfree, by omega⟩
    · intro hq
      refine ⟨hfree, ?_⟩
      rw [hstatus'] at hq
      split at hq
      · cases hq
      · omega
    · intro hl
      rw [hstatus'] at hl
      split at hl <;> cases hl
  | @claim r r' _ hstatus hstatus' hattempts huntil howner =>
    have hok := (hbefore r rfl).queued hstatus
    rintro x h
    cases h
    refine ⟨by simp [hstatus'], fun _ => ⟨howner, huntil, by omega, by omega⟩,
      by simp [hstatus', Status.terminal], by omega⟩
  | @heartbeat r r' _ hstatus hstatus' hattempts huntil howner =>
    have hok := (hbefore r rfl).leased hstatus
    rintro x h
    cases h
    exact ⟨by simp [hstatus'], fun _ => ⟨howner ▸ hok.1, huntil, by omega, by omega⟩,
      by simp [hstatus', Status.terminal], by omega⟩
  | @ack r r' _ hstatus hstatus' hattempts hfree =>
    have hok := (hbefore r rfl).attempts_le
    rintro x h
    cases h
    exact ⟨by simp [hstatus'], by simp [hstatus'], fun _ => hfree, by omega⟩
  | @cancel r r' _ hstatus hstatus' hattempts hfree =>
    have hok := (hbefore r rfl).attempts_le
    rintro x h
    cases h
    exact ⟨by simp [hstatus'], by simp [hstatus'], fun _ => hfree, by omega⟩
  | prune hstatus =>
    rintro x h
    cases h

/-! ## Histories of files -/

/-- The history of a file is linked by moves, and leads to its table. -/
structure Tracked (cfg : Config) (s : Session) : Prop where
  linked : History.Linked (Allowed cfg) s.history
  current : ∀ k, History.current s.history k = s.jobs.find? k
  ok : ∀ v ∈ s.history, ∀ r, v.after = some r → r.Ok cfg

/-- Every row of a tracked file has the shape of its status. -/
theorem Tracked.rows (h : Tracked cfg s) {k : String} {r : Row} (hr : s.jobs.find? k = some r) : r.Ok cfg := by
  have hcurrent := (h.current k).trans hr
  -- The row was left by the last version of its key.
  obtain ⟨first, v, later, heq, -, -, -, hafter, -⟩ :=
    h.linked.since (Q := fun o => o = some r) (by simp) hcurrent
  exact h.ok v (by rw [heq]; simp) r hafter

/-- A row version keeps a file tracked. -/
theorem Write.tracked {s' : Session} {v : RowVersion} (h : Write s v s') (hv : Allowed cfg v) (hs : Tracked cfg s) :
    Tracked cfg s' := by
  have hbefore : v.before = History.current s.history v.key := by rw [hs.current, h.before]
  refine ⟨?_, ?_, ?_⟩
  · rw [h.history]
    exact .snoc hs.linked hbefore hv
  · intro k
    rw [h.history, History.current_snoc, h.find?, hs.current]
    by_cases hk : v.key = k
    · rw [if_pos hk, if_pos hk.symm]
    · rw [if_neg hk, if_neg (Ne.symm hk)]
  · intro w hw r hr
    rw [h.history] at hw
    rcases List.mem_append.mp hw with hw | hw
    · exact hs.ok w hw r hr
    · rw [List.mem_singleton.mp hw] at hr
      refine Moves.ok hv (fun x hx => hs.rows (k := v.key) ?_) r hr
      rw [h.before, hx]

/-- What the queue keeps of its table. -/
structure Invariant (cfg : Config) (jobs : JobTable) : Prop where
  pending : activeCount jobs ≤ cfg.max_pending
  terminal : terminalCount jobs ≤ cfg.max_terminal_rows
  job_ids : (jobs.rows.map fun r => r.job_id).Nodup
  idempotency_keys : (jobs.rows.map fun r => r.idempotency_key).Nodup
  rows : ∀ r ∈ jobs.rows, r.Ok cfg

/-- A call keeps a file tracked and within its budgets. -/
theorem Step.keeps {s' : Session} (h : Step cfg s s')
    (hs : Tracked cfg s ∧ activeCount s.jobs ≤ cfg.max_pending ∧ terminalCount s.jobs ≤ cfg.max_terminal_rows) :
    Tracked cfg s' ∧ activeCount s'.jobs ≤ cfg.max_pending ∧
      terminalCount s'.jobs ≤ cfg.max_terminal_rows := by
  obtain ⟨call, rfl⟩ := h
  unfold Call.exec Tx.commit
  cases hrun : call.run cfg s with
  | error e => exact hs
  | ok p =>
    obtain ⟨r, s'⟩ := p
    obtain ⟨hw, hactive, hterminal⟩ := Call.writes hrun
    refine ⟨?_, hactive hs.2.1, hterminal hs.2.2⟩
    exact hw.invariant (I := Tracked cfg) (fun _ hv hw ht => hw.tracked hv ht) hs.1

/-- Every reachable file is tracked and within its budgets. -/
theorem Reachable.keeps (hs : Reachable cfg s) :
    Tracked cfg s ∧ activeCount s.jobs ≤ cfg.max_pending ∧
      terminalCount s.jobs ≤ cfg.max_terminal_rows := by
  refine run_invariant (I := fun t => Tracked cfg t ∧ activeCount t.jobs ≤ cfg.max_pending ∧
    terminalCount t.jobs ≤ cfg.max_terminal_rows) (fun a b ha h => Step.keeps h ha) ?_ hs
  refine ⟨⟨.nil, fun k => rfl, by simp [Session.empty]⟩, ?_, ?_⟩
  · exact Nat.zero_le _
  · exact Nat.zero_le _

/-- **The invariant of the local queue:** in every file that calls with any clocks lead to from an
empty one, at most `max_pending` rows are queued or leased and at most `max_terminal_rows` are
terminal, the keys are unique, and every row has the shape of its status; and a call that raises
leaves all rows as they were. -/
theorem reachable_invariant (cfg : Config) (s : Session) (hs : Reachable cfg s) :
    Invariant cfg s.jobs ∧
      ∀ (call : Call) (e : QueueError), (call.exec cfg s).1 = .error e →
        (call.exec cfg s).2 = s := by
  obtain ⟨htracked, hactive, hterminal⟩ := hs.keeps
  refine ⟨⟨hactive, hterminal, s.jobs.pk_nodup, s.jobs.uk_nodup, ?_⟩, ?_⟩
  · intro r hr
    exact htracked.rows (Table.find?_of_mem hr)
  · intro call e h
    unfold Call.exec Tx.commit at h ⊢
    cases hrun : call.run cfg s with
    | error e => rfl
    | ok p => simp [hrun] at h

/-! ### A small file -/

/-- One row is not too many. -/
theorem one_row : 1 ≤ 100000 := by decide

/-- A second is no long backoff. -/
theorem one_second : (1 : ℚ) ≤ 86400 := by norm_num

/-- A queue with room for one job of one attempt. -/
def smallQueue : Config where
  max_pending := 1
  max_pending_pos := by decide
  max_pending_le := one_row
  max_terminal_rows := 1
  max_terminal_pos := Nat.one_pos
  max_terminal_le := one_row
  max_attempts := 1
  max_attempts_pos := by decide
  max_attempts_le := by decide
  lease_seconds := 30
  lease_ge := by norm_num
  lease_le := by norm_num
  backoff_seconds := 1
  backoff_nonneg := zero_le_one
  backoff_le := one_second

/-- A request of a tenant. -/
def plainArgs (tenant_id : String) : EnqueueArgs where
  job_id := "job-1"
  idempotency_key := "key-1"
  payload := [("operation", .str "ingest")]
  tenant_id := tenant_id
  workspace_id := "workspace-1"
  collection_id := "collection-1"
  now := .finite 100

/-- The file after the request. -/
def enqueuedFile : Session := (Call.exec smallQueue (.enqueue (plainArgs "tenant-1")) .empty).2

/-- The file after its job was claimed. -/
def claimedFile : Session :=
  (Call.exec smallQueue (.claim (fun _ => "token") "worker-1" 1 (.finite 101)) enqueuedFile).2

/-- Calls lead to the file. -/
theorem enqueuedFile_reachable : Reachable smallQueue enqueuedFile :=
  .tail .refl ⟨_, rfl⟩

/-- Calls lead to the file. -/
theorem claimedFile_reachable : Reachable smallQueue claimedFile :=
  .tail enqueuedFile_reachable ⟨_, rfl⟩

/-- The claimed job fills the budget of the small queue. -/
theorem claimedFile_invariant :
    Invariant smallQueue claimedFile.jobs ∧ activeCount claimedFile.jobs = 1 :=
  ⟨(reachable_invariant smallQueue claimedFile claimedFile_reachable).1, by decide +kernel⟩

/-! ## Leases -/

/-- The job and the token that an owner calls with. -/
def Call.lease? : Call → Option (String × String × Clock)
  | heartbeat job_id lease_token now => some (job_id, lease_token, now)
  | ack job_id lease_token now => some (job_id, lease_token, now)
  | fail job_id lease_token _ now => some (job_id, lease_token, now)
  | _ => none

/-- A call of an owner that returns is for a row that it holds. -/
theorem Call.held {call : Call} {r : Reply} {job_id lease_token : String} {now : Clock}
    (hcall : call.lease? = some (job_id, lease_token, now)) (h : (call.exec cfg s).1 = .ok r) :
    HeldBy s job_id lease_token now := by
  unfold Call.exec Tx.commit at h
  cases hrun : call.run cfg s with
  | error e => simp [hrun] at h
  | ok p =>
    obtain ⟨r', s'⟩ := p
    cases call with
    | heartbeat id token t =>
      cases hcall
      obtain ⟨out, hop, -⟩ := Tx.map_ok.mp hrun
      exact (heartbeat_writes hop).1
    | ack id token t =>
      cases hcall
      obtain ⟨out, hop, -⟩ := Tx.map_ok.mp hrun
      exact (ack_writes hop).1
    | fail id token error t =>
      cases hcall
      obtain ⟨out, hop, -⟩ := Tx.map_ok.mp hrun
      exact (fail_writes hop).1
    | enqueue a => cases hcall
    | claim token worker limit t => cases hcall
    | cancel id token t => cases hcall
    | recover t => cases hcall

/-- A row is leased under a token. -/
def LeasedUnder (token : String) (o : Option Row) : Prop :=
  ∃ r, o = some r ∧ r.status = .leased ∧ r.lease_owner = some token

/-- A row comes under a token by a claim only. -/
theorem Moves.claims {token : String} (h : Moves cfg cause before after) (hafter : LeasedUnder token after)
    (hbefore : ¬ LeasedUnder token before) : cause = .claim := by
  obtain ⟨r, rfl, hr, howner⟩ := hafter
  cases h with
  | claim => rfl
  | heartbeat _ hstatus _ _ _ ho => exact absurd ⟨_, rfl, hstatus, ho ▸ howner⟩ hbefore
  | enqueue hstatus => simp [hstatus] at hr
  | release _ _ _ hstatus' =>
    rw [hstatus'] at hr
    split at hr <;> cases hr
  | ack _ _ hstatus' => simp [hstatus'] at hr
  | cancel _ _ hstatus' => simp [hstatus'] at hr

/-- A row stays under a token by a heartbeat only. -/
theorem Moves.beats {token : String} (h : Moves cfg cause before after) (hbefore : LeasedUnder token before)
    (hafter : LeasedUnder token after) : cause = .heartbeat := by
  obtain ⟨r, rfl, hr, -⟩ := hafter
  obtain ⟨b, rfl, hb, -⟩ := hbefore
  cases h with
  | heartbeat => rfl
  | claim _ hstatus => simp [hstatus] at hb
  | release _ _ _ hstatus' =>
    rw [hstatus'] at hr
    split at hr <;> cases hr
  | ack _ _ hstatus' => simp [hstatus'] at hr
  | cancel _ _ hstatus' => simp [hstatus'] at hr

/-- How often a row was claimed: its attempts count it. -/
theorem Moves.attempts (h : Moves cfg cause before after) (hafter : after.isSome = true) :
    (after.elim 0 fun r => r.attempts) =
      (before.elim 0 fun r => r.attempts) + if cause = .claim then 1 else 0 := by
  cases h with
  | enqueue _ hattempts => simp [hattempts]
  | release hcause _ _ _ hattempts => rcases hcause with rfl | rfl <;> simp [hattempts]
  | claim _ _ _ hattempts => simp [hattempts]
  | heartbeat _ _ _ hattempts => simp [hattempts]
  | ack _ _ _ hattempts => simp [hattempts]
  | cancel _ _ _ hattempts => simp [hattempts]
  | prune => cases hafter

/-- How often a row was acknowledged: its status says it. -/
theorem Moves.acks (h : Moves cfg cause before after) (hafter : after.isSome = true) :
    (after.elim 0 fun r => if r.status = .acked then 1 else 0) =
      (before.elim 0 fun r => if r.status = .acked then 1 else 0) +
        if cause = .ack then 1 else 0 := by
  cases h with
  | enqueue hstatus => simp [hstatus]
  | release hcause _ hstatus hstatus' =>
    have hne : ∀ c : Prop, ∀ _ : Decidable c, (if c then Status.dead else .queued) ≠ .acked := by
      intro c _
      split <;> decide
    rcases hcause with rfl | rfl <;> simp [hstatus, hstatus', hne]
  | claim _ hstatus hstatus' => simp [hstatus, hstatus']
  | heartbeat _ hstatus hstatus' => simp [hstatus, hstatus']
  | ack _ hstatus hstatus' => simp [hstatus, hstatus']
  | cancel _ hstatus hstatus' =>
    have hne : ∀ st : Status, st.terminal = false → st ≠ .acked := by
      rintro st h rfl
      cases h
    simp [hne _ hstatus, hstatus']
  | prune => cases hafter

/-- **The leases of the local queue are safe:** the history of a file is that of its table. A call of
an owner that returns has the token of the last claim of its row, since when there was nothing but
heartbeats. Between the versions that delete it a row is acknowledged at most once and claimed at
most `max_attempts` times, and after a terminal status there is only its deletion, which is by
pruning. -/
theorem lease_safety (cfg : Config) (s : Session) (hs : Reachable cfg s) :
    (∀ k, History.current s.history k = s.jobs.find? k) ∧
    (∀ (call : Call) (job_id lease_token : String) (now : Clock) (r : Reply),
      call.lease? = some (job_id, lease_token, now) →
      (call.exec cfg s).1 = .ok r →
      ∃ id token first v later, safeKey "job_id" job_id = .ok id ∧
        safeText "lease_token" 256 lease_token = .ok token ∧
        s.history = first ++ v :: later ∧ v.key = id ∧ v.cause = .claim ∧
        LeasedUnder token v.after ∧ ∀ w ∈ later, w.key = id → w.cause = .heartbeat) ∧
    (∀ first middle last id, s.history = first ++ middle ++ last →
      (∀ v ∈ middle, v.key = id → v.after.isSome = true) →
      (middle.countP fun v => decide (v.key = id) && decide (v.cause = .ack)) ≤ 1 ∧
      (middle.countP fun v => decide (v.key = id) && decide (v.cause = .claim)) ≤
        cfg.max_attempts) ∧
    ∀ v ∈ s.history, (∀ r, v.before = some r → r.status.terminal = true → v.after = none) ∧
      (v.after = none → v.cause = .prune) := by
  obtain ⟨htracked, -⟩ := hs.keeps
  refine ⟨htracked.current, ?_, ?_, ?_⟩
  · intro call job_id lease_token now r hcall hreply
    obtain ⟨id, token, t, row, hid, htoken, -, hrow, hstatus, howner, -⟩ := Call.held hcall hreply
    have hleased : LeasedUnder token (History.current s.history id) := by
      rw [htracked.current, hrow]
      exact ⟨row, rfl, hstatus, howner⟩
    have hnone : ¬ LeasedUnder token none := by
      rintro ⟨_, h, -⟩
      cases h
    obtain ⟨first, v, later, heq, hkey, hv, hbefore, hafter, hlater⟩ :=
      htracked.linked.since hnone hleased
    refine ⟨id, token, first, v, later, hid, htoken, heq, hkey, hv.claims hafter hbefore, hafter, ?_⟩
    intro w hw hwk
    have hwv := htracked.linked.allowed w (by rw [heq]; simp [hw])
    obtain ⟨hwb, hwa⟩ := hlater w hw hwk
    exact Moves.beats hwv hwb hwa
  · intro first middle last id heq hkept
    have hlinked : History.Linked (Allowed cfg) (first ++ middle) := by
      have h := htracked.linked
      rw [heq] at h
      exact h.of_append
    constructor
    · -- The status of the row counts the acknowledgements.
      have hcount := hlinked.countP_add (k := id) (p := fun v => decide (v.cause = .ack))
        (m := fun o => o.elim 0 fun r => if r.status = .acked then 1 else 0)
        fun v hv hallowed hk => by simpa using hallowed.acks (hkept v hv hk)
      have hone : ((History.current (first ++ middle) id).elim 0 fun r =>
          if r.status = .acked then 1 else 0) ≤ 1 := by
        cases History.current (first ++ middle) id with
        | none => exact Nat.zero_le _
        | some r =>
          show (if r.status = .acked then 1 else 0) ≤ 1
          split <;> omega
      exact (Nat.le.intro hcount).trans hone
    · -- The attempts of the row count the claims.
      have hcount := hlinked.countP_add (k := id) (p := fun v => decide (v.cause = .claim))
        (m := fun o => o.elim 0 fun r => r.attempts)
        fun v hv hallowed hk => by simpa using hallowed.attempts (hkept v hv hk)
      have hmax : ((History.current (first ++ middle) id).elim 0 fun r => r.attempts) ≤
          cfg.max_attempts := by
        cases hcurrent : History.current (first ++ middle) id with
        | none => exact Nat.zero_le _
        | some r =>
          obtain ⟨l, v, l', hl, -, -, -, hafter, -⟩ :=
            hlinked.since (Q := fun o => o = some r) (by simp) hcurrent
          have hmem : v ∈ s.history := by
            rw [heq, hl]
            simp
          exact (htracked.ok v hmem r hafter).attempts_le
      exact (Nat.le.intro hcount).trans hmax
  · intro v hv
    have hallowed := htracked.linked.allowed v hv
    unfold Allowed at hallowed
    constructor
    · intro r hr hterminal
      rw [hr] at hallowed
      generalize v.after = after at hallowed ⊢
      generalize v.cause = cause at hallowed
      cases hallowed with
      | prune => rfl
      | release _ _ hstatus => simp [hstatus, Status.terminal] at hterminal
      | claim _ hstatus => simp [hstatus, Status.terminal] at hterminal
      | heartbeat _ hstatus => simp [hstatus, Status.terminal] at hterminal
      | ack _ hstatus => simp [hstatus, Status.terminal] at hterminal
      | cancel _ hstatus => simp [hstatus] at hterminal
    · intro hnone
      rw [hnone] at hallowed
      generalize v.before = before at hallowed
      generalize v.cause = cause at hallowed
      cases hallowed
      rfl

/-- The owner of the claimed job sends a heartbeat with the token of its claim. -/
theorem claimedFile_held :
    ∃ first v later, claimedFile.history = first ++ v :: later ∧ v.key = "job-1" ∧
      v.cause = .claim ∧ LeasedUnder "worker-1:token" v.after := by
  have hreturns : (Call.exec smallQueue (.heartbeat "job-1" "worker-1:token" (.finite 102))
      claimedFile).1.toOption.isSome = true := by decide +kernel
  cases hreply : (Call.exec smallQueue (.heartbeat "job-1" "worker-1:token" (.finite 102))
      claimedFile).1 with
  | error e => simp [hreply, Except.toOption] at hreturns
  | ok r =>
    obtain ⟨id, token, first, v, later, hid, htoken, heq, hkey, hcause, hafter, -⟩ :=
      (lease_safety smallQueue claimedFile claimedFile_reachable).2.1 _ _ _ _ r rfl hreply
    have hid' : safeKey "job_id" "job-1" = .ok "job-1" := by decide +kernel
    have htoken' : safeText "lease_token" 256 "worker-1:token" = .ok "worker-1:token" := by
      decide +kernel
    cases hid.symm.trans hid'
    cases htoken.symm.trans htoken'
    exact ⟨first, v, later, heq, hkey, hcause, hafter⟩


/-! ## Requests are not lost -/

/-- What a move makes of a row: the same request goes on, unless the job had ended and its row is removed. -/
theorem Moves.request {cause : Cause} {r : Row} {after : Option Row} (h : Moves cfg cause (some r) after) :
    (∃ r', after = some r' ∧ r'.toRequest = r.toRequest ∧ r.attempts ≤ r'.attempts ∧ r.status.terminal = false) ∨
      after = none ∧ cause = .prune ∧ r.status.terminal = true := by
  cases h with
  | release _ hrequest hstatus _ hattempts =>
    exact .inl ⟨_, rfl, hrequest, hattempts.ge, by rw [hstatus]; rfl⟩
  | claim hrequest hstatus _ hattempts => exact .inl ⟨_, rfl, hrequest, by omega, by rw [hstatus]; rfl⟩
  | heartbeat hrequest hstatus _ hattempts => exact .inl ⟨_, rfl, hrequest, hattempts.ge, by rw [hstatus]; rfl⟩
  | ack hrequest hstatus _ hattempts => exact .inl ⟨_, rfl, hrequest, hattempts.ge, by rw [hstatus]; rfl⟩
  | cancel hrequest hstatus _ hattempts => exact .inl ⟨_, rfl, hrequest, hattempts.ge, hstatus⟩
  | prune hstatus => exact .inr ⟨rfl, rfl, hstatus⟩

/-- The request of a row is still stored, and unchanged if its job had ended. -/
def Stored (k : String) (r : Row) (s : Session) : Prop :=
  ∃ r', s.jobs.find? k = some r' ∧ r'.toRequest = r.toRequest ∧ r.attempts ≤ r'.attempts ∧
    (r.status.terminal = true → r' = r)

/-- Since the version `n` of the file, the row of the request was removed after its job had ended. -/
def Removed (k : String) (r : Row) (n : ℕ) (s : Session) : Prop :=
  ∃ v ∈ s.history.drop n, v.key = k ∧ v.cause = .prune ∧
    ∃ last, v.before = some last ∧ last.toRequest = r.toRequest ∧ last.status.terminal = true

/-- **No accepted request is lost:** after any calls with any clocks, a stored request is still there, in the same
words and with no fewer attempts, or its row was removed by the retention after its job had ended. -/
theorem requests_not_lost (cfg : Config) (s s' : Session) (hsteps : Relation.ReflTransGen (Step cfg) s s')
    (k : String) (r : Row) (hr : s.jobs.find? k = some r) :
    Stored k r s' ∨ Removed k r s.history.length s' := by
  refine (run_invariant (I := fun t => s.history.length ≤ t.history.length ∧
    (Stored k r t ∨ Removed k r s.history.length t)) ?_ ⟨le_rfl, .inl ⟨r, hr, rfl, le_rfl, fun _ => rfl⟩⟩ hsteps).2
  rintro t t' ht ⟨call, rfl⟩
  unfold Call.exec Tx.commit
  cases hrun : call.run cfg t with
  | error e => exact ht
  | ok p =>
    refine (Call.writes hrun).1.invariant (I := fun u => s.history.length ≤ u.history.length ∧
      (Stored k r u ∨ Removed k r s.history.length u)) ?_ ht
    rintro u u' v - hv hw ⟨hlength, hu⟩
    have hdrop : u'.history.drop s.history.length = u.history.drop s.history.length ++ [v] := by
      rw [hw.history, List.drop_append_of_le_length hlength]
    refine ⟨by simp [hw.history, Nat.le_succ_of_le hlength], ?_⟩
    rcases hu with ⟨r', hr', hrequest, hattempts, hended⟩ | ⟨w, hmem, hremoved⟩
    · by_cases hk : k = v.key
      · -- The version is one of the row.
        subst hk
        unfold Allowed at hv
        rw [← hw.before, hr'] at hv
        rcases hv.request with ⟨r'', hafter, hsame, hmore, hopen⟩ | ⟨hnone, hcause, hterminal⟩
        · refine .inl ⟨r'', by rw [hw.find?, if_pos rfl, hafter], hsame.trans hrequest, hattempts.trans hmore, ?_⟩
          intro hterminal
          rw [hended hterminal, hterminal] at hopen
          cases hopen
        · exact .inr ⟨v, by simp [hdrop], rfl, hcause, r', hw.before ▸ hr', hrequest, hterminal⟩
      · exact .inl ⟨r', by rw [hw.find?, if_neg hk, hr'], hrequest, hattempts, hended⟩
    · exact .inr ⟨w, by rw [hdrop]; exact List.mem_append_left _ hmem, hremoved⟩

/-- The request of the enqueued job is stored while the job is claimed. -/
theorem enqueuedFile_kept :
    ∃ r, enqueuedFile.jobs.find? "job-1" = some r ∧
      (Stored "job-1" r claimedFile ∨ Removed "job-1" r enqueuedFile.history.length claimedFile) := by
  have hfound : (enqueuedFile.jobs.find? "job-1").isSome = true := by decide +kernel
  obtain ⟨r, hr⟩ := Option.isSome_iff_exists.mp hfound
  exact ⟨r, hr, requests_not_lost smallQueue enqueuedFile claimedFile (.single ⟨_, rfl⟩) "job-1" r hr⟩

end RickIntelligence.Sqlite
