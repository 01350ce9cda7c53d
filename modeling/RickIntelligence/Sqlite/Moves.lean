import RickIntelligence.Sqlite.Queue
import RickIntelligence.Lib.Run

/-!
# The moves of a row

What each statement does to a row of the local queue, and every operation as a sequence of such moves
(`Call.writes`). The history of a file is linked by them (`Tracked`), and the invariants of the queue
are proved from the moves.
-/

namespace RickIntelligence.Sqlite

open Lib Jobs

/-- A row without a lease. -/
def Row.Free (r : Row) : Prop := r.lease_until = none ∧ r.lease_owner = none

/-- What a statement may make of a row. -/
inductive Moves (cfg : Config) : Cause → Option Row → Option Row → Prop where
  | enqueue {r : Row} (hstatus : r.status = .queued) (hattempts : r.attempts = 0)
      (hfree : r.Free) : Moves cfg .enqueue none (some r)
  /-- The lease is over, or its owner failed. -/
  | release {cause : Cause} {r r' : Row} (hcause : cause = .recover ∨ cause = .fail)
      (hrequest : r'.toRequest = r.toRequest) (hstatus : r.status = .leased)
      (hstatus' : r'.status = if cfg.max_attempts ≤ r.attempts then .dead else .queued)
      (hattempts : r'.attempts = r.attempts) (hfree : r'.Free) :
      Moves cfg cause (some r) (some r')
  | claim {r r' : Row} (hrequest : r'.toRequest = r.toRequest) (hstatus : r.status = .queued)
      (hstatus' : r'.status = .leased) (hattempts : r'.attempts = r.attempts + 1)
      (huntil : r'.lease_until.isSome = true) (howner : r'.lease_owner.isSome = true) :
      Moves cfg .claim (some r) (some r')
  | heartbeat {r r' : Row} (hrequest : r'.toRequest = r.toRequest) (hstatus : r.status = .leased)
      (hstatus' : r'.status = .leased) (hattempts : r'.attempts = r.attempts)
      (huntil : r'.lease_until.isSome = true) (howner : r'.lease_owner = r.lease_owner) :
      Moves cfg .heartbeat (some r) (some r')
  | ack {r r' : Row} (hrequest : r'.toRequest = r.toRequest) (hstatus : r.status = .leased)
      (hstatus' : r'.status = .acked) (hattempts : r'.attempts = r.attempts) (hfree : r'.Free) :
      Moves cfg .ack (some r) (some r')
  | cancel {r r' : Row} (hrequest : r'.toRequest = r.toRequest)
      (hstatus : r.status.terminal = false) (hstatus' : r'.status = .cancelled)
      (hattempts : r'.attempts = r.attempts) (hfree : r'.Free) :
      Moves cfg .cancel (some r) (some r')
  | prune {r : Row} (hstatus : r.status.terminal = true) : Moves cfg .prune (some r) none

/-- A row version that a statement may write. -/
def Allowed (cfg : Config) (v : RowVersion) : Prop := Moves cfg v.cause v.before v.after

/-! ## Writes -/

/-- A statement wrote a row version. -/
structure Write (s : Session) (v : RowVersion) (s' : Session) : Prop where
  history : s'.history = s.history ++ [v]
  before : s.jobs.find? v.key = v.before
  find? : ∀ k, s'.jobs.find? k = if k = v.key then v.after else s.jobs.find? k

/-- A sequence of row versions of some causes. -/
def Writes (cfg : Config) (C : Cause → Prop) : Session → Session → Prop :=
  Relation.ReflTransGen fun s s' => ∃ v, C v.cause ∧ Allowed cfg v ∧ Write s v s'

namespace Writes

variable {cfg : Config} {C D : Cause → Prop} {s s' s'' : Session}

/-- One row version. -/
theorem single {v : RowVersion} (h : Write s v s') (hv : Allowed cfg v) (hC : C v.cause) :
    Writes cfg C s s' :=
  Relation.ReflTransGen.single ⟨v, hC, hv, h⟩

/-- No row version. -/
theorem refl : Writes cfg C s s := Relation.ReflTransGen.refl

/-- Two sequences. -/
theorem trans (h : Writes cfg C s s') (h' : Writes cfg C s' s'') : Writes cfg C s s'' :=
  Relation.ReflTransGen.trans h h'

/-- Versions of some causes are versions of more of them. -/
theorem mono (h : Writes cfg C s s') (hCD : ∀ c, C c → D c) : Writes cfg D s s' := by
  refine Relation.ReflTransGen.mono ?_ _ _ h
  rintro a b ⟨v, hv, hw⟩
  exact ⟨v, hCD _ hv, hw⟩

/-- What every version keeps, a sequence keeps. -/
theorem invariant {I : Session → Prop}
    (hI : ∀ {s s' : Session} {v : RowVersion}, C v.cause → Allowed cfg v → Write s v s' → I s →
      I s') (h : Writes cfg C s s') (hs : I s) : I s' := by
  refine run_invariant ?_ hs h
  rintro a b ha ⟨v, hC, hv, hw⟩
  exact hI hC hv hw ha

end Writes

/-! ## Statements -/

section

variable {cfg : Config} {s s' : Session} {id token : String} {u : Unit} {r : Option QueueRecord} {now : ℚ}

variable {cause : Cause} {old row : Row} {rows : List Row} {v : RowVersion} {n : ℕ} {C : Cause → Prop}
  {worker : String}

/-- An update of a row that is there writes its version. -/
theorem updateRow_write {f : Progress → Progress} (hold : s.jobs.find? id = some old)
    (h : updateRow id cause f s = .ok (u, s')) :
    Write s ⟨id, cause, some old, some (old.progress f)⟩ s' := by
  simp only [updateRow, Tx.bind_ok, Tx.get_ok] at h
  obtain ⟨_, _, ⟨rfl, rfl⟩, h⟩ := h
  simp only [hold] at h
  obtain rfl := Tx.set_ok.mp h
  refine ⟨rfl, hold, fun k => ?_⟩
  have hfind := Table.find?_modify (t := s.jobs) id (Row.progress_keeps f) k
  rwa [hold, Option.map_some] at hfind

/-- A deletion of a row that is there writes its end. -/
theorem deleteRow_write (hold : s.jobs.find? id = some old) (h : deleteRow id s = .ok (u, s')) :
    Write s ⟨id, .prune, some old, none⟩ s' := by
  simp only [deleteRow, Tx.bind_ok, Tx.get_ok] at h
  obtain ⟨_, _, ⟨rfl, rfl⟩, h⟩ := h
  simp only [hold] at h
  obtain rfl := Tx.set_ok.mp h
  exact ⟨rfl, hold, fun k => Table.find?_erase id k⟩

/-- An insertion writes the first version of a row, whose keys are new. -/
theorem insertRow_write (h : insertRow row s = .ok (u, s')) :
    Write s ⟨row.job_id, .enqueue, none, some row⟩ s' ∧ s.jobs.Admits row := by
  simp only [insertRow, Tx.bind_ok, Tx.get_ok] at h
  obtain ⟨_, _, ⟨rfl, rfl⟩, h⟩ := h
  cases hi : s.jobs.insert? row with
  | none => simp only [hi, Tx.raise_ok] at h
  | some jobs =>
    simp only [hi] at h
    obtain rfl := Tx.set_ok.mp h
    have hadm := (Table.insert?_eq_some.mp hi).1
    refine ⟨⟨rfl, ?_, fun k => Table.find?_insert hi k⟩, hadm⟩
    apply Table.find?_eq_none.mpr
    intro r hr heq
    exact hadm.2.1 (List.mem_map.mpr ⟨r, hr, heq⟩)

/-- Reading a row changes nothing. -/
theorem rowOf_ok :
    rowOf id s = .ok (r, s') ↔ r = (s.jobs.find? id).map decode ∧ s = s' := by
  simp only [rowOf, Tx.bind_ok, Tx.get_ok, Tx.pure_ok]
  constructor
  · rintro ⟨_, _, ⟨rfl, rfl⟩, rfl, rfl⟩
    exact ⟨rfl, rfl⟩
  · rintro ⟨rfl, rfl⟩
    exact ⟨_, _, ⟨rfl, rfl⟩, rfl, rfl⟩

/-- The owned row is leased under the token. -/
theorem ownedRow_some {r : Row} :
    ownedRow id token now s = .ok (some r, s') ↔
      s.jobs.find? id = some r ∧ owned token now r = true ∧ s = s' := by
  simp only [ownedRow, Tx.bind_ok, Tx.get_ok, Tx.pure_ok]
  constructor
  · rintro ⟨_, _, ⟨rfl, rfl⟩, h, rfl⟩
    obtain ⟨hf, hp⟩ := Option.filter_eq_some_iff.mp h
    exact ⟨hf, hp, rfl⟩
  · rintro ⟨hf, hp, rfl⟩
    exact ⟨_, _, ⟨rfl, rfl⟩, Option.filter_eq_some_iff.mpr ⟨hf, hp⟩, rfl⟩

/-- What `_owned_row` asks of the row. -/
theorem owned_iff {r : Row} :
    owned token now r = true ↔ r.status = .leased ∧ r.lease_owner = some token ∧
      ∃ t, r.lease_until = some t ∧ now < t := by
  simp [owned, Option.any_eq_true, and_assoc]

/-! ## Loops -/

/-- Rows that are in the table with their keys, each once. -/
def Found (s : Session) (rows : List Row) : Prop :=
  (∀ r ∈ rows, s.jobs.find? r.key = some r) ∧ (rows.map Row.key).Nodup

/-- Rows of the table are found, each once, in any order and number. -/
theorem found_of_sublist (h : rows.Subperm s.jobs.rows) : Found s rows := by
  obtain ⟨l, hperm, hsub⟩ := h
  refine ⟨?_, ?_⟩
  · intro r hr
    exact Table.find?_of_mem (hsub.subset (hperm.mem_iff.mpr hr))
  · have hnodup : (l.map Row.key).Nodup := List.Nodup.sublist (hsub.map _) s.jobs.pk_nodup
    exact (hperm.map Row.key).nodup_iff.mp hnodup

/-- What is left to do is found after a version of the first row. -/
theorem Found.tail {r : Row} (h : Found s (r :: rows)) (hw : Write s v s') (hkey : v.key = r.key) :
    Found s' rows := by
  obtain ⟨hfound, hnodup⟩ := h
  rw [List.map_cons, List.nodup_cons] at hnodup
  refine ⟨?_, hnodup.2⟩
  intro x hx
  rw [hw.find?, if_neg]
  · exact hfound x (List.mem_cons_of_mem r hx)
  · intro heq
    exact hnodup.1 (List.mem_map.mpr ⟨x, hx, heq.trans hkey⟩)

/-- A leased row that is released, with any time for the next attempt. -/
theorem release_moves (hcause : cause = .recover ∨ cause = .fail) {r : Row} (hstatus : r.status = .leased)
    (error : String) (now available_at : ℚ) :
    Moves cfg cause (some r) (some { r with
      toProgress := { release cfg r.attempts error now r.toProgress with available_at } }) :=
  .release hcause rfl hstatus rfl rfl ⟨rfl, rfl⟩

/-- A leased row is recovered. -/
theorem recoverRow_writes (hrow : s.jobs.find? row.key = some row) (hstatus : row.status = .leased)
    (h : recoverRow cfg now row s = .ok (u, s')) :
    ∃ v, Write s v s' ∧ v.key = row.key ∧ v.cause = .recover ∧ Allowed cfg v := by
  refine ⟨_, updateRow_write hrow h, rfl, rfl, ?_⟩
  unfold Allowed Row.progress
  dsimp only
  split
  · exact release_moves (.inl rfl) hstatus "lease_expired" now row.available_at
  · exact release_moves (.inl rfl) hstatus "lease_expired" now _

/-- Leased rows are recovered one after the other. -/
theorem recoverEach_writes (hrows : Found s rows) (hstatus : ∀ r ∈ rows, r.status = .leased)
    (h : recoverEach cfg now rows s = .ok (u, s')) :
    Writes cfg (· = .recover) s s' := by
  induction rows generalizing s with
  | nil =>
    obtain ⟨-, rfl⟩ := Tx.pure_ok.mp h
    exact .refl
  | cons row rows ih =>
    simp only [recoverEach, Tx.bind_ok] at h
    obtain ⟨_, s₁, hrow, hrest⟩ := h
    obtain ⟨v, hw, hkey, hcause, hv⟩ :=
      recoverRow_writes (hrows.1 row (by simp)) (hstatus row (by simp)) hrow
    have htail := ih (hrows.tail hw hkey) (fun r hr => hstatus r (List.mem_cons_of_mem row hr)) hrest
    exact (Writes.single hw hv hcause).trans htail

/-- `_recover_expired` recovers leased rows. -/
theorem recoverExpired_writes (h : recoverExpired cfg now s = .ok (n, s')) :
    Writes cfg (· = .recover) s s' := by
  simp only [recoverExpired, Tx.bind_ok, Tx.get_ok, Tx.pure_ok] at h
  obtain ⟨_, _, ⟨rfl, rfl⟩, _, _, hrec, -, rfl⟩ := h
  refine recoverEach_writes (found_of_sublist List.filter_sublist.subperm) ?_ hrec
  intro r hr
  have hexp := (List.mem_filter.mp hr).2
  simp only [expired, Bool.and_eq_true, beq_iff_eq] at hexp
  exact hexp.1

/-- Terminal rows are deleted one after the other: their versions end, the others stay, and the count
of the terminal rows falls by their number. -/
theorem deleteEach_writes (cfg : Config) (hrows : Found s rows) (hstatus : ∀ r ∈ rows, r.status.terminal = true)
    (h : deleteEach (rows.map Row.key) s = .ok (u, s')) :
    Writes cfg (· = .prune) s s' ∧ terminalCount s'.jobs + rows.length = terminalCount s.jobs ∧
      ∀ k, k ∉ rows.map Row.key → s'.jobs.find? k = s.jobs.find? k := by
  induction rows generalizing s with
  | nil =>
    obtain ⟨-, rfl⟩ := Tx.pure_ok.mp h
    exact ⟨.refl, rfl, fun _ _ => rfl⟩
  | cons row rows ih =>
    simp only [List.map_cons, deleteEach, Tx.bind_ok] at h
    obtain ⟨_, s₁, hrow, hrest⟩ := h
    have hfound := hrows.1 row (by simp)
    have hterminal := hstatus row (by simp)
    have hw := deleteRow_write hfound hrow
    obtain ⟨htail, hcount, hothers⟩ :=
      ih (hrows.tail hw rfl) (fun r hr => hstatus r (List.mem_cons_of_mem row hr)) hrest
    have hend : Writes cfg (· = .prune) s s₁ := .single hw (.prune hterminal) rfl
    refine ⟨hend.trans htail, ?_, ?_⟩
    · have hfirst := Table.countP_of_find? s.jobs s₁.jobs row.key
        (fun k hk => (hw.find? k).trans (if_neg hk)) fun r => r.status.terminal
      rw [hfound, hw.find?, if_pos rfl] at hfirst
      simp only [Option.toList_some, Option.toList_none, List.countP_nil, List.countP_singleton,
        hterminal, if_true] at hfirst
      unfold terminalCount at hcount ⊢
      rw [List.length_cons]
      omega
    · intro k hk
      rw [List.map_cons, List.mem_cons, not_or] at hk
      rw [hothers k hk.2, hw.find?, if_neg hk.1]

/-- All terminal rows but one may be pruned. -/
theorem terminalCount_le (jobs : JobTable) (preserve : Option String) : terminalCount jobs ≤
    (jobs.rows.filter fun r => r.status.terminal && preserve != some r.job_id).length + 1 := by
  have hsplit := List.countP_eq_countP_filter_add jobs.rows (fun r => r.status.terminal)
    fun r => preserve != some r.job_id
  have hfirst : (jobs.rows.filter fun r => preserve != some r.job_id).countP
      (fun r => r.status.terminal) =
      (jobs.rows.filter fun r => r.status.terminal && preserve != some r.job_id).length := by
    rw [List.countP_filter, List.countP_eq_length_filter]
  -- The rows with the key that is preserved are one row.
  have hsecond : (jobs.rows.filter fun r => !(preserve != some r.job_id)).length ≤ 1 := by
    have hnodup := (List.Nodup.of_map Row.key jobs.pk_nodup).filter
      fun r => !(preserve != some r.job_id)
    have hsub : (jobs.rows.filter fun r => !(preserve != some r.job_id)) ⊆
        (preserve.bind jobs.find?).toList := by
      intro r hr
      obtain ⟨hmem, hkey⟩ := List.mem_filter.mp hr
      have hpreserve : preserve = some r.key := by simpa [Row.key] using hkey
      rw [hpreserve, Option.bind_some, Table.find?_of_mem hmem]
      simp
    exact ((List.subperm_of_subset hnodup hsub).length_le).trans (Option.length_toList_le)
  have hle := List.countP_le_length (p := fun r : Row => r.status.terminal)
    (l := jobs.rows.filter fun r => !(preserve != some r.job_id))
  unfold terminalCount
  omega

/-- `_prune_terminal_rows` leaves no more terminal rows than allowed, and deletes no other rows and
not the one that is preserved. -/
theorem pruneTerminalRows_writes {preserve : Option String} (h : pruneTerminalRows cfg preserve s = .ok (u, s')) :
    Writes cfg (· = .prune) s s' ∧ terminalCount s'.jobs ≤ cfg.max_terminal_rows ∧
      ∀ id, preserve = some id → s'.jobs.find? id = s.jobs.find? id := by
  simp only [pruneTerminalRows, Tx.bind_ok, Tx.get_ok] at h
  obtain ⟨_, _, ⟨rfl, rfl⟩, h⟩ := h
  set candidates := s.jobs.rows.filter fun r =>
    r.status.terminal && preserve != some r.job_id with hcandidates
  have hperm := List.perm_insertionSort pruneLE candidates
  have hmem : ∀ r ∈ pruned cfg preserve s.jobs, r ∈ candidates := fun r hr =>
    hperm.mem_iff.mp (List.mem_of_mem_take hr)
  have hfound : Found s (pruned cfg preserve s.jobs) := by
    refine found_of_sublist ?_
    exact (List.take_sublist _ _).subperm.trans (hperm.subperm.trans List.filter_sublist.subperm)
  have hterminal : ∀ r ∈ pruned cfg preserve s.jobs, r.status.terminal = true := by
    intro r hr
    have := (List.mem_filter.mp (hmem r hr)).2
    simp only [Bool.and_eq_true] at this
    exact this.1
  obtain ⟨hw, hcount, hothers⟩ := deleteEach_writes cfg hfound hterminal h
  refine ⟨hw, ?_, ?_⟩
  · -- At most one terminal row is preserved, and at least one may stay.
    have hcandidates_length := terminalCount_le s.jobs preserve
    rw [← hcandidates] at hcandidates_length
    have hlength : (pruned cfg preserve s.jobs).length =
        min (terminalCount s.jobs - cfg.max_terminal_rows) candidates.length := by
      unfold pruned
      rw [List.length_take, List.length_insertionSort]
    have hpos := cfg.max_terminal_pos
    omega
  · intro id hid
    refine hothers id fun hk => ?_
    obtain ⟨r, hr, rfl⟩ := List.mem_map.mp hk
    have := (List.mem_filter.mp (hmem r hr)).2
    simp [hid, Row.key] at this

/-! ## Counts -/

/-- How a version moves a count of rows. -/
theorem Write.countP (h : Write s v s') (p : Row → Bool) :
    s'.jobs.rows.countP p + v.before.toList.countP p =
      s.jobs.rows.countP p + v.after.toList.countP p := by
  have hcount := Table.countP_of_find? s.jobs s'.jobs v.key
    (fun k hk => (h.find? k).trans (if_neg hk)) p
  rwa [h.before, h.find?, if_pos rfl] at hcount

/-- Only an insertion adds to the rows that are queued or leased. -/
theorem Writes.activeCount_le (h : Writes cfg C s s') (hC : ∀ c, C c → c ≠ .enqueue) :
    activeCount s'.jobs ≤ activeCount s.jobs := by
  refine h.invariant (I := fun t => activeCount t.jobs ≤ activeCount s.jobs) ?_ le_rfl
  intro t t' v hc hv hw ht
  have hcount := hw.countP fun r => !r.status.terminal
  have hle : v.after.toList.countP (fun r => !r.status.terminal) ≤
      v.before.toList.countP fun r => !r.status.terminal := by
    have hne := hC v.cause hc
    have hone : ∀ r : Row, [r].countP (fun r => !r.status.terminal) ≤ 1 := fun r =>
      List.countP_le_length
    unfold Allowed at hv
    revert hv hne
    cases v with
    | mk key cause before after =>
      intro hv hne
      cases hv with
      | enqueue => exact absurd rfl hne
      | release _ _ hstatus =>
        refine (hone _).trans ?_
        simp [hstatus, Status.terminal]
      | claim _ hstatus =>
        refine (hone _).trans ?_
        simp [hstatus, Status.terminal]
      | heartbeat _ hstatus =>
        refine (hone _).trans ?_
        simp [hstatus, Status.terminal]
      | ack _ hstatus =>
        refine (hone _).trans ?_
        simp [hstatus, Status.terminal]
      | cancel _ hstatus =>
        refine (hone _).trans ?_
        simp [hstatus]
      | prune => simp
  unfold activeCount at ht ⊢
  omega

/-- A claim and a heartbeat leave the terminal rows. -/
theorem Writes.terminalCount_eq (h : Writes cfg C s s') (hC : ∀ c, C c → c = .claim ∨ c = .heartbeat) :
    terminalCount s'.jobs = terminalCount s.jobs := by
  refine h.invariant (I := fun t => terminalCount t.jobs = terminalCount s.jobs) ?_ rfl
  intro t t' v hc hv hw ht
  have hcount := hw.countP fun r => r.status.terminal
  have heq : v.after.toList.countP (fun r => r.status.terminal) =
      v.before.toList.countP fun r => r.status.terminal := by
    have hcause := hC v.cause hc
    unfold Allowed at hv
    revert hv hcause
    cases v with
    | mk key cause before after =>
      intro hv hcause
      cases hv with
      | claim _ hstatus hstatus' => simp [hstatus, hstatus', Status.terminal]
      | heartbeat _ hstatus hstatus' => simp [hstatus, hstatus', Status.terminal]
      | release h => rcases h with rfl | rfl <;> simp at hcause
      | enqueue => simp at hcause
      | ack => simp at hcause
      | cancel => simp at hcause
      | prune => simp at hcause
  unfold terminalCount at ht ⊢
  omega

/-! ## Operations -/

/-- The transaction of `enqueue`: expired leases are recovered; a stored key is replayed if the job
and the payload are the same, and a new one is inserted if there is room; and terminal rows are
pruned. -/
theorem enqueueChecked_writes {c : Checked} {r : QueueRecord × Bool}
    (h : enqueueChecked cfg c s = .ok (r, s')) :
    ∃ s₁, Writes cfg (· = .recover) s s₁ ∧ terminalCount s'.jobs ≤ cfg.max_terminal_rows ∧
      ((∃ existing ∈ s₁.jobs.rows, existing.idempotency_key = c.idempotency_key ∧
        decodePayload existing.payload_json = c.payload ∧ existing.job_id = c.job_id ∧
        r = (decode existing, true) ∧ Writes cfg (· = .prune) s₁ s') ∨
      (activeCount s₁.jobs < cfg.max_pending ∧ r.2 = false ∧
        ∃ s₂, Write s₁ ⟨c.job_id, .enqueue, none, some c.row⟩ s₂ ∧
          Writes cfg (· = .prune) s₂ s')) := by
  simp only [enqueueChecked, Tx.bind_ok, Tx.get_ok] at h
  obtain ⟨_, s₁, hrec, _, _, ⟨rfl, rfl⟩, h⟩ := h
  refine ⟨s₁, recoverExpired_writes hrec, ?_⟩
  cases hf : s₁.jobs.rows.find? fun r => r.idempotency_key == c.idempotency_key with
  | some existing =>
    simp only [hf, Tx.bind_ok, Tx.raiseIf_ok, Bool.or_eq_false_iff, bne_eq_false_iff_eq,
      Tx.pure_ok] at h
    obtain ⟨_, _, ⟨⟨hpayload, hid⟩, rfl⟩, _, _, hprune, rfl, rfl⟩ := h
    obtain ⟨hw, hcount, -⟩ := pruneTerminalRows_writes hprune
    refine ⟨hcount, .inl ⟨existing, List.mem_of_find?_eq_some hf, ?_, hpayload, hid, rfl, hw⟩⟩
    simpa using List.find?_some hf
  | none =>
    simp only [hf, Tx.bind_ok, Tx.raiseIf_ok, decide_eq_false_iff_not, not_le, Tx.pure_ok] at h
    obtain ⟨_, _, ⟨hroom, rfl⟩, _, s₂, hins, _, _, hprune, rfl, rfl⟩ := h
    obtain ⟨hw, hcount, -⟩ := pruneTerminalRows_writes hprune
    exact ⟨hcount, .inr ⟨hroom, rfl, s₂, (insertRow_write hins).1, hw⟩⟩

/-- A claimed row was queued. -/
theorem claimOne_writes {owner : String} (h : claimOne cfg owner id now s = .ok (r, s')) :
    Writes cfg (· = .claim) s s' := by
  simp only [claimOne, Tx.bind_ok, Tx.get_ok] at h
  obtain ⟨_, _, ⟨rfl, rfl⟩, h⟩ := h
  cases hf : (s.jobs.find? id).filter fun r => r.status == .queued with
  | none =>
    simp only [hf, Tx.pure_ok] at h
    obtain ⟨-, rfl⟩ := h
    exact .refl
  | some row =>
    simp only [hf, Tx.bind_ok, rowOf_ok] at h
    obtain ⟨_, _, hu, -, rfl⟩ := h
    obtain ⟨hrow, hstatus⟩ := Option.filter_eq_some_iff.mp hf
    refine .single (updateRow_write hrow hu) ?_ rfl
    exact .claim rfl (beq_iff_eq.mp hstatus) rfl rfl rfl rfl

/-- Rows are claimed one after the other. -/
theorem claimEach_writes {token : ℕ → String} {ids : List String} {r : List QueueRecord}
    (h : claimEach cfg token worker now n ids s = .ok (r, s')) : Writes cfg (· = .claim) s s' := by
  induction ids generalizing s n r with
  | nil =>
    obtain ⟨-, rfl⟩ := Tx.pure_ok.mp h
    exact .refl
  | cons id ids ih =>
    simp only [claimEach, Tx.bind_ok, Tx.pure_ok] at h
    obtain ⟨_, _, hfirst, _, _, hothers, -, rfl⟩ := h
    exact (claimOne_writes hfirst).trans (ih hothers)

/-- `claim` recovers, prunes, and claims. -/
theorem claim_writes {token : ℕ → String} {limit : ℤ} {now : Clock} {r : List QueueRecord}
    (h : claim cfg token worker limit now s = .ok (r, s')) :
    Writes cfg (fun c => c = .recover ∨ c = .prune ∨ c = .claim) s s' ∧
      terminalCount s'.jobs ≤ cfg.max_terminal_rows := by
  simp only [claim, Tx.bind_ok, Tx.lift_ok, Tx.raiseIf_ok, Tx.get_ok] at h
  obtain ⟨_, _, ⟨-, rfl⟩, _, _, ⟨-, rfl⟩, _, _, ⟨-, rfl⟩, _, s₁, hrec, _, s₂, hprune, _, _, ⟨rfl, rfl⟩,
    hclaim⟩ := h
  obtain ⟨hw, hcount, -⟩ := pruneTerminalRows_writes hprune
  have hclaims := claimEach_writes hclaim
  refine ⟨?_, ?_⟩
  · have hfirst := (recoverExpired_writes hrec).mono (D := fun c => c = .recover ∨ c = .prune ∨
      c = .claim) fun c hc => .inl hc
    exact hfirst.trans ((hw.mono fun c hc => .inr (.inl hc)).trans
      (hclaims.mono fun c hc => .inr (.inr hc)))
  · rw [hclaims.terminalCount_eq fun c hc => .inl hc]
    exact hcount

/-- The row that an owner names is leased under its token, until after the time of the call. -/
def HeldBy (s : Session) (job_id lease_token : String) (now : Clock) : Prop :=
  ∃ id token t row, safeKey "job_id" job_id = .ok id ∧
    safeText "lease_token" 256 lease_token = .ok token ∧ now = .finite t ∧
    s.jobs.find? id = some row ∧ row.status = .leased ∧ row.lease_owner = some token ∧
    ∃ u, row.lease_until = some u ∧ t < u

/-- A clock that is read is finite. -/
theorem finiteNow_ok {now : Clock} {t : ℚ} : finiteNow now = .ok t ↔ now = .finite t := by
  cases now <;> simp [finiteNow]

/-- `heartbeat` prolongs the lease of its owner. -/
theorem heartbeat_writes {now : Clock} (h : heartbeat cfg id token now s = .ok (r, s')) :
    HeldBy s id token now ∧ Writes cfg (· = .heartbeat) s s' := by
  simp only [heartbeat, Tx.bind_ok, Tx.lift_ok, finiteNow_ok] at h
  obtain ⟨_, _, ⟨hid, rfl⟩, _, _, ⟨htoken, rfl⟩, t, _, ⟨rfl, rfl⟩, row, s₁, hrow, h⟩ := h
  cases row with
  | none =>
    simp only [Tx.bind_ok] at h
    obtain ⟨record, _, -, h⟩ := h
    cases record with
    | none => simp only [Tx.raise_ok] at h
    | some record => simp only [Tx.raise_ok] at h
  | some row =>
    obtain ⟨hfound, howned, rfl⟩ := ownedRow_some.mp hrow
    simp only [Tx.bind_ok, rowOf_ok] at h
    obtain ⟨_, _, hu, -, rfl⟩ := h
    have hheld := owned_iff.mp howned
    refine ⟨⟨_, _, t, row, hid, htoken, rfl, hfound, hheld⟩, .single (updateRow_write hfound hu) ?_ rfl⟩
    unfold Allowed Row.progress
    dsimp only
    rw [if_pos hheld.1]
    exact .heartbeat rfl hheld.1 hheld.1 rfl rfl rfl

/-- `ack` ends the job of its owner. -/
theorem ack_writes {now : Clock} (h : ack cfg id token now s = .ok (r, s')) :
    HeldBy s id token now ∧ Writes cfg (fun c => c = .ack ∨ c = .prune) s s' ∧
      terminalCount s'.jobs ≤ cfg.max_terminal_rows := by
  simp only [ack, Tx.bind_ok, Tx.lift_ok, finiteNow_ok] at h
  obtain ⟨_, _, ⟨hid, rfl⟩, _, _, ⟨htoken, rfl⟩, t, _, ⟨rfl, rfl⟩, row, s₁, hrow, h⟩ := h
  cases row with
  | none => simp only [Tx.raise_ok] at h
  | some row =>
    obtain ⟨hfound, howned, rfl⟩ := ownedRow_some.mp hrow
    simp only [Tx.bind_ok, rowOf_ok, Tx.pure_ok] at h
    obtain ⟨_, s₁, hu, _, _, ⟨-, rfl⟩, _, _, hprune, -, rfl⟩ := h
    have hheld := owned_iff.mp howned
    obtain ⟨hw, hcount, -⟩ := pruneTerminalRows_writes hprune
    refine ⟨⟨_, _, t, row, hid, htoken, rfl, hfound, hheld⟩, ?_, hcount⟩
    have hack : Writes cfg (fun c => c = .ack ∨ c = .prune) s s₁ :=
      .single (updateRow_write hfound hu) (.ack rfl hheld.1 rfl rfl ⟨rfl, rfl⟩) (.inl rfl)
    exact hack.trans (hw.mono fun c hc => .inr hc)

/-- `fail` releases the job of its owner. -/
theorem fail_writes {error : String} {now : Clock} (h : fail cfg id token error now s = .ok (r, s')) :
    HeldBy s id token now ∧ Writes cfg (fun c => c = .fail ∨ c = .prune) s s' ∧
      terminalCount s'.jobs ≤ cfg.max_terminal_rows := by
  simp only [fail, Tx.bind_ok, Tx.lift_ok, finiteNow_ok] at h
  obtain ⟨_, _, ⟨hid, rfl⟩, _, _, ⟨htoken, rfl⟩, safe, _, ⟨-, rfl⟩, t, _, ⟨rfl, rfl⟩, row, s₁, hrow, h⟩ :=
    h
  cases row with
  | none => simp only [Tx.raise_ok] at h
  | some row =>
    obtain ⟨hfound, howned, rfl⟩ := ownedRow_some.mp hrow
    simp only [Tx.bind_ok, rowOf_ok, Tx.pure_ok] at h
    obtain ⟨_, s₁, hu, _, _, ⟨-, rfl⟩, _, _, hprune, -, rfl⟩ := h
    have hheld := owned_iff.mp howned
    obtain ⟨hw, hcount, -⟩ := pruneTerminalRows_writes hprune
    refine ⟨⟨_, _, t, row, hid, htoken, rfl, hfound, hheld⟩, ?_, hcount⟩
    have hfail : Writes cfg (fun c => c = .fail ∨ c = .prune) s s₁ :=
      .single (updateRow_write hfound hu) (release_moves (.inr rfl) hheld.1 safe t _) (.inl rfl)
    exact hfail.trans (hw.mono fun c hc => .inr hc)

/-- `cancel` ends a job that is not yet over. -/
theorem cancel_writes {token : Option String} {now : Clock} (h : cancel cfg id token now s = .ok (r, s')) :
    Writes cfg (fun c => c = .cancel ∨ c = .prune) s s' ∧
      terminalCount s'.jobs ≤ cfg.max_terminal_rows := by
  simp only [cancel, Tx.bind_ok, Tx.lift_ok, Tx.get_ok] at h
  obtain ⟨id', _, ⟨-, rfl⟩, _, _, ⟨-, rfl⟩, _, _, ⟨-, rfl⟩, _, _, ⟨rfl, rfl⟩, h⟩ := h
  cases hf : s.jobs.find? id' with
  | none => simp only [hf, Tx.raise_ok] at h
  | some row =>
    simp only [hf, Tx.bind_ok, Tx.raiseIf_ok] at h
    obtain ⟨_, _, ⟨-, rfl⟩, h⟩ := h
    split at h
    · simp only [Tx.bind_ok, Tx.pure_ok] at h
      obtain ⟨_, _, hprune, -, rfl⟩ := h
      obtain ⟨hw, hcount, -⟩ := pruneTerminalRows_writes hprune
      exact ⟨hw.mono fun c hc => .inr hc, hcount⟩
    · next hstatus =>
      simp only [Tx.bind_ok, rowOf_ok, Tx.pure_ok] at h
      obtain ⟨_, s₁, hu, _, _, ⟨-, rfl⟩, _, _, hprune, -, rfl⟩ := h
      obtain ⟨hw, hcount, -⟩ := pruneTerminalRows_writes hprune
      refine ⟨?_, hcount⟩
      have hcancel : Writes cfg (fun c => c = .cancel ∨ c = .prune) s s₁ :=
        .single (updateRow_write hf hu)
          (.cancel rfl (Bool.eq_false_iff.mpr hstatus) rfl rfl ⟨rfl, rfl⟩) (.inl rfl)
      exact hcancel.trans (hw.mono fun c hc => .inr hc)

/-- `recover` recovers and prunes. -/
theorem recover_writes {now : Clock} (h : recover cfg now s = .ok (n, s')) :
    Writes cfg (fun c => c = .recover ∨ c = .prune) s s' ∧
      terminalCount s'.jobs ≤ cfg.max_terminal_rows := by
  simp only [recover, Tx.bind_ok, Tx.lift_ok, Tx.pure_ok] at h
  obtain ⟨_, _, ⟨-, rfl⟩, _, s₁, hrec, _, _, hprune, -, rfl⟩ := h
  obtain ⟨hw, hcount, -⟩ := pruneTerminalRows_writes hprune
  refine ⟨?_, hcount⟩
  have hfirst := (recoverExpired_writes hrec).mono (D := fun c => c = .recover ∨ c = .prune)
    fun c hc => .inl hc
  exact hfirst.trans (hw.mono fun c hc => .inr hc)

/-- A call that returns wrote allowed row versions, and kept the two budgets. -/
theorem Call.writes {call : Call} {r : Reply} (h : call.run cfg s = .ok (r, s')) :
    Writes cfg (fun _ => True) s s' ∧
      (activeCount s.jobs ≤ cfg.max_pending → activeCount s'.jobs ≤ cfg.max_pending) ∧
      (terminalCount s.jobs ≤ cfg.max_terminal_rows →
        terminalCount s'.jobs ≤ cfg.max_terminal_rows) := by
  -- A call that inserts nothing keeps the first budget.
  have hkeeps : ∀ {C : Cause → Prop}, Writes cfg C s s' → (∀ c, C c → c ≠ .enqueue) →
      Writes cfg (fun _ => True) s s' ∧
        (activeCount s.jobs ≤ cfg.max_pending → activeCount s'.jobs ≤ cfg.max_pending) :=
    fun hw hC => ⟨hw.mono fun _ _ => trivial, (hw.activeCount_le hC).trans⟩
  cases call with
  | enqueue a =>
    obtain ⟨out, hop, -⟩ := Tx.map_ok.mp h
    simp only [Sqlite.enqueue, Tx.bind_ok, Tx.lift_ok] at hop
    obtain ⟨c, _, ⟨-, rfl⟩, hop⟩ := hop
    obtain ⟨s₁, hrec, hcount, ⟨_, -, -, -, -, -, hw⟩ | ⟨hroom, -, s₂, hins, hw⟩⟩ :=
      enqueueChecked_writes hop
    · have hfirst := hrec.mono (D := fun c => c = .recover ∨ c = .prune) fun c hc => .inl hc
      obtain ⟨hwrites, hactive⟩ := hkeeps (hfirst.trans (hw.mono fun c hc => .inr hc))
        (by rintro c (rfl | rfl) <;> decide)
      exact ⟨hwrites, hactive, fun _ => hcount⟩
    · have hinsert : Writes cfg (fun _ => True) s₁ s₂ :=
        .single hins (.enqueue rfl rfl ⟨rfl, rfl⟩) trivial
      refine ⟨?_, ?_, fun _ => hcount⟩
      · exact (hrec.mono fun _ _ => trivial).trans (hinsert.trans (hw.mono fun _ _ => trivial))
      · intro _
        have hone := hins.countP fun r => !r.status.terminal
        have hpruned := hw.activeCount_le (by rintro c rfl; decide)
        simp only [Option.toList_none, List.countP_nil, Option.toList_some, List.countP_singleton]
          at hone
        unfold activeCount at hroom hpruned ⊢
        split at hone <;> omega
  | claim token worker limit now =>
    obtain ⟨out, hop, -⟩ := Tx.map_ok.mp h
    obtain ⟨hw, hcount⟩ := claim_writes hop
    obtain ⟨hwrites, hactive⟩ := hkeeps hw (by rintro c (rfl | rfl | rfl) <;> decide)
    exact ⟨hwrites, hactive, fun _ => hcount⟩
  | heartbeat id token now =>
    obtain ⟨out, hop, -⟩ := Tx.map_ok.mp h
    obtain ⟨-, hw⟩ := heartbeat_writes hop
    obtain ⟨hwrites, hactive⟩ := hkeeps hw (by rintro c rfl; decide)
    refine ⟨hwrites, hactive, fun hcount => ?_⟩
    rw [hw.terminalCount_eq fun c hc => .inr hc]
    exact hcount
  | ack id token now =>
    obtain ⟨out, hop, -⟩ := Tx.map_ok.mp h
    obtain ⟨-, hw, hcount⟩ := ack_writes hop
    obtain ⟨hwrites, hactive⟩ := hkeeps hw (by rintro c (rfl | rfl) <;> decide)
    exact ⟨hwrites, hactive, fun _ => hcount⟩
  | fail id token error now =>
    obtain ⟨out, hop, -⟩ := Tx.map_ok.mp h
    obtain ⟨-, hw, hcount⟩ := fail_writes hop
    obtain ⟨hwrites, hactive⟩ := hkeeps hw (by rintro c (rfl | rfl) <;> decide)
    exact ⟨hwrites, hactive, fun _ => hcount⟩
  | cancel id token now =>
    obtain ⟨out, hop, -⟩ := Tx.map_ok.mp h
    obtain ⟨hw, hcount⟩ := cancel_writes hop
    obtain ⟨hwrites, hactive⟩ := hkeeps hw (by rintro c (rfl | rfl) <;> decide)
    exact ⟨hwrites, hactive, fun _ => hcount⟩
  | recover now =>
    obtain ⟨out, hop, -⟩ := Tx.map_ok.mp h
    obtain ⟨hw, hcount⟩ := recover_writes hop
    obtain ⟨hwrites, hactive⟩ := hkeeps hw (by rintro c (rfl | rfl) <;> decide)
    exact ⟨hwrites, hactive, fun _ => hcount⟩

end

end RickIntelligence.Sqlite
