import RickIntelligence.Knowledge.Effects

/-!
# Receipts are decided once

What each method of `rick_knowledge/publication.py` does to the receipts and the documents, and from
it the ways in which a stored receipt may change in any interleaving (`Receipt.Changes`,
`receipts_write_once`). A call that raises has changed no receipt and no document, although nothing
rolls it back.
-/

namespace RickIntelligence.Knowledge

open Lib

/-! ## Changes of a receipt -/

/-- The snapshot differs in its metadata only. -/
def Snapshot.MetadataEdited (s s' : Snapshot) : Prop := ∃ metadata, s' = { s with metadata }

/-- The snapshot differs in its metadata and its heartbeats only. -/
def Snapshot.Edited (s s' : Snapshot) : Prop :=
  ∃ metadata heartbeats, s' = { s with metadata, heartbeats }

/-- A finish that a decision fills in is not before the start, or the creation. -/
def Snapshot.Finishes (s : Snapshot) (finished_at : Option Instant) : Prop :=
  s.finished_at = none ∧ ∃ t lower, finished_at = some (.seconds t) ∧
    (s.started_at <|> s.created_at) = some (.seconds lower) ∧ lower ≤ t

/-- The ways in which the receipt under a key may change, where `edited` says what a saved snapshot
may differ in. -/
inductive Receipt.Changes (edited : Snapshot → Snapshot → Prop) :
    Option Receipt → Option Receipt → Prop
  | same (r : Option Receipt) : Changes edited r r
  | begins (new : Receipt) (houtcome : new.outcome = .pending)
      (hfinished : new.job_snapshot.finished_at = none) : Changes edited none (some new)
  | cancels (r : Receipt) (houtcome : r.outcome = .pending) :
      Changes edited (some r) (some { r with cancel_requested := true })
  | decides (r : Receipt) (outcome : Outcome) (finished_at : Option Instant)
      (hpending : r.outcome = .pending) (hdecided : outcome ≠ .pending)
      (hfinished : finished_at = r.job_snapshot.finished_at ∨ r.job_snapshot.Finishes finished_at) :
      Changes edited (some r)
        (some { r with outcome, job_snapshot := { r.job_snapshot with finished_at } })
  | saves (r : Receipt) (snapshot : Snapshot) (hedited : edited r.job_snapshot snapshot) :
      Changes edited (some r) (some { r with job_snapshot := snapshot })
  | retries (r new : Receipt) (hfailed : r.outcome = .failed)
      (hattempt : new.attempt_id ≠ r.attempt_id) (houtcome : new.outcome = .pending)
      (hnumber : new.job_snapshot.attempt = r.job_snapshot.attempt + 1)
      (hfinished : new.job_snapshot.finished_at = none) : Changes edited (some r) (some new)

section

variable {env : Env} {s s' : Store}

/-! ## Decisions -/

/-- A validated snapshot has a time that a finish is not before. -/
theorem validated_lower {snapshot : Snapshot} {attempt_id : String} {d : Option String} {u : Unit}
    (h : validatePublicationSnapshot env snapshot attempt_id d = .ok u) :
    ∃ lower, (snapshot.started_at <|> snapshot.created_at) = some (.seconds lower) := by
  simp only [validatePublicationSnapshot, except_bind_ok, raiseFirst_ok] at h
  obtain ⟨_, hchecks, -⟩ := h
  have htimes := hchecks _ (List.mem_cons_of_mem _ List.mem_cons_self)
  simp only [Bool.not_eq_false', Bool.and_eq_true] at htimes
  obtain ⟨⟨hcreated, hstarted⟩, -⟩ := htimes
  cases hs : snapshot.started_at with
  | none =>
    cases hc : snapshot.created_at with
    | none => simp [hc] at hcreated
    | some c =>
      cases c with
      | seconds t => exact ⟨t, rfl⟩
      | invalid => simp [hc, Instant.ok] at hcreated
  | some c =>
    cases c with
    | seconds t => exact ⟨t, rfl⟩
    | invalid => simp [hs, Instant.ok] at hstarted

variable {now : Instant} {r' current record : Receipt} {outcome : Outcome}

/-- A decision fills in the finish, if at all, with a time that is not before the start. -/
theorem terminalPublication_finish {r : Receipt} (h : terminalPublication env now r outcome = .ok r') :
    r.outcome = .pending ∧ ∃ finished_at,
      r' = { r with outcome, job_snapshot := { r.job_snapshot with finished_at } } ∧
      (finished_at = r.job_snapshot.finished_at ∨ r.job_snapshot.Finishes finished_at) := by
  simp only [terminalPublication, except_bind_ok, raiseFirst_ok, List.mem_singleton, forall_eq,
    bne_eq_false_iff_eq, pure, Except.pure, Except.ok.injEq] at h
  obtain ⟨_, hvalid, _, hpending, rfl⟩ := h
  refine ⟨hpending, _, rfl, ?_⟩
  cases hfinished : r.job_snapshot.finished_at with
  | some t => exact .inl rfl
  | none =>
    cases now with
    | invalid => exact .inl rfl
    | seconds t =>
      obtain ⟨lower, hlower⟩ := validated_lower hvalid
      by_cases hbefore : t < lower
      · left
        simp [hlower, isBefore, hbefore]
      · right
        refine ⟨hfinished, t, lower, ?_, hlower, not_lt.mp hbefore⟩
        simp [hlower, isBefore, hbefore]

/-- A decision is a change of the receipt. -/
theorem terminalPublication_changes {r : Receipt} {decided : Outcome}
    (h : terminalPublication env now r outcome = .ok r') (hdecided : decided ≠ .pending) :
    Receipt.Changes Snapshot.Edited (some r) (some { r' with outcome := decided }) := by
  obtain ⟨hpending, finished_at, rfl, hfinished⟩ := terminalPublication_finish h
  exact .decides r decided finished_at hpending hdecided hfinished

/-! ## Stores -/

/-- Receipts are under their keys, and a failed one was not to be cancelled; documents have dates. -/
structure Store.Ok (s : Store) : Prop where
  keys : ∀ k r, s.publications.lookup k = some r → r.key = k
  failed : ∀ k r, s.publications.lookup k = some r → r.outcome = .failed →
    r.cancel_requested = false
  dated : ∀ id d, s.documents.lookup id = some d → d.Dated

/-- A lookup after an insertion. -/
theorem lookup_insert_cases {κ α : Type} [DecidableEq κ] (d : AList fun _ : κ => α) (k k' : κ)
    (a : α) : (d.insert k a).lookup k' = if k' = k then some a else d.lookup k' := by
  split
  · next h =>
    subst h
    exact AList.lookup_insert d
  · next h => exact AList.lookup_insert_ne h

/-- The receipts after a request to cancel. -/
theorem lookup_cancelled (s : Store) (job : Job) (attempt : String) (k : JobKey) :
    (s.cancelled job attempt).lookup k = s.publications.lookup k ∨
      ∃ r, k = job.key ∧ s.publications.lookup k = some r ∧ r.outcome = .pending ∧
        (s.cancelled job attempt).lookup k = some { r with cancel_requested := true } := by
  cases hr : s.publications.lookup job.key with
  | none =>
    left
    unfold Store.cancelled
    rw [hr]
  | some r =>
    by_cases hawaits : r.awaits attempt job.attempt = true
    · have hmarked : s.cancelled job attempt =
          s.publications.insert job.key { r with cancel_requested := true } := by
        unfold Store.cancelled
        rw [hr]
        exact if_pos hawaits
      rw [hmarked, lookup_insert_cases]
      by_cases hk : k = job.key
      · refine .inr ⟨r, hk, hk ▸ hr, ?_, if_pos hk⟩
        simp only [Receipt.awaits, Bool.and_eq_true, beq_iff_eq] at hawaits
        exact hawaits.1.1
      · exact .inl (if_neg hk)
    · left
      unfold Store.cancelled
      rw [hr]
      exact congrArg (AList.lookup k) (if_neg hawaits)

variable {r : Except StoreError Unit} {c : Call} {k : JobKey} {m : Machine}

/-- What a call does to the receipt under a key is one of the changes. -/
theorem Call.Effect.changes (h : c.Effect env s r s') (k : JobKey) :
    Receipt.Changes Snapshot.Edited (s.publications.lookup k) (s'.publications.lookup k) := by
  cases h with
  | nothing => exact .same _
  | begins => exact .same _
  | keeps => exact .same _
  | @requests job attempt record hof hflag hprevious =>
    rcases lookup_cancelled s job attempt k with
      hsame | ⟨p, -, hp, hpending, hmarked⟩
    · show Receipt.Changes _ _ ((s.cancelled job attempt).lookup k)
      rw [hsame]
      exact .same _
    · show Receipt.Changes _ _ ((s.cancelled job attempt).lookup k)
      rw [hmarked, hp]
      exact .cancels p hpending
  | @marks _ key p hp hpending =>
    rw [lookup_insert_cases]
    split
    · next hk =>
      rw [hk, hp]
      exact .cancels p hpending
    · exact .same _
  | @publishes _ job attempt record _ _ hof _ hprevious =>
    rw [lookup_insert_cases]
    split
    · next hk =>
      rw [hk]
      cases hp : s.publications.lookup job.key with
      | none => exact .begins record hof.outcome hof.finished
      | some previous =>
        obtain ⟨hattempt, hfailed, hnumber⟩ := hprevious previous hp
        refine .retries previous record hfailed ?_ hof.outcome (hof.number.trans hnumber) hof.finished
        rw [hof.attempt_id]
        exact hattempt.symm
    · exact .same _
  | @resolves now key attempt outcome decided p p' hp hterminal houtcome hdecided =>
    rw [lookup_insert_cases]
    split
    · next hk =>
      rw [hk, hp]
      refine terminalPublication_changes hterminal ?_
      rw [hdecided]
      split
      · simp
      · exact houtcome
    · exact .same _
  | @sets clock _ _ id status d d' publications tombstones hd hdated hgate hsame hcommit =>
    show Receipt.Changes _ _ (publications.lookup k)
    by_cases hpublished : status = .published
    · rw [hcommit hpublished k]
      cases hp : s.publications.lookup k with
      | none => exact .same _
      | some p =>
        show Receipt.Changes _ _ (some ((p.commit env (clock k) d).toOption.getD p))
        unfold Receipt.commit
        split
        · cases hterminal : terminalPublication env (clock k) p .committed with
          | error e => exact .same _
          | ok p' =>
            obtain ⟨hpending, finished_at, rfl, hfinished⟩ := terminalPublication_finish hterminal
            exact .decides p .committed finished_at hpending (by simp) hfinished
        · exact .same _
    · rw [hsame hpublished]
      exact .same _
  | rewrites => exact .same _

/-- A call that raises has changed no receipt and no document. -/
theorem Call.Effect.raises {e : StoreError} (h : c.Effect env s (.error e) s') :
    s'.publications = s.publications ∧ s'.documents = s.documents := by
  cases h with
  | nothing => exact ⟨rfl, rfl⟩
  | begins => exact ⟨rfl, rfl⟩

/-- A receipt is under its key, and not to be cancelled if it failed. -/
def Receipt.OkAt (k : JobKey) (r : Receipt) : Prop :=
  r.key = k ∧ (r.outcome = .failed → r.cancel_requested = false)

/-- The receipts of a store that is in order. -/
theorem Store.Ok.receipt (hs : s.Ok) {r : Receipt} (h : s.publications.lookup k = some r) : r.OkAt k :=
  ⟨hs.keys k r h, hs.failed k r h⟩

/-- A marked receipt that is pending is in order. -/
theorem Receipt.OkAt.marked {r : Receipt} (h : r.OkAt k) (hpending : r.outcome = .pending) :
    Receipt.OkAt k { r with cancel_requested := true } := by
  refine ⟨h.1, ?_⟩
  intro hfailed
  rw [show r.outcome = .failed from hfailed] at hpending
  cases hpending

/-- A call keeps the receipts in order. -/
theorem Call.Effect.receipts (hs : s.Ok) (h : c.Effect env s r s') {p' : Receipt}
    (hp' : s'.publications.lookup k = some p') : p'.OkAt k := by
  cases h with
  | nothing => exact hs.receipt hp'
  | begins => exact hs.receipt hp'
  | keeps => exact hs.receipt hp'
  | @requests job attempt record hof hflag hprevious =>
    rcases lookup_cancelled s job attempt k with hsame | ⟨p, -, hp, hpending, hmarked⟩
    · exact hs.receipt (hsame ▸ hp')
    · cases hmarked.symm.trans hp'
      exact (hs.receipt hp).marked hpending
  | @marks _ key p hp hpending =>
    rw [lookup_insert_cases] at hp'
    split at hp'
    · next hk =>
      cases hp'
      rw [hk]
      exact (hs.receipt hp).marked hpending
    · exact hs.receipt hp'
  | @publishes _ job attempt record _ _ hof =>
    rw [lookup_insert_cases] at hp'
    split at hp'
    · next hk =>
      cases hp'
      rw [hk]
      refine ⟨hof.key, ?_⟩
      intro hfailed
      rw [hof.outcome] at hfailed
      cases hfailed
    · exact hs.receipt hp'
  | @resolves now key attempt outcome decided p q hp hterminal houtcome hdecided =>
    rw [lookup_insert_cases] at hp'
    split at hp'
    · next hk =>
      obtain ⟨hpending, finished_at, rfl, -⟩ := terminalPublication_finish hterminal
      cases hp'
      rw [hk]
      refine ⟨hs.keys key p hp, ?_⟩
      -- A failure of a receipt that is to be cancelled is a cancellation.
      intro hfailed
      have hfailed' : decided = .failed := hfailed
      show p.cancel_requested = false
      cases hflag : p.cancel_requested with
      | false => rfl
      | true =>
        rw [hdecided, hflag] at hfailed'
        cases outcome <;> simp at hfailed'
    · exact hs.receipt hp'
  | @sets clock _ _ id status d d' publications tombstones hd hdated hgate hsame hcommit =>
    have hp'' : publications.lookup k = some p' := hp'
    by_cases hpublished : status = .published
    · rw [hcommit hpublished k] at hp''
      obtain ⟨p, hp, hcommitted⟩ := Option.map_eq_some_iff.mp hp''
      unfold Receipt.commit at hcommitted
      split at hcommitted
      · cases hterminal : terminalPublication env (clock k) p .committed with
        | error e =>
          rw [hterminal] at hcommitted
          cases hcommitted
          exact hs.receipt hp
        | ok q =>
          rw [hterminal] at hcommitted
          obtain ⟨hpending, finished_at, rfl, -⟩ := terminalPublication_finish hterminal
          cases hcommitted
          refine ⟨hs.keys k p hp, ?_⟩
          intro hfailed
          cases hfailed
      · cases hcommitted
        exact hs.receipt hp
    · rw [hsame hpublished] at hp''
      exact hs.receipt hp''
  | rewrites => exact hs.receipt hp'

/-- A call keeps the store in order. -/
theorem Call.Effect.ok (hs : s.Ok) (h : c.Effect env s r s') : s'.Ok := by
  refine ⟨fun k p hp => (h.receipts hs hp).1, fun k p hp => (h.receipts hs hp).2, ?_⟩
  cases h with
  | nothing => exact hs.dated
  | begins => exact hs.dated
  | keeps => exact hs.dated
  | requests => exact hs.dated
  | marks => exact hs.dated
  | publishes => exact hs.dated
  | resolves => exact hs.dated
  | @sets _ _ _ id status d d' _ _ hd hdated =>
    intro i x hx
    have hx' : (s.documents.insert id d').lookup i = some x := hx
    rw [lookup_insert_cases] at hx'
    split at hx'
    · cases hx'
      exact hdated
    · exact hs.dated i x hx'
  | rewrites dated => exact dated

/-! ## A snapshot that is being saved -/

/-- The stored receipt is the one that was read, unless it was pending and has been marked since. -/
def Receipt.Held (current stored : Receipt) : Prop :=
  stored = current ∨ current.outcome = .pending ∧ stored = { current with cancel_requested := true }

/-- A call under the publication lock leaves a receipt as it is, or marks it. -/
theorem Call.Effect.quiet (h : c.Effect env s r s') (hquiet : c.mutates = false) {p : Receipt}
    (hp : s.publications.lookup k = some p) :
    ∃ p', s'.publications.lookup k = some p' ∧ p.Held p' := by
  cases h with
  | nothing => exact ⟨p, hp, .inl rfl⟩
  | begins => exact ⟨p, hp, .inl rfl⟩
  | keeps => exact ⟨p, hp, .inl rfl⟩
  | @requests job attempt record hof hflag hprevious =>
    rcases lookup_cancelled s job attempt k with hsame | ⟨q, -, hq, hpending, hmarked⟩
    · exact ⟨p, hsame.trans hp, .inl rfl⟩
    · cases hp.symm.trans hq
      exact ⟨_, hmarked, .inr ⟨hpending, rfl⟩⟩
  | @marks _ key q hq hpending =>
    by_cases hk : k = key
    · subst hk
      cases hp.symm.trans hq
      exact ⟨_, AList.lookup_insert _, .inr ⟨hpending, rfl⟩⟩
    · exact ⟨p, (AList.lookup_insert_ne hk).trans hp, .inl rfl⟩
  | publishes _ hmutates => rw [hquiet] at hmutates; cases hmutates
  | resolves => cases hquiet
  | sets => cases hquiet
  | rewrites => cases hquiet

/-- A receipt that is held stays held when it is marked. -/
theorem Receipt.Held.trans {a b c : Receipt} (h : a.Held b) (h' : b.Held c) : a.Held c := by
  rcases h with rfl | ⟨hpending, rfl⟩
  · exact h'
  · rcases h' with rfl | ⟨-, rfl⟩
    · exact .inr ⟨hpending, rfl⟩
    · exact .inr ⟨hpending, rfl⟩

/-- What a `save_publication_snapshot` in progress knows of the store. -/
def Saving.Ok (s : Store) : Saving → Prop
  | read _ current => ∃ stored, s.publications.lookup current.key = some stored ∧ current.Held stored
  | checked record => ∃ (current stored : Receipt) (snapshot : Snapshot),
      record = { current with job_snapshot := snapshot } ∧ current.job_snapshot.Edited snapshot ∧
      s.publications.lookup current.key = some stored ∧ current.Held stored

/-- A call under the publication lock keeps what is known. -/
theorem Call.Effect.saving (h : c.Effect env s r s') (hquiet : c.mutates = false) {x : Saving} (hx : x.Ok s) :
    x.Ok s' := by
  cases x with
  | read job current =>
    obtain ⟨stored, hstored, hheld⟩ := hx
    obtain ⟨stored', hstored', hheld'⟩ := h.quiet hquiet hstored
    exact ⟨stored', hstored', hheld.trans hheld'⟩
  | checked record =>
    obtain ⟨current, stored, snapshot, hrecord, hedited, hstored, hheld⟩ := hx
    obtain ⟨stored', hstored', hheld'⟩ := h.quiet hquiet hstored
    exact ⟨current, stored', snapshot, hrecord, hedited, hstored', hheld.trans hheld'⟩

/-- The read of a `save_publication_snapshot` leaves the store, and knows the receipt. -/
theorem saveRead_spec (hs : s.Ok) (job : Job) :
    Proc.Holds (saveRead job) s fun r s' => s' = s ∧
      ∀ current, r = .ok current → (Saving.read job current).Ok s := by
  have hraise : ∀ e : StoreError, s = s ∧
      ∀ current, (.error e : Except StoreError Receipt) = .ok current →
        (Saving.read job current).Ok s := fun e => ⟨rfl, by simp⟩
  unfold saveRead
  refine holds_getPublication_bind hraise fun _ => ?_
  cases hlookup : s.publications.lookup job.key with
  | none => exact hraise _
  | some current =>
    refine Proc.holds_lift_bind (fun e _ => hraise e) fun _ _ => ?_
    refine Proc.holds_raiseIf_bind (fun _ => hraise _) fun _ => ?_
    refine Proc.holds_raiseIf_bind (fun _ => hraise _) fun _ => ?_
    refine Proc.holds_pure ⟨rfl, ?_⟩
    intro c hc
    cases hc
    exact ⟨current, hs.keys _ _ hlookup ▸ hlookup, .inl rfl⟩

/-- The check of a `save_publication_snapshot` leaves the store, and its record differs from the
receipt in nothing but the metadata and the heartbeats. -/
theorem saveCheck_spec (job : Job) (current : Receipt) :
    Proc.Holds (saveCheck env job current) s fun r s' => s' = s ∧
      ∀ record, r = .ok record → ∃ snapshot, record = { current with job_snapshot := snapshot } ∧
        current.job_snapshot.Edited snapshot := by
  have hraise : ∀ e : StoreError, s = s ∧ ∀ record, (.error e : Except StoreError Receipt) =
      .ok record → ∃ snapshot, record = { current with job_snapshot := snapshot } ∧
        current.job_snapshot.Edited snapshot := fun e => ⟨rfl, by simp⟩
  unfold saveCheck
  refine Proc.holds_lift_bind (fun e _ => hraise e) fun _ _ => ?_
  refine Proc.holds_lift_bind (fun e _ => hraise e) fun candidate _ => ?_
  refine Proc.holds_raiseIf_bind (fun _ => hraise _) fun hfacts => ?_
  simp only [Bool.or_eq_false_iff, bne_eq_false_iff_eq] at hfacts
  obtain ⟨⟨hattempt, hcreated⟩, hstarted⟩ := hfacts
  cases hfinished : current.job_snapshot.finished_at with
  | some finished =>
    refine Proc.holds_raiseIf_bind (fun _ => hraise _) fun hsame => ?_
    refine Proc.holds_pure ⟨rfl, ?_⟩
    intro record hrecord
    cases hrecord
    refine ⟨candidate, rfl, candidate.metadata, candidate.heartbeats, ?_⟩
    have hsame' : candidate.finished_at = some finished := by simpa using hsame
    rw [← hattempt, ← hcreated, ← hstarted, hfinished, ← hsame']
  | none =>
    have hdone : ∀ record, (.ok { current with
        job_snapshot := { candidate with finished_at := none } } : Except StoreError Receipt) =
        .ok record → ∃ snapshot, record = { current with job_snapshot := snapshot } ∧
          current.job_snapshot.Edited snapshot := by
      intro record hrecord
      cases hrecord
      refine ⟨_, rfl, candidate.metadata, candidate.heartbeats, ?_⟩
      rw [← hattempt, ← hcreated, ← hstarted, hfinished]
    show Proc.Holds (if candidate.finished_at.isSome then _ else _) s _
    split
    · refine Proc.holds_raiseIf_bind (fun _ => hraise _) fun _ => ?_
      unfold checkpointSuppliesFinish
      rw [bind_assoc]
      refine holds_getIngestionCheckpoint_bind hraise ?_ ?_
      · intro _
        exact hraise _
      · intro c _ _
        refine Proc.holds_bind (Proc.holds_pure ?_)
        exact Proc.holds_raiseIf_bind (fun _ => hraise _) fun _ => Proc.holds_pure ⟨rfl, hdone⟩
    · exact Proc.holds_pure ⟨rfl, hdone⟩

/-- The record that is written over a held receipt is that receipt with the new snapshot. -/
theorem mergeReceipt_held {stored : Receipt} (snapshot : Snapshot) (hok : stored.OkAt k)
    (hheld : current.Held stored) :
    mergeReceipt (some stored) { current with job_snapshot := snapshot } =
      { stored with job_snapshot := snapshot } := by
  unfold mergeReceipt
  rcases hheld with rfl | ⟨hpending, rfl⟩
  · simp only [if_true, Bool.or_self, ite_self]
    have hfailed : (stored.cancel_requested && stored.outcome == .failed) = false := by
      cases houtcome : stored.outcome with
      | failed => simp [hok.2 houtcome]
      | _ => simp
    simp [hfailed]
  · simp [hpending]

/-- The write of a `save_publication_snapshot` returns, and changes the snapshot of the stored receipt
and nothing else. -/
theorem saveWrite_spec (hs : s.Ok) (hx : (Saving.checked record).Ok s) :
    ∃ stored snapshot, s.publications.lookup record.key = some stored ∧
      stored.job_snapshot.Edited snapshot ∧
      Proc.exec (writePublication record) s = (.ok (), { s with
        publications :=
          s.publications.insert record.key { stored with job_snapshot := snapshot } }) := by
  obtain ⟨current, stored, snapshot, rfl, hedited, hstored, hheld⟩ := hx
  refine ⟨stored, snapshot, hstored, ?_, ?_⟩
  · rcases hheld with rfl | ⟨-, rfl⟩
    · exact hedited
    · exact hedited
  · rw [← mergeReceipt_held snapshot (hs.receipt hstored) hheld, ← hstored]
    rfl

/-! ## Interleavings -/

/-- The store of a machine is in order, and a `save_publication_snapshot` in progress knows it. -/
structure Machine.Ok (m : Machine) : Prop where
  store : m.store.Ok
  saving : ∀ x, m.saving = some x → x.Ok m.store

/-- What every event does: it changes receipts in one of the ways, keeps the machine in order, and
changes no receipt and no document if it raises. -/
structure Machine.Follows (m : Machine) (r : Except StoreError Unit) (m' : Machine) : Prop where
  ok : m'.Ok
  changes : ∀ k, Receipt.Changes Snapshot.Edited (m.store.publications.lookup k)
    (m'.store.publications.lookup k)
  raises : ∀ x, r = .error x → m'.store.publications = m.store.publications ∧
    m'.store.documents = m.store.documents

/-- An event that leaves the store follows when what it knows of the store is so. -/
theorem Machine.Follows.of_store {saving : Option Saving} (hm : m.Ok) (h : ∀ x, saving = some x → x.Ok m.store) :
    m.Follows r ⟨m.store, saving⟩ :=
  ⟨⟨hm.store, h⟩, fun _ => .same _, fun _ _ => ⟨rfl, rfl⟩⟩

/-- A call follows. -/
theorem Call.follows (hm : m.Ok) (c : Call) (hc : c.mutates = true → m.saving = none) :
    m.Follows (c.exec env m.store).1 { m with store := (c.exec env m.store).2 } := by
  have heffect : c.Effect env m.store _ _ := c.effect hm.store.keys hm.store.dated
  refine ⟨⟨heffect.ok hm.store, ?_⟩, heffect.changes, ?_⟩
  · intro x hx
    have hquiet : c.mutates = false := by
      by_contra hmutates
      rw [show m.saving = none from hc (eq_true_of_ne_false hmutates)] at hx
      cases hx
    exact heffect.saving hquiet (hm.saving x hx)
  · intro x hx
    rw [hx] at heffect
    exact heffect.raises

/-- The first step of a `save_publication_snapshot` follows. -/
theorem saveRead_follows (hm : m.Ok) (job : Job) :
    m.Follows ((Event.saveRead job).exec env m).1 ((Event.saveRead job).exec env m).2 := by
  have hspec := saveRead_spec hm.store job
  unfold Proc.Holds at hspec
  unfold Event.exec
  cases hrun : Proc.exec (saveRead job) m.store with
  | mk r s' =>
    rw [hrun] at hspec
    obtain ⟨hs', hread⟩ := hspec
    have hstore : s' = m.store := hs'
    subst hstore
    simp only [hrun]
    cases r with
    | error x => exact .of_store hm (by simp)
    | ok current =>
      refine .of_store hm ?_
      intro x hx
      cases hx
      exact hread current rfl

/-- The second step of a `save_publication_snapshot` follows. -/
theorem saveCheck_follows {s : Store} {job : Job} (hm : Machine.Ok ⟨s, some (.read job current)⟩) :
    Machine.Follows ⟨s, some (.read job current)⟩
      (Event.saveCheck.exec env ⟨s, some (.read job current)⟩).1
      (Event.saveCheck.exec env ⟨s, some (.read job current)⟩).2 := by
  have hspec : Proc.Holds (saveCheck env job current) s _ := saveCheck_spec job current
  unfold Proc.Holds at hspec
  unfold Event.exec
  cases hrun : Proc.exec (saveCheck env job current) s with
  | mk r s' =>
    rw [hrun] at hspec
    obtain ⟨hs', hcheck⟩ := hspec
    have hstore : s' = s := hs'
    subst hstore
    simp only [hrun]
    cases r with
    | error x => exact .of_store hm (by simp)
    | ok record =>
      refine .of_store hm ?_
      intro x hx
      cases hx
      obtain ⟨snapshot, hrecord, hedited⟩ := hcheck record rfl
      obtain ⟨stored, hstored, hheld⟩ := hm.saving _ rfl
      exact ⟨current, stored, snapshot, hrecord, hedited, hstored, hheld⟩

/-- The last step of a `save_publication_snapshot` follows. -/
theorem saveWrite_follows {s : Store} (hm : Machine.Ok ⟨s, some (.checked record)⟩) :
    Machine.Follows ⟨s, some (.checked record)⟩
      (Event.saveWrite.exec env ⟨s, some (.checked record)⟩).1
      (Event.saveWrite.exec env ⟨s, some (.checked record)⟩).2 := by
  obtain ⟨stored, snapshot, hstored, hedited, hrun⟩ := saveWrite_spec hm.store (hm.saving _ rfl)
  have hok := hm.store.receipt hstored
  unfold Event.exec
  simp only [hrun]
  refine ⟨⟨⟨?_, ?_, hm.store.dated⟩, by simp⟩, ?_, by simp⟩
  · intro k p hp
    rw [lookup_insert_cases] at hp
    split at hp
    · next hk =>
      cases hp
      rw [hk]
      exact hok.1
    · exact hm.store.keys k p hp
  · intro k p hp
    rw [lookup_insert_cases] at hp
    split at hp
    · cases hp
      exact hok.2
    · exact hm.store.failed k p hp
  · intro k
    rw [lookup_insert_cases]
    split
    · next hk =>
      rw [hk]
      show Receipt.Changes _ (s.publications.lookup record.key) _
      rw [hstored]
      exact .saves stored snapshot hedited
    · exact .same _

/-- An event that waits for no lock follows. -/
theorem Event.follows (hm : m.Ok) (e : Event) (he : e.Enabled m) :
    m.Follows (e.exec env m).1 (e.exec env m).2 := by
  cases e with
  | call c => exact c.follows hm he
  | saveRead job => exact saveRead_follows hm job
  | saveCheck =>
    obtain ⟨s, saving⟩ := m
    obtain ⟨job, current, rfl⟩ : ∃ job current, saving = some (.read job current) := he
    exact saveCheck_follows hm
  | saveWrite =>
    obtain ⟨s, saving⟩ := m
    obtain ⟨record, rfl⟩ : ∃ record, saving = some (.checked record) := he
    exact saveWrite_follows hm

/-- The machines that events lead to are in order. -/
theorem MachineReachable.ok (hm : MachineReachable env m) : m.Ok := by
  refine run_invariant (I := Machine.Ok) ?_ ?_ hm
  · rintro a _ ha ⟨e, he, rfl⟩
    exact (e.follows ha he).ok
  · have hempty : ∀ {κ α : Type} [DecidableEq κ] (k : κ) (a : α),
        (∅ : AList fun _ : κ => α).lookup k ≠ some a := by
      intro κ α _ k a
      rw [AList.lookup_empty]
      simp
    exact ⟨⟨fun k r h => absurd h (hempty k r), fun k r h => absurd h (hempty k r),
      fun id d h => absurd h (hempty id d)⟩, by simp [Machine.empty]⟩

end

/-- **Receipts are written once.** In any interleaving an event changes the receipt under a key in one
of the ways of `Receipt.Changes`, and so a run is a chain of these changes: a pending receipt is
decided once, a cancellation is noted only while it is pending, a finish is filled in by the decision
only and not before the start, the snapshot changes in its metadata and heartbeats only, and another
attempt replaces a failed one only, with the next number. An event that raises has changed no receipt
and no document. -/
theorem receipts_write_once (env : Env) (m : Machine) (hm : MachineReachable env m) :
    (∀ e : Event, e.Enabled m →
      (∀ k, Receipt.Changes Snapshot.Edited (m.store.publications.lookup k)
        ((e.exec env m).2.store.publications.lookup k)) ∧
      ∀ x, (e.exec env m).1 = .error x →
        (e.exec env m).2.store.publications = m.store.publications ∧
          (e.exec env m).2.store.documents = m.store.documents) ∧
    ∀ (m' : Machine) (k : JobKey), Relation.ReflTransGen (MachineStep env) m m' →
      Relation.ReflTransGen (Receipt.Changes Snapshot.Edited) (m.store.publications.lookup k)
        (m'.store.publications.lookup k) := by
  constructor
  · intro e he
    have hfollows : m.Follows (e.exec env m).1 (e.exec env m).2 := e.follows hm.ok he
    exact ⟨hfollows.changes, hfollows.raises⟩
  · intro m' k hrun
    -- The machine stays in order along the run, so that every event is one of the changes.
    refine (run_invariant (I := fun a => a.Ok ∧ Relation.ReflTransGen
      (Receipt.Changes Snapshot.Edited) (m.store.publications.lookup k)
        (a.store.publications.lookup k)) ?_ ⟨hm.ok, .refl⟩ hrun).2
    rintro a _ ⟨ha, hchain⟩ ⟨e, he, rfl⟩
    have hfollows : a.Follows (e.exec env a).1 (e.exec env a).2 := e.follows ha he
    exact ⟨hfollows.ok, hchain.tail (hfollows.changes k)⟩

/-! ### A saved heartbeat -/

/-- An environment in which every value is encoded. -/
def plainEnv : Env where
  encode_metadata _ := .ok ()
  encode_checkpoint _ := .ok ()
  encode_artifacts _ := .ok ()
  same _ _ := true

/-- A job at its first attempt. -/
def plainJob (heartbeats : List Json) : Job where
  job_id := "job-1"
  tenant_id := "tenant-1"
  workspace_id := "workspace-1"
  collection_id := "rag_phase0"
  document_id := some "document-1"
  status := .other "verifying"
  attempt := 1
  created_at := some (.seconds 100)
  started_at := some (.seconds 101)
  finished_at := none
  cancel_requested := false
  metadata := [("publication_attempt", .str "attempt-1")]
  heartbeats := heartbeats

/-- A heartbeat of the job. -/
def plainHeartbeat : Json := .obj [("stage", .str "verifying")]

/-- The machine after the publication of the job began. -/
def begunMachine : Machine :=
  ((Event.call (.beginPublication (plainJob []) none 0)).exec plainEnv Machine.empty).2

/-- The machine in which the job with a heartbeat was checked against its receipt. -/
def checkedMachine : Machine :=
  (Event.saveCheck.exec plainEnv
    ((Event.saveRead (plainJob [plainHeartbeat])).exec plainEnv begunMachine).2).2

/-- The receipt of a `save_publication_snapshot` that is to be written. -/
def Machine.toWrite? (m : Machine) : Option Receipt :=
  match m.saving with
  | some (.checked record) => some record
  | _ => none

/-- A machine with a record to be written may write it. -/
theorem saveWrite_enabled {m : Machine} (h : m.toWrite?.isSome = true) : Event.saveWrite.Enabled m := by
  unfold Machine.toWrite? at h
  split at h
  · next record hrecord => exact ⟨record, hrecord⟩
  · cases h

/-- Events lead to the checked machine. -/
theorem checkedMachine_reachable : MachineReachable plainEnv checkedMachine := by
  have hread : ∃ job current, ((Event.saveRead (plainJob [plainHeartbeat])).exec plainEnv
      begunMachine).2.saving = some (.read job current) := ⟨_, _, rfl⟩
  refine .tail (.tail (.tail .refl ⟨.call (.beginPublication (plainJob []) none 0), ?_, rfl⟩)
    ⟨.saveRead (plainJob [plainHeartbeat]), ?_, rfl⟩) ⟨.saveCheck, hread, rfl⟩
  · intro _
    rfl
  · rfl

/-- The write of the heartbeat is one of the changes. -/
theorem checkedMachine_changes :
    Receipt.Changes Snapshot.Edited (checkedMachine.store.publications.lookup (plainJob []).key)
      ((Event.saveWrite.exec plainEnv checkedMachine).2.store.publications.lookup
        (plainJob []).key) :=
  ((receipts_write_once plainEnv checkedMachine checkedMachine_reachable).1 .saveWrite
    (saveWrite_enabled (by decide +kernel))).1 _

/-- A change of a receipt of one attempt that edits the metadata only keeps the heartbeats. -/
theorem heartbeats_kept {r r' : Receipt}
    (h : Receipt.Changes Snapshot.MetadataEdited (some r) (some r'))
    (hattempt : r'.attempt_id = r.attempt_id) :
    r'.job_snapshot.heartbeats = r.job_snapshot.heartbeats := by
  cases h with
  | same => rfl
  | cancels => rfl
  | decides => rfl
  | saves _ snapshot hedited =>
    obtain ⟨metadata, rfl⟩ := hedited
    rfl
  | retries _ _ hfailed hne => exact absurd hattempt hne

/-- A saved snapshot changes the heartbeats of its receipt, and not its metadata only. -/
theorem heartbeats_change :
    MachineReachable plainEnv checkedMachine ∧ Event.saveWrite.Enabled checkedMachine ∧
    ¬ Receipt.Changes Snapshot.MetadataEdited
      (checkedMachine.store.publications.lookup (plainJob []).key)
      ((Event.saveWrite.exec plainEnv checkedMachine).2.store.publications.lookup
        (plainJob []).key) := by
  refine ⟨checkedMachine_reachable, saveWrite_enabled (by decide +kernel), ?_⟩
  have hbefore : (checkedMachine.store.publications.lookup (plainJob []).key).map
      (fun r => (r.attempt_id, r.job_snapshot.heartbeats.length)) = some ("attempt-1", 0) := by
    decide +kernel
  have hafter : ((Event.saveWrite.exec plainEnv checkedMachine).2.store.publications.lookup
      (plainJob []).key).map (fun r => (r.attempt_id, r.job_snapshot.heartbeats.length)) =
        some ("attempt-1", 1) := by
    decide +kernel
  obtain ⟨r, hr, hpair⟩ := Option.map_eq_some_iff.mp hbefore
  obtain ⟨r', hr', hpair'⟩ := Option.map_eq_some_iff.mp hafter
  simp only [Prod.mk.injEq] at hpair hpair'
  rw [hr, hr']
  intro hchange
  have hkept := heartbeats_kept hchange (hpair'.1.trans hpair.1.symm)
  rw [hkept, hpair.2] at hpair'
  exact absurd hpair'.2 (by decide)

end RickIntelligence.Knowledge
