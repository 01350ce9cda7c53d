import RickIntelligence.Knowledge.Publication

/-!
# What a call does to the store

One lemma for each method of `rick_knowledge/publication.py`, put together to what any call may do
(`Call.Effect`): nothing, to write a checkpoint, to ask for a cancellation, to mark, begin or decide
a receipt, or to change documents. The results about receipts and cancellations rest on this and not
on the bodies of the methods.
-/

namespace RickIntelligence.Knowledge

open Lib

/-! ## Reading -/

section

variable {env : Env} {s : Store} {β : Type} {Q : Except StoreError β → Store → Prop}

/-- A checkpoint is read, or the read raises. -/
theorem holds_getIngestionCheckpoint_bind {key : JobKey} {f : Option Checkpoint → StoreProc β}
    (herror : ∀ e, Q (.error e) s)
    (hnone : s.checkpoints.lookup key = none → Proc.Holds (f none) s Q)
    (hsome : ∀ c, s.checkpoints.lookup key = some c → c.key = key → Proc.Holds (f (some c)) s Q) :
    Proc.Holds (getIngestionCheckpoint env key >>= f) s Q := by
  apply Proc.holds_bind
  unfold getIngestionCheckpoint
  refine Proc.holds_lift_bind (fun e _ => herror e) fun _ _ => Proc.holds_get_bind ?_
  cases hlookup : s.checkpoints.lookup key with
  | none => exact Proc.holds_pure (hnone hlookup)
  | some c =>
    refine Proc.holds_raiseIf_bind (fun _ => herror _) fun hkey => ?_
    refine Proc.holds_lift_bind (fun e _ => herror e) fun _ _ => ?_
    refine Proc.holds_lift_bind (fun e _ => herror e) fun _ _ => ?_
    exact Proc.holds_pure (hsome c hlookup (by simpa using hkey))

/-- A receipt is read, or the read raises for the identities. -/
theorem holds_getPublication_bind {key : JobKey} {f : Option Receipt → StoreProc β}
    (herror : ∀ e, Q (.error e) s)
    (hok : (∀ t, Proc.exec (getPublication key) t = (.ok (t.publications.lookup key), t)) →
      Proc.Holds (f (s.publications.lookup key)) s Q) :
    Proc.Holds (getPublication key >>= f) s Q := by
  apply Proc.holds_bind
  unfold getPublication
  refine Proc.holds_lift_bind (fun e _ => herror e) fun _ hids => Proc.holds_get_bind ?_
  refine Proc.holds_pure (hok ?_)
  intro t
  unfold getPublication
  rw [hids]
  rfl

/-- A checkpoint is written, or its encoding raises. -/
theorem holds_writeIngestionCheckpoint_bind {record : Checkpoint} {f : Unit → StoreProc β}
    (herror : ∀ e, Q (.error e) s)
    (hok : Proc.Holds (f ()) { s with checkpoints := s.checkpoints.insert record.key record } Q) :
    Proc.Holds (writeIngestionCheckpoint env record >>= f) s Q := by
  apply Proc.holds_bind
  unfold writeIngestionCheckpoint
  refine Proc.holds_lift_bind (fun e _ => herror e) fun _ _ => Proc.holds_get_bind ?_
  exact Proc.holds_set hok

end

/-! ## Effects -/

/-- The job that a call presents. -/
def Call.job? : Call → Option Job
  | beginIngestionCheckpoint job | saveIngestionCheckpoint job _ _ | finishIngestionCheckpoint job
  | requestIngestionCancel job | beginPublication job _ _ | requestPublicationCancel job => some job
  | resolvePublication .. | setDocumentStatus .. | rewriteDocuments .. => none

/-- The job carries the attempt in its metadata. -/
def Job.Presents (job : Job) (attempt : String) : Prop :=
  Json.member? "publication_attempt" job.metadata = some (.str attempt)

/-- The receipt of a job waits for the decision on its attempt. -/
def Receipt.awaits (attempt : String) (number : ℤ) (r : Receipt) : Bool :=
  r.outcome == .pending && r.attempt_id == attempt && r.job_snapshot.attempt == number

/-- The receipts after a request to cancel the attempt of a job. -/
def Store.cancelled (s : Store) (job : Job) (attempt : String) : AList fun _ : JobKey => Receipt :=
  match s.publications.lookup job.key with
  | none => s.publications
  | some r =>
    if r.awaits attempt job.attempt then
      s.publications.insert job.key { r with cancel_requested := true }
    else s.publications

/-- A checkpoint is that of a presented job. -/
structure Checkpoint.Of (record : Checkpoint) (job : Job) (attempt : String) : Prop where
  presents : job.Presents attempt
  key : record.key = job.key
  attempt_id : record.attempt_id = attempt
  number : record.job_snapshot.attempt = job.attempt

/-- A receipt is a new one of a presented job. -/
structure Receipt.Of (record : Receipt) (job : Job) (attempt : String) : Prop where
  presents : job.Presents attempt
  key : record.key = job.key
  attempt_id : record.attempt_id = attempt
  number : record.job_snapshot.attempt = job.attempt
  outcome : record.outcome = .pending
  finished : record.job_snapshot.finished_at = none

/-- What a call may do to the store. -/
inductive Call.Effect (env : Env) (s : Store) : Call → Except StoreError Unit → Store → Prop
  | nothing (c : Call) (r : Except StoreError Unit) : Effect env s c r s
  /-- The checkpoint of a first attempt, or of the attempt after the current one. -/
  | begins {c : Call} {job : Job} {attempt : String} {record : Checkpoint}
      (r : Except StoreError Unit) (hjob : c.job? = some job) (hof : record.Of job attempt)
      (hflag : record.cancel_requested = false)
      (hprevious : ∀ current, s.checkpoints.lookup job.key = some current →
        current.attempt_id ≠ attempt ∧ job.attempt = current.job_snapshot.attempt + 1) :
      Effect env s c r { s with checkpoints := s.checkpoints.insert job.key record }
  /-- The checkpoint of the same attempt. A cancellation stays, and a new one is only taken over when
  no receipt of the attempt is pending. -/
  | keeps {c : Call} {key : JobKey} {current new : Checkpoint}
      (hcurrent : s.checkpoints.lookup key = some current)
      (hattempt : new.attempt_id = current.attempt_id)
      (hnumber : new.job_snapshot.attempt = current.job_snapshot.attempt)
      (hflag : current.cancel_requested = true → new.cancel_requested = true)
      (hset : new.cancel_requested = true → current.cancel_requested = true ∨
        ∀ r, s.publications.lookup key = some r → r.attempt_id = current.attempt_id →
          r.outcome ≠ .pending) :
      Effect env s c (.ok ()) { s with checkpoints := s.checkpoints.insert key new }
  /-- A request to cancel, which marks the receipt of the attempt. -/
  | requests {job : Job} {attempt : String} {record : Checkpoint} (hof : record.Of job attempt)
      (hflag : record.cancel_requested = true)
      (hprevious : ∀ current, s.checkpoints.lookup job.key = some current →
        current.attempt_id = attempt ∨ job.attempt = current.job_snapshot.attempt + 1) :
      Effect env s (.requestIngestionCancel job) (.ok ())
        { s with checkpoints := s.checkpoints.insert job.key record,
                 publications := s.cancelled job attempt }
  | marks {c : Call} {key : JobKey} {r : Receipt} (hr : s.publications.lookup key = some r)
      (hpending : r.outcome = .pending) (hquiet : c.mutates = false) :
      Effect env s c (.ok ())
        { s with publications := s.publications.insert key { r with cancel_requested := true } }
  /-- The receipt of a first attempt, or of the attempt after a failed one, with the cancellation of
  the checkpoint. -/
  | publishes {c : Call} {job : Job} {attempt : String} {record : Receipt}
      (hjob : c.job? = some job) (hmutates : c.mutates = true) (hof : record.Of job attempt)
      (hcheckpoint : ∀ current, s.checkpoints.lookup job.key = some current →
        current.attempt_id = attempt ∧ record.cancel_requested = current.cancel_requested)
      (hprevious : ∀ previous, s.publications.lookup job.key = some previous →
        previous.attempt_id ≠ attempt ∧ previous.outcome = .failed ∧
          job.attempt = previous.job_snapshot.attempt + 1) :
      Effect env s c (.ok ()) { s with publications := s.publications.insert job.key record }
  | resolves {now : Instant} {key : JobKey} {attempt : String} {outcome decided : Outcome}
      {r r' : Receipt} (hr : s.publications.lookup key = some r)
      (hterminal : terminalPublication env now r outcome = .ok r') (houtcome : outcome ≠ .pending)
      (hdecided : decided = if r.cancel_requested && outcome == .failed then .cancelled else outcome) :
      Effect env s (.resolvePublication now key attempt outcome) (.ok ())
        { s with publications := s.publications.insert key { r' with outcome := decided } }
  /-- A new status of a document. A commit is for receipts that are not to be cancelled. -/
  | sets {clock : JobKey → Instant} {created_now published_now : Timestamp} {id : String}
      {status : DocumentStatus} {d d' : Document}
      {publications : AList fun _ : JobKey => Receipt} {tombstones : Finset String}
      (hd : s.documents.lookup id = some d) (hdated : d'.Dated)
      (hgate : status = .published → ∀ k r, s.publications.lookup k = some r →
        r.pendingFor d = true → r.cancel_requested = false)
      (hsame : status ≠ .published → publications = s.publications)
      (hcommit : status = .published → ∀ k, publications.lookup k = (s.publications.lookup k).map
        fun r => (r.commit env (clock k) d).toOption.getD r) :
      Effect env s (.setDocumentStatus clock created_now published_now id status) (.ok ())
        { s with publications, documents := s.documents.insert id d', tombstones }
  | rewrites {documents : AList fun _ : String => Document} {tombstones : Finset String}
      (dated : ∀ id d, documents.lookup id = some d → d.Dated) :
      Effect env s (.rewriteDocuments documents tombstones dated) (.ok ())
        { s with documents, tombstones }

variable {job : Job} {attempt : String}

/-- The checks of the identities of a job return its attempt. -/
theorem identities_ok {others : List (Option String)} (h : job.identities others = .ok attempt) :
    job.Presents attempt := by
  simp only [Job.identities, except_bind_ok, pure, Except.pure, Except.ok.injEq] at h
  obtain ⟨value, hvalue, _, hids, rfl⟩ := h
  unfold Job.publicationAttempt at hvalue
  cases hmember : Json.member? "publication_attempt" job.metadata with
  | none => simp [hmember] at hvalue
  | some v =>
    simp only [hmember, Except.ok.injEq] at hvalue
    subst hvalue
    unfold requirePublicationIdentities at hids
    unfold Job.Presents
    cases v with
    | str text => exact hmember
    | _ => simp [Json.text?] at hids

/-- A job whose attempt is compared carries it. -/
theorem isAttempt_true (h : job.isAttempt attempt = .ok true) :
    job.Presents attempt := by
  simp only [Job.isAttempt, except_bind_ok, pure, Except.pure, Except.ok.injEq] at h
  obtain ⟨value, hvalue, htext⟩ := h
  unfold Job.publicationAttempt at hvalue
  cases hmember : Json.member? "publication_attempt" job.metadata with
  | none => simp [hmember] at hvalue
  | some v =>
    simp only [hmember, Except.ok.injEq] at hvalue
    subst hvalue
    unfold Job.Presents
    cases v with
    | str text =>
      simp only [isText, beq_iff_eq] at htext
      rw [hmember, htext]
    | _ => simp [isText] at htext

/-- A snapshot of a job has its attempt and its finish. -/
theorem publicationSnapshot_ok {env : Env} {d : Option String} {snapshot : Snapshot}
    (h : publicationSnapshot env job attempt d = .ok snapshot) :
    snapshot = job.snapshot d := by
  simp only [publicationSnapshot, except_bind_ok, pure, Except.pure, Except.ok.injEq] at h
  obtain ⟨_, _, rfl⟩ := h
  rfl

/-- The facts of a checkpoint are those of the job. -/
theorem checkCheckpointFacts_ok {current : Checkpoint} {u : Unit} (h : checkCheckpointFacts current job = .ok u) :
    current.job_snapshot.attempt = job.attempt ∧ current.job_snapshot.created_at = job.created_at ∧
      ∀ t, current.job_snapshot.started_at = some t → job.started_at = some t := by
  simp only [checkCheckpointFacts] at h
  split at h
  · cases h
  · next hfacts =>
    simp only [Bool.or_eq_true, Bool.and_eq_true, not_or, not_and, bne_iff_ne, ne_eq, not_not] at hfacts
    refine ⟨hfacts.1.1.symm, hfacts.1.2.symm, ?_⟩
    intro t ht
    rw [ht] at hfacts
    exact hfacts.2 rfl

/-! ## Checkpoints -/

section

variable {env : Env} {s : Store}

/-- `begin_ingestion_checkpoint` raises and has written nothing, returns the checkpoint of the
attempt, or writes and returns a new one. -/
theorem beginIngestionCheckpoint_spec (job : Job) :
    Proc.Holds (beginIngestionCheckpoint env job) s fun r s' =>
      (∃ e, r = .error e ∧ s' = s) ∨
      (∃ current attempt, r = .ok current ∧ s' = s ∧
        s.checkpoints.lookup job.key = some current ∧ current.Of job attempt) ∨
      ∃ record attempt, r = .ok record ∧ record.Of job attempt ∧ record.cancel_requested = false ∧
        record.state = .active ∧
        (∀ current, s.checkpoints.lookup job.key = some current →
          (current.attempt_id ≠ attempt ∧ job.attempt = current.job_snapshot.attempt + 1) ∧
            (current.state = .active ∨ current.state = .failed)) ∧
        s' = { s with checkpoints := s.checkpoints.insert job.key record } := by
  unfold beginIngestionCheckpoint
  refine Proc.holds_lift_bind (fun e _ => .inl ⟨e, rfl, rfl⟩) fun attempt hids => ?_
  refine Proc.holds_lift_bind (fun e _ => .inl ⟨e, rfl, rfl⟩) fun snapshot hsnapshot => ?_
  have hof : (job.newCheckpoint attempt snapshot).Of job attempt := by
    refine ⟨identities_ok hids, rfl, rfl, ?_⟩
    rw [publicationSnapshot_ok hsnapshot]
    rfl
  refine holds_getIngestionCheckpoint_bind (fun e => .inl ⟨e, rfl, rfl⟩) ?_ ?_
  · intro hnone
    refine holds_writeIngestionCheckpoint_bind (fun e => .inl ⟨e, rfl, rfl⟩) ?_
    refine Proc.holds_pure (.inr (.inr ⟨_, attempt, rfl, hof, rfl, rfl, ?_, rfl⟩))
    intro current hcurrent
    rw [hnone] at hcurrent
    cases hcurrent
  · intro current hcurrent hkey
    show Proc.Holds (if current.attempt_id = attempt then _ else _) s _
    split
    · next hattempt =>
      refine Proc.holds_lift_bind (fun e _ => .inl ⟨e, rfl, rfl⟩) fun _ hfacts => ?_
      exact Proc.holds_pure (.inr (.inl ⟨current, attempt, rfl, rfl, hcurrent, hof.presents, hkey,
        hattempt, (checkCheckpointFacts_ok hfacts).1⟩))
    · next hattempt =>
      refine Proc.holds_raiseIf_bind (fun _ => .inl ⟨_, rfl, rfl⟩) fun hretry => ?_
      refine holds_writeIngestionCheckpoint_bind (fun e => .inl ⟨e, rfl, rfl⟩) ?_
      refine Proc.holds_pure (.inr (.inr ⟨_, attempt, rfl, hof, rfl, rfl, ?_, rfl⟩))
      intro c hc
      cases hcurrent.symm.trans hc
      simp only [Bool.or_eq_false_iff, bne_eq_false_iff_eq, beq_eq_false_iff_ne] at hretry
      refine ⟨⟨hattempt, hretry.1.1⟩, ?_⟩
      cases hstate : current.state with
      | active => exact .inl rfl
      | failed => exact .inr rfl
      | committed => exact absurd hstate hretry.1.2
      | cancelled => exact absurd hstate hretry.2

/-- The checkpoint that `save_ingestion_checkpoint` writes over the current one. -/
def Checkpoint.saved (current : Checkpoint) (job : Job) (fingerprint : Option Json)
    (artifacts : Json.Members) : Checkpoint :=
  { current with
    document_id := job.document_id, fingerprint, job_snapshot := job.snapshot none, artifacts }

/-- `save_ingestion_checkpoint` changes nothing, or saves over the active checkpoint of its attempt
what has passed the checks. -/
theorem saveIngestionCheckpoint_spec (job : Job) (fingerprint : Option Json)
    (artifacts : Json.Members) :
    Proc.Holds (saveIngestionCheckpoint env job fingerprint artifacts) s fun r s' => s' = s ∨
      (∃ u, r = .ok u) ∧ ∃ current, s.checkpoints.lookup job.key = some current ∧
        current.state = .active ∧ checkCheckpointFacts current job = .ok () ∧
        (∀ f, current.fingerprint = some f →
          fingerprint.any (env.same f) = true ∧ current.document_id = job.document_id) ∧
        current.artifacts.all (outputKept env artifacts) = true ∧
        s' = { s with
          checkpoints := s.checkpoints.insert job.key (current.saved job fingerprint artifacts) } := by
  unfold saveIngestionCheckpoint
  refine Proc.holds_lift_bind (fun _ _ => .inl rfl) fun _ _ => ?_
  refine holds_getIngestionCheckpoint_bind (fun _ => .inl rfl) (fun _ => .inl rfl) ?_
  intro current hcurrent hkey
  refine Proc.holds_lift_bind (fun _ _ => .inl rfl) fun same _ => ?_
  refine Proc.holds_raiseIf_bind (fun _ => .inl rfl) fun hactive => ?_
  refine Proc.holds_lift_bind (fun _ _ => .inl rfl) fun _ hfacts => ?_
  refine Proc.holds_raiseIf_bind (fun _ => .inl rfl) fun hcontract => ?_
  split
  · exact .inl rfl
  · refine Proc.holds_raiseIf_bind (fun _ => .inl rfl) fun hkept => ?_
    refine Proc.holds_lift_bind (fun _ _ => .inl rfl) fun snapshot hsnapshot => ?_
    refine holds_writeIngestionCheckpoint_bind (fun _ => .inl rfl) ?_
    rw [publicationSnapshot_ok hsnapshot]
    refine Proc.holds_pure (.inr ⟨⟨_, rfl⟩, current, hcurrent, ?_, hfacts, ?_, ?_, ?_⟩)
    · simp only [Bool.or_eq_false_iff, bne_eq_false_iff_eq] at hactive
      exact hactive.2
    · intro f hf
      simpa [hf] using hcontract
    · simpa using hkept
    · rw [← hkey]
      rfl

/-- The checkpoint that `finish_ingestion_checkpoint` writes over the current one. -/
def Checkpoint.finished (current : Checkpoint) (job : Job) (state : CheckpointState) : Checkpoint :=
  { current with
    state, artifacts := [], job_snapshot := job.snapshot none,
    cancel_requested := current.cancel_requested || job.cancel_requested }

/-- `finish_ingestion_checkpoint` changes nothing, or ends the checkpoint of its attempt, active or
ended so, when no receipt of the attempt is pending. -/
theorem finishIngestionCheckpoint_spec (job : Job) :
    Proc.Holds (finishIngestionCheckpoint env job) s fun r s' => s' = s ∨
      r = .ok () ∧ ∃ current state, s.checkpoints.lookup job.key = some current ∧
        job.status.state? = some state ∧ (current.state = .active ∨ current.state = state) ∧
        checkCheckpointFacts current job = .ok () ∧
        (∀ t, current.job_snapshot.finished_at = some t → job.finished_at = some t) ∧
        (∀ p, s.publications.lookup job.key = some p → p.attempt_id = current.attempt_id →
          p.outcome = state.outcome) ∧
        s' = { s with
          checkpoints := s.checkpoints.insert job.key (current.finished job state) } := by
  unfold finishIngestionCheckpoint
  refine holds_getIngestionCheckpoint_bind (fun _ => .inl rfl) (fun _ => .inl rfl) ?_
  intro current hcurrent hkey
  refine Proc.holds_lift_bind (fun _ _ => .inl rfl) fun same _ => ?_
  refine Proc.holds_raiseIf_bind (fun _ => .inl rfl) fun _ => ?_
  refine Proc.holds_lift_bind (fun _ _ => .inl rfl) fun _ hfacts => ?_
  refine Proc.holds_raiseIf_bind (fun _ => .inl rfl) fun hfinish => ?_
  cases hstate : job.status.state? with
  | none => exact .inl rfl
  | some state =>
    refine holds_getPublication_bind (fun _ => .inl rfl) fun _ => ?_
    refine Proc.holds_raiseIf_bind (fun _ => .inl rfl) fun houtcome => ?_
    refine Proc.holds_raiseIf_bind (fun _ => .inl rfl) fun _ => ?_
    refine Proc.holds_raiseIf_bind (fun _ => .inl rfl) fun hended => ?_
    refine Proc.holds_lift_bind (fun _ _ => .inl rfl) fun snapshot hsnapshot => ?_
    rw [publicationSnapshot_ok hsnapshot]
    unfold writeIngestionCheckpoint
    refine Proc.holds_lift_bind (fun _ _ => .inl rfl) fun _ _ => Proc.holds_get_bind ?_
    refine Proc.holds_set (.inr ⟨rfl, current, state, hcurrent, rfl, ?_, hfacts, ?_, ?_, ?_⟩)
    · by_cases hactive : current.state = .active
      · exact .inl hactive
      · simp only [Bool.and_eq_false_iff, bne_eq_false_iff_eq] at hended
        exact .inr (hended.resolve_left hactive)
    · intro t ht
      simpa [ht] using hfinish
    · intro p hp hattempt
      simpa only [hp, Option.filter, hattempt, beq_self_eq_true, if_true, Option.any_some,
        bne_eq_false_iff_eq] using houtcome
    · rw [← hkey]
      rfl

/-- The state of a job that is done is a decision. -/
theorem state?_outcome {status : JobStatus} {state : CheckpointState} (h : status.state? = some state) :
    state.outcome ≠ .pending := by
  cases status <;> simp [JobStatus.state?] at h <;> subst h <;> simp [CheckpointState.outcome]

/-! ## Cancellations -/

variable {job : Job} {attempt : String} {record : Receipt} {d : Document} {κ α : Type}

/-- A presented attempt is compared as it is. -/
theorem isAttempt_of_presents (h : job.Presents attempt) (other : String) :
    job.isAttempt other = .ok (attempt == other) := by
  unfold Job.isAttempt Job.publicationAttempt
  rw [show Json.member? "publication_attempt" job.metadata = some (.str attempt) from h]
  rfl

/-- `_mark_publication_cancel` changes nothing, or marks a pending receipt. -/
theorem markPublicationCancel_spec (job : Job) :
    Proc.Holds (markPublicationCancel job) s fun r s' => s' = s ∨
      r = .ok () ∧ ∃ p, s.publications.lookup job.key = some p ∧ p.outcome = .pending ∧
        s' = { s with
          publications := s.publications.insert job.key { p with cancel_requested := true } } := by
  unfold markPublicationCancel
  refine Proc.holds_get_bind ?_
  cases hlookup : s.publications.lookup job.key with
  | none => exact .inl rfl
  | some p =>
    refine Proc.holds_lift_bind (fun _ _ => .inl rfl) fun same _ => ?_
    split
    · next hpending =>
      simp only [Bool.and_eq_true, beq_iff_eq] at hpending
      exact Proc.holds_set (.inr ⟨rfl, p, rfl, hpending.2, rfl⟩)
    · exact .inl rfl

/-- A request to cancel the attempt of a job writes its checkpoint and marks its receipt. -/
theorem cancel_step (record : Checkpoint) {current : Checkpoint} {t : Store} (hof : record.Of job attempt)
    (hflag : record.cancel_requested = true) (hpublications : t.publications = s.publications)
    (hdocuments : t.documents = s.documents) (hchunks : t.chunks = s.chunks)
    (htombstones : t.tombstones = s.tombstones)
    (hcheckpoints : t.checkpoints.insert job.key record = s.checkpoints.insert job.key record)
    (hcurrent : current.attempt_id = attempt) (hrecord : record = { current with cancel_requested := true })
    (hprevious : ∀ c, s.checkpoints.lookup job.key = some c →
      c.attempt_id = attempt ∨ job.attempt = c.job_snapshot.attempt + 1)
    (herror : ∀ e, Call.Effect env s (.requestIngestionCancel job) (.error e) t) :
    Proc.Holds (do
      writeIngestionCheckpoint env { current with cancel_requested := true }
      if (s.publications.lookup job.key).any fun r => r.outcome == .pending &&
          r.attempt_id == current.attempt_id && r.job_snapshot.attempt == job.attempt then
        markPublicationCancel job
      else return ()) t fun r s' => Call.Effect env s (.requestIngestionCancel job) r s' := by
  rw [← hrecord]
  refine holds_writeIngestionCheckpoint_bind herror ?_
  have hwritten : ({ t with checkpoints := t.checkpoints.insert record.key record } : Store) =
      { s with checkpoints := s.checkpoints.insert job.key record } := by
    cases t
    cases s
    simp only at hpublications hdocuments hchunks htombstones hcheckpoints ⊢
    rw [hof.key, hpublications, hdocuments, hchunks, htombstones, hcheckpoints]
  rw [hwritten]
  have heffect : Call.Effect env s _ (.ok ()) _ := .requests hof hflag hprevious
  unfold Store.cancelled at heffect
  cases hlookup : s.publications.lookup job.key with
  | none =>
    rw [hlookup] at heffect
    exact heffect
  | some p =>
    rw [hlookup] at heffect
    simp only [Option.any_some]
    split
    · next hawaits =>
      have hawaits' : p.awaits attempt job.attempt = true := by
        unfold Receipt.awaits
        rw [← hcurrent]
        exact hawaits
      simp only [hawaits', if_true] at heffect
      simp only [Bool.and_eq_true, beq_iff_eq] at hawaits
      unfold markPublicationCancel
      refine Proc.holds_get_bind ?_
      simp only [hlookup]
      rw [isAttempt_of_presents hof.presents]
      refine Proc.holds_lift_bind (fun _ h => by cases h) fun same hsame => ?_
      cases hsame
      rw [if_pos (by simp [hawaits.1.1, hawaits.1.2, hcurrent])]
      exact Proc.holds_set heffect
    · next hawaits =>
      have hawaits' : p.awaits attempt job.attempt = false := by
        unfold Receipt.awaits
        rw [← hcurrent]
        exact eq_false_of_ne_true hawaits
      simp only [hawaits', Bool.false_eq_true, if_false] at heffect
      exact Proc.holds_pure heffect

/-- What `request_ingestion_cancel` does. -/
theorem requestIngestionCancel_effect (job : Job) :
    Proc.Holds (requestIngestionCancel env job) s fun r s' =>
      Call.Effect env s (.requestIngestionCancel job) r s' := by
  unfold requestIngestionCancel
  refine Proc.holds_lift_bind (fun _ _ => .nothing _ _) fun _ _ => ?_
  refine holds_getPublication_bind (fun _ => .nothing _ _) fun _ => ?_
  split
  · exact .nothing _ _
  refine Proc.holds_bind ((beginIngestionCheckpoint_spec job).imp ?_)
  rintro r s' (⟨e, rfl, rfl⟩ | ⟨current, attempt, rfl, rfl, hcurrent, hof⟩ |
    ⟨record, attempt, rfl, hof, hflag, -, hprevious, rfl⟩)
  · exact .nothing _ _
  · -- The attempt has a checkpoint, which is marked.
    show Proc.Holds (if current.state = .committed then _ else _) s' _
    split
    · exact .nothing _ _
    · refine cancel_step { current with cancel_requested := true }
        ⟨hof.presents, hof.key, hof.attempt_id, hof.number⟩ rfl rfl rfl rfl rfl rfl hof.attempt_id rfl ?_
        fun _ => .nothing _ _
      intro c hc
      cases hcurrent.symm.trans hc
      exact .inl hof.attempt_id
  · -- The attempt begins with the request.
    have hbegins : ∀ r, Call.Effect env s (.requestIngestionCancel job) r
        { s with checkpoints := s.checkpoints.insert job.key record } :=
      fun r => .begins r rfl hof hflag fun c hc => (hprevious c hc).1
    show Proc.Holds (if record.state = .committed then _ else _) _ _
    split
    · exact hbegins _
    · refine cancel_step { record with cancel_requested := true }
        ⟨hof.presents, hof.key, hof.attempt_id, hof.number⟩ rfl rfl rfl rfl rfl ?_ hof.attempt_id rfl ?_
        fun e => hbegins _
      · exact AList.insert_insert _
      · intro c hc
        exact .inr (hprevious c hc).1.2

/-! ## Receipts -/

/-- A new receipt is stored as it is. -/
theorem holds_writePublication {key : JobKey} {Q : Except StoreError Unit → Store → Prop} (hkey : record.key = key)
    (hnew : ∀ p, s.publications.lookup key = some p → p.attempt_id ≠ record.attempt_id)
    (h : Q (.ok ()) { s with publications := s.publications.insert key record }) :
    Proc.Holds (writePublication record) s Q := by
  unfold writePublication
  refine Proc.holds_get_bind (Proc.holds_set ?_)
  rw [hkey]
  have hmerge : mergeReceipt (s.publications.lookup key) record = record := by
    unfold mergeReceipt
    cases hp : s.publications.lookup key with
    | none => rfl
    | some p => exact if_neg (hnew p hp)
  rw [hmerge]
  exact h

/-- A new receipt of a job is admitted, or nothing is written. -/
theorem admitReceipt_effect {c : Call} (attempt : String) (hjob : c.job? = some job) (hmutates : c.mutates = true)
    (hof : job.finished_at = none → record.Of job attempt) (hkey : record.key = job.key)
    (hattempt : record.attempt_id = attempt) (hcheckpoint : ∀ current, s.checkpoints.lookup job.key = some current →
      current.attempt_id = attempt ∧ record.cancel_requested = current.cancel_requested) :
    Proc.Holds (admitReceipt job record) s fun r s' => Call.Effect env s c r s' := by
  unfold admitReceipt
  refine holds_getPublication_bind (fun _ => .nothing _ _) fun _ => ?_
  cases hprevious : s.publications.lookup job.key with
  | none =>
    have hnew : ∀ p, s.publications.lookup job.key = some p → False := by simp [hprevious]
    refine Proc.holds_raiseIf_bind (fun _ => .nothing _ _) fun hfinished => ?_
    refine holds_writePublication hkey (fun p hp => (hnew p hp).elim) ?_
    exact .publishes hjob hmutates (hof (by simpa using hfinished)) hcheckpoint
      fun p hp => (hnew p hp).elim
  | some previous =>
    show Proc.Holds (if previous.attempt_id = record.attempt_id then _ else _) s _
    split
    · refine Proc.holds_raiseIf_bind (fun _ => .nothing _ _) fun _ => ?_
      refine Proc.holds_raiseIf_bind (fun _ => .nothing _ _) fun _ => ?_
      exact .nothing _ _
    · next hother =>
      refine Proc.holds_raiseIf_bind (fun _ => .nothing _ _) fun hfailed => ?_
      refine Proc.holds_raiseIf_bind (fun _ => .nothing _ _) fun hnumber => ?_
      refine Proc.holds_raiseIf_bind (fun _ => .nothing _ _) fun hfinished => ?_
      have honly : ∀ p, s.publications.lookup job.key = some p → p = previous := by
        intro p hp
        rw [hprevious] at hp
        cases hp
        rfl
      refine holds_writePublication hkey ?_ (.publishes hjob hmutates
        (hof (by simpa using hfinished)) hcheckpoint ?_)
      · intro p hp
        rw [honly p hp]
        exact hother
      · intro p hp
        rw [honly p hp, ← hattempt]
        exact ⟨hother, by simpa using hfailed, by simpa using hnumber⟩

/-- What `begin_publication` does. -/
theorem beginPublication_effect (job : Job) (document_attempt : Option String) (ready_count : ℤ) :
    Proc.Holds (beginPublication env job document_attempt ready_count) s fun r s' =>
      Call.Effect env s (.beginPublication job document_attempt ready_count) r s' := by
  unfold beginPublication
  refine Proc.holds_lift_bind (fun _ _ => .nothing _ _) fun given _ => ?_
  refine Proc.holds_lift_bind (fun _ _ => .nothing _ _) fun attempt hids => ?_
  refine Proc.holds_raiseIf_bind (fun _ => .nothing _ _) fun _ => ?_
  refine Proc.holds_raiseIf_bind (fun _ => .nothing _ _) fun _ => ?_
  refine Proc.holds_lift_bind (fun _ _ => .nothing _ _) fun snapshot hsnapshot => ?_
  have hsnapshot' := publicationSnapshot_ok hsnapshot
  refine holds_getIngestionCheckpoint_bind (fun _ => .nothing _ _) ?_ ?_
  · intro hnone
    refine admitReceipt_effect attempt rfl rfl ?_ rfl rfl ?_
    · intro hfinished
      rw [hsnapshot']
      exact ⟨identities_ok hids, rfl, rfl, rfl, rfl, hfinished⟩
    · intro current hcurrent
      rw [hnone] at hcurrent
      cases hcurrent
  · intro checkpoint hcheckpoint _
    refine Proc.holds_raiseIf_bind (fun _ => .nothing _ _) fun hsame => ?_
    refine admitReceipt_effect attempt rfl rfl ?_ rfl rfl ?_
    · intro hfinished
      rw [hsnapshot']
      exact ⟨identities_ok hids, rfl, rfl, rfl, rfl, hfinished⟩
    · intro current hcurrent
      rw [hcheckpoint] at hcurrent
      cases hcurrent
      simp only [Bool.or_eq_false_iff, bne_eq_false_iff_eq] at hsame
      exact ⟨hsame.1, rfl⟩

/-- A decision keeps what the receipt is about. -/
theorem terminalPublication_ok {now : Instant} {r r' : Receipt} {outcome : Outcome}
    (h : terminalPublication env now r outcome = .ok r') :
    r.outcome = .pending ∧ ∃ finished_at,
      r' = { r with outcome, job_snapshot := { r.job_snapshot with finished_at } } := by
  simp only [terminalPublication, except_bind_ok, raiseFirst_ok, List.mem_singleton, forall_eq,
    bne_eq_false_iff_eq, pure, Except.pure, Except.ok.injEq] at h
  obtain ⟨_, _, _, hpending, rfl⟩ := h
  exact ⟨hpending, _, rfl⟩

/-- What `resolve_publication` does. -/
theorem resolvePublication_effect (now : Instant) (key : JobKey) (attempt_id : String)
    (outcome : Outcome) (hkeys : ∀ k r, s.publications.lookup k = some r → r.key = k) :
    Proc.Holds (Call.run env (.resolvePublication now key attempt_id outcome)) s fun r s' =>
      Call.Effect env s (.resolvePublication now key attempt_id outcome) r s' := by
  show Proc.Holds (do let _ ← resolvePublication env now key attempt_id outcome) s _
  refine Proc.holds_bind ?_
  unfold resolvePublication
  refine Proc.holds_raiseIf_bind (fun _ => .nothing _ _) fun houtcome => ?_
  refine holds_getPublication_bind (fun _ => .nothing _ _) fun hread => ?_
  cases hcurrent : s.publications.lookup key with
  | none => exact .nothing _ _
  | some current =>
    refine Proc.holds_raiseIf_bind (fun _ => .nothing _ _) fun _ => ?_
    split
    · refine Proc.holds_raiseIf_bind (fun _ => .nothing _ _) fun _ => ?_
      exact .nothing _ _
    · refine Proc.holds_lift_bind (fun _ _ => .nothing _ _) fun decided hdecided => ?_
      obtain ⟨hpending, finished_at, rfl⟩ := terminalPublication_ok hdecided
      unfold writePublication
      refine Proc.holds_bind (Proc.holds_get_bind (Proc.holds_set ?_))
      show Proc.Holds (getPublication key) _ _
      unfold Proc.Holds
      rw [hread]
      have hkey := hkeys key current hcurrent
      have hmerge : mergeReceipt (s.publications.lookup key) { current with
          outcome, job_snapshot := { current.job_snapshot with finished_at } } = { current with
          outcome := if current.cancel_requested && outcome == .failed then .cancelled else outcome
          job_snapshot := { current.job_snapshot with finished_at } } := by
        unfold mergeReceipt
        simp [hcurrent, hpending]
      have heffect : Call.Effect env s (.resolvePublication now key attempt_id outcome) (.ok ()) _ :=
        .resolves hcurrent hdecided (by simpa using houtcome) rfl
      rw [← hmerge] at heffect
      rw [show Receipt.key { current with outcome, job_snapshot := { current.job_snapshot with
        finished_at } } = key from hkey]
      exact heffect

/-! ## Documents -/

/-- The lineage of a document with dates is filled, and has dates. -/
theorem materializeLineage_dated (h : d.Dated) (created_now published_now : Timestamp) (isPublished : Bool) :
    (materializeLineage created_now published_now isPublished d).1 = .ok () ∧
      (materializeLineage created_now published_now isPublished d).2.Dated := by
  obtain ⟨created, hcreated, hblank⟩ := h.created
  unfold materializeLineage timestampText
  simp only [hcreated, if_neg hblank, Option.getD_some]
  have hstrip : strip (strip created) ≠ "" := by rwa [strip_strip]
  cases hpublished : d.published_at with
  | none =>
    refine ⟨rfl, ⟨⟨strip created, rfl, hstrip⟩, ?_⟩⟩
    intro t ht
    cases isPublished with
    | false => cases ht
    | true =>
      cases ht
      exact published_now.not_blank
  | some p =>
    have hp := h.published p hpublished
    simp only [if_neg hp]
    refine ⟨trivial, ⟨⟨strip created, rfl, hstrip⟩, ?_⟩⟩
    intro t ht
    have ht' : some (strip p) = some t := by
      cases isPublished <;> exact ht
    cases ht'
    rwa [strip_strip]

/-- The values of a mapped dictionary. -/
theorem lookup_mapValues [DecidableEq κ] (f : κ → α → α) (d : AList fun _ : κ => α) (k : κ) :
    (mapValues f d).lookup k = (d.lookup k).map (f k) := by
  unfold mapValues AList.lookup
  exact List.dlookup_map₂ k

/-- The entries of a dictionary are what it looks up. -/
theorem mem_entries [DecidableEq κ] {d : AList fun _ : κ => α} {k : κ} {a : α} :
    ⟨k, a⟩ ∈ d.entries ↔ d.lookup k = some a := by
  unfold AList.lookup
  exact (List.mem_dlookup_iff d.nodupKeys).symm

/-- The receipts after a commit. -/
theorem commitAll_ok {clock : JobKey → Instant} {publications publications' : AList fun _ : JobKey => Receipt}
    (h : commitAll env clock d publications = .ok publications') (k : JobKey) :
    publications'.lookup k = (publications.lookup k).map
      fun r => (r.commit env (clock k) d).toOption.getD r := by
  unfold commitAll at h
  split at h
  · cases h
  · cases h
    exact lookup_mapValues _ _ _

/-- What `set_document_status` does in a store whose documents have dates. -/
theorem setDocumentStatus_effect (hdated : ∀ id d, s.documents.lookup id = some d → d.Dated)
    (clock : JobKey → Instant) (created_now published_now : Timestamp) (id : String)
    (status : DocumentStatus) :
    Proc.Holds (setDocumentStatus env clock created_now published_now id status) s fun r s' =>
      Call.Effect env s (.setDocumentStatus clock created_now published_now id status) r s' := by
  unfold setDocumentStatus
  refine Proc.holds_raiseIf_bind (fun _ => .nothing _ _) fun _ => Proc.holds_get_bind ?_
  cases hd : s.documents.lookup id with
  | none => exact .nothing _ _
  | some d =>
    refine Proc.holds_raiseIf_bind (fun _ => .nothing _ _) fun hgate => ?_
    refine Proc.holds_raiseIf_bind (fun _ => .nothing _ _) fun _ => ?_
    refine Proc.holds_lift_bind (fun _ _ => .nothing _ _) fun publications hpublications => ?_
    have hd' : Document.Dated { d with status } := ⟨(hdated id d hd).created, (hdated id d hd).published⟩
    obtain ⟨hok, hleft⟩ := materializeLineage_dated hd' created_now published_now (status == .published)
    refine Proc.holds_set_bind ?_
    rw [hok]
    refine Proc.holds_lift_bind (fun _ h => by cases h) fun _ _ => Proc.holds_set ?_
    refine .sets hd hleft ?_ ?_ ?_
    · intro hpublished k r hr hpending
      simp only [hpublished, beq_self_eq_true, Bool.true_and, List.any_eq_false] at hgate
      have hentry := hgate ⟨k, r⟩ (mem_entries.mpr hr)
      simpa [hpending] using hentry
    · intro hother
      rw [if_neg hother] at hpublications
      exact (Except.ok.inj hpublications).symm
    · intro hpublished k
      rw [if_pos hpublished] at hpublications
      exact commitAll_ok hpublications k

/-- **What a call does**, in a store whose receipts are under their keys and whose documents have
dates. -/
theorem Call.effect (hkeys : ∀ k r, s.publications.lookup k = some r → r.key = k)
    (hdated : ∀ id d, s.documents.lookup id = some d → d.Dated) (c : Call) :
    c.Effect env s (c.exec env s).1 (c.exec env s).2 := by
  cases c with
  | beginIngestionCheckpoint job =>
    refine Proc.holds_bind ((beginIngestionCheckpoint_spec job).imp ?_)
    rintro r s' (⟨e, rfl, rfl⟩ | ⟨current, attempt, rfl, rfl, -, -⟩ |
      ⟨record, attempt, rfl, hof, hflag, -, hprevious, rfl⟩)
    · exact .nothing _ _
    · exact .nothing _ _
    · exact .begins _ rfl hof hflag fun c hc => (hprevious c hc).1
  | saveIngestionCheckpoint job fingerprint artifacts =>
    refine Proc.holds_bind ((saveIngestionCheckpoint_spec job fingerprint artifacts).imp ?_)
    rintro r s' (rfl | ⟨⟨u, rfl⟩, current, hcurrent, -, hfacts, -, -, rfl⟩)
    · cases r <;> exact .nothing _ _
    · exact .keeps hcurrent rfl (checkCheckpointFacts_ok hfacts).1.symm id .inl
  | finishIngestionCheckpoint job =>
    refine (finishIngestionCheckpoint_spec job).imp ?_
    rintro r s' (rfl | ⟨rfl, current, state, hcurrent, hstate, -, hfacts, -, hreceipt, rfl⟩)
    · exact .nothing _ _
    · refine .keeps hcurrent rfl (checkCheckpointFacts_ok hfacts).1.symm ?_ fun _ => .inr ?_
      · intro hflag
        simp [Checkpoint.finished, hflag]
      · -- The receipt of the attempt has the outcome of the status, which is a decision.
        intro p hp hattempt
        rw [hreceipt p hp hattempt]
        exact state?_outcome hstate
  | requestIngestionCancel job => exact requestIngestionCancel_effect job
  | beginPublication job document_attempt ready_count =>
    exact beginPublication_effect job document_attempt ready_count
  | resolvePublication now key attempt_id outcome =>
    exact resolvePublication_effect now key attempt_id outcome hkeys
  | requestPublicationCancel job =>
    show Proc.Holds (Knowledge.requestPublicationCancel job) s _
    unfold Knowledge.requestPublicationCancel
    refine Proc.holds_lift_bind (fun _ _ => .nothing _ _) fun _ _ => ?_
    refine (markPublicationCancel_spec job).imp ?_
    rintro r s' (rfl | ⟨rfl, p, hp, hpending, rfl⟩)
    · exact .nothing _ _
    · exact .marks hp hpending rfl
  | setDocumentStatus clock created_now published_now id status =>
    exact setDocumentStatus_effect hdated clock created_now published_now id status
  | rewriteDocuments documents tombstones dated => exact .rewrites dated

end

end RickIntelligence.Knowledge
