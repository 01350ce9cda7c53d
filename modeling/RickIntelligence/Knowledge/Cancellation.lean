import RickIntelligence.Knowledge.Receipts

/-!
# A cancellation reaches the commit gate

The request to cancel an attempt is noted on its checkpoint, and the commit gate looks at receipts.
The flag is handed over in two places: a request marks a receipt that is there, and a receipt that
begins later takes the flag of the checkpoint. In any interleaving of calls in which an attempt is
presented with one number, no order misses both (`cancellation_reaches_gate`).
-/

namespace RickIntelligence.Knowledge

open Lib

/-- Every job that a call presents carries the number of its attempt. -/
def Call.Numbered (number : String → ℤ) (c : Call) : Prop :=
  ∀ job attempt, c.job? = some job → job.Presents attempt → job.attempt = number attempt

/-- The call does not resolve a publication to `committed`. -/
def Call.Uncommitted : Call → Prop
  | resolvePublication _ _ _ outcome => outcome ≠ .committed
  | _ => True

/-- One call of the worker or of a client that cancels. -/
def CancelStep (env : Env) (number : String → ℤ) (s s' : Store) : Prop :=
  ∃ c : Call, c.Numbered number ∧ c.Uncommitted ∧ s' = (c.exec env s).2

/-- The stores that calls lead to from an empty one. -/
def CancelReachable (env : Env) (number : String → ℤ) : Store → Prop :=
  Relation.ReflTransGen (CancelStep env number) Store.empty

section

variable {env : Env} {number : String → ℤ} {s s' : Store} {c : Call} {r : Except StoreError Unit}

/-! ## Checkpoints and receipts agree -/

/-- Checkpoints and receipts have the numbers of their attempts, and a pending receipt has the flag of
the checkpoint of its attempt. -/
structure Store.Agrees (number : String → ℤ) (s : Store) : Prop where
  checkpoints : ∀ k cp, s.checkpoints.lookup k = some cp →
    cp.job_snapshot.attempt = number cp.attempt_id
  receipts : ∀ k p, s.publications.lookup k = some p →
    p.job_snapshot.attempt = number p.attempt_id
  flags : ∀ k cp p, s.checkpoints.lookup k = some cp → s.publications.lookup k = some p →
    cp.cancel_requested = true → p.attempt_id = cp.attempt_id → p.outcome = .pending →
    p.cancel_requested = true

/-- A receipt comes from another of the same attempt, which it is or marks if it is still pending. -/
structure Receipt.From (p p' : Receipt) : Prop where
  attempt_id : p'.attempt_id = p.attempt_id
  number : p'.job_snapshot.attempt = p.job_snapshot.attempt
  pending : p'.outcome = .pending →
    p.outcome = .pending ∧ (p' = p ∨ p' = { p with cancel_requested := true })

/-- A receipt comes from itself. -/
theorem Receipt.From.refl (p : Receipt) : p.From p := ⟨rfl, rfl, fun h => ⟨h, .inl rfl⟩⟩

variable {p p' : Receipt} {k : JobKey}

/-- A marked receipt comes from the receipt. -/
theorem Receipt.From.mark (h : p.outcome = .pending) :
    p.From { p with cancel_requested := true } := ⟨rfl, rfl, fun _ => ⟨h, .inr rfl⟩⟩

/-- A decided receipt comes from the receipt. -/
theorem Receipt.From.decided {now : Instant} {outcome decided : Outcome}
    (h : terminalPublication env now p outcome = .ok p') (hdecided : decided ≠ .pending) :
    p.From { p' with outcome := decided } := by
  obtain ⟨-, finished_at, rfl, -⟩ := terminalPublication_finish h
  exact ⟨rfl, rfl, fun hpending => absurd hpending hdecided⟩

/-- A receipt after a call comes from the one before it, or is a new one of the job, with the flag of
the checkpoint. -/
theorem Call.Effect.receiptFrom (h : c.Effect env s r s') (hp' : s'.publications.lookup k = some p') :
    (∃ p, s.publications.lookup k = some p ∧ p.From p') ∨
    ∃ job attempt, k = job.key ∧ c.job? = some job ∧ p'.Of job attempt ∧
      s'.checkpoints = s.checkpoints ∧
      ∀ cp, s.checkpoints.lookup k = some cp →
        cp.attempt_id = attempt ∧ p'.cancel_requested = cp.cancel_requested := by
  cases h with
  | nothing => exact .inl ⟨p', hp', .refl p'⟩
  | begins => exact .inl ⟨p', hp', .refl p'⟩
  | keeps => exact .inl ⟨p', hp', .refl p'⟩
  | @requests job attempt record =>
    rcases lookup_cancelled s job attempt k with hold | ⟨p, -, hp, hpending, hmarked⟩
    · exact .inl ⟨p', hold.symm.trans hp', .refl p'⟩
    · cases hmarked.symm.trans hp'
      exact .inl ⟨p, hp, .mark hpending⟩
  | @marks _ key p hp hpending =>
    rw [lookup_insert_cases] at hp'
    split at hp'
    · next hk =>
      cases hp'
      exact .inl ⟨p, hk ▸ hp, .mark hpending⟩
    · exact .inl ⟨p', hp', .refl p'⟩
  | @publishes _ job attempt record hjob _ hof hcheckpoint _ =>
    rw [lookup_insert_cases] at hp'
    split at hp'
    · next hk =>
      cases hp'
      refine .inr ⟨job, attempt, hk, hjob, hof, rfl, ?_⟩
      rw [hk]
      exact hcheckpoint
    · exact .inl ⟨p', hp', .refl p'⟩
  | @resolves now key attempt outcome decided p q hp hterminal houtcome hdecided =>
    rw [lookup_insert_cases] at hp'
    split at hp'
    · next hk =>
      cases hp'
      refine .inl ⟨p, hk ▸ hp, .decided hterminal ?_⟩
      rw [hdecided]
      split
      · simp
      · exact houtcome
    · exact .inl ⟨p', hp', .refl p'⟩
  | @sets clock _ _ id status d d' publications tombstones hd hdated hgate hkept hcommit =>
    have hp'' : publications.lookup k = some p' := hp'
    by_cases hpublished : status = .published
    · rw [hcommit hpublished k] at hp''
      obtain ⟨p, hp, hcommitted⟩ := Option.map_eq_some_iff.mp hp''
      refine .inl ⟨p, hp, ?_⟩
      unfold Receipt.commit at hcommitted
      split at hcommitted
      · cases hterminal : terminalPublication env (clock k) p .committed with
        | error e =>
          rw [hterminal] at hcommitted
          cases hcommitted
          exact .refl _
        | ok q =>
          rw [hterminal] at hcommitted
          obtain ⟨-, finished_at, rfl, -⟩ := terminalPublication_finish hterminal
          cases hcommitted
          exact .decided hterminal (by simp)
      · cases hcommitted
        exact .refl _
    · rw [hkept hpublished] at hp''
      exact .inl ⟨p', hp'', .refl p'⟩
  | rewrites => exact .inl ⟨p', hp', .refl p'⟩

/-- What a call may write over a checkpoint. -/
inductive Checkpoint.After (s s' : Store) (c : Call) (k : JobKey) (cp' : Checkpoint) : Prop
  | same (hcp : s.checkpoints.lookup k = some cp')
  | kept {cp : Checkpoint} (hcp : s.checkpoints.lookup k = some cp)
      (hattempt : cp'.attempt_id = cp.attempt_id)
      (hnumber : cp'.job_snapshot.attempt = cp.job_snapshot.attempt)
      (hflag : cp.cancel_requested = true → cp'.cancel_requested = true)
      (hset : cp'.cancel_requested = true → cp.cancel_requested = true ∨
        ∀ p, s.publications.lookup k = some p → p.attempt_id = cp.attempt_id → p.outcome ≠ .pending)
      (hpublications : s'.publications = s.publications)
  | begun {job : Job} {attempt : String} (hkey : k = job.key) (hjob : c.job? = some job)
      (hof : cp'.Of job attempt) (hflag : cp'.cancel_requested = false)
      (hprevious : ∀ cp, s.checkpoints.lookup k = some cp →
        job.attempt = cp.job_snapshot.attempt + 1)
  | requested {job : Job} {attempt : String} (hkey : k = job.key) (hjob : c.job? = some job)
      (hof : cp'.Of job attempt) (hflag : cp'.cancel_requested = true)
      (hprevious : ∀ cp, s.checkpoints.lookup k = some cp →
        cp.attempt_id = attempt ∨ job.attempt = cp.job_snapshot.attempt + 1)
      (hpublications : s'.publications = s.cancelled job attempt)

/-- A checkpoint after a call is one of these. -/
theorem Call.Effect.checkpointAfter (h : c.Effect env s r s') {cp' : Checkpoint}
    (hcp' : s'.checkpoints.lookup k = some cp') : Checkpoint.After s s' c k cp' := by
  cases h with
  | @begins _ job attempt record _ hjob hof hflag hprevious =>
    rw [lookup_insert_cases] at hcp'
    split at hcp'
    · next hk =>
      cases hcp'
      exact .begun hk hjob hof hflag fun cp hcp => (hprevious cp (hk ▸ hcp)).2
    · exact .same hcp'
  | @keeps _ key current new hcurrent hattempt hnumber hflag hset =>
    rw [lookup_insert_cases] at hcp'
    split at hcp'
    · next hk =>
      cases hcp'
      subst hk
      exact .kept hcurrent hattempt hnumber hflag hset rfl
    · exact .same hcp'
  | @requests job attempt record hof hflag hprevious =>
    have hcp'' : (s.checkpoints.insert job.key record).lookup k = some cp' := hcp'
    rw [lookup_insert_cases] at hcp''
    split at hcp''
    · next hk =>
      cases hcp''
      exact .requested hk rfl hof hflag (fun cp hcp => hprevious cp (hk ▸ hcp)) rfl
    · exact .same hcp''
  | _ => exact .same hcp'

/-- A call keeps checkpoints: there is one where there was one. -/
theorem Call.Effect.checkpoint_isSome (h : c.Effect env s r s') (hcp : (s.checkpoints.lookup k).isSome = true) :
    (s'.checkpoints.lookup k).isSome = true := by
  cases h with
  | begins =>
    rw [lookup_insert_cases]
    split
    · rfl
    · exact hcp
  | keeps =>
    rw [lookup_insert_cases]
    split
    · rfl
    · exact hcp
  | @requests job _ record =>
    show ((s.checkpoints.insert job.key record).lookup k).isSome = true
    rw [lookup_insert_cases]
    split
    · rfl
    · exact hcp
  | _ => exact hcp

/-- A request marks the receipt that waits for the decision on the attempt. -/
theorem lookup_cancelled_awaits {job : Job} {attempt : String} (hp : s.publications.lookup job.key = some p)
    (hawaits : p.awaits attempt job.attempt = true) :
    (s.cancelled job attempt).lookup job.key = some { p with cancel_requested := true } := by
  have hmarked : s.cancelled job attempt =
      s.publications.insert job.key { p with cancel_requested := true } := by
    unfold Store.cancelled
    rw [hp]
    exact if_pos hawaits
  rw [hmarked, AList.lookup_insert]

/-- A numbered call keeps the agreement. -/
theorem Call.Effect.agrees (hs : s.Agrees number) (hc : c.Numbered number)
    (h : c.Effect env s r s') : s'.Agrees number := by
  refine ⟨?_, ?_, ?_⟩
  · intro k cp' hcp'
    cases h.checkpointAfter hcp' with
    | same hcp => exact hs.checkpoints k cp' hcp
    | kept hcp hattempt hnumber =>
      rw [hnumber, hattempt]
      exact hs.checkpoints k _ hcp
    | begun _ hjob hof =>
      rw [hof.number, hof.attempt_id]
      exact hc _ _ hjob hof.presents
    | requested _ hjob hof =>
      rw [hof.number, hof.attempt_id]
      exact hc _ _ hjob hof.presents
  · intro k p' hp'
    rcases h.receiptFrom hp' with ⟨p, hp, hfrom⟩ | ⟨job, attempt, -, hjob, hof, -⟩
    · rw [hfrom.number, hfrom.attempt_id]
      exact hs.receipts k p hp
    · rw [hof.number, hof.attempt_id]
      exact hc _ _ hjob hof.presents
  · intro k cp' p' hcp' hp' hflag hattempt hpending
    rcases h.receiptFrom hp' with ⟨p, hp, hfrom⟩ | ⟨job, attempt, -, hjob, hof, hsame, hcheckpoint⟩
    · obtain ⟨hpend, rfl | rfl⟩ := hfrom.pending hpending
      · cases h.checkpointAfter hcp' with
        | same hcp => exact hs.flags k cp' p' hcp hp hflag hattempt hpending
        | kept hcp hkept _ _ hset =>
          rw [hkept] at hattempt
          rcases hset hflag with hold | hnone
          · exact hs.flags k _ p' hcp hp hold hattempt hpending
          · exact absurd hpending (hnone p' hp hattempt)
        | begun _ _ _ hunset =>
          rw [hunset] at hflag
          cases hflag
        | @requested job attempt hkey hjob hof _ _ hpublications =>
          -- The receipt has the number of the attempt, so the request has marked it.
          have hnumber : p'.job_snapshot.attempt = job.attempt := by
            rw [hs.receipts k p' hp, hattempt, hof.attempt_id]
            exact (hc _ _ hjob hof.presents).symm
          have hawaits : p'.awaits attempt job.attempt = true := by
            simp [Receipt.awaits, hpending, hattempt, hof.attempt_id, hnumber]
          subst hkey
          have hmarked := lookup_cancelled_awaits hp hawaits
          rw [← hpublications, hp'] at hmarked
          exact congrArg Receipt.cancel_requested (Option.some.inj hmarked)
      · rfl
    · -- A new receipt has taken the flag of the checkpoint.
      rw [hsame] at hcp'
      rw [(hcheckpoint cp' hcp').2]
      exact hflag

/-! ## After a cancellation -/

/-- The attempt under the key is cancelled: its checkpoint has the flag, or there is one of a later
attempt, and a pending receipt of the attempt has the flag. -/
structure Store.Cancelled (number : String → ℤ) (k : JobKey) (a : String) (s : Store) : Prop where
  checkpoint : ∃ cp, s.checkpoints.lookup k = some cp ∧
    (cp.attempt_id = a ∧ cp.cancel_requested = true ∨ number a < cp.job_snapshot.attempt)
  receipt : ∀ p, s.publications.lookup k = some p → p.attempt_id = a → p.outcome = .pending →
    p.cancel_requested = true

/-- A numbered call keeps an attempt cancelled. -/
theorem Call.Effect.cancelled (hs : s.Agrees number) (hc : c.Numbered number) {a : String} (h : c.Effect env s r s')
    (hcancelled : s.Cancelled number k a) :
    s'.Cancelled number k a := by
  obtain ⟨cp, hcp, hguard⟩ := hcancelled.checkpoint
  have hnumber := hs.checkpoints k cp hcp
  have hlower : number a ≤ cp.job_snapshot.attempt := by
    rcases hguard with ⟨hattempt, -⟩ | hlater
    · rw [hnumber, hattempt]
    · exact le_of_lt hlater
  refine ⟨?_, ?_⟩
  · obtain ⟨cp', hcp'⟩ := Option.isSome_iff_exists.mp (h.checkpoint_isSome (by rw [hcp]; rfl))
    refine ⟨cp', hcp', ?_⟩
    cases h.checkpointAfter hcp' with
    | same hold =>
      cases hcp.symm.trans hold
      exact hguard
    | kept hold hattempt hkept hflag =>
      cases hcp.symm.trans hold
      rw [hattempt, hkept]
      exact hguard.imp (fun hcurrent => ⟨hcurrent.1, hflag hcurrent.2⟩) id
    | begun _ _ hof _ hprevious =>
      right
      rw [hof.number, hprevious cp hcp]
      omega
    | @requested job attempt _ hjob hof hflag hprevious =>
      rcases hprevious cp hcp with hsame | hnext
      · -- The request is for the attempt of the checkpoint.
        rcases hguard with ⟨hattempt, -⟩ | hlater
        · exact .inl ⟨hof.attempt_id.trans (hsame.symm.trans hattempt), hflag⟩
        · right
          rw [hof.number, hc _ _ hjob hof.presents, ← hsame, ← hnumber]
          exact hlater
      · right
        rw [hof.number, hnext]
        omega
  · intro p' hp' hattempt hpending
    rcases h.receiptFrom hp' with ⟨p, hp, hfrom⟩ | ⟨job, attempt, -, hjob, hof, -, hcheckpoint⟩
    · obtain ⟨hpend, rfl | rfl⟩ := hfrom.pending hpending
      · exact hcancelled.receipt p' hp hattempt hpending
      · rfl
    · -- A new receipt of the attempt takes the flag of its checkpoint, which is not a later one.
      obtain ⟨hcurrent, hflag⟩ := hcheckpoint cp hcp
      have ha : cp.attempt_id = a := hcurrent.trans (hof.attempt_id.symm.trans hattempt)
      rcases hguard with ⟨-, hset⟩ | hlater
      · rw [hflag]
        exact hset
      · rw [hnumber, ha] at hlater
        exact absurd hlater (lt_irrefl _)

/-! ## Runs -/

/-- What holds in every store that calls lead to. -/
structure Store.Sound (number : String → ℤ) (s : Store) : Prop where
  ok : s.Ok
  agrees : s.Agrees number

/-- A call keeps a sound store sound, and an attempt cancelled. -/
theorem CancelStep.keeps (h : CancelStep env number s s') (hs : s.Sound number) :
    s'.Sound number ∧ ∀ k a, s.Cancelled number k a → s'.Cancelled number k a := by
  obtain ⟨c, hnumbered, -, rfl⟩ := h
  have heffect : c.Effect env s _ _ := c.effect hs.ok.keys hs.ok.dated
  exact ⟨⟨heffect.ok hs.ok, heffect.agrees hs.agrees hnumbered⟩,
    fun k a hcancelled => heffect.cancelled hs.agrees hnumbered hcancelled⟩

/-- The stores that calls lead to are sound. -/
theorem CancelReachable.sound (hs : CancelReachable env number s) : s.Sound number := by
  refine run_invariant (I := Store.Sound number) (fun a b ha hab => (hab.keeps ha).1) ?_ hs
  have hempty : ∀ {κ α : Type} [DecidableEq κ] (k : κ) (a : α),
      (∅ : AList fun _ : κ => α).lookup k ≠ some a := by
    intro κ α _ k a
    rw [AList.lookup_empty]
    simp
  exact ⟨⟨fun k p h => absurd h (hempty k p), fun k p h => absurd h (hempty k p),
      fun id d h => absurd h (hempty id d)⟩,
    ⟨fun k cp h => absurd h (hempty k cp), fun k p h => absurd h (hempty k p),
      fun k cp p h => absurd h (hempty k cp)⟩⟩

/-- The commit gate raises for a document that a receipt to be cancelled waits for. -/
theorem setDocumentStatus_gate {id : String} {d : Document} (hd : s.documents.lookup id = some d)
    (hp : s.publications.lookup k = some p) (hpending : p.pendingFor d = true) (hflag : p.cancel_requested = true)
    (clock : JobKey → Instant) (created_now published_now : Timestamp) :
    (Call.setDocumentStatus clock created_now published_now id .published).exec env s =
      (.error (.ownership "publication cancelled before commit"), s) := by
  have hgate : (s.publications.entries.any fun e => e.2.pendingFor d && e.2.cancel_requested) =
      true := by
    apply List.any_eq_true.mpr
    exact ⟨⟨k, p⟩, mem_entries.mpr hp, by simp [hpending, hflag]⟩
  have hholds : Proc.Holds (setDocumentStatus env clock created_now published_now id .published) s
      fun r s' => r = .error (.ownership "publication cancelled before commit") ∧ s' = s := by
    unfold setDocumentStatus
    refine Proc.holds_raiseIf_bind (fun h => by cases h) fun _ => Proc.holds_get_bind ?_
    rw [hd]
    refine Proc.holds_raiseIf_bind (fun _ => ⟨rfl, rfl⟩) fun h => ?_
    rw [hgate] at h
    cases h
  obtain ⟨hr, hs'⟩ := hholds
  exact Prod.ext hr hs'

/-- A commit does not touch a receipt that is to be cancelled. -/
theorem setDocumentStatus_keeps (hs : s.Ok) (hp : s.publications.lookup k = some p)
    (hflag : p.outcome = .pending → p.cancel_requested = true) {clock : JobKey → Instant}
    {created_now published_now : Timestamp} {id : String} {status : DocumentStatus}
    (hp' : ((Call.setDocumentStatus clock created_now published_now id status).exec env
      s).2.publications.lookup k = some p') : p' = p := by
  have heffect : Call.Effect env s (.setDocumentStatus clock created_now published_now id status)
      _ _ := Call.effect hs.keys hs.dated _
  generalize ((Call.setDocumentStatus clock created_now published_now id status).exec env s).1 = r
    at heffect
  generalize ((Call.setDocumentStatus clock created_now published_now id status).exec env s).2 = t
    at heffect hp'
  cases heffect with
  | nothing => exact Option.some.inj (hp'.symm.trans hp)
  | begins _ hjob => cases hjob
  | keeps => exact Option.some.inj (hp'.symm.trans hp)
  | marks _ _ hquiet => cases hquiet
  | publishes hjob => cases hjob
  | @sets _ _ _ _ _ d d' publications tombstones hd hdated hgate hkept hcommit =>
    have hlookup : publications.lookup k = some p' := hp'
    by_cases hpublished : status = .published
    · rw [hcommit hpublished k, hp] at hlookup
      have hcommitted : (p.commit env (clock k) d).toOption.getD p = p' := Option.some.inj hlookup
      have hother : p.pendingFor d = false := by
        by_contra hpending
        have hpending' : p.pendingFor d = true := eq_true_of_ne_false hpending
        have hunset := hgate hpublished k p hp hpending'
        simp only [Receipt.pendingFor, Bool.and_eq_true, beq_iff_eq] at hpending'
        rw [hflag hpending'.1] at hunset
        cases hunset
      unfold Receipt.commit at hcommitted
      rw [hother] at hcommitted
      exact hcommitted.symm
    · rw [hkept hpublished] at hlookup
      exact Option.some.inj (hlookup.symm.trans hp)

end

/-- **An accepted cancellation reaches the commit gate.** Once the checkpoint of an attempt has the
flag of a cancellation, then after any further calls no change of the status of a document turns the
receipt of the attempt into a committed one, and to publish a document that a pending receipt of the
attempt waits for raises and changes nothing. -/
theorem cancellation_reaches_gate (env : Env) (number : String → ℤ) (s s' : Store)
    (hs : CancelReachable env number s) (k : JobKey) (cp : Checkpoint)
    (hcp : s.checkpoints.lookup k = some cp) (hflag : cp.cancel_requested = true)
    (hrun : Relation.ReflTransGen (CancelStep env number) s s') (clock : JobKey → Instant)
    (created_now published_now : Timestamp) (id : String) :
    (∀ (status : DocumentStatus) (p p' : Receipt), s'.publications.lookup k = some p →
      p.attempt_id = cp.attempt_id → p.outcome ≠ .committed →
      ((Call.setDocumentStatus clock created_now published_now id status).exec env
        s').2.publications.lookup k = some p' → p'.outcome ≠ .committed) ∧
    ∀ (d : Document) (p : Receipt), s'.documents.lookup id = some d →
      s'.publications.lookup k = some p → p.attempt_id = cp.attempt_id → p.outcome = .pending →
      p.matchesDocument d = true →
      (Call.setDocumentStatus clock created_now published_now id .published).exec env s' =
        (.error (.ownership "publication cancelled before commit"), s') := by
  have hsound := hs.sound
  have hcancelled : s.Cancelled number k cp.attempt_id :=
    ⟨⟨cp, hcp, .inl ⟨rfl, hflag⟩⟩, fun p hp hattempt hpending =>
      hsound.agrees.flags k cp p hcp hp hflag hattempt hpending⟩
  obtain ⟨hsound', hcancelled'⟩ := run_invariant
    (I := fun t : Store => t.Sound number ∧ t.Cancelled number k cp.attempt_id)
    (fun a b ha hab => ⟨(hab.keeps ha.1).1, (hab.keeps ha.1).2 _ _ ha.2⟩) ⟨hsound, hcancelled⟩ hrun
  constructor
  · intro status p p' hp hattempt houtcome hp'
    rw [setDocumentStatus_keeps hsound'.ok hp (hcancelled'.receipt p hp hattempt) hp']
    exact houtcome
  · intro d p hd hp hattempt hpending hmatches
    refine setDocumentStatus_gate hd hp ?_ (hcancelled'.receipt p hp hattempt hpending) clock
      created_now published_now
    simp [Receipt.pendingFor, hpending, hmatches]

/-! ## A cancelled attempt that is published -/

/-- A document that the attempt of `plainJob` has made. -/
def plainDocument : Document where
  document_id := "document-1"
  workspace_id := "workspace-1"
  collection_id := "rag_phase0"
  tenant_id := "tenant-1"
  document_version := "1"
  content_checksum := ""
  filename := "notes.md"
  display_filename := "notes.md"
  title := "notes.md"
  source_type := "upload"
  mime_type := "text/markdown"
  language := none
  status := .other "ready"
  parser_version := ""
  chunker_version := ""
  embedding_model := ""
  embedding_version := ""
  metadata := [("_ingestion_attempt", .str "attempt-1")]
  ingestion_version := "1"
  object_ref := "objects/notes.md"
  created_at := some "2026-01-01T00:00:00Z"
  published_at := none

/-- The call that stores the document. -/
def plainUpsert : Call :=
  .rewriteDocuments (AList.singleton "document-1" plainDocument) ∅ <| by
    intro id d hd
    obtain ⟨rfl, rfl⟩ : id = "document-1" ∧ d = plainDocument := by
      simpa [eq_comm] using mem_entries.mpr hd
    exact ⟨⟨_, rfl, by decide +kernel⟩, fun s hs => by cases hs⟩

/-- A client has cancelled the attempt. -/
def cancelledStore : Store :=
  ((Call.requestIngestionCancel (plainJob [])).exec plainEnv Store.empty).2

/-- The worker has then begun to publish its document. -/
def publishingStore : Store :=
  (plainUpsert.exec plainEnv
    ((Call.beginPublication (plainJob []) none 0).exec plainEnv cancelledStore).2).2

/-- The calls present the attempt with number 1. -/
theorem plainJob_numbered {c : Call} (h : c.job? = some (plainJob [])) :
    c.Numbered fun _ => 1 := by
  intro job attempt hjob _
  cases h.symm.trans hjob
  rfl

/-- The commit gate stops the publication of the document. -/
theorem publishingStore_gate :
    (Call.setDocumentStatus (fun _ => .seconds 102) ⟨"now", by decide +kernel⟩
      ⟨"now", by decide +kernel⟩ "document-1" .published).exec plainEnv publishingStore =
        (.error (.ownership "publication cancelled before commit"), publishingStore) := by
  have hcp : ((cancelledStore.checkpoints.lookup (plainJob []).key).map fun cp =>
      (cp.cancel_requested, cp.attempt_id)) = some (true, "attempt-1") := by decide +kernel
  have hp : ((publishingStore.publications.lookup (plainJob []).key).map fun p =>
      (p.attempt_id, p.outcome, p.matchesDocument plainDocument)) =
        some ("attempt-1", .pending, true) := by decide +kernel
  obtain ⟨cp, hcp, hchecks⟩ := Option.map_eq_some_iff.mp hcp
  obtain ⟨p, hp, hreceipt⟩ := Option.map_eq_some_iff.mp hp
  simp only [Prod.mk.injEq] at hchecks hreceipt
  have hrequest : CancelReachable plainEnv (fun _ => 1) cancelledStore :=
    .tail .refl ⟨.requestIngestionCancel (plainJob []), plainJob_numbered rfl, trivial, rfl⟩
  have hpublish : Relation.ReflTransGen (CancelStep plainEnv fun _ => 1) cancelledStore
      publishingStore :=
    .tail (.tail .refl
      ⟨.beginPublication (plainJob []) none 0, plainJob_numbered rfl, trivial, rfl⟩)
      ⟨plainUpsert, fun _ _ hjob => (by cases hjob), trivial, rfl⟩
  exact (cancellation_reaches_gate plainEnv (fun _ => 1) cancelledStore publishingStore hrequest
    (plainJob []).key cp hcp hchecks.1 hpublish _ _ _ "document-1").2 plainDocument p rfl hp
    (hreceipt.1.trans hchecks.2.symm) hreceipt.2.1 hreceipt.2.2

end RickIntelligence.Knowledge
