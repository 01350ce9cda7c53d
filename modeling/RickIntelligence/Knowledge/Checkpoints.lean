import RickIntelligence.Knowledge.Receipts

/-!
# Checkpoints only advance

A checkpoint is rewritten as a whole by four methods of `rick_knowledge/publication.py`: it is begun,
saved, finished and marked as cancelled, by workers that may hold an older or another copy of the
job. What may become of it while it belongs to one attempt is `Checkpoint.Advances`.

`save_ingestion_checkpoint` compares less than `finish_ingestion_checkpoint` does: it takes the finish
of the job as it is given, and the document as long as there is no fingerprint. `checkpoints_advance`
is about runs whose saves are `Steady` in that respect, and `save_reverts_finish` is a run with one
that is not.
-/

namespace RickIntelligence.Knowledge

open Lib

/-- What `==` promises of JSON values, which hold no number that differs from itself: it is
transitive and symmetric, and a value that equals a list is a list with the same number of elements,
which are equal in pairs. -/
structure Env.Equates (env : Env) : Prop where
  trans : ∀ a b c, env.same a b = true → env.same b c = true → env.same a c = true
  symm : ∀ a b, env.same a b = true → env.same b a = true
  list : ∀ v old, env.same v (.arr old) = true →
    ∃ new, v = .arr new ∧ new.length = old.length ∧
      (new.zip old).all (fun p => env.same p.1 p.2) = true

/-! ## Values that stay -/

/-- The new value is the old one, or equal to it. -/
def Stays (env : Env) (old new : Json) : Prop := new = old ∨ env.same new old = true

/-- The new values are the old ones, or equal to them, with others after them. -/
def Appended (env : Env) : List Json → List Json → Prop
  | [], _ => True
  | _ :: _, [] => False
  | old :: olds, new :: news => Stays env old new ∧ Appended env olds news

/-- The new artifact under a name is equal to the old one, or is a list of vectors with others after
the old ones. -/
def Grows (env : Env) (name : String) (old new : Json) : Prop :=
  Stays env old new ∨
    name = "vectors" ∧ ∃ olds news, old = .arr olds ∧ new = .arr news ∧ Appended env olds news

section Values

variable {env : Env} {a b c : Json} {as bs cs : List Json} {name : String}

/-- A value that stays twice stays. -/
theorem Stays.trans (henv : env.Equates) (h : Stays env a b) (h' : Stays env b c) : Stays env a c := by
  rcases h with rfl | h
  · exact h'
  · rcases h' with rfl | h'
    · exact .inr h
    · exact .inr (henv.trans _ _ _ h' h)

/-- Values that stay as they are. -/
theorem Appended.refl (env : Env) (as : List Json) : Appended env as as := by
  induction as with
  | nil => trivial
  | cons a as ih => exact ⟨.inl rfl, ih⟩

/-- Values that were appended twice were appended. -/
theorem Appended.trans (henv : env.Equates) (h : Appended env as bs) (h' : Appended env bs cs) :
    Appended env as cs := by
  induction as generalizing bs cs with
  | nil => trivial
  | cons a as ih =>
    -- The first value of each list is compared, and the rest of each.
    cases bs with
    | nil => exact h.elim
    | cons b bs =>
      cases cs with
      | nil => exact h'.elim
      | cons c cs => exact ⟨h.1.trans henv h'.1, ih h.2 h'.2⟩

/-- Values that are at least as many, and equal in pairs, were appended. -/
theorem appended_of_zip {olds news : List Json} (hlength : olds.length ≤ news.length)
    (hzip : (news.zip olds).all (fun p => env.same p.1 p.2) = true) : Appended env olds news := by
  induction olds generalizing news with
  | nil => trivial
  | cons old olds ih =>
    cases news with
    | nil => simp at hlength
    | cons new news =>
      simp only [List.zip_cons_cons, List.all_cons, Bool.and_eq_true] at hzip
      simp only [List.length_cons] at hlength
      exact ⟨.inr hzip.1, ih (by omega) hzip.2⟩

/-- A list that stays is a list whose values stay. -/
theorem Stays.appended (henv : env.Equates) (h : Stays env (.arr as) b) :
    ∃ bs, b = .arr bs ∧ Appended env as bs := by
  rcases h with rfl | h
  · exact ⟨as, rfl, .refl env as⟩
  · obtain ⟨bs, rfl, hlength, hzip⟩ := henv.list _ _ h
    exact ⟨bs, rfl, appended_of_zip hlength.ge hzip⟩

/-- An artifact that grows twice grows. -/
theorem Grows.trans (henv : env.Equates) (h : Grows env name a b) (h' : Grows env name b c) :
    Grows env name a c := by
  rcases h with h | ⟨hname, olds, mids, rfl, rfl, h⟩
  · rcases h' with h' | ⟨hname, mids, news, rfl, rfl, h'⟩
    · exact .inl (h.trans henv h')
    · -- What equals a list of vectors is one.
      have hback : Stays env (.arr mids) a := by
        rcases h with heq | h
        · exact .inl heq.symm
        · exact .inr (henv.symm _ _ h)
      obtain ⟨olds, rfl, -⟩ := hback.appended henv
      obtain ⟨mids', hmids, happended⟩ := h.appended henv
      cases hmids
      exact .inr ⟨hname, olds, news, rfl, rfl, happended.trans henv h'⟩
  · rcases h' with h' | ⟨-, mids', news, hmids, rfl, h'⟩
    · obtain ⟨news, rfl, happended⟩ := h'.appended henv
      exact .inr ⟨hname, olds, news, rfl, rfl, h.trans henv happended⟩
    · cases hmids
      exact .inr ⟨hname, olds, news, rfl, rfl, h.trans henv h'⟩

end Values

/-! ## What becomes of a checkpoint -/

/-- What may become of a checkpoint while it belongs to one attempt. -/
structure Checkpoint.Advances (env : Env) (c c' : Checkpoint) : Prop where
  attempt_id : c'.attempt_id = c.attempt_id
  state : c.state ≠ .active → c'.state = c.state
  artifacts : c'.state = .active → ∀ name old, Json.member? name c.artifacts = some old →
    ∃ new, Json.member? name c'.artifacts = some new ∧ Grows env name old new
  fingerprint : ∀ f, c.fingerprint = some f → ∃ f', c'.fingerprint = some f' ∧ Stays env f f'
  document_id : ∀ d, c.document_id = some d → c'.document_id = some d
  attempt : c'.job_snapshot.attempt = c.job_snapshot.attempt
  created_at : c'.job_snapshot.created_at = c.job_snapshot.created_at
  started_at : ∀ t, c.job_snapshot.started_at = some t → c'.job_snapshot.started_at = some t
  finished_at : ∀ t, c.job_snapshot.finished_at = some t → c'.job_snapshot.finished_at = some t
  cancel_requested : c.cancel_requested = true → c'.cancel_requested = true

section Advances

variable {env : Env} {c c' c'' : Checkpoint}

/-- A checkpoint that is left as it is. -/
theorem Checkpoint.Advances.refl (env : Env) (c : Checkpoint) : c.Advances env c where
  attempt_id := rfl
  state _ := rfl
  artifacts _ _ old h := ⟨old, h, .inl (.inl rfl)⟩
  fingerprint f h := ⟨f, h, .inl rfl⟩
  document_id _ h := h
  attempt := rfl
  created_at := rfl
  started_at _ h := h
  finished_at _ h := h
  cancel_requested h := h

/-- A checkpoint that advances twice advances. -/
theorem Checkpoint.Advances.trans (henv : env.Equates) (h : c.Advances env c')
    (h' : c'.Advances env c'') : c.Advances env c'' where
  attempt_id := h'.attempt_id.trans h.attempt_id
  state hc := by
    have hc' := h.state hc
    rw [← hc']
    exact h'.state (hc' ▸ hc)
  artifacts hactive name old hold := by
    -- What is active at the end was active in between.
    have hactive' : c'.state = .active := by
      by_contra hended
      exact hended ((h'.state hended).symm.trans hactive)
    obtain ⟨mid, hmid, hgrows⟩ := h.artifacts hactive' name old hold
    obtain ⟨new, hnew, hgrows'⟩ := h'.artifacts hactive name mid hmid
    exact ⟨new, hnew, hgrows.trans henv hgrows'⟩
  fingerprint f hf := by
    obtain ⟨f', hf', hstays⟩ := h.fingerprint f hf
    obtain ⟨f'', hf'', hstays'⟩ := h'.fingerprint f' hf'
    exact ⟨f'', hf'', hstays.trans henv hstays'⟩
  document_id d hd := h'.document_id d (h.document_id d hd)
  attempt := h'.attempt.trans h.attempt
  created_at := h'.created_at.trans h.created_at
  started_at t ht := h'.started_at t (h.started_at t ht)
  finished_at t ht := h'.finished_at t (h.finished_at t ht)
  cancel_requested hflag := h'.cancel_requested (h.cancel_requested hflag)

/-- A checkpoint that is marked as cancelled. -/
theorem Checkpoint.Advances.cancelled (env : Env) (c : Checkpoint) :
    c.Advances env { c with cancel_requested := true } :=
  { Checkpoint.Advances.refl env c with cancel_requested := fun _ => rfl }

end Advances

/-- The saved job has the finish of the checkpoint if that has one, and its document if that has one
and no fingerprint. -/
def Call.Steady (s : Store) : Call → Prop
  | saveIngestionCheckpoint job _ _ => ∀ current, s.checkpoints.lookup job.key = some current →
    (∀ t, current.job_snapshot.finished_at = some t → job.finished_at = some t) ∧
    (current.fingerprint = none → ∀ d, current.document_id = some d → job.document_id = some d)
  | _ => True

/-- The call is one of the four that write checkpoints. -/
def Call.OfCheckpoint : Call → Prop
  | beginIngestionCheckpoint _ | saveIngestionCheckpoint .. | finishIngestionCheckpoint _
  | requestIngestionCancel _ => True
  | _ => False

/-- What becomes of the checkpoint under a key in one step: nothing, another attempt, or an advance if
the step is steady. -/
inductive Checkpoint.Moved (env : Env) (steady : Prop) : Option Checkpoint → Option Checkpoint → Prop
  | same (c : Option Checkpoint) : Moved env steady c c
  | begun {c : Option Checkpoint} {new : Checkpoint}
      (hprevious : ∀ current, c = some current → new.attempt_id ≠ current.attempt_id ∧
        new.job_snapshot.attempt = current.job_snapshot.attempt + 1 ∧
        (current.state = .active ∨ current.state = .failed)) : Moved env steady c (some new)
  | kept {current new : Checkpoint} (hattempt : new.attempt_id = current.attempt_id)
      (hadvances : steady → current.Advances env new) : Moved env steady (some current) (some new)

section Moves

variable {env : Env} {s s' : Store}

variable {steady : Prop} {artifacts : Json.Members} {current : Checkpoint} {job : Job}

/-- Where one checkpoint is written, the others stay. -/
theorem moved_insert {key : JobKey} {new : Checkpoint}
    (h : Checkpoint.Moved env steady (s.checkpoints.lookup key) (some new)) (k : JobKey) :
    Checkpoint.Moved env steady (s.checkpoints.lookup k) ((s.checkpoints.insert key new).lookup k) := by
  rw [lookup_insert_cases]
  split
  · next hk =>
    rw [hk]
    exact h
  · exact .same _

/-- An output that is kept has grown. -/
theorem outputKept_grows {name : String} {old : Json} (h : outputKept env artifacts (name, old) = true) :
    ∃ new, Json.member? name artifacts = some new ∧ Grows env name old new := by
  unfold outputKept at h
  cases hnew : Json.member? name artifacts with
  | none =>
    simp only [hnew] at h
    cases h
  | some new =>
    refine ⟨new, rfl, ?_⟩
    simp only [hnew] at h
    split at h
    · next hname heq =>
      simp only [Bool.and_eq_true, decide_eq_true_eq] at h
      cases heq
      exact .inr ⟨by simpa using hname, _, _, rfl, rfl, appended_of_zip h.1 h.2⟩
    · cases ‹some new = none›
    · cases ‹some new = some _›
      exact .inl (.inr h)

/-- A steady save advances the checkpoint. -/
theorem saved_advances (henv : env.Equates) {fingerprint : Option Json} (hactive : current.state = .active)
    (hfacts : checkCheckpointFacts current job = .ok ()) (hcontract : ∀ f, current.fingerprint = some f →
      fingerprint.any (env.same f) = true ∧ current.document_id = job.document_id)
    (hkept : current.artifacts.all (outputKept env artifacts) = true)
    (hfinish : ∀ t, current.job_snapshot.finished_at = some t → job.finished_at = some t)
    (hdocument : current.fingerprint = none → ∀ d, current.document_id = some d →
      job.document_id = some d) :
    current.Advances env (current.saved job fingerprint artifacts) := by
  obtain ⟨hattempt, hcreated, hstarted⟩ := checkCheckpointFacts_ok hfacts
  refine ⟨rfl, fun hended => absurd hactive hended, ?_, ?_, ?_, hattempt.symm, hcreated.symm,
    hstarted, hfinish, id⟩
  · intro _ name old hold
    have hmem : (name, old) ∈ current.artifacts := by
      obtain ⟨before, after, hsplit, -⟩ := List.lookup_eq_some_iff.mp hold
      rw [hsplit]
      exact List.mem_append_right before List.mem_cons_self
    exact outputKept_grows (List.all_eq_true.mp hkept _ hmem)
  · intro f hf
    have hsame := (hcontract f hf).1
    cases hfingerprint : fingerprint with
    | none => simp [hfingerprint] at hsame
    | some f' =>
      rw [hfingerprint] at hsame
      exact ⟨f', rfl, .inr (henv.symm _ _ hsame)⟩
  · intro d hd
    cases hf : current.fingerprint with
    | none => exact hdocument hf d hd
    | some f => exact (hcontract f hf).2.symm.trans hd

/-- A checkpoint advances to its end. -/
theorem finished_advances {state : CheckpointState} (hstate : job.status.state? = some state)
    (hended : current.state = .active ∨ current.state = state) (hfacts : checkCheckpointFacts current job = .ok ())
    (hfinish : ∀ t, current.job_snapshot.finished_at = some t → job.finished_at = some t) :
    current.Advances env (current.finished job state) := by
  obtain ⟨hattempt, hcreated, hstarted⟩ := checkCheckpointFacts_ok hfacts
  refine ⟨rfl, fun hactive => (hended.resolve_left hactive).symm, ?_, fun f hf => ⟨f, hf, .inl rfl⟩,
    fun _ hd => hd, hattempt.symm, hcreated.symm, hstarted, hfinish, ?_⟩
  · intro hactive
    have hpending : state.outcome = .pending := by
      rw [show state = .active from hactive]
      rfl
    exact absurd hpending (state?_outcome hstate)
  · intro hflag
    show (current.cancel_requested || job.cancel_requested) = true
    rw [hflag, Bool.true_or]

/-- A new checkpoint is begun over that of an earlier attempt. -/
theorem moved_begun {attempt : String} {record : Checkpoint} (hof : record.Of job attempt)
    (hprevious : ∀ current, s.checkpoints.lookup job.key = some current →
      (current.attempt_id ≠ attempt ∧ job.attempt = current.job_snapshot.attempt + 1) ∧
        (current.state = .active ∨ current.state = .failed)) :
    Checkpoint.Moved env steady (s.checkpoints.lookup job.key) (some record) := by
  refine .begun fun current hcurrent => ?_
  obtain ⟨⟨hattempt, hnumber⟩, hstate⟩ := hprevious current hcurrent
  rw [hof.attempt_id, hof.number]
  exact ⟨hattempt.symm, hnumber, hstate⟩

/-- What marks the receipts leaves the checkpoints. -/
theorem markPublicationCancel_checkpoints (job : Job) :
    Proc.Holds (markPublicationCancel job) s fun _ s' => s'.checkpoints = s.checkpoints := by
  refine (markPublicationCancel_spec job).imp ?_
  rintro r s' (rfl | ⟨-, p, -, -, rfl⟩) <;> rfl

/-- What a call that writes checkpoints does to each of them. -/
theorem Call.moved (henv : env.Equates) {c : Call} (hc : c.OfCheckpoint) (k : JobKey) :
    Checkpoint.Moved env (c.Steady s) (s.checkpoints.lookup k)
      ((c.exec env s).2.checkpoints.lookup k) := by
  show Proc.Holds (c.run env) s fun _ s' =>
    Checkpoint.Moved env (c.Steady s) (s.checkpoints.lookup k) (s'.checkpoints.lookup k)
  cases c with
  | beginIngestionCheckpoint job =>
    refine Proc.holds_bind ((beginIngestionCheckpoint_spec job).imp ?_)
    rintro r s' (⟨e, rfl, rfl⟩ | ⟨current, attempt, rfl, rfl, -, -⟩ |
      ⟨record, attempt, rfl, hof, -, -, hprevious, rfl⟩)
    · exact .same _
    · exact .same _
    · exact moved_insert (moved_begun hof hprevious) k
  | saveIngestionCheckpoint job fingerprint artifacts =>
    refine Proc.holds_bind ((saveIngestionCheckpoint_spec job fingerprint artifacts).imp ?_)
    rintro r s' (rfl | ⟨⟨u, rfl⟩, current, hcurrent, hactive, hfacts, hcontract, hkept, rfl⟩)
    · cases r <;> exact .same _
    · refine moved_insert ?_ k
      rw [hcurrent]
      refine .kept rfl fun hsteady => ?_
      obtain ⟨hfinish, hdocument⟩ := hsteady current hcurrent
      exact saved_advances henv hactive hfacts hcontract hkept hfinish hdocument
  | finishIngestionCheckpoint job =>
    refine (finishIngestionCheckpoint_spec job).imp ?_
    rintro r s' (rfl | ⟨rfl, current, state, hcurrent, hstate, hended, hfacts, hfinish, -, rfl⟩)
    · exact .same _
    · refine moved_insert ?_ k
      rw [hcurrent]
      exact .kept rfl fun _ => finished_advances hstate hended hfacts hfinish
  | requestIngestionCancel job =>
    show Proc.Holds (Knowledge.requestIngestionCancel env job) s _
    unfold Knowledge.requestIngestionCancel
    refine Proc.holds_lift_bind (fun _ _ => .same _) fun _ _ => ?_
    refine holds_getPublication_bind (fun _ => .same _) fun _ => ?_
    split
    · exact .same _
    -- The mark on the checkpoint is written last, over the one that is there or that is begun.
    have hmark : ∀ (current : Checkpoint) (t : Store) (receipt : Option Receipt),
        Checkpoint.Moved env True (s.checkpoints.lookup k) (t.checkpoints.lookup k) →
        Checkpoint.Moved env True (s.checkpoints.lookup k)
          ((t.checkpoints.insert current.key { current with cancel_requested := true }).lookup k) →
        Proc.Holds (do
          writeIngestionCheckpoint env { current with cancel_requested := true }
          if receipt.any fun r => r.outcome == .pending && r.attempt_id == current.attempt_id &&
              r.job_snapshot.attempt == job.attempt then
            markPublicationCancel job
          else return ()) t fun _ s' =>
            Checkpoint.Moved env True (s.checkpoints.lookup k) (s'.checkpoints.lookup k) := by
      intro current t receipt hbefore hafter
      refine holds_writeIngestionCheckpoint_bind (fun _ => hbefore) ?_
      split
      · refine (markPublicationCancel_checkpoints job).imp fun _ s' hs' => ?_
        rw [hs']
        exact hafter
      · exact Proc.holds_pure hafter
    refine Proc.holds_bind ((beginIngestionCheckpoint_spec job).imp ?_)
    rintro r s' (⟨e, rfl, rfl⟩ | ⟨current, attempt, rfl, rfl, hcurrent, hof⟩ |
      ⟨record, attempt, rfl, hof, hflag, -, hprevious, rfl⟩)
    · exact .same _
    · show Proc.Holds (if current.state = .committed then _ else _) s' _
      split
      · exact .same _
      · refine hmark current s' _ (.same _) (moved_insert ?_ k)
        rw [hof.key, hcurrent]
        exact .kept rfl fun _ => .cancelled env current
    · show Proc.Holds (if record.state = .committed then _ else _) _ _
      have hbegun : Checkpoint.Moved env True _ _ := moved_begun hof hprevious
      split
      · exact moved_insert hbegun k
      · refine hmark record _ _ (moved_insert hbegun k) ?_
        show Checkpoint.Moved env True _ (((s.checkpoints.insert job.key record).insert record.key
          { record with cancel_requested := true }).lookup k)
        rw [hof.key, AList.insert_insert]
        have hmarked : Checkpoint.Of { record with cancel_requested := true } job attempt :=
          ⟨hof.presents, hof.key, hof.attempt_id, hof.number⟩
        exact moved_insert (moved_begun hmarked hprevious) k
  | _ => exact hc.elim

end Moves

/-! ## Runs -/

/-- One step of a run: a steady call that writes checkpoints, or anything that leaves them as they
are. -/
def SteadyStep (env : Env) (s t : Store) : Prop :=
  (∃ c : Call, c.OfCheckpoint ∧ c.Steady s ∧ t = (c.exec env s).2) ∨ t.checkpoints = s.checkpoints

/-- A step in which the checkpoint under the key stays with its attempt. -/
def SameAttemptStep (env : Env) (k : JobKey) (s t : Store) : Prop :=
  SteadyStep env s t ∧ (t.checkpoints.lookup k).map Checkpoint.attempt_id =
    (s.checkpoints.lookup k).map Checkpoint.attempt_id

/-- A step in which a checkpoint stays with its attempt advances it. -/
theorem SameAttemptStep.advances {env : Env} (henv : env.Equates) {k : JobKey} {s t : Store}
    {cp : Checkpoint} (h : SameAttemptStep env k s t) (hcp : s.checkpoints.lookup k = some cp) :
    ∃ cp', t.checkpoints.lookup k = some cp' ∧ cp.Advances env cp' := by
  obtain ⟨⟨c, hc, hsteady, rfl⟩ | hsame, hattempt⟩ := h
  · have hmoved := Call.moved (s := s) henv hc k
    rw [hcp] at hmoved hattempt
    generalize (c.exec env s).2.checkpoints.lookup k = after at hmoved hattempt
    cases hmoved with
    | same => exact ⟨cp, rfl, .refl env cp⟩
    | begun hprevious => exact absurd (Option.some.inj hattempt) (hprevious cp rfl).1
    | kept _ hadvances => exact ⟨_, rfl, hadvances hsteady⟩
  · exact ⟨cp, hsame ▸ hcp, .refl env cp⟩

/-- **Checkpoints only advance.** In any run whose saves are steady, a checkpoint advances for as long
as it stays with one attempt: from active to one end, with every artifact kept or its vectors
appended to, with the fingerprint, the document and the facts of the job that it has, and with a
cancellation that was asked for. In every state a call replaces it by the checkpoint of another
attempt only if it is active or failed, and only by the next attempt. -/
theorem checkpoints_advance (env : Env) (henv : env.Equates) (k : JobKey) (s : Store) (cp : Checkpoint)
    (hcp : s.checkpoints.lookup k = some cp) :
    (∀ t, Relation.ReflTransGen (SameAttemptStep env k) s t →
      ∃ cp', t.checkpoints.lookup k = some cp' ∧ cp.Advances env cp') ∧
    ∀ c : Call, c.OfCheckpoint → ∃ cp', (c.exec env s).2.checkpoints.lookup k = some cp' ∧
      (cp'.attempt_id = cp.attempt_id ∨ (cp.state = .active ∨ cp.state = .failed) ∧
        cp'.job_snapshot.attempt = cp.job_snapshot.attempt + 1) := by
  constructor
  · intro t hrun
    refine run_invariant
      (I := fun t : Store => ∃ cp', t.checkpoints.lookup k = some cp' ∧ cp.Advances env cp') ?_
      ⟨cp, hcp, .refl env cp⟩ hrun
    rintro a b ⟨cp', hcp', hadvances⟩ hstep
    obtain ⟨cp'', hcp'', hadvances'⟩ := hstep.advances henv hcp'
    exact ⟨cp'', hcp'', hadvances.trans henv hadvances'⟩
  · intro c hc
    have hmoved := Call.moved (s := s) henv hc k
    rw [hcp] at hmoved
    generalize (c.exec env s).2.checkpoints.lookup k = after at hmoved
    cases hmoved with
    | same => exact ⟨cp, rfl, .inl rfl⟩
    | begun hprevious =>
      obtain ⟨-, hnumber, hstate⟩ := hprevious cp rfl
      exact ⟨_, rfl, .inr ⟨hstate, hnumber⟩⟩
    | kept hattempt _ => exact ⟨_, rfl, .inl hattempt⟩

/-! ## A worker that comes back -/

/-- An environment in which values that are texts are compared. -/
def textEnv : Env where
  encode_metadata _ := .ok ()
  encode_checkpoint _ := .ok ()
  encode_artifacts _ := .ok ()
  same a b := a.text?.isSome && a.text? == b.text?

/-- Equality of texts. -/
theorem textEnv_equates : textEnv.Equates where
  trans a b c hab hbc := by
    simp only [textEnv, Bool.and_eq_true, beq_iff_eq] at hab hbc ⊢
    exact ⟨hab.1, hab.2.trans hbc.2⟩
  symm a b hab := by
    simp only [textEnv, Bool.and_eq_true, beq_iff_eq] at hab ⊢
    exact ⟨hab.2 ▸ hab.1, hab.2.symm⟩
  list v old h := by
    simp only [textEnv, Bool.and_eq_true, beq_iff_eq, Json.text?] at h
    rw [h.2] at h
    cases h.1

/-- The checkpoint of `plainJob` has begun. -/
def begunStore : Store := ((Call.beginIngestionCheckpoint (plainJob [])).exec textEnv Store.empty).2

/-- A worker saves what it has read. -/
def plainSave (finished_at : Option Instant) : Call :=
  .saveIngestionCheckpoint { plainJob [] with finished_at } (some (.str "sha"))
    [("parsed", .str "feline")]

/-- The store after the save of a worker with a finish. -/
def savedStore (finished_at : Option Instant) : Store := ((plainSave finished_at).exec textEnv begunStore).2

/-- The attempt, the state and the finish of a checkpoint. -/
def Checkpoint.summary (cp : Checkpoint) : String × CheckpointState × Option Instant :=
  (cp.attempt_id, cp.state, cp.job_snapshot.finished_at)

/-- A save advances the checkpoint of its attempt. -/
theorem savedStore_advances : ∃ cp cp',
    begunStore.checkpoints.lookup (plainJob []).key = some cp ∧
    (savedStore none).checkpoints.lookup (plainJob []).key = some cp' ∧ cp.Advances textEnv cp' := by
  have hbegun : (begunStore.checkpoints.lookup (plainJob []).key).map Checkpoint.summary =
      some ("attempt-1", .active, none) := by decide +kernel
  obtain ⟨cp, hcp, hsummary⟩ := Option.map_eq_some_iff.mp hbegun
  have hstep : SameAttemptStep textEnv (plainJob []).key begunStore (savedStore none) := by
    refine ⟨.inl ⟨plainSave none, trivial, ?_, rfl⟩, by decide +kernel⟩
    intro current hcurrent
    cases hcp.symm.trans hcurrent
    have hdocument : (begunStore.checkpoints.lookup (plainJob []).key).bind Checkpoint.document_id =
        none := by decide +kernel
    rw [hcp] at hdocument
    refine ⟨fun t ht => ?_, fun _ d hd => ?_⟩
    · cases (Prod.mk.inj (Prod.mk.inj hsummary).2).2.symm.trans ht
    · cases hd.symm.trans hdocument
  obtain ⟨cp', hcp', hadvances⟩ := (checkpoints_advance textEnv textEnv_equates (plainJob []).key
    begunStore cp hcp).1 (savedStore none) (.single hstep)
  exact ⟨cp, cp', hcp, hcp', hadvances⟩

/-- **A save reverts a finish.** A worker saves the job with a finish, and another worker of the same
attempt saves it without one. The checkpoint is active all along, and its finish is gone. -/
theorem save_reverts_finish :
    ((savedStore (some (.seconds 103))).checkpoints.lookup (plainJob []).key).map Checkpoint.summary =
      some ("attempt-1", .active, some (.seconds 103)) ∧
    (((plainSave none).exec textEnv (savedStore (some (.seconds 103)))).2.checkpoints.lookup
      (plainJob []).key).map Checkpoint.summary = some ("attempt-1", .active, none) := by
  decide +kernel

end RickIntelligence.Knowledge
