import RickIntelligence.Ingestion.Embedding

/-!
# An embedding phase that is resumed

Any number of executions of `_embed_in_batches` for one attempt, one after another or at the same time,
over the store of `rick_knowledge/publication.py`, where each may be stopped at any point, and clients
ask for cancellations and other attempts go on in between. What is stored for the attempt is at any moment
what the first batches give, and an execution that returns has what all of them give
(`resumed_embedding`): what an execution has in hand comes from the store or from the provider, for a
prefix of the plan that ends with a batch, and a save puts no other list there.
-/

namespace RickIntelligence.Ingestion

open Lib Knowledge

/-! ## Runs -/

/-- The store, and the executions of one attempt. -/
structure EmbeddingMachine where
  store : Store
  executions : List Execution

/-- What happens: a call of the store that is no save of the attempt, anything that leaves the
checkpoints, the begin of an execution with a copy of the checkpoint or without, a save of another output
before its batches, or its next step. -/
inductive EmbeddingAction where
  | call (c : Call)
  | elsewhere (t : Store)
  | begins (job : Job) (fingerprint : Option Json) (durable : Bool)
  | prepares (i : ℕ) (output : Option (String × Json))
  | steps (i : ℕ) (signals : Signals)

section Machine

variable (env : Env) (provider : List String → Json) (dimensions : ℤ) (texts : List String)
  (key : JobKey) (attempt : String)

/-- The executions after one of them did a step. -/
def EmbeddingMachine.advance (m : EmbeddingMachine) (i : ℕ)
    (f : Execution → Store → Execution × Store) : EmbeddingMachine :=
  match m.executions[i]? with
  | none => m
  | some x => ⟨(f x m.store).2, m.executions.set i (f x m.store).1⟩

/-- The copy of the checkpoint of the attempt that an execution begins with. -/
def copyPhase (s : Store) (fingerprint : Option Json) : Option Phase :=
  match s.checkpoints.lookup key with
  | some c => if c.attempt_id = attempt then some ⟨fingerprint, c.artifacts⟩ else some ⟨fingerprint, []⟩
  | none => some ⟨fingerprint, []⟩

/-- What an action does. -/
def EmbeddingAction.run : EmbeddingAction → EmbeddingMachine → EmbeddingMachine
  | call c, m => { m with store := (c.exec env m.store).2 }
  | elsewhere t, m => { m with store := t }
  | begins job fingerprint durable, m =>
    { m with executions := m.executions ++ [{
        job
        phase := if durable then copyPhase key attempt m.store fingerprint else none
        vectors := []
        offset := 0
        stage := .prepare }] }
  | prepares i output, m => m.advance i (Execution.prepare env output)
  | steps i signals, m => m.advance i (Execution.step env provider dimensions texts signals)

/-- A call that writes checkpoints and is no save of the attempt; no output besides the vectors is saved
under their name. -/
def EmbeddingAction.Allowed (m : EmbeddingMachine) : EmbeddingAction → Prop
  | call c => c.OfCheckpoint ∧ ∀ job fingerprint artifacts,
      c = .saveIngestionCheckpoint job fingerprint artifacts → job.key = key → ¬ job.Presents attempt
  | elsewhere t => t.checkpoints = m.store.checkpoints
  | begins job _ _ => job.key = key ∧ job.Presents attempt
  | prepares _ output => ∀ name value, output = some (name, value) → name ≠ "vectors"
  | steps _ _ => True

/-- One action. -/
def EmbeddingStep (m m' : EmbeddingMachine) : Prop :=
  ∃ a : EmbeddingAction, a.Allowed key attempt m ∧ m' = a.run env provider dimensions texts key attempt m

/-- The machines that actions lead to from an empty store. -/
def EmbeddingReachable : EmbeddingMachine → Prop :=
  Relation.ReflTransGen (EmbeddingStep env provider dimensions texts key attempt) ⟨Store.empty, []⟩

end Machine

/-! ## Prefixes -/

/-- The vectors that are stored with the artifacts. -/
def storedVectors (artifacts : Json.Members) : Json :=
  (Json.member? "vectors" artifacts).getD (.arr [])

/-- The vectors are what the first `k` batches give, and their answers pass the check. -/
structure Prefix (provider : List String → Json) (dimensions : ℤ) (texts : List String) (k : ℕ)
    (vectors : List Json) : Prop where
  bound : k ≤ batchCount texts
  vectors : vectors = ((batches texts).take k).flatMap (answer provider dimensions)
  valid : ∀ batch ∈ (batches texts).take k,
    validateEmbeddings (provider batch) batch.length dimensions = .ok (answer provider dimensions batch)

/-- The stored vectors are what some first batches give. -/
def SavedPrefix (provider : List String → Json) (dimensions : ℤ) (texts : List String)
    (artifacts : Json.Members) : Prop :=
  ∃ k vectors, storedVectors artifacts = .arr vectors ∧ Prefix provider dimensions texts k vectors

section Prefixes

variable {provider : List String → Json} {dimensions : ℤ} {texts : List String} {k : ℕ}
  {vectors : List Json}

/-- An answer that passes the check has one vector for each text. -/
theorem validateEmbeddings_length {response : Json} {expected_count : ℕ} {validated : List Json}
    (h : validateEmbeddings response expected_count dimensions = .ok validated) :
    validated.length = expected_count := by
  unfold validateEmbeddings at h
  cases response with
  | arr items =>
    simp only at h
    split at h
    · cases h
    · next hcount =>
      split at h
      · cases h
      · simp only [except_bind_ok, pure, Except.pure, Except.ok.injEq] at h
        obtain ⟨_, _, rfl⟩ := h
        exact not_not.mp hcount
  | _ => cases h

/-- There is a batch for every text. -/
theorem lt_batchCount : k < batchCount texts ↔ maxEmbeddingBatch * k < texts.length := by
  unfold batchCount maxEmbeddingBatch
  omega

/-- The number of the batches. -/
theorem length_batches (texts : List String) : (batches texts).length = batchCount texts := by
  unfold batches
  rw [List.length_map, List.length_range]

/-- The first batches, and the next one. -/
theorem take_batches_succ (h : k < batchCount texts) :
    (batches texts).take (k + 1) = (batches texts).take k ++ [batchAt texts (maxEmbeddingBatch * k)] := by
  have hget : (batches texts)[k]? = some (batchAt texts (maxEmbeddingBatch * k)) := by
    unfold batches
    rw [List.getElem?_map, List.getElem?_range h]
    rfl
  rw [List.take_add_one, hget]
  rfl

/-- **The batches are consecutive**: the first of them are the first texts. -/
theorem flatten_take_batches (h : k ≤ batchCount texts) :
    ((batches texts).take k).flatten = texts.take (maxEmbeddingBatch * k) := by
  induction k with
  | zero => simp
  | succ k ih =>
    rw [take_batches_succ h, List.flatten_append, ih (Nat.le_of_succ_le h), List.flatten_singleton,
      Nat.mul_succ, List.take_add]
    rfl

/-- All batches together are the texts. -/
theorem flatten_batches (texts : List String) : (batches texts).flatten = texts := by
  have hall := flatten_take_batches (le_refl (batchCount texts))
  have hlong : texts.length ≤ maxEmbeddingBatch * batchCount texts := by
    unfold batchCount maxEmbeddingBatch
    omega
  rwa [← length_batches, List.take_length, length_batches, List.take_of_length_le hlong] at hall

/-- Batches with a vector for each text give as many vectors as they have texts. -/
theorem length_flatMap_answer {l : List (List String)}
    (h : ∀ batch ∈ l, (answer provider dimensions batch).length = batch.length) :
    (l.flatMap (answer provider dimensions)).length = l.flatten.length := by
  induction l with
  | nil => rfl
  | cons batch l ih =>
    rw [List.flatMap_cons, List.flatten_cons, List.length_append, List.length_append,
      h batch List.mem_cons_self, ih fun b hb => h b (List.mem_cons_of_mem _ hb)]

namespace Prefix

/-- A valid answer has one vector for each text of its batch. -/
theorem answer_length (h : Prefix provider dimensions texts k vectors) {batch : List String}
    (hbatch : batch ∈ (batches texts).take k) :
    (answer provider dimensions batch).length = batch.length :=
  validateEmbeddings_length (h.valid batch hbatch)

/-- The first batches give a vector for each of their texts. -/
theorem length (h : Prefix provider dimensions texts k vectors) :
    vectors.length = min (maxEmbeddingBatch * k) texts.length := by
  rw [h.vectors, length_flatMap_answer fun batch hbatch => h.answer_length hbatch,
    flatten_take_batches h.bound, List.length_take]

/-- No batch gives no vector. -/
theorem zero (provider : List String → Json) (dimensions : ℤ) (texts : List String) :
    Prefix provider dimensions texts 0 [] :=
  ⟨Nat.zero_le _, by simp, by simp⟩

/-- One more batch gives its vectors after the others. -/
theorem succ (h : Prefix provider dimensions texts k vectors) (hk : k < batchCount texts)
    {fault : Option ProviderFault} {validated : List Json}
    (hembed : embedBatch provider dimensions fault (batchAt texts (maxEmbeddingBatch * k)) =
      .ok validated) : Prefix provider dimensions texts (k + 1) (vectors ++ validated) := by
  have hvalid : validateEmbeddings (provider (batchAt texts (maxEmbeddingBatch * k)))
      (batchAt texts (maxEmbeddingBatch * k)).length dimensions = .ok validated := by
    unfold embedBatch at hembed
    cases fault with
    | some fault => cases hembed
    | none =>
      simp only at hembed
      split at hembed
      · next found hfound =>
        cases hembed
        exact hfound
      · cases hembed
  have hanswer : answer provider dimensions (batchAt texts (maxEmbeddingBatch * k)) = validated := by
    unfold answer
    rw [hvalid]
    rfl
  refine ⟨hk, ?_, ?_⟩
  · rw [take_batches_succ hk, List.flatMap_append, List.flatMap_singleton, hanswer, ← h.vectors]
  · intro batch hbatch
    rw [take_batches_succ hk, List.mem_append, List.mem_singleton] at hbatch
    rcases hbatch with hbatch | rfl
    · exact h.valid batch hbatch
    · rw [hanswer]
      exact hvalid

end Prefix

variable {artifacts : Json.Members}

/-- Artifacts without vectors. -/
theorem savedPrefix_of_none (h : Json.member? "vectors" artifacts = none) :
    SavedPrefix provider dimensions texts artifacts :=
  ⟨0, [], by unfold storedVectors; rw [h]; rfl, .zero provider dimensions texts⟩

/-- Another output leaves the vectors. -/
theorem SavedPrefix.setMember (h : SavedPrefix provider dimensions texts artifacts) {name : String}
    (hname : name ≠ "vectors") (value : Json) :
    SavedPrefix provider dimensions texts (Json.setMember name value artifacts) := by
  unfold SavedPrefix storedVectors at h ⊢
  rwa [Json.member?_setMember, if_neg hname.symm]

/-- What is stored is what was checked. -/
theorem phaseVectors_ok {phase : Phase}
    (h : Execution.phaseVectors dimensions (some phase) = .ok vectors) :
    storedVectors phase.artifacts = .arr vectors := by
  unfold Execution.phaseVectors at h
  unfold storedVectors
  rw [Option.bind_some] at h
  cases hmember : Json.member? "vectors" phase.artifacts with
  | none =>
    rw [hmember] at h
    cases h
    rfl
  | some value =>
    rw [hmember] at h
    cases value with
    | arr items =>
      cases items with
      | nil =>
        cases h
        rfl
      | cons item items =>
        simp only [validateEmbeddings, ne_eq, not_true_eq_false, if_false] at h
        split at h
        · cases h
        · simp only [except_bind_ok, pure, Except.pure, Except.ok.injEq] at h
          obtain ⟨_, _, rfl⟩ := h
          rfl
    | _ => cases h

/-- The vectors that an execution begins with are the stored ones, and end with a batch. -/
theorem resumed_ok {phase : Option Phase} (h : Execution.resumed dimensions texts phase = .ok vectors) :
    Execution.phaseVectors dimensions phase = .ok vectors := by
  unfold Execution.resumed at h
  rw [except_bind_ok] at h
  obtain ⟨found, hfound, hboundary⟩ := h
  split at hboundary
  · cases hboundary
  · cases hboundary
    exact hfound

end Prefixes

/-! ## What the store keeps -/

/-- Every checkpoint has the artifacts that it had for its attempt, or none. -/
def ArtifactsKept (s s' : Store) : Prop :=
  ∀ k c', s'.checkpoints.lookup k = some c' → c'.artifacts = [] ∨
    ∃ c, s.checkpoints.lookup k = some c ∧ c.attempt_id = c'.attempt_id ∧ c.artifacts = c'.artifacts

section Kept

variable {env : Env} {s s' : Store}

/-- A store that is left as it is. -/
theorem ArtifactsKept.refl (s : Store) : ArtifactsKept s s := fun _ c' h => .inr ⟨c', h, rfl, rfl⟩

/-- A checkpoint is written that has the artifacts of the one before it, or none. -/
theorem ArtifactsKept.insert (h : ArtifactsKept s s') {key : JobKey} {c' : Checkpoint}
    (hc' : c'.artifacts = [] ∨ ∃ c, s.checkpoints.lookup key = some c ∧
      c.attempt_id = c'.attempt_id ∧ c.artifacts = c'.artifacts) :
    ArtifactsKept s { s' with checkpoints := s'.checkpoints.insert key c' } := by
  intro k found hfound
  have hfound' : (s'.checkpoints.insert key c').lookup k = some found := hfound
  rw [lookup_insert_cases] at hfound'
  split at hfound'
  · next hk =>
    cases hfound'
    rw [hk]
    exact hc'
  · exact h k found hfound'

/-- A checkpoint that begins has no artifacts. -/
theorem beginIngestionCheckpoint_kept (job : Job) :
    Proc.Holds (beginIngestionCheckpoint env job) s fun r s' => ArtifactsKept s s' ∧
      ∀ c, r = .ok c → s'.checkpoints.lookup job.key = some c ∧ c.key = job.key := by
  have hraises : ∀ e : StoreError, ArtifactsKept s s ∧
      ∀ c, (.error e : Except StoreError Checkpoint) = .ok c →
        s.checkpoints.lookup job.key = some c ∧ c.key = job.key := by
    intro e
    refine ⟨.refl s, ?_⟩
    intro c hc
    cases hc
  have hbegun : ∀ record : Checkpoint, record.key = job.key → record.artifacts = [] →
      ArtifactsKept s { s with checkpoints := s.checkpoints.insert record.key record } ∧
      ∀ c, (.ok record : Except StoreError Checkpoint) = .ok c →
        (s.checkpoints.insert record.key record).lookup job.key = some c ∧ c.key = job.key := by
    intro record hkey hempty
    refine ⟨(ArtifactsKept.refl s).insert (.inl hempty), ?_⟩
    intro c hc
    cases hc
    rw [← hkey]
    exact ⟨AList.lookup_insert _, rfl⟩
  unfold beginIngestionCheckpoint
  refine Proc.holds_lift_bind (fun e _ => hraises e) fun attempt _ => ?_
  refine Proc.holds_lift_bind (fun e _ => hraises e) fun snapshot _ => ?_
  refine holds_getIngestionCheckpoint_bind hraises ?_ ?_
  · intro _
    refine holds_writeIngestionCheckpoint_bind hraises (Proc.holds_pure ?_)
    exact hbegun (job.newCheckpoint attempt snapshot) rfl rfl
  · intro current hcurrent hkey
    show Proc.Holds (if current.attempt_id = attempt then _ else _) s _
    split
    · refine Proc.holds_lift_bind (fun e _ => hraises e) fun _ _ => Proc.holds_pure ⟨.refl s, ?_⟩
      intro c hc
      cases hc
      exact ⟨hcurrent, hkey⟩
    · refine Proc.holds_raiseIf_bind (fun _ => hraises _) fun _ => ?_
      refine holds_writeIngestionCheckpoint_bind hraises (Proc.holds_pure ?_)
      exact hbegun (job.newCheckpoint attempt snapshot) rfl rfl

/-- A request to cancel leaves the artifacts. -/
theorem requestIngestionCancel_kept (job : Job) :
    Proc.Holds (requestIngestionCancel env job) s fun _ s' => ArtifactsKept s s' := by
  unfold requestIngestionCancel
  refine Proc.holds_lift_bind (fun _ _ => .refl s) fun _ _ => ?_
  refine holds_getPublication_bind (fun _ => .refl s) fun _ => ?_
  split
  · exact Proc.holds_pure (.refl s)
  refine Proc.holds_bind ((beginIngestionCheckpoint_kept job).imp ?_)
  rintro r t ⟨hkept, hcurrent⟩
  cases r with
  | error e => exact hkept
  | ok current =>
    obtain ⟨hstored, hkey⟩ := hcurrent current rfl
    show Proc.Holds (if current.state = .committed then _ else _) t _
    split
    · exact Proc.holds_pure hkept
    · refine holds_writeIngestionCheckpoint_bind (fun _ => hkept) ?_
      have hmarked : ArtifactsKept s { t with
          checkpoints := t.checkpoints.insert current.key { current with cancel_requested := true } } := by
        refine hkept.insert ?_
        rw [hkey]
        exact hkept job.key current hstored
      split
      · refine (markPublicationCancel_checkpoints job).imp fun _ s' hs' => ?_
        intro k c' hc'
        rw [hs'] at hc'
        exact hmarked k c' hc'
      · exact Proc.holds_pure hmarked

/-- A save is of the attempt that its job presents. -/
theorem saveIngestionCheckpoint_presents (job : Job) (fingerprint : Option Json)
    (artifacts : Json.Members) :
    Proc.Holds (saveIngestionCheckpoint env job fingerprint artifacts) s fun _ s' => s' = s ∨
      ∃ current, s.checkpoints.lookup job.key = some current ∧ job.Presents current.attempt_id := by
  unfold saveIngestionCheckpoint
  refine Proc.holds_lift_bind (fun _ _ => .inl rfl) fun _ _ => ?_
  refine holds_getIngestionCheckpoint_bind (fun _ => .inl rfl) (fun _ => .inl rfl) ?_
  intro current hcurrent _
  refine Proc.holds_lift_bind (fun _ _ => .inl rfl) fun same hsame => ?_
  refine Proc.holds_raiseIf_bind (fun _ => .inl rfl) fun hactive => ?_
  simp only [Bool.or_eq_false_iff, Bool.not_eq_false'] at hactive
  rw [hactive.1] at hsame
  unfold Proc.Holds
  exact .inr ⟨current, hcurrent, isAttempt_true hsame⟩

end Kept

/-! ## The invariant -/

section Invariant

variable {env : Env} {provider : List String → Json} {dimensions : ℤ} {texts : List String}
  {key : JobKey} {attempt : String} {s s' : Store} {x : Execution}

/-- What is stored for the attempt is what some first batches give. -/
def StoreHolds (provider : List String → Json) (dimensions : ℤ) (texts : List String) (key : JobKey)
    (attempt : String) (s : Store) : Prop :=
  ∀ c, s.checkpoints.lookup key = some c → c.attempt_id = attempt →
    SavedPrefix provider dimensions texts c.artifacts

/-- What the vectors of an execution are at a stage, where the offset is that of the next batch, or of
the one that was just answered. -/
def Execution.At (provider : List String → Json) (dimensions : ℤ) (texts : List String) (offset : ℕ)
    (vectors : List Json) : Stage → Prop
  | .prepare | .resume | .stopped _ => True
  | .head => ∃ k, Prefix provider dimensions texts k vectors ∧
      (offset = maxEmbeddingBatch * k ∨ k = batchCount texts ∧ texts.length ≤ offset)
  | .embed => ∃ k, Prefix provider dimensions texts k vectors ∧ k < batchCount texts ∧
      offset = maxEmbeddingBatch * k
  | .save | .check => ∃ k, Prefix provider dimensions texts (k + 1) vectors ∧
      offset = maxEmbeddingBatch * k
  | .returned vs => Prefix provider dimensions texts (batchCount texts) vs

/-- An execution is of the attempt, its copy of the checkpoint has what some first batches give, and so
have its vectors. -/
structure Execution.Holds (provider : List String → Json) (dimensions : ℤ) (texts : List String)
    (key : JobKey) (attempt : String) (x : Execution) : Prop where
  key : x.job.key = key
  presents : x.job.Presents attempt
  phase : ∀ p, x.phase = some p → SavedPrefix provider dimensions texts p.artifacts
  stage : Execution.At provider dimensions texts x.offset x.vectors x.stage

/-- Artifacts that are kept are those of the attempt, or none. -/
theorem StoreHolds.kept (h : StoreHolds provider dimensions texts key attempt s)
    (hkept : ArtifactsKept s s') : StoreHolds provider dimensions texts key attempt s' := by
  intro c' hc' hattempt
  rcases hkept key c' hc' with hempty | ⟨c, hc, hsame, hartifacts⟩
  · rw [hempty]
    exact savedPrefix_of_none rfl
  · rw [← hartifacts]
    exact h c hc (hsame.trans hattempt)

/-- A save of first batches keeps what is stored. -/
theorem StoreHolds.save (h : StoreHolds provider dimensions texts key attempt s) (job : Job)
    (fingerprint : Option Json) {artifacts : Json.Members}
    (hsaved : job.key = key → job.Presents attempt → SavedPrefix provider dimensions texts artifacts) :
    Proc.Holds (saveIngestionCheckpoint env job fingerprint artifacts) s
      fun _ s' => StoreHolds provider dimensions texts key attempt s' := by
  have hpresents : Proc.Holds (saveIngestionCheckpoint env job fingerprint artifacts) s fun _ s' =>
      s' = s ∨ ∃ current, s.checkpoints.lookup job.key = some current ∧
        job.Presents current.attempt_id := saveIngestionCheckpoint_presents job fingerprint artifacts
  have hspec : Proc.Holds (saveIngestionCheckpoint env job fingerprint artifacts) s _ :=
    saveIngestionCheckpoint_spec job fingerprint artifacts
  unfold Proc.Holds at hspec hpresents ⊢
  rcases hspec with hsame | ⟨-, current, hcurrent, -, -, -, -, hwritten⟩
  · rw [hsame]
    exact h
  · rcases hpresents with hsame | ⟨current', hcurrent', hjob⟩
    · rw [hsame]
      exact h
    · cases hcurrent.symm.trans hcurrent'
      intro c hc hattempt
      rw [hwritten] at hc
      have hc' : (s.checkpoints.insert job.key (current.saved job fingerprint artifacts)).lookup key =
          some c := hc
      rw [lookup_insert_cases] at hc'
      split at hc'
      · next hkey =>
        cases hc'
        refine hsaved hkey.symm ?_
        rw [← hattempt]
        exact hjob
      · exact h c hc' hattempt

/-- A call of another attempt or of a client keeps what is stored. -/
theorem StoreHolds.call (h : StoreHolds provider dimensions texts key attempt s) {c : Call}
    (hc : c.OfCheckpoint) (hother : ∀ job fingerprint artifacts,
      c = .saveIngestionCheckpoint job fingerprint artifacts → job.key = key → ¬ job.Presents attempt) :
    StoreHolds provider dimensions texts key attempt (c.exec env s).2 := by
  show Proc.Holds (c.run env) s fun _ s' => StoreHolds provider dimensions texts key attempt s'
  cases c with
  | beginIngestionCheckpoint job =>
    refine Proc.holds_bind ((beginIngestionCheckpoint_kept job).imp ?_)
    rintro r t ⟨hkept, -⟩
    cases r <;> exact h.kept hkept
  | saveIngestionCheckpoint job fingerprint artifacts =>
    have hsave : Proc.Holds (saveIngestionCheckpoint env job fingerprint artifacts) s fun _ s' =>
        StoreHolds provider dimensions texts key attempt s' :=
      h.save job fingerprint fun hkey hjob => absurd hjob (hother job fingerprint artifacts rfl hkey)
    refine Proc.holds_bind (hsave.imp ?_)
    intro r t ht
    cases r <;> exact ht
  | finishIngestionCheckpoint job =>
    refine (finishIngestionCheckpoint_spec job).imp ?_
    rintro r t (rfl | ⟨rfl, current, state, -, -, -, -, -, -, rfl⟩)
    · exact h
    · exact h.kept ((ArtifactsKept.refl s).insert (.inl rfl))
  | requestIngestionCancel job => exact (requestIngestionCancel_kept job).imp fun _ _ => h.kept
  | _ => exact hc.elim

/-- What an execution with the given vectors saves. -/
theorem SavedPrefix.saved {k : ℕ} (h : Prefix provider dimensions texts k x.vectors) (phase : Phase) :
    SavedPrefix provider dimensions texts (x.saved phase).artifacts := by
  refine ⟨k, x.vectors, ?_, h⟩
  unfold storedVectors Execution.saved
  rw [Json.member?_setMember, if_pos rfl]
  rfl

/-- A check of the checkpoint changes no more of the job than its flag. -/
theorem checkpoint_ok {signals : Signals} {job job' : Job}
    (h : Execution.checkpoint env signals job s = .ok job') : ∃ cancel_requested,
      job' = { job with cancel_requested } := by
  unfold Execution.checkpoint at h
  split at h
  · cases h
  · split at h
    · cases h
    · split at h
      · cases h
      · cases h
      · simp only at h
        split at h
        · cases h
        · cases h
          exact ⟨_, rfl⟩

/-- The execution is over. -/
theorem Execution.Holds.stop (h : x.Holds provider dimensions texts key attempt) (e : Stop) :
    (x.stop e).Holds provider dimensions texts key attempt := ⟨h.key, h.presents, h.phase, trivial⟩

/-- **A step of an execution.** What is stored and what the execution has in hand stay what some first
batches give. -/
theorem Execution.Holds.step (h : x.Holds provider dimensions texts key attempt)
    (hs : StoreHolds provider dimensions texts key attempt s) (signals : Signals) :
    (x.step env provider dimensions texts signals s).1.Holds provider dimensions texts key attempt ∧
      StoreHolds provider dimensions texts key attempt
        (x.step env provider dimensions texts signals s).2 := by
  obtain ⟨hkey, hpresents, hphase, hat⟩ := h
  have hstop : ∀ e, (x.stop e).Holds provider dimensions texts key attempt :=
    fun e => ⟨hkey, hpresents, hphase, trivial⟩
  unfold Execution.step
  cases hstage : x.stage with
  | prepare => exact ⟨⟨hkey, hpresents, hphase, trivial⟩, hs⟩
  | resume =>
    simp only
    split
    · exact ⟨hstop _, hs⟩
    · next vectors hresumed =>
      refine ⟨⟨hkey, hpresents, hphase, ?_⟩, hs⟩
      have hvectors := resumed_ok hresumed
      have hmade : ∃ k, Prefix provider dimensions texts k vectors := by
        cases hp : x.phase with
        | none =>
          rw [hp] at hvectors
          cases hvectors
          exact ⟨0, .zero provider dimensions texts⟩
        | some phase =>
          rw [hp] at hvectors
          obtain ⟨k, stored, hstored, hmade⟩ := hphase phase hp
          cases (phaseVectors_ok hvectors).symm.trans hstored
          exact ⟨k, hmade⟩
      obtain ⟨k, hmade⟩ := hmade
      refine ⟨k, hmade, ?_⟩
      -- The vectors end with a batch, or with the plan.
      show vectors.length = _ ∨ k = _ ∧ texts.length ≤ vectors.length
      rw [hmade.length]
      by_cases hk : k < batchCount texts
      · left
        exact min_eq_left (lt_batchCount.mp hk).le
      · right
        have hbound := hmade.bound
        have hlong := fun hlt => hk (lt_batchCount.mpr hlt)
        refine ⟨by omega, ?_⟩
        rw [min_eq_right (not_lt.mp hlong)]
  | head =>
    rw [hstage] at hat
    obtain ⟨k, hmade, hoffset⟩ := hat
    simp only
    split
    · next hend =>
      refine ⟨⟨hkey, hpresents, hphase, ?_⟩, hs⟩
      have hk : k = batchCount texts := by
        rcases hoffset with hoffset | ⟨hk, -⟩
        · have hbound := hmade.bound
          by_contra hne
          have hlt := lt_batchCount.mp (show k < batchCount texts by omega)
          omega
        · exact hk
      show Prefix provider dimensions texts (batchCount texts) x.vectors
      rw [← hk]
      exact hmade
    · next hmore =>
      split
      · exact ⟨hstop _, hs⟩
      · next job hjob =>
        obtain ⟨cancel_requested, rfl⟩ := checkpoint_ok hjob
        have hoffset' : x.offset = maxEmbeddingBatch * k := by
          rcases hoffset with hoffset | ⟨-, hlong⟩
          · exact hoffset
          · exact absurd hlong hmore
        refine ⟨⟨hkey, hpresents, hphase, k, hmade, ?_, hoffset'⟩, hs⟩
        rw [lt_batchCount, ← hoffset']
        exact not_le.mp hmore
  | embed =>
    rw [hstage] at hat
    obtain ⟨k, hmade, hk, hoffset⟩ := hat
    simp only
    split
    · exact ⟨hstop _, hs⟩
    · next validated hembed =>
      rw [hoffset] at hembed
      exact ⟨⟨hkey, hpresents, hphase, k, hmade.succ hk hembed, hoffset⟩, hs⟩
  | save =>
    rw [hstage] at hat
    obtain ⟨k, hmade, hoffset⟩ := hat
    simp only
    split
    · refine ⟨⟨hkey, hpresents, hphase, k + 1, hmade, .inl ?_⟩, hs⟩
      show x.offset + maxEmbeddingBatch = maxEmbeddingBatch * (k + 1)
      rw [hoffset, Nat.mul_succ]
    · next phase hp =>
      have hsaved : SavedPrefix provider dimensions texts (x.saved phase).artifacts := .saved hmade phase
      have hstore : Proc.Holds (saveIngestionCheckpoint env x.job phase.fingerprint
          (x.saved phase).artifacts) s fun _ s' => StoreHolds provider dimensions texts key attempt s' :=
        hs.save x.job phase.fingerprint fun _ _ => hsaved
      have hphase' : ∀ p, some (x.saved phase) = some p →
          SavedPrefix provider dimensions texts p.artifacts := by
        intro p hp
        cases hp
        exact hsaved
      split
      · next e t hexec => exact ⟨⟨hkey, hpresents, hphase', trivial⟩, hstore.of_exec hexec⟩
      · next current cancel t hexec =>
        exact ⟨⟨hkey, hpresents, hphase', k, hmade, hoffset⟩, hstore.of_exec hexec⟩
  | check =>
    rw [hstage] at hat
    obtain ⟨k, hmade, hoffset⟩ := hat
    simp only
    split
    · exact ⟨hstop _, hs⟩
    · next job hjob =>
      obtain ⟨cancel_requested, rfl⟩ := checkpoint_ok hjob
      refine ⟨⟨hkey, hpresents, hphase, k + 1, hmade, .inl ?_⟩, hs⟩
      show x.offset + maxEmbeddingBatch = maxEmbeddingBatch * (k + 1)
      rw [hoffset, Nat.mul_succ]
  | returned vs => exact ⟨⟨hkey, hpresents, hphase, hat⟩, hs⟩
  | stopped e => exact ⟨⟨hkey, hpresents, hphase, hat⟩, hs⟩

/-- A save of another output. -/
theorem Execution.Holds.prepare (h : x.Holds provider dimensions texts key attempt)
    (hs : StoreHolds provider dimensions texts key attempt s) {output : Option (String × Json)}
    (houtput : ∀ name value, output = some (name, value) → name ≠ "vectors") :
    (x.prepare env output s).1.Holds provider dimensions texts key attempt ∧
      StoreHolds provider dimensions texts key attempt (x.prepare env output s).2 := by
  obtain ⟨hkey, hpresents, hphase, hat⟩ := h
  unfold Execution.prepare
  split
  · next phase hstage hp =>
    have hsaved : SavedPrefix provider dimensions texts (phase.withOutput output).artifacts := by
      cases output with
      | none => exact hphase phase hp
      | some o => exact (hphase phase hp).setMember (houtput o.1 o.2 rfl) o.2
    have hstore : Proc.Holds (saveIngestionCheckpoint env x.job phase.fingerprint
        (phase.withOutput output).artifacts) s
          fun _ s' => StoreHolds provider dimensions texts key attempt s' :=
      hs.save x.job phase.fingerprint fun _ _ => hsaved
    have hphase' : ∀ p, some (phase.withOutput output) = some p →
        SavedPrefix provider dimensions texts p.artifacts := by
      intro p hp
      cases hp
      exact hsaved
    split
    · next e t hexec => exact ⟨⟨hkey, hpresents, hphase', trivial⟩, hstore.of_exec hexec⟩
    · next current cancel t hexec =>
      refine ⟨⟨hkey, hpresents, hphase', ?_⟩, hstore.of_exec hexec⟩
      exact hat
  · exact ⟨⟨hkey, hpresents, hphase, hat⟩, hs⟩

/-- What holds of a machine. -/
structure EmbeddingMachine.Ok (provider : List String → Json) (dimensions : ℤ) (texts : List String)
    (key : JobKey) (attempt : String) (m : EmbeddingMachine) : Prop where
  store : StoreHolds provider dimensions texts key attempt m.store
  executions : ∀ x ∈ m.executions, x.Holds provider dimensions texts key attempt

variable {m : EmbeddingMachine}

/-- One execution goes on. -/
theorem EmbeddingMachine.Ok.advance (hm : m.Ok provider dimensions texts key attempt) (i : ℕ)
    {f : Execution → Store → Execution × Store}
    (hf : ∀ x : Execution, x.Holds provider dimensions texts key attempt →
      (f x m.store).1.Holds provider dimensions texts key attempt ∧
        StoreHolds provider dimensions texts key attempt (f x m.store).2) :
    (m.advance i f).Ok provider dimensions texts key attempt := by
  unfold EmbeddingMachine.advance
  cases hx : m.executions[i]? with
  | none => exact hm
  | some x =>
    obtain ⟨hnew, hstore⟩ := hf x (hm.executions x (List.mem_of_getElem? hx))
    refine ⟨hstore, ?_⟩
    intro y hy
    rcases List.mem_or_eq_of_mem_set hy with hy | rfl
    · exact hm.executions y hy
    · exact hnew

/-- An action keeps what holds of the machine. -/
theorem EmbeddingMachine.Ok.run (hm : m.Ok provider dimensions texts key attempt) {a : EmbeddingAction}
    (ha : a.Allowed key attempt m) :
    (a.run env provider dimensions texts key attempt m).Ok provider dimensions texts key attempt := by
  cases a with
  | call c => exact ⟨hm.store.call ha.1 ha.2, hm.executions⟩
  | elsewhere t =>
    refine ⟨?_, hm.executions⟩
    intro c hc hattempt
    have hc' : t.checkpoints.lookup key = some c := hc
    rw [show t.checkpoints = m.store.checkpoints from ha] at hc'
    exact hm.store c hc' hattempt
  | begins job fingerprint durable =>
    refine ⟨hm.store, ?_⟩
    intro x hx
    rcases List.mem_append.mp hx with hx | hx
    · exact hm.executions x hx
    · rw [List.mem_singleton] at hx
      subst hx
      refine ⟨ha.1, ha.2, ?_, trivial⟩
      intro p hp
      cases durable with
      | false => cases hp
      | true =>
        have hp' : copyPhase key attempt m.store fingerprint = some p := hp
        unfold copyPhase at hp'
        split at hp'
        · next c hc =>
          split at hp'
          · next hattempt =>
            cases hp'
            exact hm.store c hc hattempt
          · cases hp'
            exact savedPrefix_of_none rfl
        · cases hp'
          exact savedPrefix_of_none rfl
  | prepares i output => exact hm.advance i fun x hx => hx.prepare hm.store ha
  | steps i signals => exact hm.advance i fun x hx => hx.step hm.store signals

/-- What holds of every machine that actions lead to. -/
theorem EmbeddingReachable.ok (hm : EmbeddingReachable env provider dimensions texts key attempt m) :
    m.Ok provider dimensions texts key attempt := by
  refine run_invariant (I := fun m => EmbeddingMachine.Ok provider dimensions texts key attempt m)
    ?_ ?_ hm
  · rintro a _ ha ⟨action, hallowed, rfl⟩
    exact ha.run hallowed
  · refine ⟨?_, ?_⟩
    · intro c hc
      cases hc
    · intro x hx
      cases hx

end Invariant

/-- **A resumed embedding phase equals an uninterrupted one.** In every state of every run of executions
for one attempt, which may be stopped anywhere and overlap, an execution that has returned has the
vectors that the provider gives for the consecutive batches of the plan, in order and with one vector for
each text; and the vectors that are stored for the attempt are what it gives for the first of these
batches. -/
theorem resumed_embedding (env : Env) (provider : List String → Json) (dimensions : ℤ)
    (texts : List String) (key : JobKey) (attempt : String) (m : EmbeddingMachine)
    (hm : EmbeddingReachable env provider dimensions texts key attempt m) :
    (batches texts).flatten = texts ∧
    (∀ x ∈ m.executions, ∀ vectors, x.stage = .returned vectors →
      vectors = (batches texts).flatMap (answer provider dimensions) ∧
      vectors.length = texts.length ∧ ∀ batch ∈ batches texts,
        validateEmbeddings (provider batch) batch.length dimensions =
          .ok (answer provider dimensions batch) ∧
        (answer provider dimensions batch).length = batch.length) ∧
    ∀ c, m.store.checkpoints.lookup key = some c → c.attempt_id = attempt →
      ∃ k ≤ (batches texts).length,
        storedVectors c.artifacts =
          .arr (((batches texts).take k).flatMap (answer provider dimensions)) ∧
        ∀ batch ∈ (batches texts).take k,
          validateEmbeddings (provider batch) batch.length dimensions =
            .ok (answer provider dimensions batch) := by
  refine ⟨flatten_batches texts, ?_, ?_⟩
  · intro x hx vectors hreturned
    have hat := (hm.ok.executions x hx).stage
    rw [hreturned] at hat
    have hmade : Prefix provider dimensions texts (batchCount texts) vectors := hat
    have hall : (batches texts).take (batchCount texts) = batches texts := by
      rw [← length_batches, List.take_length]
    refine ⟨?_, ?_, ?_⟩
    · rw [hmade.vectors, hall]
    · have hlong : texts.length ≤ maxEmbeddingBatch * batchCount texts := by
        unfold batchCount maxEmbeddingBatch
        omega
      rw [hmade.length, min_eq_right hlong]
    · intro batch hbatch
      rw [← hall] at hbatch
      exact ⟨hmade.valid batch hbatch, hmade.answer_length hbatch⟩
  · intro c hc hattempt
    obtain ⟨k, vectors, hstored, hmade⟩ := hm.ok.store c hc hattempt
    refine ⟨k, ?_, ?_, hmade.valid⟩
    · rw [length_batches]
      exact hmade.bound
    · rw [hstored, hmade.vectors]

/-! ## An execution that returns -/

/-- A provider whose answers are of one dimension. -/
def sampleProvider (batch : List String) : Json := .arr (batch.map fun text => .arr [.int text.length])

/-- The checkpoint of the attempt has begun, and so has an execution. -/
def sampleBegun : EmbeddingMachine :=
  (EmbeddingAction.begins (plainJob []) none true).run plainEnv sampleProvider 1 ["a", "bc"]
    (plainJob []).key "attempt-1"
    ((EmbeddingAction.call (.beginIngestionCheckpoint (plainJob []))).run plainEnv sampleProvider 1
      ["a", "bc"] (plainJob []).key "attempt-1" ⟨Store.empty, []⟩)

/-- A step of the execution that nothing stops. -/
def sampleStep (m : EmbeddingMachine) : EmbeddingMachine :=
  (EmbeddingAction.steps 0 ⟨false, false, none⟩).run plainEnv sampleProvider 1 ["a", "bc"]
    (plainJob []).key "attempt-1" m

/-- Steps lead to reachable machines. -/
theorem sampleStep_reachable (n : ℕ) : EmbeddingReachable plainEnv sampleProvider 1 ["a", "bc"]
    (plainJob []).key "attempt-1" (sampleStep^[n] sampleBegun) := by
  induction n with
  | zero =>
    refine .tail (.tail .refl ⟨.call (.beginIngestionCheckpoint (plainJob [])), ⟨trivial, ?_⟩, rfl⟩)
      ⟨.begins (plainJob []) none true, ⟨rfl, rfl⟩, rfl⟩
    intro job fingerprint artifacts hcall
    cases hcall
  | succ n ih =>
    rw [Function.iterate_succ_apply']
    exact .tail ih ⟨.steps 0 ⟨false, false, none⟩, trivial, rfl⟩

/-- The vectors that an execution has returned. -/
def Execution.returned? (x : Execution) : Option (List Json) :=
  match x.stage with
  | .returned vectors => some vectors
  | _ => none

/-- The execution returns a vector for each of its texts. -/
theorem sample_returns : ∃ x ∈ (sampleStep^[7] sampleBegun).executions, ∃ vectors,
    x.stage = .returned vectors ∧ vectors.length = 2 := by
  have hreturned : (sampleStep^[7] sampleBegun).executions.map
      (fun x => x.returned?.isSome) = [true] := by decide +kernel
  cases hexecutions : (sampleStep^[7] sampleBegun).executions with
  | nil =>
    rw [hexecutions] at hreturned
    cases hreturned
  | cons x rest =>
    rw [hexecutions] at hreturned
    simp only [List.map_cons, List.cons.injEq] at hreturned
    obtain ⟨vectors, hvectors⟩ := Option.isSome_iff_exists.mp hreturned.1
    have hstage : x.stage = .returned vectors := by
      unfold Execution.returned? at hvectors
      split at hvectors
      · next found hfound =>
        cases hvectors
        exact hfound
      · cases hvectors
    have hmem : x ∈ (sampleStep^[7] sampleBegun).executions := by
      rw [hexecutions]
      exact List.mem_cons_self
    have hresult := (resumed_embedding plainEnv sampleProvider 1 ["a", "bc"] (plainJob []).key "attempt-1"
      (sampleStep^[7] sampleBegun) (sampleStep_reachable 7)).2.1 x hmem vectors hstage
    exact ⟨x, List.mem_cons_self, vectors, hstage, hresult.2.1⟩

end RickIntelligence.Ingestion
