import RickIntelligence.Knowledge.Records
import RickIntelligence.Lib.Proc
import RickIntelligence.Lib.Run

/-!
# The decision to publish

`PublicationStore` of `rick_knowledge/publication.py` over the tables of `InMemoryKnowledgeStore` in
`rick_knowledge/store.py`. The methods are procedures: nothing rolls them back when they raise.

A method holds one or both of two locks. Methods under the mutation lock exclude one another; the
checkpoints and the requests to cancel take the publication lock only, so that a request may fall
between the steps of `save_publication_snapshot`, which holds the publication lock for each of its
three steps and not in between (`saveRead`, `saveCheck`, `writePublication`). Every other method is
one step (`Call`).
-/

namespace RickIntelligence.Knowledge

open Lib

/-- The tables of the store. -/
structure Store where
  publications : AList fun _ : JobKey => Receipt
  checkpoints : AList fun _ : JobKey => Checkpoint
  documents : AList fun _ : String => Document
  chunks : AList fun _ : String => List Chunk
  tombstones : Finset String

/-- A store without records. -/
def Store.empty : Store := ⟨∅, ∅, ∅, ∅, ∅⟩

/-- A procedure of the store. -/
abbrev StoreProc := Proc Store StoreError

/-! ## Checkpoints -/

/-- `get_ingestion_checkpoint`. -/
def getIngestionCheckpoint (env : Env) (key : JobKey) : StoreProc (Option Checkpoint) := do
  Proc.lift (requirePublicationIdentities [some key.2.2.2, some key.1, some key.2.1, some key.2.2.1])
  let s : Store ← get
  match s.checkpoints.lookup key with
  | none => return none
  | some record =>
    Proc.raiseIf (record.key != key) (.ownership "checkpoint scope changed")
    Proc.lift (validatePublicationSnapshot env record.job_snapshot record.attempt_id none)
    Proc.lift (env.encode_checkpoint record)
    return some record

/-- `_write_ingestion_checkpoint`. -/
def writeIngestionCheckpoint (env : Env) (record : Checkpoint) : StoreProc Unit := do
  Proc.lift (env.encode_checkpoint record)
  let s : Store ← get
  set { s with checkpoints := s.checkpoints.insert record.key record }

/-- The checkpoint that an attempt begins with. -/
def Job.newCheckpoint (job : Job) (attempt_id : String) (snapshot : Snapshot) : Checkpoint where
  job_id := job.job_id
  tenant_id := job.tenant_id
  workspace_id := job.workspace_id
  collection_id := job.collection_id
  attempt_id := attempt_id
  document_id := none
  fingerprint := none
  state := .active
  cancel_requested := false
  job_snapshot := snapshot
  artifacts := []

/-- `begin_ingestion_checkpoint`. -/
def beginIngestionCheckpoint (env : Env) (job : Job) : StoreProc Checkpoint := do
  let attempt ← Proc.lift (job.identities [])
  let snapshot ← Proc.lift (publicationSnapshot env job attempt none)
  let record := job.newCheckpoint attempt snapshot
  match ← getIngestionCheckpoint env job.key with
  | none =>
    writeIngestionCheckpoint env record
    return record
  | some current =>
    if current.attempt_id = attempt then
      Proc.lift (checkCheckpointFacts current job)
      return current
    else
      Proc.raiseIf (job.attempt != current.job_snapshot.attempt + 1 ||
        current.state == .committed || current.state == .cancelled)
        (.ownership "checkpoint retry must advance the current attempt")
      writeIngestionCheckpoint env record
      return record

/-- An output that was saved is still there: a list of vectors may have grown. -/
def outputKept (env : Env) (artifacts : Json.Members) (saved : String × Json) : Bool :=
  match saved.1 == "vectors", saved.2, Json.member? saved.1 artifacts with
  | true, .arr old, some (.arr new) =>
    decide (old.length ≤ new.length) && (new.zip old).all fun p => env.same p.1 p.2
  | _, _, none => false
  | _, old, some new => env.same new old

/-- `save_ingestion_checkpoint`: the checkpoint, and whether the job is told to cancel. -/
def saveIngestionCheckpoint (env : Env) (job : Job) (fingerprint : Option Json)
    (artifacts : Json.Members) : StoreProc (Checkpoint × Bool) := do
  Proc.lift (env.encode_artifacts artifacts)
  match ← getIngestionCheckpoint env job.key with
  | none => Proc.raise (.ownership "checkpoint attempt changed")
  | some current =>
    let same ← Proc.lift (job.isAttempt current.attempt_id)
    Proc.raiseIf (!same || current.state != .active) (.ownership "checkpoint attempt changed")
    Proc.lift (checkCheckpointFacts current job)
    Proc.raiseIf (current.fingerprint.any fun saved =>
        !fingerprint.any (env.same saved) || current.document_id != job.document_id)
      (.ownership "checkpoint content or processing contract changed")
    if current.cancel_requested then return (current, true)
    else
      Proc.raiseIf (!current.artifacts.all (outputKept env artifacts))
        (.ownership "completed checkpoint output changed")
      let snapshot ← Proc.lift (publicationSnapshot env job current.attempt_id none)
      let candidate : Checkpoint := { current with
        document_id := job.document_id, fingerprint, job_snapshot := snapshot, artifacts }
      writeIngestionCheckpoint env candidate
      return (candidate, job.cancel_requested)

/-! ## Receipts -/

/-- `get_publication`. -/
def getPublication (key : JobKey) : StoreProc (Option Receipt) := do
  Proc.lift (requirePublicationIdentities [some key.2.2.2, some key.1, some key.2.1, some key.2.2.1])
  let s : Store ← get
  return s.publications.lookup key

/-- The record that `_write_publication` stores over the current one: a decision stands, and so does
a cancellation, which turns a failure into a cancellation. -/
def mergeReceipt (current : Option Receipt) (candidate : Receipt) : Receipt :=
  match current with
  | none => candidate
  | some current =>
    if current.attempt_id = candidate.attempt_id then
      let outcome := if current.outcome != .pending then current.outcome else candidate.outcome
      let cancel_requested := candidate.cancel_requested || current.cancel_requested
      { candidate with
        cancel_requested
        outcome := if cancel_requested && outcome == .failed then .cancelled else outcome }
    else candidate

/-- `_write_publication`. -/
def writePublication (record : Receipt) : StoreProc Unit := do
  let s : Store ← get
  let candidate := mergeReceipt (s.publications.lookup record.key) record
  set { s with publications := s.publications.insert record.key candidate }

/-- `_mark_publication_cancel`. -/
def markPublicationCancel (job : Job) : StoreProc Unit := do
  let s : Store ← get
  match s.publications.lookup job.key with
  | none => return ()
  | some record =>
    let same ← Proc.lift (job.isAttempt record.attempt_id)
    if same && record.outcome == .pending then
      set { s with
        publications := s.publications.insert job.key { record with cancel_requested := true } }
    else return ()

/-- The outcome of a receipt that a job with its status has. -/
def JobStatus.state? : JobStatus → Option CheckpointState
  | published => some .committed
  | failed => some .failed
  | cancelled => some .cancelled
  | other _ => none

/-- The outcome that a finished checkpoint asks of its receipt. -/
def CheckpointState.outcome : CheckpointState → Outcome
  | active => .pending
  | committed => .committed
  | failed => .failed
  | cancelled => .cancelled

/-- `finish_ingestion_checkpoint`. -/
def finishIngestionCheckpoint (env : Env) (job : Job) : StoreProc Unit := do
  match ← getIngestionCheckpoint env job.key with
  | none => return ()
  | some current =>
    let same ← Proc.lift (job.isAttempt current.attempt_id)
    Proc.raiseIf (!same) (.ownership "checkpoint attempt changed")
    Proc.lift (checkCheckpointFacts current job)
    Proc.raiseIf (current.job_snapshot.finished_at.isSome &&
      job.finished_at != current.job_snapshot.finished_at) (.ownership "checkpoint finish is immutable")
    match job.status.state? with
    | none => Proc.raise (.key "status")
    | some state =>
      let receipt ← getPublication job.key
      let mine := receipt.filter fun r => r.attempt_id == current.attempt_id
      Proc.raiseIf (mine.any fun r => r.outcome != state.outcome)
        (.ownership "checkpoint outcome requires decision authority")
      Proc.raiseIf (mine.any fun r => r.outcome == state.outcome &&
          job.finished_at != r.job_snapshot.finished_at &&
          !(r.job_snapshot.finished_at.isNone && current.state == state &&
            current.job_snapshot.finished_at.isSome &&
            current.job_snapshot.finished_at == job.finished_at))
        (.ownership "checkpoint finish requires completion authority")
      Proc.raiseIf (current.state != .active && current.state != state)
        (.ownership "checkpoint outcome is immutable")
      let snapshot ← Proc.lift (publicationSnapshot env job current.attempt_id none)
      writeIngestionCheckpoint env { current with
        state, artifacts := [], job_snapshot := snapshot,
        cancel_requested := current.cancel_requested || job.cancel_requested }

/-- `request_ingestion_cancel`. -/
def requestIngestionCancel (env : Env) (job : Job) : StoreProc Unit := do
  let _ ← Proc.lift (job.identities [])
  let receipt ← getPublication job.key
  if receipt.any fun r => r.outcome == .committed then return ()
  else
    let current ← beginIngestionCheckpoint env job
    if current.state = .committed then return ()
    else
      writeIngestionCheckpoint env { current with cancel_requested := true }
      if receipt.any fun r => r.outcome == .pending && r.attempt_id == current.attempt_id &&
          r.job_snapshot.attempt == job.attempt then
        markPublicationCancel job
      else return ()

/-- The receipt that an attempt begins with. -/
def Job.newReceipt (job : Job) (attempt_id document_attempt : String) (ready_count : ℤ)
    (snapshot : Snapshot) : Receipt where
  job_id := job.job_id
  tenant_id := job.tenant_id
  workspace_id := job.workspace_id
  collection_id := job.collection_id
  document_id := job.document_id.getD ""
  attempt_id := attempt_id
  document_attempt := document_attempt
  outcome := .pending
  cancel_requested := false
  ready_count := ready_count
  job_snapshot := snapshot

/-- The end of `begin_publication`: the record is written unless there is one of its attempt, and
after a failed one only for the next attempt. -/
def admitReceipt (job : Job) (record : Receipt) : StoreProc Unit := do
  match ← getPublication job.key with
  | none =>
    Proc.raiseIf job.finished_at.isSome (.ownership "new publication cannot import a caller finish")
    writePublication record
  | some previous =>
    if previous.attempt_id = record.attempt_id then
      Proc.raiseIf (previous.document_id != record.document_id ||
          previous.document_attempt != record.document_attempt)
        (.ownership "publication identity changed within attempt")
      Proc.raiseIf (previous.job_snapshot.attempt != job.attempt)
        (.ownership "publication count changed within attempt")
      return ()
    else
      Proc.raiseIf (previous.outcome != .failed)
        (.ownership "publication recovery must precede a new attempt")
      Proc.raiseIf (job.attempt != previous.job_snapshot.attempt + 1)
        (.ownership "publication retry must advance exactly one attempt")
      Proc.raiseIf job.finished_at.isSome (.ownership "new publication cannot import a caller finish")
      writePublication record

/-- `begin_publication`. -/
def beginPublication (env : Env) (job : Job) (document_attempt : Option String) (ready_count : ℤ) :
    StoreProc Unit := do
  let given ← Proc.lift job.publicationAttempt
  let document_attempt := document_attempt.getD (given.text?.getD "")
  let attempt ← Proc.lift (job.identities [job.document_id, some document_attempt])
  Proc.raiseIf (!(decide (0 ≤ ready_count) && decide (ready_count ≤ 100000)))
    (.value "invalid ready point count")
  Proc.raiseIf (decide (job.attempt < 1)) (.value "invalid publication attempt count")
  let snapshot ← Proc.lift (publicationSnapshot env job attempt (some document_attempt))
  let record := job.newReceipt attempt document_attempt ready_count snapshot
  match ← getIngestionCheckpoint env job.key with
  | none => admitReceipt job record
  | some checkpoint =>
    Proc.raiseIf (checkpoint.attempt_id != attempt ||
        checkpoint.job_snapshot.attempt != job.attempt)
      (.ownership "publication checkpoint attempt changed")
    admitReceipt job { record with cancel_requested := checkpoint.cancel_requested }

/-- `_terminal_publication`, with the reading of the clock. -/
def terminalPublication (env : Env) (now : Instant) (current : Receipt) (outcome : Outcome) :
    Except StoreError Receipt := do
  let saved := current.job_snapshot
  validatePublicationSnapshot env saved current.attempt_id (some current.document_attempt)
  raiseFirst [(current.outcome != .pending, .ownership "completion requires a pending decision")]
  let lower := saved.started_at <|> saved.created_at
  let finished_at := match saved.finished_at with
    | some t => some t
    | none => match now with
      | .seconds _ => if isBefore (some now) lower then none else some now
      | .invalid => none
  return { current with outcome, job_snapshot := { saved with finished_at } }

/-- `resolve_publication`, where `key` and `attempt_id` are what it reads of the given record. -/
def resolvePublication (env : Env) (now : Instant) (key : JobKey) (attempt_id : String)
    (outcome : Outcome) : StoreProc (Option Receipt) := do
  Proc.raiseIf (outcome == .pending) (.value "invalid publication outcome")
  match ← getPublication key with
  | none => Proc.raise (.ownership "publication attempt changed")
  | some current =>
    Proc.raiseIf (current.attempt_id != attempt_id) (.ownership "publication attempt changed")
    if current.outcome != .pending then
      Proc.raiseIf (current.outcome != outcome) (.ownership "publication outcome is immutable")
      return some current
    else
      let decided ← Proc.lift (terminalPublication env now current outcome)
      writePublication decided
      getPublication key

/-- `request_publication_cancel`. -/
def requestPublicationCancel (job : Job) : StoreProc Unit := do
  let _ ← Proc.lift (job.identities [])
  markPublicationCancel job

/-! ## The steps of a saved snapshot -/

/-- The first step of `save_publication_snapshot`: the receipt is read. -/
def saveRead (job : Job) : StoreProc Receipt := do
  match ← getPublication job.key with
  | none => Proc.raise (.ownership "publication attempt changed")
  | some current =>
    let same ← Proc.lift (job.isAttempt current.attempt_id)
    Proc.raiseIf (!same) (.ownership "publication attempt changed")
    Proc.raiseIf (job.document_id != some current.document_id)
      (.ownership "publication document changed")
    return current

/-- `_checkpoint_supplies_finish`. -/
def checkpointSuppliesFinish (env : Env) (current : Receipt) (finished : Option Instant) :
    StoreProc Bool := do
  match ← getIngestionCheckpoint env current.key with
  | none => return false
  | some c =>
    return c.attempt_id == current.attempt_id && c.state != .active &&
      c.state.outcome == current.outcome && c.document_id == some current.document_id &&
      c.job_snapshot.attempt == current.job_snapshot.attempt &&
      c.job_snapshot.created_at == current.job_snapshot.created_at &&
      c.job_snapshot.started_at == current.job_snapshot.started_at &&
      c.job_snapshot.finished_at == finished

/-- The second step of `save_publication_snapshot`: the record to be written is made of the receipt
that was read and of the job, with the checkpoint read in between. -/
def saveCheck (env : Env) (job : Job) (current : Receipt) : StoreProc Receipt := do
  let saved := current.job_snapshot
  Proc.lift (validatePublicationSnapshot env saved current.attempt_id (some current.document_attempt))
  let candidate ← Proc.lift
    (publicationSnapshot env job current.attempt_id (some current.document_attempt))
  Proc.raiseIf (candidate.attempt != saved.attempt || candidate.created_at != saved.created_at ||
      candidate.started_at != saved.started_at)
    (.ownership "publication snapshot facts are immutable")
  match saved.finished_at with
  | some finished =>
    Proc.raiseIf (candidate.finished_at != some finished)
      (.ownership "publication snapshot facts are immutable")
    return { current with job_snapshot := candidate }
  | none =>
    if candidate.finished_at.isSome then
      Proc.raiseIf (current.outcome == .pending ||
          job.status.state?.map CheckpointState.outcome != some current.outcome)
        (.ownership "publication finish requires its terminal outcome")
      let supplied ← checkpointSuppliesFinish env current candidate.finished_at
      Proc.raiseIf (!supplied) (.ownership "publication finish requires its terminal outcome")
      return { current with job_snapshot := { candidate with finished_at := none } }
    else return { current with job_snapshot := { candidate with finished_at := none } }

/-! ## The commit gate -/

/-- The text of a status that is none of `DOCUMENT_STATUSES`. -/
def DocumentStatus.unknown? : DocumentStatus → Option String
  | other text => some text
  | _ => none

/-- The receipt waits for a decision on the document. -/
def Receipt.pendingFor (d : Document) (r : Receipt) : Bool :=
  r.outcome == .pending && r.matchesDocument d

/-- The receipt after a commit of the document, if it is one of those that wait for it. -/
def Receipt.commit (env : Env) (now : Instant) (d : Document) (r : Receipt) :
    Except StoreError Receipt :=
  if r.pendingFor d then terminalPublication env now r .committed else .ok r

/-- The values of a dictionary, each through a function. -/
def mapValues {κ α : Type} (f : κ → α → α) (d : AList fun _ : κ => α) : AList fun _ : κ => α :=
  ⟨d.entries.map (Sigma.map id f), d.nodupKeys.map₂ f _⟩

/-- `decisions` of `set_document_status`, with the reading of the clock for each receipt: every
receipt that waits for the document is committed, or the first that cannot be is raised. -/
def commitAll (env : Env) (clock : JobKey → Instant) (d : Document)
    (publications : AList fun _ : JobKey => Receipt) :
    Except StoreError (AList fun _ : JobKey => Receipt) :=
  match publications.entries.findSome? fun e => match e.2.commit env (clock e.1) d with
    | .error x => some x
    | .ok _ => none with
  | some x => .error x
  | none => .ok (mapValues (fun k r => (r.commit env (clock k) d).toOption.getD r) publications)

/-- `set_document_status`. The document is written in place, as far as its lineage could be filled,
and the receipts after it. -/
def setDocumentStatus (env : Env) (clock : JobKey → Instant) (created_now published_now : Timestamp)
    (document_id : String) (status : DocumentStatus) : StoreProc Unit := do
  Proc.raiseIf status.unknown?.isSome
    (.value ("unknown document status: " ++ status.unknown?.getD ""))
  let s : Store ← get
  match s.documents.lookup document_id with
  | none => Proc.raise (.key document_id)
  | some document =>
    Proc.raiseIf (status == .published && s.publications.entries.any fun e =>
        e.2.pendingFor document && e.2.cancel_requested)
      (.ownership "publication cancelled before commit")
    Proc.raiseIf ((decide (document_id ∈ s.tombstones) || document.status == .deleted) &&
        status != .deleted)
      (.value "deleted documents cannot transition; ingest a new version")
    let publications ← Proc.lift (if status = .published then
      commitAll env clock document s.publications else .ok s.publications)
    let left := materializeLineage created_now published_now (status == .published)
      { document with status }
    let written : Store := { s with
      documents := s.documents.insert document_id left.2
      tombstones := if status = .deleted then insert document_id s.tombstones else s.tombstones }
    set written
    Proc.lift left.1
    set { written with publications }

/-! ## Calls and events -/

/-- A call that is one step. `rewriteDocuments` stands for the other methods of the store and for the
callers that hold a document: they may change the documents as they like, but for their dates. -/
inductive Call where
  | beginIngestionCheckpoint (job : Job)
  | saveIngestionCheckpoint (job : Job) (fingerprint : Option Json) (artifacts : Json.Members)
  | finishIngestionCheckpoint (job : Job)
  | requestIngestionCancel (job : Job)
  | beginPublication (job : Job) (document_attempt : Option String) (ready_count : ℤ)
  | resolvePublication (now : Instant) (key : JobKey) (attempt_id : String) (outcome : Outcome)
  | requestPublicationCancel (job : Job)
  | setDocumentStatus (clock : JobKey → Instant) (created_now published_now : Timestamp)
      (document_id : String) (status : DocumentStatus)
  | rewriteDocuments (documents : AList fun _ : String => Document) (tombstones : Finset String)
      (dated : ∀ id d, documents.lookup id = some d → d.Dated)

/-- The procedure of a call. -/
def Call.run (env : Env) : Call → StoreProc Unit
  | beginIngestionCheckpoint job => do
    let _ ← Knowledge.beginIngestionCheckpoint env job
  | saveIngestionCheckpoint job fingerprint artifacts => do
    let _ ← Knowledge.saveIngestionCheckpoint env job fingerprint artifacts
  | finishIngestionCheckpoint job => Knowledge.finishIngestionCheckpoint env job
  | requestIngestionCancel job => Knowledge.requestIngestionCancel env job
  | beginPublication job document_attempt ready_count =>
    Knowledge.beginPublication env job document_attempt ready_count
  | resolvePublication now key attempt_id outcome => do
    let _ ← Knowledge.resolvePublication env now key attempt_id outcome
  | requestPublicationCancel job => Knowledge.requestPublicationCancel job
  | setDocumentStatus clock created_now published_now document_id status =>
    Knowledge.setDocumentStatus env clock created_now published_now document_id status
  | rewriteDocuments documents tombstones _ => do
    let s : Store ← get
    set { s with documents, tombstones }

/-- A call: its result, and the store that it leaves. -/
def Call.exec (env : Env) (call : Call) (s : Store) : Except StoreError Unit × Store :=
  Proc.exec (call.run env) s

/-- The call holds the mutation lock. -/
def Call.mutates : Call → Bool
  | beginPublication .. | resolvePublication .. | setDocumentStatus .. | rewriteDocuments .. => true
  | _ => false

/-- How far a `save_publication_snapshot` has come. -/
inductive Saving where
  | read (job : Job) (current : Receipt)
  | checked (record : Receipt)

/-- The store, and the `save_publication_snapshot` that holds the mutation lock. -/
structure Machine where
  store : Store
  saving : Option Saving

/-- A machine without records. -/
def Machine.empty : Machine := ⟨Store.empty, none⟩

/-- A call, or a step of `save_publication_snapshot`. -/
inductive Event where
  | call (c : Call)
  | saveRead (job : Job)
  | saveCheck
  | saveWrite

/-- An event: its result, and the machine that it leaves. -/
def Event.exec (env : Env) : Event → Machine → Except StoreError Unit × Machine
  | call c, m => ((c.exec env m.store).1, { m with store := (c.exec env m.store).2 })
  | saveRead job, m =>
    match Proc.exec (Knowledge.saveRead job) m.store with
    | (.ok current, s) => (.ok (), ⟨s, some (.read job current)⟩)
    | (.error e, s) => (.error e, ⟨s, none⟩)
  | saveCheck, ⟨s, some (.read job current)⟩ =>
    match Proc.exec (Knowledge.saveCheck env job current) s with
    | (.ok record, s') => (.ok (), ⟨s', some (.checked record)⟩)
    | (.error e, s') => (.error e, ⟨s', none⟩)
  | saveWrite, ⟨s, some (.checked record)⟩ =>
    ((Proc.exec (writePublication record) s).1, ⟨(Proc.exec (writePublication record) s).2, none⟩)
  | _, m => (.ok (), m)

/-- The event waits for no lock. -/
def Event.Enabled : Event → Machine → Prop
  | call c, m => c.mutates = true → m.saving = none
  | saveRead _, m => m.saving = none
  | saveCheck, m => ∃ job current, m.saving = some (.read job current)
  | saveWrite, m => ∃ record, m.saving = some (.checked record)

/-- One event. -/
def MachineStep (env : Env) (m m' : Machine) : Prop :=
  ∃ e : Event, e.Enabled m ∧ m' = (e.exec env m).2

/-- The machines that events lead to from an empty one. -/
def MachineReachable (env : Env) : Machine → Prop :=
  Relation.ReflTransGen (MachineStep env) Machine.empty

end RickIntelligence.Knowledge
