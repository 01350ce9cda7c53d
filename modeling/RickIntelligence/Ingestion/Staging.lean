import RickIntelligence.Lib.Register

/-!
# Staged uploads

The staging storage of `IngestionApplicationService` (`apps/api/src/services/ingestion_service.py`): the
bytes that are staged (`_staged_bytes`), the size recorded for each file (`_staged_sizes`), and what writes,
removes, evicts and restores staged files. What the file system answers is given by the number of times it
was asked. What the service writes to its journal, and the files of its cleanup leases, are left out: no
size is read from them.
-/

namespace RickIntelligence.Ingestion

open Lib

/-! ## Files -/

/-- A path, as its parts. -/
abbrev FilePath := List String

/-- What a call to the file system gives: a value, `FileNotFoundError`, or another `OSError`. -/
inductive Answer (α : Type) where
  | ok (value : α)
  | missing
  | failed

/-- The file system, at each time that it is asked. A path that cannot be resolved has no resolution. -/
structure FileSystem where
  resolve : ℕ → FilePath → Option FilePath
  isFile : ℕ → FilePath → Bool
  stat : ℕ → FilePath → Answer ℕ
  unlink : ℕ → FilePath → Answer Unit

/-- The configuration of the service. -/
structure StagingConfig where
  staging_root : FilePath
  max_bytes : ℕ
  max_jobs : ℕ
  max_staged_bytes : ℕ
  bytes_pos : 0 < max_bytes
  jobs_pos : 0 < max_jobs
  covers_upload : max_bytes ≤ max_staged_bytes

/-- `_cleanup_lease_root`. -/
def StagingConfig.cleanupLeaseRoot (config : StagingConfig) : FilePath := config.staging_root ++ [".cleanup-leases"]

/-! ## State -/

/-- A job, as far as it decides what happens to its file. `order` is `_safe_order` of `created_at`. -/
structure StagedJob where
  status : String
  order : ℚ
  document_id : Option String
  outcome_unknown : Bool

/-- `_TERMINAL_STATES`. -/
def terminalStates : List String := ["published", "failed", "cancelled"]

/-- `_RECOVERABLE_STATES`. -/
def recoverableStates : List String :=
  ["queued", "processing", "validating", "parsing", "chunking", "embedding", "indexing", "verifying"]

/-- `_publication_unknown`. -/
def StagedJob.publicationUnknown (job : StagedJob) : Bool := job.status == "verifying" && job.outcome_unknown

/-- The tables of the service that refer to staged files. -/
structure StagingTables where
  jobs : Register String StagedJob
  job_paths : Register String FilePath
  document_paths : Register String FilePath
  document_order : Register String ℕ
  document_order_counter : ℕ

/-- What happens to a recorded size otherwise than by its own file: a file is unlinked, or a new name is
taken. Each has the size that was recorded, and what the file system and the aggregate had. -/
inductive StagingEvent where
  | unlinked (path : FilePath) (accounted : Option ℕ) (size staged_bytes : ℕ)
  | named (path : FilePath) (accounted : Option ℕ)

/-- The state of the service. Its `events` are a history that no function reads. -/
structure Staging where
  staged_bytes : ℕ
  staged_sizes : Register FilePath ℕ
  tables : StagingTables
  asked : ℕ
  events : List StagingEvent

/-- The state of a new service. -/
def Staging.initial : Staging := ⟨0, .empty, ⟨.empty, .empty, .empty, .empty, 0⟩, 0, []⟩

/-! ## Removal -/

section Removal

variable (config : StagingConfig) (files : FileSystem)

/-- The state after the size of a file is found to be another than the recorded one. -/
def Staging.reconcile (s : Staging) (path : FilePath) (size : ℕ) : Staging :=
  match s.staged_sizes.get? path with
  | some accounted =>
    if size ≠ accounted then
      { s with
        staged_bytes := s.staged_bytes + size - accounted
        staged_sizes := s.staged_sizes.set path size }
    else s
  | none => s

/-- The state after a recorded file is found to be gone. -/
def Staging.release (s : Staging) (path : FilePath) : Staging :=
  match s.staged_sizes.get? path with
  | some accounted =>
    { s with
      staged_bytes := s.staged_bytes - accounted
      staged_sizes := s.staged_sizes.pop path }
  | none => s

/-- The state after a file of some size is unlinked. -/
def Staging.debit (s : Staging) (path : FilePath) (size : ℕ) : Staging :=
  { s with
    staged_bytes := s.staged_bytes - (s.staged_sizes.get? path).getD size
    staged_sizes := s.staged_sizes.pop path
    events := s.events ++ [.unlinked path (s.staged_sizes.get? path) size s.staged_bytes] }

/-- `_remove_path`: whether there is nothing to remove any more. -/
def removePath (s : Staging) : Option FilePath → Bool × Staging
  | none => (true, s)
  | some path =>
    let asked := s.asked
    let s := { s with asked := asked + 1 }
    match files.resolve asked path with
    | none => (false, s)
    | some resolved =>
      if ¬ config.staging_root <+: resolved then (false, s)
      else
        match files.stat asked resolved with
        | .missing => (true, s.release resolved)
        | .failed => (false, s)
        | .ok size =>
          match files.unlink asked resolved with
          | .missing => (true, (s.reconcile resolved size).release resolved)
          | .failed => (false, s.reconcile resolved size)
          | .ok () => (true, (s.reconcile resolved size).debit resolved size)

/-- `_cleanup_job_source`, of a job that has a path. -/
def cleanupJobSource (s : Staging) (job_id : String) (path : FilePath) : Bool × Staging :=
  let removed := removePath config files s (some path)
  if removed.1 then
    (true, { removed.2 with
      tables := { removed.2.tables with job_paths := removed.2.tables.job_paths.pop job_id } })
  else
    (false, { removed.2 with
      tables := { removed.2.tables with job_paths := removed.2.tables.job_paths.set job_id path } })

end Removal

/-! ## Eviction -/

section Eviction

variable (config : StagingConfig) (files : FileSystem)

/-- The tables without what refers to a path: a document leaves its order too. -/
def StagingTables.forget (tables : StagingTables) (path : FilePath) : StagingTables :=
  { tables with
    document_paths := tables.document_paths.keep fun entry => decide (entry.2 ≠ path)
    document_order := tables.document_order.keep fun entry =>
      decide (tables.document_paths.get? entry.1 ≠ some path)
    job_paths := tables.job_paths.keep fun entry => decide (entry.2 ≠ path) }

/-- The retained sources, each with what decides which one goes first. -/
def documentCandidates (tables : StagingTables) : List (ℚ × FilePath) :=
  tables.document_paths.entries.map fun entry => (((tables.document_order.get? entry.1).getD 0 : ℕ), entry.2)

/-- The sources of jobs that have ended. -/
def jobCandidates (tables : StagingTables) : List (ℚ × FilePath) :=
  tables.job_paths.entries.filterMap fun entry =>
    (tables.jobs.get? entry.1).bind fun job =>
      if job.status ∈ terminalStates then some (job.order, entry.2) else none

/-- The candidates of `_evict_one_source`. -/
def evictionCandidates (tables : StagingTables) : List (ℚ × FilePath) :=
  if documentCandidates tables = [] then jobCandidates tables else documentCandidates tables

/-- `_evict_one_source`: whether a source was released. -/
def evictOneSource (s : Staging) : Bool × Staging :=
  match (evictionCandidates s.tables).argmin Prod.fst with
  | none => (false, s)
  | some candidate =>
    let removed := removePath config files s (some candidate.2)
    if removed.1 then (true, { removed.2 with tables := removed.2.tables.forget candidate.2 })
    else (false, removed.2)

/-- The loop of `_make_staging_capacity`, for a number of turns. -/
def makeCapacity : ℕ → Staging → Staging
  | 0, s => s
  | turns + 1, s =>
    if config.max_jobs ≤ s.tables.job_paths.entries.length ∨ config.max_staged_bytes ≤ s.staged_bytes then
      let evicted := evictOneSource config files s
      if evicted.1 then makeCapacity turns evicted.2 else evicted.2
    else s

/-- How many paths the tables refer to: every turn of an eviction makes it less. -/
def StagingTables.paths (tables : StagingTables) : ℕ :=
  tables.document_paths.entries.length + tables.job_paths.entries.length

/-- `_make_staging_capacity`. -/
def makeStagingCapacity (s : Staging) : Staging := makeCapacity config files (s.tables.paths + 1) s

/-- A document leaves the tables. -/
def StagingTables.dropDocument (tables : StagingTables) (document_id : String) : StagingTables :=
  { tables with
    document_paths := tables.document_paths.pop document_id
    document_order := tables.document_order.pop document_id }

/-- The loop of `_evict_document_sources_if_needed`, for a number of turns. -/
def evictDocuments : ℕ → Staging → Staging
  | 0, s => s
  | turns + 1, s =>
    if config.max_jobs < s.tables.document_paths.entries.length then
      match s.tables.document_order.entries.argmin Prod.snd with
      | none => s
      | some (document_id, _) =>
        match s.tables.document_paths.get? document_id with
        | none => evictDocuments turns { s with tables := s.tables.dropDocument document_id }
        | some path =>
          let removed := removePath config files s (some path)
          if removed.1 then
            let tables := removed.2.tables.dropDocument document_id
            evictDocuments turns { removed.2 with
              tables := { tables with job_paths := tables.job_paths.keep fun entry => decide (entry.2 ≠ path) } }
          else removed.2
    else s

/-- `_evict_document_sources_if_needed`. -/
def evictDocumentSourcesIfNeeded (s : Staging) : Staging :=
  evictDocuments config files (s.tables.document_order.entries.length + 1) s

/-- The loop of `_evict_if_needed` over the jobs that have ended. -/
def evictJobs : List (String × StagedJob) → Staging → Staging
  | [], s => s
  | (job_id, _) :: terminal, s =>
    if s.tables.jobs.entries.length ≤ config.max_jobs then s
    else
      let dropJob := fun s : Staging => { s with tables := { s.tables with jobs := s.tables.jobs.pop job_id } }
      match s.tables.job_paths.get? job_id with
      | none => evictJobs terminal (dropJob s)
      | some path =>
        if path ∈ s.tables.document_paths.values then
          evictJobs terminal (dropJob { s with
            tables := { s.tables with job_paths := s.tables.job_paths.pop job_id } })
        else
          let cleaned := cleanupJobSource config files s job_id path
          if cleaned.1 then evictJobs terminal (dropJob cleaned.2) else cleaned.2

/-- `_evict_if_needed`. -/
def evictIfNeeded (s : Staging) : Staging :=
  let terminal := s.tables.jobs.entries.filter fun entry => decide (entry.2.status ∈ terminalStates)
  evictJobs config files (terminal.mergeSort fun a b => decide (a.2.order ≤ b.2.order)) s

end Eviction

/-! ## Uploads -/

/-- What reading the next chunk of a source gives: bytes, with how many of them the file takes (or a failure of
the write), or an error of the reader, `crashed` for one that is not handled. -/
inductive UploadChunk where
  | read (length : ℕ) (written : Option ℕ)
  | refused (code : String)
  | failed
  | crashed

/-- What is raised while a source is written. -/
inductive UploadError where
  | app (code : String)
  | storage
  | other
  deriving DecidableEq

/-- An upload: the name that `_new_staging_path` finds, whether the file opens and closes, the chunks of the
source, the scope for cleaning up, and the identifier of a cleanup job. -/
structure Upload where
  name : Option String
  opened : Bool
  chunks : List UploadChunk
  closed : Bool
  has_scope : Bool
  cleanup_id : String
  cleanup_order : ℚ

section Uploads

variable (config : StagingConfig) (files : FileSystem)

/-- The loop over the chunks of a source, after how many bytes were written. -/
def writeChunks (staged_bytes : ℕ) : ℕ → List UploadChunk → Except UploadError ℕ
  | written, [] => .ok written
  | _, .refused code :: _ => .error (.app code)
  | _, .failed :: _ => .error .storage
  | _, .crashed :: _ => .error .other
  | written, .read length target :: rest =>
    if config.max_bytes ≤ written ∨ config.max_bytes - written < length then .error (.app "request_too_large")
    else if config.max_staged_bytes < staged_bytes + written + length then .error (.app "storage_unavailable")
    else if target ≠ some length then .error .storage
    else writeChunks staged_bytes (written + length) rest

/-- What writing the file gives. -/
def writeFile (staged_bytes : ℕ) (upload : Upload) : Except UploadError ℕ :=
  if upload.opened then
    if upload.closed then writeChunks config staged_bytes 0 upload.chunks else .error .storage
  else .error .storage

/-- `_quarantine_unowned_source`. -/
def quarantineUnownedSource (s : Staging) (upload : Upload) (path : FilePath) : Staging :=
  { s with
    tables := { s.tables with
      jobs := s.tables.jobs.set upload.cleanup_id ⟨"failed", upload.cleanup_order, none, false⟩
      job_paths := s.tables.job_paths.set upload.cleanup_id path } }

/-- `_remove_or_quarantine`. -/
def removeOrQuarantine (s : Staging) (upload : Upload) (path : FilePath) : Staging :=
  let removed := removePath config files s (some path)
  if removed.1 then removed.2
  else if upload.has_scope then quarantineUnownedSource removed.2 upload path
  else removed.2

/-- `_write_staged`. -/
def writeStaged (s : Staging) (upload : Upload) : Except UploadError (FilePath × ℕ) × Staging :=
  let s := makeStagingCapacity config files s
  if config.max_jobs ≤ s.tables.job_paths.entries.length ∨ config.max_staged_bytes ≤ s.staged_bytes then
    (.error (.app "storage_unavailable"), s)
  else
    match upload.name with
    | none => (.error (.app "storage_unavailable"), s)
    | some name =>
      let path := config.staging_root ++ [name]
      let s := { s with
        staged_sizes := s.staged_sizes.set path 0
        events := s.events ++ [.named path (s.staged_sizes.get? path)] }
      match writeFile config s.staged_bytes upload with
      | .error .other => (.error .other, s)
      | .error (.app code) => (.error (.app code), removeOrQuarantine config files s upload path)
      | .error .storage => (.error (.app "storage_unavailable"), removeOrQuarantine config files s upload path)
      | .ok written =>
        if written = 0 then (.error (.app "validation_error"), removeOrQuarantine config files s upload path)
        else
          (.ok (path, written), { s with
            staged_bytes := s.staged_bytes + written
            staged_sizes := s.staged_sizes.set path written })

end Uploads

/-! ## Recovery -/

/-- What `recover_publication` does. -/
inductive Recovery where
  | absent
  | raised
  | unchanged
  | recovered (job : StagedJob)

/-- A row of the journal: what `_recovery_job` makes of it, its source path if that is absolute, and what
`recover_publication` does with its job. -/
structure JournalRow where
  job : Option (String × StagedJob)
  source_path : Option FilePath
  recovery : Recovery

section Recovering

variable (config : StagingConfig) (files : FileSystem)

/-- `_recovery_path`. -/
def recoveryPath (s : Staging) (source_path : Option FilePath) : Option FilePath :=
  match source_path.bind (files.resolve s.asked) with
  | none => none
  | some resolved =>
    if config.staging_root <+: resolved ∧ files.isFile s.asked resolved = true then some resolved else none

/-- The job of a row after `recover_publication`. -/
def recoveredJob (job : StagedJob) (recovery : Recovery) : StagedJob :=
  if job.status ∈ recoverableStates ∨ job.status = "published" then
    match recovery with
    | .raised => { job with status := "verifying", outcome_unknown := true }
    | .recovered job' => job'
    | _ => job
  else job

/-- The size of a restored source is recorded, once. -/
def restoreSource (s : Staging) (restored : List FilePath) (source : FilePath) : Staging × List FilePath :=
  if source ∈ restored then (s, restored)
  else
    match files.stat s.asked source with
    | .ok size =>
      ({ s with
        staged_bytes := s.staged_bytes + size
        staged_sizes := s.staged_sizes.set source size
        asked := s.asked + 1 }, restored ++ [source])
    | _ => ({ s with asked := s.asked + 1 }, restored ++ [source])

/-- The tables with a restored job, and the source that it keeps. -/
def retainSource (tables : StagingTables) (job_id : String) (job : StagedJob) (source : FilePath) :
    StagingTables :=
  let tables := { tables with job_paths := tables.job_paths.set job_id source }
  match job.document_id with
  | some document_id =>
    if job.status = "published" then
      { tables with
        document_paths := tables.document_paths.set document_id source
        document_order_counter := tables.document_order_counter + 1
        document_order := tables.document_order.set document_id (tables.document_order_counter + 1) }
    else tables
  | none => tables

/-- One row of `_restore_journal`, with the sources that were restored. -/
def restoreRow (row : JournalRow) (state : Staging × List FilePath) : Staging × List FilePath :=
  let s := state.1
  let source := recoveryPath config files s row.source_path
  let s := { s with asked := s.asked + 1 }
  match row.job with
  | none =>
    match source with
    | none => (s, state.2)
    | some source => ((removePath config files s (some source)).2, state.2)
  | some (job_id, job) =>
    let job := recoveredJob job row.recovery
    let s := { s with tables := { s.tables with jobs := s.tables.jobs.set job_id job } }
    match source with
    | some source =>
      let (s, restored) := restoreSource files s state.2 source
      if job.status ∈ recoverableStates ∨ job.status = "published" then
        ({ s with tables := retainSource s.tables job_id job source }, restored)
      else if job.status = "failed" ∨ job.status = "cancelled" then
        let s := { s with tables := { s.tables with job_paths := s.tables.job_paths.set job_id source } }
        ((cleanupJobSource config files s job_id source).2, restored)
      else (s, restored)
    | none =>
      if job.status ∈ recoverableStates ∧ job.publicationUnknown = false then
        -- `_mark_recovery_required`.
        ({ s with tables := { s.tables with
          jobs := s.tables.jobs.set job_id { job with status := "failed" }
          job_paths := s.tables.job_paths.pop job_id } }, state.2)
      else (s, state.2)

/-- `_restore_journal`, without what it submits. -/
def restoreJournal (s : Staging) (rows : List JournalRow) : Staging :=
  let s := (rows.foldl (fun state row => restoreRow config files row state) (s, [])).1
  evictDocumentSourcesIfNeeded config files (evictIfNeeded config files s)

/-- `_safe_staging_path`. -/
def safeStagingPath (s : Staging) (path : FilePath) : Option FilePath :=
  match files.resolve s.asked path with
  | none => none
  | some resolved =>
    if config.staging_root <+: resolved ∧ resolved ≠ config.staging_root ∧
        ¬ config.cleanupLeaseRoot <+: resolved then some resolved
    else none

/-- One marker of `_restore_cleanup_leases`: the source of a marker that is read, if it names an absolute
path. -/
def restoreMarker (s : Staging) (source_path : Option FilePath) : Staging :=
  let source := source_path.bind (safeStagingPath config files s)
  let s := { s with asked := s.asked + 1 }
  match source with
  | none => s
  | some source => (removePath config files s (some source)).2

/-- `_restore_cleanup_leases`. -/
def restoreCleanupLeases (s : Staging) (markers : List (Option FilePath)) : Staging :=
  markers.foldl (restoreMarker config files) s

end Recovering

/-! ## Runs -/

/-- A call on the service. Between the calls that account for files, the rest of the service may change the
tables in any way. -/
inductive StagingCall where
  | writeStaged (upload : Upload)
  | removePath (path : Option FilePath)
  | evictOneSource
  | evictDocumentSources
  | tables (tables : StagingTables)

/-- The state after a call. -/
def stagingCall (config : StagingConfig) (files : FileSystem) (s : Staging) : StagingCall → Staging
  | .writeStaged upload => (writeStaged config files s upload).2
  | .removePath path => (removePath config files s path).2
  | .evictOneSource => (evictOneSource config files s).2
  | .evictDocumentSources => evictDocumentSourcesIfNeeded config files s
  | .tables tables => { s with tables := tables }

/-- The state of a service that recovers from a journal and its cleanup leases, and then gets some calls. -/
def runStaging (config : StagingConfig) (files : FileSystem) (rows : List JournalRow)
    (markers : List (Option FilePath)) (calls : List StagingCall) : Staging :=
  calls.foldl (stagingCall config files)
    (restoreCleanupLeases config files (restoreJournal config files .initial rows) markers)

end RickIntelligence.Ingestion
