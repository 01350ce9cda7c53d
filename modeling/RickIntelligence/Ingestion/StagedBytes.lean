import RickIntelligence.Ingestion.Staging

/-!
# What the staged bytes count

`_staged_bytes` is the sum of the sizes in `_staged_sizes` as long as no file is unlinked that is not
recorded. The aggregate is debited by the size of such a file all the same, as a cleanup lease or a journal
row without a job makes happen for a file of an earlier process.
-/

namespace RickIntelligence.Ingestion

open Lib

/-- An event that leaves the aggregate what it should be: a file that is unlinked is recorded, or there is
nothing to debit, and a new name is not that of a file with a recorded size. -/
def StagingEvent.Recorded : StagingEvent → Prop
  | .unlinked _ accounted size staged_bytes => accounted.isSome = true ∨ size = 0 ∨ staged_bytes = 0
  | .named _ accounted => accounted.getD 0 = 0

/-- The aggregate is the sum of the recorded sizes. -/
def Staging.Balanced (s : Staging) : Prop := s.staged_bytes = s.staged_sizes.total

/-- What is kept of a state: its aggregate is what it should be after events that leave it so, and what is
recorded is below the staging root. -/
structure Accounted (config : StagingConfig) (s : Staging) : Prop where
  balanced : (∀ event ∈ s.events, event.Recorded) → s.Balanced
  below : ∀ path ∈ s.staged_sizes.keys, config.staging_root <+: path

variable {config : StagingConfig} {files : FileSystem} {s : Staging}

/-- A state with other tables, or that has asked more. -/
theorem Accounted.of_eq {s' : Staging} (h : Accounted config s) (hbytes : s'.staged_bytes = s.staged_bytes)
    (hsizes : s'.staged_sizes = s.staged_sizes) (hevents : s'.events = s.events) : Accounted config s' := by
  refine ⟨?_, ?_⟩
  · unfold Staging.Balanced
    rw [hevents, hbytes, hsizes]
    exact h.balanced
  · rw [hsizes]
    exact h.below

/-! ## Removal -/

section Removal

variable {path : FilePath} {size : ℕ}

/-- A size that is corrected leaves the aggregate what it should be. -/
theorem reconcile_balanced (h : s.Balanced) : (s.reconcile path size).Balanced := by
  unfold Staging.reconcile
  split
  · next accounted haccounted =>
    split
    · have hset := Register.total_set s.staged_sizes path size
      have hle := Register.le_total haccounted
      rw [haccounted, Option.getD_some] at hset
      unfold Staging.Balanced at h ⊢
      simp only
      omega
    · exact h
  · exact h

/-- A size that is corrected is of a path that was recorded. -/
theorem reconcile_keys {path' : FilePath} (h : path' ∈ (s.reconcile path size).staged_sizes.keys) :
    path' ∈ s.staged_sizes.keys := by
  unfold Staging.reconcile at h
  split at h
  · next accounted haccounted =>
    split at h
    · rcases Register.mem_keys_set.mp h with rfl | hmem
      · exact Register.mem_keys_of_get? haccounted
      · exact hmem
    · exact h
  · exact h

/-- Correcting a size is no event. -/
theorem reconcile_events : (s.reconcile path size).events = s.events := by
  unfold Staging.reconcile
  split
  · split
    · rfl
    · rfl
  · rfl

/-- A file that is gone leaves the aggregate what it should be. -/
theorem release_balanced (h : s.Balanced) : (s.release path).Balanced := by
  unfold Staging.release
  split
  · next accounted haccounted =>
    have hpop := Register.total_pop s.staged_sizes path
    rw [haccounted, Option.getD_some] at hpop
    unfold Staging.Balanced at h ⊢
    simp only
    omega
  · exact h

/-- A file that is gone leaves the other files recorded. -/
theorem release_keys {path' : FilePath} (h : path' ∈ (s.release path).staged_sizes.keys) :
    path' ∈ s.staged_sizes.keys := by
  unfold Staging.release at h
  split at h
  · exact Register.mem_keys_of_keep h
  · exact h

/-- Finding a file gone is no event. -/
theorem release_events : (s.release path).events = s.events := by
  unfold Staging.release
  split
  · rfl
  · rfl

/-- Unlinking a file leaves the aggregate what it should be exactly when the file is recorded, or there is
nothing to debit. -/
theorem debit_balanced (h : s.Balanced) : (s.debit path size).Balanced ↔
      (StagingEvent.unlinked path (s.staged_sizes.get? path) size s.staged_bytes).Recorded := by
  have hpop := Register.total_pop s.staged_sizes path
  unfold Staging.debit Staging.Balanced StagingEvent.Recorded
  unfold Staging.Balanced at h
  cases haccounted : s.staged_sizes.get? path with
  | some accounted =>
    rw [haccounted, Option.getD_some] at hpop
    simp only [Option.getD_some, Option.isSome_some, true_or, iff_true]
    omega
  | none =>
    rw [haccounted, Option.getD_none] at hpop
    simp only [Option.getD_none, Option.isSome_none, Bool.false_eq_true, false_or]
    omega

/-- What `_remove_path` does to the accounts: it is one event at most, and it leaves the aggregate what it
should be exactly when the event does. -/
theorem removePath_spec (path : Option FilePath) :
    ∃ events, (removePath config files s path).2.events = s.events ++ events ∧
      (s.Balanced → ((removePath config files s path).2.Balanced ↔ ∀ event ∈ events, event.Recorded)) ∧
      ∀ path' ∈ (removePath config files s path).2.staged_sizes.keys, path' ∈ s.staged_sizes.keys := by
  have hquiet : ∀ s' : Staging, s'.events = s.events → (s.Balanced → s'.Balanced) →
      (∀ path' ∈ s'.staged_sizes.keys, path' ∈ s.staged_sizes.keys) →
      ∃ events, s'.events = s.events ++ events ∧
        (s.Balanced → (s'.Balanced ↔ ∀ event ∈ events, event.Recorded)) ∧
        ∀ path' ∈ s'.staged_sizes.keys, path' ∈ s.staged_sizes.keys := by
    intro s' hevents hbalanced hkeys
    refine ⟨[], by rw [hevents, List.append_nil], fun h => ?_, hkeys⟩
    exact iff_of_true (hbalanced h) fun event hmem => absurd hmem List.not_mem_nil
  cases path with
  | none => exact hquiet s rfl id fun _ h => h
  | some path =>
    unfold removePath
    simp only
    generalize hs : ({ s with asked := s.asked + 1 } : Staging) = t
    -- Asking the file system changes nothing of the accounts.
    have hevents : t.events = s.events := by rw [← hs]
    have hsizes : t.staged_sizes = s.staged_sizes := by rw [← hs]
    have hbytes : t.staged_bytes = s.staged_bytes := by rw [← hs]
    have hbalanced : s.Balanced → t.Balanced := by
      unfold Staging.Balanced
      rw [hsizes, hbytes]
      exact id
    rw [← hsizes] at hquiet ⊢
    split
    · exact hquiet t hevents hbalanced fun _ h => h
    · next resolved _ =>
      split
      · exact hquiet t hevents hbalanced fun _ h => h
      · split
        · exact hquiet _ (release_events.trans hevents) (fun h => release_balanced (hbalanced h))
            fun _ h => release_keys h
        · exact hquiet t hevents hbalanced fun _ h => h
        · next size _ =>
          have hreconciled : (t.reconcile resolved size).events = s.events := reconcile_events.trans hevents
          split
          · exact hquiet _ (release_events.trans hreconciled)
              (fun h => release_balanced (reconcile_balanced (hbalanced h))) fun _ h => reconcile_keys (release_keys h)
          · exact hquiet _ hreconciled (fun h => reconcile_balanced (hbalanced h)) fun _ h => reconcile_keys h
          · refine ⟨_, congrArg (· ++ _) hreconciled, fun h => ?_, fun path' hpath => ?_⟩
            · rw [List.forall_mem_singleton]
              exact debit_balanced (reconcile_balanced (hbalanced h))
            · exact reconcile_keys (Register.mem_keys_of_keep hpath)

/-- Removing a file keeps the accounts. -/
theorem removePath_accounted (h : Accounted config s) (path : Option FilePath) :
    Accounted config (removePath config files s path).2 := by
  obtain ⟨events, hevents, hbalanced, hkeys⟩ := @removePath_spec config files s path
  refine ⟨fun hrecorded => ?_, fun path' hpath => h.below path' (hkeys path' hpath)⟩
  rw [hevents] at hrecorded
  have hbefore := h.balanced fun event hevent => hrecorded event (List.mem_append_left _ hevent)
  exact (hbalanced hbefore).mpr fun event hevent => hrecorded event (List.mem_append_right _ hevent)

/-- Cleaning up after a job keeps the accounts. -/
theorem cleanupJobSource_accounted (h : Accounted config s) (job_id : String) (path : FilePath) :
    Accounted config (cleanupJobSource config files s job_id path).2 := by
  unfold cleanupJobSource
  simp only
  split
  · exact (removePath_accounted h (some path)).of_eq rfl rfl rfl
  · exact (removePath_accounted h (some path)).of_eq rfl rfl rfl

end Removal

/-! ## Eviction -/

/-- Evicting a source keeps the accounts. -/
theorem evictOneSource_accounted (h : Accounted config s) : Accounted config (evictOneSource config files s).2 := by
  unfold evictOneSource
  split
  · exact h
  · simp only
    split
    · exact (removePath_accounted h _).of_eq rfl rfl rfl
    · exact removePath_accounted h _

/-- Making room keeps the accounts. -/
theorem makeCapacity_accounted (turns : ℕ) (h : Accounted config s) :
    Accounted config (makeCapacity config files turns s) := by
  induction turns generalizing s with
  | zero => exact h
  | succ turns ih =>
    unfold makeCapacity
    split
    · simp only
      split
      · exact ih (evictOneSource_accounted h)
      · exact evictOneSource_accounted h
    · exact h

/-- Evicting the sources of documents keeps the accounts. -/
theorem evictDocuments_accounted (turns : ℕ) (h : Accounted config s) :
    Accounted config (evictDocuments config files turns s) := by
  induction turns generalizing s with
  | zero => exact h
  | succ turns ih =>
    unfold evictDocuments
    split
    · split
      · exact h
      · next document_id _ _ =>
        split
        · exact ih (h.of_eq rfl rfl rfl)
        · next path _ =>
          simp only
          split
          · exact ih ((removePath_accounted h (some path)).of_eq rfl rfl rfl)
          · exact removePath_accounted h (some path)
    · exact h

/-- Evicting jobs keeps the accounts. -/
theorem evictJobs_accounted (terminal : List (String × StagedJob)) (h : Accounted config s) :
    Accounted config (evictJobs config files terminal s) := by
  induction terminal generalizing s with
  | nil => exact h
  | cons entry terminal ih =>
    unfold evictJobs
    split
    · exact h
    · simp only
      split
      · exact ih (h.of_eq rfl rfl rfl)
      · next path _ =>
        split
        · exact ih (h.of_eq rfl rfl rfl)
        · split
          · exact ih ((cleanupJobSource_accounted h entry.1 path).of_eq rfl rfl rfl)
          · exact cleanupJobSource_accounted h entry.1 path

/-! ## Turns -/

section Turns

/-- Removing a file changes no table. -/
theorem removePath_tables (path : Option FilePath) : (removePath config files s path).2.tables = s.tables := by
  have hreconcile : ∀ (t : Staging) path size, (t.reconcile path size).tables = t.tables := by
    intro t path size
    unfold Staging.reconcile
    split
    · split
      · rfl
      · rfl
    · rfl
  have hrelease : ∀ (t : Staging) path, (t.release path).tables = t.tables := by
    intro t path
    unfold Staging.release
    split
    · rfl
    · rfl
  cases path with
  | none => rfl
  | some path =>
    unfold removePath
    simp only
    split
    · rfl
    · split
      · rfl
      · split
        · rw [hrelease]
        · rfl
        · split
          · rw [hrelease, hreconcile]
          · rw [hreconcile]
          · exact hreconcile _ _ _

/-- What is evicted is a path that the tables refer to. -/
theorem evictionCandidates_mem {tables : StagingTables} {candidate : ℚ × FilePath}
    (h : candidate ∈ evictionCandidates tables) :
    candidate.2 ∈ tables.document_paths.values ∨ candidate.2 ∈ tables.job_paths.values := by
  unfold evictionCandidates at h
  split at h
  · obtain ⟨entry, hentry, heq⟩ := List.mem_filterMap.mp h
    obtain ⟨job, -, heq⟩ := Option.bind_eq_some_iff.mp heq
    split at heq
    · cases heq
      exact .inr (List.mem_map_of_mem hentry)
    · cases heq
  · obtain ⟨entry, hentry, rfl⟩ := List.mem_map.mp h
    exact .inl (List.mem_map_of_mem hentry)

/-- Forgetting a path that the tables refer to leaves fewer. -/
theorem forget_paths_lt {tables : StagingTables} {path : FilePath}
    (h : path ∈ tables.document_paths.values ∨ path ∈ tables.job_paths.values) :
    (tables.forget path).paths < tables.paths := by
  have hless : ∀ r : Register String FilePath, path ∈ r.values →
      (r.keep fun entry => decide (entry.2 ≠ path)).entries.length < r.entries.length := by
    intro r hmem
    obtain ⟨entry, hentry, heq⟩ := List.mem_map.mp hmem
    exact List.length_filter_lt_length_iff_exists.mpr ⟨entry, hentry, by simp [heq]⟩
  have hle : ∀ r : Register String FilePath,
      (r.keep fun entry => decide (entry.2 ≠ path)).entries.length ≤ r.entries.length :=
    fun r => List.length_filter_le _ _
  unfold StagingTables.paths StagingTables.forget
  simp only
  rcases h with h | h
  · have := hless _ h
    have := hle tables.job_paths
    omega
  · have := hless _ h
    have := hle tables.document_paths
    omega

/-- A source that was evicted leaves the tables with fewer paths. -/
theorem evictOneSource_paths_lt (h : (evictOneSource config files s).1 = true) :
    (evictOneSource config files s).2.tables.paths < s.tables.paths := by
  unfold evictOneSource at h ⊢
  cases hcandidate : (evictionCandidates s.tables).argmin Prod.fst with
  | none =>
    rw [hcandidate] at h
    cases h
  | some candidate =>
    rw [hcandidate] at h
    simp only at h ⊢
    by_cases hremoved : (removePath config files s (some candidate.2)).1 = true
    · rw [if_pos hremoved]
      simp only [removePath_tables]
      exact forget_paths_lt (evictionCandidates_mem (List.argmin_mem hcandidate))
    · rw [if_neg hremoved] at h
      cases h

end Turns

/-! ## Uploads -/

variable {staged_bytes n : ℕ} {source : FilePath} {restored : List FilePath}

/-- What was written fits beside what is staged. -/
theorem writeChunks_le {written : ℕ} {chunks : List UploadChunk}
    (h : writeChunks config staged_bytes written chunks = .ok n) :
    n = written ∨ staged_bytes + n ≤ config.max_staged_bytes := by
  induction chunks generalizing written with
  | nil =>
    unfold writeChunks at h
    exact .inl (Except.ok.inj h).symm
  | cons chunk rest ih =>
    cases chunk with
    | read length target =>
      unfold writeChunks at h
      split at h
      · cases h
      · split at h
        · cases h
        · next hfits =>
          split at h
          · cases h
          · rcases ih h with heq | hle
            · right
              omega
            · exact .inr hle
    | refused code => cases h
    | failed => cases h
    | crashed => cases h

/-- A file that was written fits beside what is staged. -/
theorem writeFile_le {upload : Upload} (h : writeFile config staged_bytes upload = .ok n) (hne : n ≠ 0) :
    staged_bytes + n ≤ config.max_staged_bytes := by
  unfold writeFile at h
  split at h
  · split at h
    · exact (writeChunks_le h).resolve_left hne
    · cases h
  · cases h

/-- Removing or quarantining a file keeps the accounts. -/
theorem removeOrQuarantine_accounted (h : Accounted config s) (upload : Upload) (path : FilePath) :
    Accounted config (removeOrQuarantine config files s upload path) := by
  unfold removeOrQuarantine
  simp only
  split
  · exact removePath_accounted h (some path)
  · split
    · exact (removePath_accounted h (some path)).of_eq rfl rfl rfl
    · exact removePath_accounted h (some path)

/-- The state with a new name, of which nothing is staged yet. -/
def Staging.withName (s : Staging) (path : FilePath) : Staging :=
  { s with
    staged_sizes := s.staged_sizes.set path 0
    events := s.events ++ [.named path (s.staged_sizes.get? path)] }

/-- A new name keeps the accounts. -/
theorem withName_accounted (h : Accounted config s) {path : FilePath} (hpath : config.staging_root <+: path) :
    Accounted config (s.withName path) := by
  refine ⟨fun hrecorded => ?_, fun path' hmem => ?_⟩
  · have hbefore : s.Balanced := h.balanced fun event hevent => hrecorded event (List.mem_append_left _ hevent)
    have hnew : (s.staged_sizes.get? path).getD 0 = 0 :=
      hrecorded (.named path (s.staged_sizes.get? path)) (List.mem_append_right _ List.mem_cons_self)
    have hset := Register.total_set s.staged_sizes path 0
    unfold Staging.Balanced Staging.withName at *
    simp only
    omega
  · rcases Register.mem_keys_set.mp hmem with rfl | hmem
    · exact hpath
    · exact h.below path' hmem

/-- Staging a file that was written keeps the accounts, and so does everything else that writing one does;
and what is staged when a file was written is no more than it may be. -/
theorem writeStaged_accounted (h : Accounted config s) (upload : Upload) :
    Accounted config (writeStaged config files s upload).2 ∧
      ∀ written, (writeStaged config files s upload).1 = .ok written →
        (writeStaged config files s upload).2.staged_bytes ≤ config.max_staged_bytes := by
  unfold writeStaged
  simp only
  have hroom : Accounted config (makeStagingCapacity config files s) := makeCapacity_accounted _ h
  generalize makeStagingCapacity config files s = t at hroom ⊢
  split
  · exact ⟨hroom, nofun⟩
  · split
    · exact ⟨hroom, nofun⟩
    · next name _ =>
      have hname := withName_accounted hroom (List.prefix_append config.staging_root [name])
      change Accounted config (t.withName (config.staging_root ++ [name])) at hname
      split
      · exact ⟨hname, nofun⟩
      · exact ⟨removeOrQuarantine_accounted hname _ _, nofun⟩
      · exact ⟨removeOrQuarantine_accounted hname _ _, nofun⟩
      · next written hwritten =>
        split
        · exact ⟨removeOrQuarantine_accounted hname _ _, nofun⟩
        · next hne =>
          refine ⟨⟨fun hrecorded => ?_, fun path hmem => ?_⟩, fun _ _ => writeFile_le hwritten hne⟩
          · have hbefore : (t.withName (config.staging_root ++ [name])).Balanced := hname.balanced hrecorded
            have hset := Register.total_set (t.withName (config.staging_root ++ [name])).staged_sizes
              (config.staging_root ++ [name]) written
            have hself : (t.withName (config.staging_root ++ [name])).staged_sizes.get?
                (config.staging_root ++ [name]) = some 0 := Register.get?_set_self
            rw [hself, Option.getD_some] at hset
            unfold Staging.Balanced Staging.withName at *
            simp only at *
            omega
          · rcases Register.mem_keys_set.mp hmem with rfl | hmem
            · exact List.prefix_append _ _
            · exact hname.below path hmem

/-! ## Recovery -/

/-- A restored source is below the staging root. -/
theorem recoveryPath_below {source_path : Option FilePath}
    (h : recoveryPath config files s source_path = some source) : config.staging_root <+: source := by
  unfold recoveryPath at h
  split at h
  · cases h
  · split at h
    · next hresolved =>
      cases h
      exact hresolved.1
    · cases h

/-- The accounts while the journal is restored: only restored sources are recorded. -/
def Restoring (config : StagingConfig) (state : Staging × List FilePath) : Prop :=
  Accounted config state.1 ∧ ∀ path ∈ state.1.staged_sizes.keys, path ∈ state.2

/-- Recording a restored source keeps the accounts. -/
theorem restoreSource_restoring (h : Restoring config (s, restored)) (hsource : config.staging_root <+: source) :
    Restoring config (restoreSource files s restored source) := by
  obtain ⟨haccounted, hrestored⟩ := h
  unfold restoreSource
  split
  · exact ⟨haccounted, hrestored⟩
  · next hnew =>
    split
    · next size _ =>
      have hnone : s.staged_sizes.get? source = none :=
        Register.get?_eq_none.mpr fun hmem => hnew (hrestored source hmem)
      refine ⟨⟨fun hrecorded => ?_, fun path hmem => ?_⟩, fun path hmem => ?_⟩
      · have hbefore : s.Balanced := haccounted.balanced hrecorded
        have hset := Register.total_set s.staged_sizes source size
        rw [hnone, Option.getD_none] at hset
        unfold Staging.Balanced at *
        simp only
        omega
      · rcases Register.mem_keys_set.mp hmem with rfl | hmem
        · exact hsource
        · exact haccounted.below path hmem
      · rcases Register.mem_keys_set.mp hmem with rfl | hmem
        · exact List.mem_append_right _ List.mem_cons_self
        · exact List.mem_append_left _ (hrestored path hmem)
    · exact ⟨haccounted.of_eq rfl rfl rfl, fun path hmem => List.mem_append_left _ (hrestored path hmem)⟩

/-- Removing a file while the journal is restored. -/
theorem removePath_restoring (h : Restoring config (s, restored)) (path : Option FilePath) :
    Restoring config ((removePath config files s path).2, restored) := by
  obtain ⟨_, -, -, hkeys⟩ := @removePath_spec config files s path
  exact ⟨removePath_accounted h.1 path, fun path' hmem => h.2 path' (hkeys path' hmem)⟩

/-- Cleaning up after a job while the journal is restored. -/
theorem cleanupJobSource_restoring (h : Restoring config (s, restored)) (job_id : String) (path : FilePath) :
    Restoring config ((cleanupJobSource config files s job_id path).2, restored) := by
  have hsizes : (cleanupJobSource config files s job_id path).2.staged_sizes =
      (removePath config files s (some path)).2.staged_sizes := by
    unfold cleanupJobSource
    simp only
    split
    · rfl
    · rfl
  refine ⟨cleanupJobSource_accounted h.1 job_id path, ?_⟩
  simp only [hsizes]
  exact (removePath_restoring h (some path)).2

/-- One row of the journal keeps the accounts. -/
theorem restoreRow_restoring (row : JournalRow) {state : Staging × List FilePath} (h : Restoring config state) :
    Restoring config (restoreRow config files row state) := by
  obtain ⟨s, restored⟩ := state
  have htables : ∀ (t : Staging) (tables : StagingTables) (restored : List FilePath),
      Restoring config (t, restored) → Restoring config ({ t with tables := tables }, restored) :=
    fun t tables restored ht => ⟨ht.1.of_eq rfl rfl rfl, ht.2⟩
  have hasked : Restoring config ({ s with asked := s.asked + 1 }, restored) := ⟨h.1.of_eq rfl rfl rfl, h.2⟩
  unfold restoreRow
  simp only
  split
  · split
    · exact hasked
    · exact removePath_restoring hasked _
  · next job_id job _ =>
    have hjobs := htables _ { s.tables with jobs := s.tables.jobs.set job_id (recoveredJob job row.recovery) } _ hasked
    split
    · next source hsource =>
      have hrestored := @restoreSource_restoring config files _ _ _ hjobs (recoveryPath_below hsource)
      simp only at hrestored
      generalize restoreSource files _ restored source = state at hrestored ⊢
      obtain ⟨t, restored'⟩ := state
      simp only
      split
      · exact htables _ _ _ hrestored
      · split
        · exact cleanupJobSource_restoring (htables _ _ _ hrestored) job_id source
        · exact hrestored
    · split
      · exact htables _ _ _ hjobs
      · exact hjobs

/-- Restoring the journal of a new service keeps the accounts. -/
theorem restoreJournal_accounted (rows : List JournalRow) :
    Accounted config (restoreJournal config files .initial rows) := by
  have hrows : ∀ (rows : List JournalRow) (state : Staging × List FilePath), Restoring config state →
      Restoring config (rows.foldl (fun state row => restoreRow config files row state) state) := by
    intro rows
    induction rows with
    | nil => exact fun state h => h
    | cons row rows ih => exact fun state h => ih _ (restoreRow_restoring row h)
  have hinitial : Restoring config (.initial, []) :=
    ⟨⟨fun _ => rfl, fun path hmem => absurd hmem List.not_mem_nil⟩, fun path hmem => absurd hmem List.not_mem_nil⟩
  exact evictDocuments_accounted _ (evictJobs_accounted _ (hrows rows _ hinitial).1)

/-- Restoring the cleanup leases keeps the accounts. -/
theorem restoreCleanupLeases_accounted (markers : List (Option FilePath)) (h : Accounted config s) :
    Accounted config (restoreCleanupLeases config files s markers) := by
  unfold restoreCleanupLeases
  induction markers generalizing s with
  | nil => exact h
  | cons marker markers ih =>
    apply ih
    unfold restoreMarker
    simp only
    split
    · exact h.of_eq rfl rfl rfl
    · have hasked : Accounted config { s with asked := s.asked + 1 } := h.of_eq rfl rfl rfl
      exact removePath_accounted hasked _

/-! ## Runs -/

/-- A call keeps the accounts. -/
theorem stagingCall_accounted (call : StagingCall) (h : Accounted config s) :
    Accounted config (stagingCall config files s call) := by
  cases call with
  | writeStaged upload => exact (writeStaged_accounted h upload).1
  | removePath path => exact removePath_accounted h path
  | evictOneSource => exact evictOneSource_accounted h
  | evictDocumentSources => exact evictDocuments_accounted _ h
  | tables tables => exact h.of_eq rfl rfl rfl

/-- A run keeps the accounts. -/
theorem runStaging_accounted (rows : List JournalRow) (markers : List (Option FilePath)) (calls : List StagingCall) :
    Accounted config (runStaging config files rows markers calls) := by
  unfold runStaging
  have hstart : Accounted config
      (restoreCleanupLeases config files (restoreJournal config files .initial rows) markers) :=
    restoreCleanupLeases_accounted markers (restoreJournal_accounted rows)
  generalize restoreCleanupLeases config files (restoreJournal config files .initial rows) markers = s at hstart ⊢
  induction calls generalizing s with
  | nil => exact hstart
  | cons call calls ih => exact ih _ (stagingCall_accounted call hstart)

/-- What every run of the service leaves: the aggregate is the sum of the recorded sizes if no file was
unlinked that was not recorded, unless there was nothing to debit; each recorded path is below the staging
root and recorded once; and a file that is staged next leaves no more staged than may be. And a removal from a
state whose aggregate is the sum leaves it so exactly when it unlinks no such file. -/
structure StagedOnce (config : StagingConfig) (files : FileSystem) (s : Staging) : Prop where
  balanced : (∀ event ∈ s.events, event.Recorded) → s.staged_bytes = s.staged_sizes.total
  below : ∀ path ∈ s.staged_sizes.keys, config.staging_root <+: path
  once : s.staged_sizes.keys.Nodup
  limited : ∀ upload written, (writeStaged config files s upload).1 = .ok written →
    (writeStaged config files s upload).2.staged_bytes ≤ config.max_staged_bytes
  removal : ∀ path, ∃ events, (removePath config files s path).2.events = s.events ++ events ∧
    (s.Balanced → ((removePath config files s path).2.Balanced ↔ ∀ event ∈ events, event.Recorded))

/-- **Staged bytes are accounted once, as long as no unrecorded file is unlinked.** -/
theorem staged_bytes_accounted (config : StagingConfig) (files : FileSystem) (rows : List JournalRow)
    (markers : List (Option FilePath)) (calls : List StagingCall) :
    StagedOnce config files (runStaging config files rows markers calls) := by
  have h : Accounted config (runStaging config files rows markers calls) := runStaging_accounted rows markers calls
  refine ⟨h.balanced, h.below, Register.nodup _, fun upload => (writeStaged_accounted h upload).2, fun path => ?_⟩
  obtain ⟨events, hevents, hbalanced, -⟩ := removePath_spec path
  exact ⟨events, hevents, hbalanced⟩

/-- A service that may stage twenty bytes. -/
def smallStaging : StagingConfig := ⟨["", "staging"], 20, 4, 20, Nat.succ_pos _, Nat.succ_pos _, Nat.le_refl _⟩

/-- A file system with a file of ten bytes and one of five. -/
def twoFiles : FileSystem where
  resolve _ path := some path
  isFile _ _ := true
  stat _ path := if path = ["", "staging", "doc_a.md"] then .ok 10 else .ok 5
  unlink _ _ := .ok ()

/-- The file of a cleanup lease of an earlier process is taken from the aggregate. -/
theorem lease_debits_other :
    (runStaging smallStaging twoFiles
      [⟨some ("job-a", ⟨"published", 0, some "doc-a", false⟩), some ["", "staging", "doc_a.md"], .absent⟩]
      [some ["", "staging", "doc_b.md"]] []).staged_bytes = 5 ∧
    (runStaging smallStaging twoFiles
      [⟨some ("job-a", ⟨"published", 0, some "doc-a", false⟩), some ["", "staging", "doc_a.md"], .absent⟩]
      [some ["", "staging", "doc_b.md"]] []).staged_sizes.total = 10 := by
  decide +kernel

/-- A service that restored one document. -/
def restoredFile : Staging :=
  runStaging smallStaging twoFiles
    [⟨some ("job-a", ⟨"published", 0, some "doc-a", false⟩), some ["", "staging", "doc_a.md"], .absent⟩] [] []

end RickIntelligence.Ingestion
