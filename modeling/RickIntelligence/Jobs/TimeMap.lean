import RickIntelligence.Jobs.Job
import RickIntelligence.Lib.Micros

/-!
# Jobs under a change of their times

Every check of a job compares its times with each other or with the epoch. A function on times that
keeps their order and keeps them from going before the epoch (`TimeMap`) therefore takes a job to a
job (`Job.mapTime`). Rounding down to whole microseconds is such a function (`floorMap`), and so is
rounding down only what is after a time on the grid (`floorAfter`).
-/

namespace RickIntelligence.Jobs

open Lib

/-- A function on times that keeps their order and their place after the epoch. -/
structure TimeMap where
  /-- The function. -/
  toFun : ℚ → ℚ
  /-- It keeps the order of times. -/
  mono : ∀ {t u : ℚ}, t ≤ u → toFun t ≤ toFun u
  /-- It keeps times after the epoch. -/
  nonneg : ∀ {t : ℚ}, 0 ≤ t → 0 ≤ toFun t

namespace TimeMap

instance : CoeFun TimeMap fun _ => ℚ → ℚ := ⟨toFun⟩

/-- Rounding down to whole microseconds. -/
def floorMap : TimeMap := ⟨floorMicros, floorMicros_mono, floorMicros_nonneg⟩

/-- Rounding down what is after a time on the grid, and nothing else. -/
def floorAfter (m : ℤ) : TimeMap where
  toFun t := if t ≤ ofMicros m then t else floorMicros t
  mono {t u} h := by
    split_ifs with ht hu
    · exact h
    · -- The grid has the bound between the two times.
      exact le_trans ht (ofMicros_le_ofMicros.mpr (ofMicros_le_iff.mp (le_of_not_ge hu)))
    · exact absurd (le_trans h ‹_›) ht
    · exact floorMicros_mono h
  nonneg {t} h := by
    split_ifs
    · exact h
    · exact floorMicros_nonneg h

/-- A time on the grid is not changed. -/
theorem floorAfter_ofMicros (m n : ℤ) : floorAfter m (ofMicros n) = ofMicros n := by
  show (if ofMicros n ≤ ofMicros m then _ else _) = _
  split_ifs
  · rfl
  · exact floorMicros_ofMicros n

end TimeMap

variable (φ : TimeMap)

/-- A failure at another time. -/
def JobFailure.mapTime (f : JobFailure) : JobFailure :=
  ⟨{ f.val with occurred_at := φ f.val.occurred_at },
    JobFailureFields.postInit_self
      { f.ok with occurred_nonneg := φ.nonneg f.ok.occurred_nonneg }⟩

/-- A result at another time. -/
def JobResult.mapTime (r : JobResult) : JobResult :=
  ⟨{ r.val with completed_at := φ r.val.completed_at },
    JobResultFields.postInit_self
      { r.ok with completed_nonneg := φ.nonneg r.ok.completed_nonneg }⟩

/-- The fields of an attempt at other times. -/
def JobAttemptFields.mapTime (a : JobAttemptFields) : JobAttemptFields :=
  { a with
    started_at := φ a.started_at, finished_at := a.finished_at.map φ,
    failure := a.failure.map (JobFailure.mapTime φ) }

/-- The facts of an attempt are kept. -/
theorem JobAttemptFields.Ok.mapTime {a : JobAttemptFields} (h : a.Ok) : (a.mapTime φ).Ok where
  one_le_number := h.one_le_number
  number_le := h.number_le
  worker_ok := h.worker_ok
  worker_stripped := h.worker_stripped
  lifecycle := h.lifecycle
  started_nonneg := φ.nonneg h.started_nonneg
  started_le := by
    intro t ht
    obtain ⟨u, hu, rfl⟩ := Option.map_eq_some_iff.mp ht
    exact φ.mono (h.started_le u hu)
  running_open := by
    intro hr
    obtain ⟨hf, hfail⟩ := h.running_open hr
    exact ⟨by simp [JobAttemptFields.mapTime, hf], by simp [JobAttemptFields.mapTime, hfail]⟩
  finished_closed := by
    intro hr
    simpa [JobAttemptFields.mapTime] using h.finished_closed hr
  failed_failure := by
    intro hs
    obtain ⟨f, hf, hn, hle, hend⟩ := h.failed_failure hs
    refine ⟨JobFailure.mapTime φ f, by simp [JobAttemptFields.mapTime, hf], hn, φ.mono hle, ?_⟩
    intro t ht
    obtain ⟨u, hu, rfl⟩ := Option.map_eq_some_iff.mp ht
    exact φ.mono (hend u hu)
  no_failure := by
    intro hs
    simp [JobAttemptFields.mapTime, h.no_failure hs]

/-- An attempt at other times. -/
def JobAttempt.mapTime (a : JobAttempt) : JobAttempt :=
  ⟨a.val.mapTime φ, JobAttemptFields.postInit_ok.mpr
    ⟨by simp [JobAttemptFields.mapTime, a.ok.worker_stripped], a.ok.mapTime φ⟩⟩

namespace JobFields

/-- The fields of a job at other times. -/
def mapTime (d : JobFields) : JobFields :=
  { d with
    attempts := d.attempts.map (JobAttempt.mapTime φ), result := d.result.map (JobResult.mapTime φ),
    failure := d.failure.map (JobFailure.mapTime φ), available_at := φ d.available_at,
    created_at := φ d.created_at, updated_at := φ d.updated_at }

/-- The last attempt is that of the job, at other times. -/
theorem lastAttempt_mapTime (d : JobFields) :
    (d.mapTime φ).lastAttempt = d.lastAttempt.map (JobAttempt.mapTime φ) := by
  simp [lastAttempt, mapTime]

variable {d : JobFields}

/-- A history is kept. -/
theorem History.mapTime (h : d.History) : (d.mapTime φ).History where
  max_pos := h.max_pos
  max_le := h.max_le
  length_le := by simpa [JobFields.mapTime] using h.length_le
  numbers := by
    simp only [JobFields.mapTime, List.map_map, List.length_map]
    exact h.numbers
  chronological := by
    rw [JobFields.mapTime, List.isChain_map]
    refine h.chronological.imp fun a b hab => ?_
    obtain ⟨t, ht, hle⟩ := hab
    exact ⟨φ t, by simp [JobAttempt.mapTime, JobAttemptFields.mapTime, ht], φ.mono hle⟩

/-- What is within a lifetime stays within it. -/
theorem Within.mapTime {t : ℚ} (h : d.Within t) : (d.mapTime φ).Within (φ t) :=
  ⟨φ.mono h.1, φ.mono h.2⟩

/-- A lifetime is kept. -/
theorem Lifetime.mapTime (h : d.Lifetime) : (d.mapTime φ).Lifetime where
  created_nonneg := φ.nonneg h.created_nonneg
  created_le_available := φ.mono h.created_le_available
  created_le_updated := φ.mono h.created_le_updated
  version_pos := h.version_pos
  started := by
    intro a ha
    obtain ⟨b, hb, rfl⟩ := List.mem_map.mp ha
    exact (h.started b hb).mapTime φ
  finished := by
    intro a ha t ht
    obtain ⟨b, hb, rfl⟩ := List.mem_map.mp ha
    obtain ⟨u, hu, rfl⟩ := Option.map_eq_some_iff.mp ht
    exact φ.mono (h.finished b hb u hu)
  attempt_failure := by
    intro a ha f hf
    obtain ⟨b, hb, rfl⟩ := List.mem_map.mp ha
    obtain ⟨g, hg, rfl⟩ := Option.map_eq_some_iff.mp hf
    exact (h.attempt_failure b hb g hg).mapTime φ
  result := by
    intro r hr
    obtain ⟨q, hq, rfl⟩ := Option.map_eq_some_iff.mp hr
    exact (h.result q hq).mapTime φ
  failure := by
    intro f hf
    obtain ⟨g, hg, rfl⟩ := Option.map_eq_some_iff.mp hf
    exact (h.failure g hg).mapTime φ

/-- The shape of a failed job is kept. -/
theorem FailedShape.mapTime {last : JobAttempt} {f : JobFailure} (h : d.FailedShape last f) :
    (d.mapTime φ).FailedShape (last.mapTime φ) (f.mapTime φ) where
  last_failed := h.last_failed
  attempt_eq := h.attempt_eq
  last_failure := by simp [JobAttempt.mapTime, JobAttemptFields.mapTime, h.last_failure]
  started_le := φ.mono h.started_le
  le_finished := by
    have hle := φ.mono h.le_finished
    have htime : (d.mapTime φ).latestAttemptTime (last.mapTime φ) = φ (d.latestAttemptTime last) := by
      unfold latestAttemptTime
      cases hf : last.val.finished_at <;>
        simp [JobAttempt.mapTime, JobAttemptFields.mapTime, JobFields.mapTime, hf]
    rw [htime]
    exact hle
  no_result := by simp [JobFields.mapTime, h.no_result]
  retryable := by
    intro hs
    have hr := h.retryable hs
    exact ⟨hr.1, by simpa [JobFields.mapTime] using hr.2⟩

/-- The shape of a job is kept. -/
theorem Shape.mapTime (h : d.Shape) : (d.mapTime φ).Shape := by
  have hlast := d.lastAttempt_mapTime φ
  -- Every attempt of the mapped job is one of the job, so what is known of the last one carries over.
  have hall : ∀ {P : JobAttempt → Prop}, (∀ last, d.lastAttempt = some last → P (last.mapTime φ)) →
      ∀ last, (d.mapTime φ).lastAttempt = some last → P last := by
    intro P hP last hl
    rw [hlast] at hl
    obtain ⟨a, ha, rfl⟩ := Option.map_eq_some_iff.mp hl
    exact hP a ha
  have hresult : d.result = none → (d.mapTime φ).result = none := fun h => by
    simp [JobFields.mapTime, h]
  have hfailure : d.failure = none → (d.mapTime φ).failure = none := fun h => by
    simp [JobFields.mapTime, h]
  have hfailed : (∃ last f, d.lastAttempt = some last ∧ d.failure = some f ∧
      d.FailedShape last f) → ∃ last f, (d.mapTime φ).lastAttempt = some last ∧
      (d.mapTime φ).failure = some f ∧ (d.mapTime φ).FailedShape last f := by
    rintro ⟨last, f, hl, hf, hs⟩
    exact ⟨last.mapTime φ, f.mapTime φ, by rw [hlast, hl]; rfl, by simp [JobFields.mapTime, hf],
      hs.mapTime φ⟩
  unfold Shape at h ⊢
  have hstate : (d.mapTime φ).state = d.state := rfl
  rw [hstate]
  cases hs : d.state with
  | pending =>
    simp only [hs] at h ⊢
    exact ⟨by simp [JobFields.mapTime, h.1], hresult h.2.1, hfailure h.2.2⟩
  | queued =>
    simp only [hs] at h ⊢
    refine ⟨hresult h.1, hfailure h.2.1, hall fun last hl => ?_⟩
    obtain ⟨hf, ⟨f, hff, hr⟩, hlt⟩ := h.2.2 last hl
    exact ⟨hf, ⟨f.mapTime φ, by simp [JobAttempt.mapTime, JobAttemptFields.mapTime, hff], hr⟩,
      by simpa [JobFields.mapTime] using hlt⟩
  | running =>
    simp only [hs] at h ⊢
    obtain ⟨hr, hf, last, hl, ha⟩ := h
    exact ⟨hresult hr, hfailure hf, last.mapTime φ, by rw [hlast, hl]; rfl, ha⟩
  | succeeded =>
    simp only [hs] at h ⊢
    obtain ⟨hf, last, r, hl, hr, ha, hle, hend⟩ := h
    refine ⟨hfailure hf, last.mapTime φ, r.mapTime φ, by rw [hlast, hl]; rfl,
      by simp [JobFields.mapTime, hr], ha, φ.mono hle, ?_⟩
    have hle' := φ.mono hend
    unfold latestAttemptTime at hle' ⊢
    cases hfin : last.val.finished_at <;>
      simpa [JobAttempt.mapTime, JobAttemptFields.mapTime, JobFields.mapTime, JobResult.mapTime,
        hfin] using hle'
  | failed => simp only [hs] at h ⊢; exact hfailed h
  | retrying => simp only [hs] at h ⊢; exact hfailed h
  | deadLetter => simp only [hs] at h ⊢; exact hfailed h
  | cancelled =>
    simp only [hs] at h ⊢
    exact ⟨hresult h.1, hfailure h.2.1, hall fun last hl => h.2.2 last hl⟩

/-- The text fields stay normalised. -/
theorem Clean.mapTime (h : d.Clean) : (d.mapTime φ).Clean :=
  ⟨h.job_id, h.tenant_id, h.workspace_id, h.collection_id, h.operation, h.idempotency_key,
    h.payload⟩

/-- A consistent job is consistent at other times. -/
theorem Consistent.mapTime (h : d.Consistent) : (d.mapTime φ).Consistent :=
  ⟨h.history.mapTime φ, h.lifetime.mapTime φ, h.shape.mapTime φ⟩

end JobFields

/-- A job at other times. -/
def Job.mapTime (j : Job) : Job :=
  ⟨j.val.mapTime φ, (JobFields.postInit_clean (j.clean.mapTime φ)).mpr
    ⟨rfl, j.consistent.mapTime φ⟩⟩

end RickIntelligence.Jobs
