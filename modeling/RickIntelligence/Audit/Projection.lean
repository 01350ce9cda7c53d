import RickIntelligence.Lib.Trace
import RickIntelligence.Audit.Outbox

/-!
# Exactly-once projection

A row is published under the id of its prepared event, which is the id of the row without the spaces
around it. So a row may publish another one, whose id is its own but for these spaces, with an audit
event that has the content of the first. Where no pending row prepares the id of another one (`Apart`),
every row that is published has its own audit event, a row is dead-lettered only if it cannot be
projected, and every call that takes rows makes progress: it lowers what is left to do (`potential`),
which counts the failures that the pending rows may still have.
-/

namespace RickIntelligence.Audit

open Lib

variable {k : ℕ} {env : Env} {limits : Limits} {outbox : Outbox} {s s' s₀ : System k} {db db' : Db}
  {id x : String} {now : ℚ}

/-! ## Rows that can be projected -/

/-- The event has the prepared content: it was inserted with it, or compares equal to it. -/
def HasContent (p : Prepared) (e : AuditEvent) : Prop :=
  e.prepared = p ∨ sameExistingEvent p e.prepared = true

/-- The prepared event can be inserted, or is there. -/
def Insertable (env : Env) (audits : String → Option AuditEvent) (p : Prepared) : Prop :=
  env.storable p = true ∧ ∀ e, audits p.event_id = some e → sameExistingEvent p e.prepared = true

/-- The row can be projected. -/
def Projectable (env : Env) (outbox : Outbox) (audits : String → Option AuditEvent) (id : String) : Prop :=
  ∃ p, prepareEvent env id (outbox.content id) = some p ∧ p.event_id = id ∧ Insertable env audits p

/-- No pending row can publish another pending row. -/
def Apart (env : Env) (outbox : Outbox) (db : Db) : Prop :=
  ∀ i ∈ outbox.ids, (db.delivery i).pending = true →
    ∀ p, prepareEvent env i (outbox.content i) = some p → Insertable env db.audits p →
      p.event_id ∈ outbox.ids → (db.delivery p.event_id).pending = true → p.event_id = i

/-- The number of attempts of a pending row can be stored with one more. -/
def InRange (outbox : Outbox) (db : Db) : Prop :=
  ∀ i ∈ outbox.ids, (db.delivery i).pending = true → (db.delivery i).attempts + 1 ≤ maxInteger

/-- Whether a row can be projected depends on the event with its id only. -/
theorem projectable_congr {a b : String → Option AuditEvent} (h : a id = b id) :
    Projectable env outbox a id ↔ Projectable env outbox b id := by
  have hone : ∀ {a b : String → Option AuditEvent}, a id = b id → Projectable env outbox a id →
      Projectable env outbox b id := by
    rintro a b hab ⟨p, hp, hid, hstorable, hsame⟩
    refine ⟨p, hp, hid, hstorable, ?_⟩
    intro e he
    rw [hid, ← hab, ← hid] at he
    exact hsame e he
  exact ⟨hone h, hone h.symm⟩

/-- The row once it is published. -/
def Delivery.publish (d : Delivery) (now : ℚ) : Delivery :=
  { d with published_at := some now, last_error_code := none }

/-- What the insertion of an event does. -/
theorem insertEvent_ok {p : Prepared} (h : insertEvent env now db p = some db') :
    Insertable env db.audits p ∧ db'.delivery = db.delivery ∧
    ∃ e, db'.audits p.event_id = some e ∧ HasContent p e ∧
      ∀ y, y ≠ p.event_id → db'.audits y = db.audits y := by
  unfold insertEvent at h
  split at h
  · next hstorable =>
    split at h
    · next hnone =>
      cases h
      refine ⟨⟨hstorable, fun e he => ?_⟩, rfl, ⟨p, now⟩, Function.update_self .., .inl rfl, ?_⟩
      · rw [hnone] at he
        cases he
      · intro y hy
        exact Function.update_of_ne hy ..
    · next e he =>
      split at h
      · next hsame =>
        cases h
        refine ⟨⟨hstorable, fun e' he' => ?_⟩, rfl, e, he, .inr hsame, fun _ _ => rfl⟩
        cases he.symm.trans he'
        exact hsame
      · cases h
  · cases h

/-- An event that is not inserted could not be. -/
theorem insertEvent_none {p : Prepared} (h : insertEvent env now db p = none) :
    ¬ Insertable env db.audits p := by
  rintro ⟨hstorable, hsame⟩
  unfold insertEvent at h
  rw [if_pos hstorable] at h
  split at h
  · cases h
  · next e he =>
    rw [if_pos (hsame e he)] at h
    cases h

/-- Where the rows are apart, a row that is projected publishes itself. -/
theorem project_ok (hapart : Apart env outbox db) (hid : id ∈ outbox.ids)
    (hpending : (db.delivery id).pending = true) (h : project env outbox now db id = some db') :
    ∃ p e, prepareEvent env id (outbox.content id) = some p ∧ p.event_id = id ∧
      db'.audits id = some e ∧ HasContent p e ∧ db'.delivery id = (db.delivery id).publish now ∧
      ∀ y, y ≠ id → db'.audits y = db.audits y ∧ db'.delivery y = db.delivery y := by
  unfold project at h
  obtain ⟨p, hp, h⟩ := Option.bind_eq_some_iff.mp h
  obtain ⟨db₁, hinsert, h⟩ := Option.bind_eq_some_iff.mp h
  obtain ⟨hinsertable, hdelivery, e, he, hcontent, hothers⟩ := insertEvent_ok hinsert
  unfold publishRow at h
  split at h
  · next hrow =>
    cases h
    rw [hdelivery] at hrow
    have heq : p.event_id = id := hapart id hid hpending p hp hinsertable hrow.1 hrow.2
    rw [heq] at he hothers
    refine ⟨p, e, hp, heq, he, hcontent, ?_, ?_⟩
    · rw [hdelivery, heq]
      exact Function.update_self ..
    · intro y hy
      refine ⟨hothers y hy, ?_⟩
      rw [hdelivery, heq]
      exact Function.update_of_ne hy ..
  · cases h

/-- A pending row that is not projected could not be. -/
theorem project_none (hid : id ∈ outbox.ids) (hpending : (db.delivery id).pending = true)
    (h : project env outbox now db id = none) : ¬ Projectable env outbox db.audits id := by
  rintro ⟨p, hp, heq, hinsertable⟩
  unfold project at h
  simp only [hp, Option.bind_eq_bind, Option.bind_some] at h
  cases hinsert : insertEvent env now db p with
  | none => exact insertEvent_none hinsert hinsertable
  | some db₁ =>
    have hdelivery := (insertEvent_ok hinsert).2.1
    simp only [hinsert, Option.bind_some, publishRow, heq, hdelivery] at h
    rw [if_pos ⟨hid, hpending⟩] at h
    cases h

/-- Rows that are apart stay so, while pending rows and their events do not change. -/
theorem Apart.of (h : Apart env outbox db)
    (hsame : ∀ y, (db'.delivery y).pending = true → (db.delivery y).pending = true ∧
      db'.audits y = db.audits y) : Apart env outbox db' := by
  intro i hi hpending p hp hinsertable hmem hpending'
  obtain ⟨hold, haudits⟩ := hsame p.event_id hpending'
  refine h i hi (hsame i hpending).1 p hp ⟨hinsertable.1, ?_⟩ hmem hold
  intro e he
  exact hinsertable.2 e (haudits.trans he)

/-- A published row is not pending. -/
theorem publish_pending (d : Delivery) (now : ℚ) : (d.publish now).pending = false := rfl

/-- What the loop over a batch of pending rows does. -/
theorem projectAll_spec {ids : List String} (now : ℚ) (hapart : Apart env outbox db) (hnodup : ids.Nodup)
    (hids : ∀ y ∈ ids, y ∈ outbox.ids ∧ (db.delivery y).pending = true) :
    (∀ db', projectAll env outbox now db ids = .ok db' →
      (∀ y ∈ ids, ∃ p e, prepareEvent env y (outbox.content y) = some p ∧ p.event_id = y ∧
        db'.audits y = some e ∧ HasContent p e ∧ db'.delivery y = (db.delivery y).publish now) ∧
      ∀ y, y ∉ ids → db'.audits y = db.audits y ∧ db'.delivery y = db.delivery y) ∧
    ∀ id, projectAll env outbox now db ids = .error id →
      id ∈ ids ∧ ¬ Projectable env outbox db.audits id := by
  induction ids generalizing db with
  | nil =>
    refine ⟨?_, fun id h => nomatch h⟩
    intro db' h
    cases h
    exact ⟨fun y hy => (nomatch hy), fun y _ => ⟨rfl, rfl⟩⟩
  | cons id ids ih =>
    obtain ⟨hmem, hpending⟩ := hids id List.mem_cons_self
    obtain ⟨hfresh, hnodup⟩ := List.nodup_cons.mp hnodup
    cases hproject : project env outbox now db id with
    | none =>
      simp only [projectAll, hproject]
      refine ⟨fun db' h => (nomatch h), ?_⟩
      intro id' h
      cases h
      exact ⟨List.mem_cons_self, project_none hmem hpending hproject⟩
    | some db₁ =>
      obtain ⟨p, e, hp, heq, he, hcontent, hdelivery, hothers⟩ :=
        project_ok hapart hmem hpending hproject
      -- The rows left are pending still, and apart.
      have hapart₁ : Apart env outbox db₁ := by
        apply hapart.of
        intro y hy
        by_cases hyid : y = id
        · rw [hyid, hdelivery, publish_pending] at hy
          cases hy
        · rw [(hothers y hyid).2] at hy
          exact ⟨hy, (hothers y hyid).1⟩
      have hne : ∀ y ∈ ids, y ≠ id := by
        intro y hy heq
        exact hfresh (heq ▸ hy)
      have hids₁ : ∀ y ∈ ids, y ∈ outbox.ids ∧ (db₁.delivery y).pending = true := by
        intro y hy
        obtain ⟨hy', hypending⟩ := hids y (List.mem_cons_of_mem id hy)
        refine ⟨hy', ?_⟩
        rw [(hothers y (hne y hy)).2]
        exact hypending
      obtain ⟨hok, herror⟩ := ih hapart₁ hnodup hids₁
      simp only [projectAll, hproject]
      constructor
      · intro db' h
        obtain ⟨hinside, houtside⟩ := hok db' h
        constructor
        · intro y hy
          rcases List.mem_cons.mp hy with rfl | hy
          · obtain ⟨haudits, hdelivery'⟩ := houtside y hfresh
            exact ⟨p, e, hp, heq, haudits.trans he, hcontent, hdelivery'.trans hdelivery⟩
          · obtain ⟨p', e', hp', heq', he', hcontent', hdelivery'⟩ := hinside y hy
            refine ⟨p', e', hp', heq', he', hcontent', ?_⟩
            rw [hdelivery', (hothers y (hne y hy)).2]
        · intro y hy
          rw [List.mem_cons, not_or] at hy
          obtain ⟨haudits, hdelivery'⟩ := houtside y hy.2
          exact ⟨haudits.trans (hothers y hy.1).1, hdelivery'.trans (hothers y hy.1).2⟩
      · intro id' h
        obtain ⟨hmem', hnot⟩ := herror id' h
        refine ⟨List.mem_cons_of_mem id hmem', ?_⟩
        rwa [projectable_congr (hothers id' (hne id' hmem')).1] at hnot

/-! ## What is left to do -/

/-- How many failures of a row may still be recorded; a row that is published or dead-lettered has none
left. -/
def Delivery.weight (limits : Limits) (d : Delivery) : ℕ :=
  if d.pending then max 1 (limits.max_attempts - d.attempts) else 0

/-- What is left to do for all rows. -/
def potential (limits : Limits) (outbox : Outbox) (db : Db) : ℕ :=
  (outbox.ids.map fun y => (db.delivery y).weight limits).sum

/-- A pending row has something left. -/
theorem weight_pos {d : Delivery} (h : d.pending = true) : 0 < d.weight limits := by
  unfold Delivery.weight
  rw [if_pos h]
  omega

/-- A row that is not pending has nothing left. -/
theorem weight_zero {d : Delivery} (h : d.pending = false) : d.weight limits = 0 := by
  unfold Delivery.weight
  rw [h]
  rfl

/-- The failure of a pending row leaves less to do. -/
theorem weight_fail {d : Delivery} (h : d.pending = true) (now : ℚ) :
    (d.fail limits now).weight limits < d.weight limits := by
  have hpublished : d.published_at.isNone = true := (Bool.and_eq_true_iff.mp h).1
  by_cases hdead : limits.max_attempts ≤ d.attempts + 1
  · have hgone : (d.fail limits now).pending = false := by
      simp [Delivery.fail, Delivery.pending, hdead]
    rw [weight_zero hgone]
    exact weight_pos h
  · have hpending : (d.fail limits now).pending = true := by
      simp only [Delivery.fail, Delivery.pending, hdead, decide_false]
      simpa using hpublished
    have hattempts : (d.fail limits now).attempts = d.attempts + 1 := rfl
    unfold Delivery.weight
    rw [if_pos h, if_pos hpending, hattempts]
    omega

/-- Less to do for one row, and not more for the others, is less to do. -/
theorem potential_lt (hle : ∀ y ∈ outbox.ids, (db'.delivery y).weight limits ≤
      (db.delivery y).weight limits)
    (hlt : ∃ y ∈ outbox.ids, (db'.delivery y).weight limits < (db.delivery y).weight limits) :
    potential limits outbox db' < potential limits outbox db := List.sum_lt_sum _ _ hle hlt

/-- With nothing left to do, no row is pending. -/
theorem pending_of_potential (h : potential limits outbox db = 0) (hx : x ∈ outbox.ids) :
    (db.delivery x).pending = false := by
  cases hpending : (db.delivery x).pending with
  | false => rfl
  | true =>
    have hzero := List.sum_eq_zero_iff.mp h _ (List.mem_map_of_mem hx)
    have hpos : 0 < (db.delivery x).weight limits := weight_pos hpending
    omega

/-! ## The invariant -/

/-- What holds in every run from a state, where the rows are apart. -/
structure Exact (env : Env) (limits : Limits) (outbox : Outbox) (s₀ s : System k) : Prop where
  /-- A row that was not pending at first is as it was. -/
  still : ∀ y, (s₀.db.delivery y).pending = false ∨ y ∉ outbox.ids →
    s.db.delivery y = s₀.db.delivery y
  /-- An audit event is as it was, or is that of a row which was published. -/
  audits : ∀ y, s.db.audits y = s₀.db.audits y ∨ (s.db.delivery y).published_at.isSome = true
  published : ∀ y ∈ outbox.ids, (s₀.db.delivery y).pending = true →
    (s.db.delivery y).published_at.isSome = true →
    ∃ p e, prepareEvent env y (outbox.content y) = some p ∧ p.event_id = y ∧
      s.db.audits y = some e ∧ HasContent p e
  dead : ∀ y ∈ outbox.ids, (s₀.db.delivery y).pending = true →
    (s.db.delivery y).dead_lettered_at.isSome = true →
    (s.db.delivery y).published_at = none ∧ limits.max_attempts ≤ (s.db.delivery y).attempts ∧
      ¬ Projectable env outbox s₀.db.audits y
  /-- The rows that are locked are pending, and each by one worker. -/
  locks : ∀ w, (s.workers w).locks.Nodup ∧
    ∀ y ∈ (s.workers w).locks, y ∈ outbox.ids ∧ (s.db.delivery y).pending = true ∧
      ∀ w', y ∈ (s.workers w').locks → w' = w
  /-- A batch that is taken has a row. -/
  batches : ∀ w now ids, s.workers w = .selected now ids → ids ≠ []
  /-- The failure that is about to be recorded is that of a row which cannot be projected. -/
  failed : ∀ w y, s.workers w = .failed y → y ∈ outbox.ids ∧ (s₀.db.delivery y).pending = true ∧
    ¬ Projectable env outbox s₀.db.audits y
  range : ∀ y ∈ outbox.ids, (s.db.delivery y).pending = true →
    (s.db.delivery y).attempts + 1 ≤ maxInteger
  /-- Every call that returned made progress. -/
  progress : ∀ w, s.calls w + potential limits outbox s.db ≤ potential limits outbox s₀.db
  /-- The call that is about to record a failure will make progress, or another one did. -/
  pendingFailure : ∀ w y, s.workers w = .failed y → (s.db.delivery y).pending = true ∨
    s.calls w + 1 + potential limits outbox s.db ≤ potential limits outbox s₀.db

/-- A pending row was pending at first, and its audit event is as it was. -/
theorem Exact.pending (h : Exact env limits outbox s₀ s) (hy : (s.db.delivery x).pending = true) :
    (s₀.db.delivery x).pending = true ∧ s.db.audits x = s₀.db.audits x := by
  have hpublished : (s.db.delivery x).published_at.isNone = true := (Bool.and_eq_true_iff.mp hy).1
  constructor
  · cases hfirst : (s₀.db.delivery x).pending with
    | true => rfl
    | false =>
      rw [h.still x (.inl hfirst), hfirst] at hy
      cases hy
  · rcases h.audits x with hsame | hsome
    · exact hsame
    · rw [Option.isNone_iff_eq_none.mp hpublished] at hsome
      cases hsome

/-- The rows stay apart. -/
theorem Exact.apart (h : Exact env limits outbox s₀ s) (hapart : Apart env outbox s₀.db) :
    Apart env outbox s.db := hapart.of fun _ hy => h.pending hy

/-- The state that the run begins in. -/
theorem exact_initial (hidle : ∀ w, s₀.workers w = .idle) (hcalls : ∀ w, s₀.calls w = 0)
    (hrange : InRange outbox s₀.db) : Exact env limits outbox s₀ s₀ where
  still _ _ := rfl
  audits _ := .inl rfl
  published := by
    intro y _ hpending hpublished
    have hnone : (s₀.db.delivery y).published_at.isNone = true := (Bool.and_eq_true_iff.mp hpending).1
    rw [Option.isNone_iff_eq_none.mp hnone] at hpublished
    cases hpublished
  dead := by
    intro y _ hpending hdead
    have hnone : (s₀.db.delivery y).dead_lettered_at.isNone = true :=
      (Bool.and_eq_true_iff.mp hpending).2
    rw [Option.isNone_iff_eq_none.mp hnone] at hdead
    cases hdead
  locks := by
    intro w
    rw [hidle w]
    exact ⟨List.nodup_nil, fun y hy => nomatch hy⟩
  batches := by
    intro w now ids hw
    rw [hidle w] at hw
    cases hw
  failed := by
    intro w y hw
    rw [hidle w] at hw
    cases hw
  range := hrange
  progress := by
    intro w
    rw [hcalls w]
    omega
  pendingFailure := by
    intro w y hw
    rw [hidle w] at hw
    cases hw

/-! ## Steps -/

/-- What a transaction does to a row: nothing, or it publishes a pending row with its event, or records
the failure of a pending row that cannot be projected. -/
inductive RowChange (env : Env) (limits : Limits) (outbox : Outbox) (first : String → Option AuditEvent)
    (db db' : Db) (y : String) : Prop
  | same (hdelivery : db'.delivery y = db.delivery y) (haudits : db'.audits y = db.audits y)
  | publishes (now : ℚ) (p : Prepared) (e : AuditEvent) (hmem : y ∈ outbox.ids)
      (hpending : (db.delivery y).pending = true)
      (hp : prepareEvent env y (outbox.content y) = some p) (heq : p.event_id = y)
      (he : db'.audits y = some e) (hcontent : HasContent p e)
      (hdelivery : db'.delivery y = (db.delivery y).publish now)
  | fails (now : ℚ) (hmem : y ∈ outbox.ids) (hpending : (db.delivery y).pending = true)
      (hrange : (db.delivery y).attempts + 1 ≤ maxInteger) (haudits : db'.audits y = db.audits y)
      (hdelivery : db'.delivery y = (db.delivery y).fail limits now)
      (hnot : ¬ Projectable env outbox first y)

variable {first : String → Option AuditEvent}

/-- No transaction leaves more to do for a row. -/
theorem RowChange.weight_le (h : RowChange env limits outbox first db db' x) :
    (db'.delivery x).weight limits ≤ (db.delivery x).weight limits := by
  cases h with
  | same hdelivery => rw [hdelivery]
  | publishes now p e hmem hpending hp heq he hcontent hdelivery =>
    rw [hdelivery, weight_zero (publish_pending _ now)]
    exact Nat.zero_le _
  | fails now hmem hpending hrange haudits hdelivery =>
    rw [hdelivery]
    exact (weight_fail hpending now).le

/-- The failure of a row: it is dead-lettered when its attempts are used up. -/
theorem fail_dead {d : Delivery} (now : ℚ)
    (h : (d.fail limits now).dead_lettered_at.isSome = true) :
    limits.max_attempts ≤ (d.fail limits now).attempts := by
  by_cases hdead : limits.max_attempts ≤ d.attempts + 1
  · exact hdead
  · simp [Delivery.fail, hdead] at h

/-- The failure of a row that is pending still: its attempts are below the bound. -/
theorem fail_pending {d : Delivery} (now : ℚ) (h : (d.fail limits now).pending = true) :
    (d.fail limits now).attempts < limits.max_attempts := by
  by_cases hdead : limits.max_attempts ≤ d.attempts + 1
  · simp [Delivery.fail, Delivery.pending, hdead] at h
  · show d.attempts + 1 < limits.max_attempts
    omega

/-- A transaction that is committed, by a worker that then returns. -/
theorem Exact.returned {w : Fin k} (h : Exact env limits outbox s₀ s)
    (hchange : ∀ y, RowChange env limits outbox s₀.db.audits s.db db' y)
    (hlocks : ∀ y w', w' ≠ w → y ∈ (s.workers w').locks → db'.delivery y = s.db.delivery y)
    (hprogress : s.calls w + 1 + potential limits outbox db' ≤ potential limits outbox s₀.db) :
    Exact env limits outbox s₀ (s.returned w db') := by
  have hpotential : potential limits outbox db' ≤ potential limits outbox s.db :=
    List.sum_le_sum fun y _ => (hchange y).weight_le
  have hworkers : ∀ w' p, (s.returned w db').workers w' = p → p ≠ .idle → w' ≠ w ∧ s.workers w' = p := by
    intro w' p hw' hp
    have hw : Function.update s.workers w .idle w' = p := hw'
    by_cases hsame : w' = w
    · rw [hsame, Function.update_self] at hw
      exact absurd hw.symm hp
    · rw [Function.update_of_ne hsame] at hw
      exact ⟨hsame, hw⟩
  have hmem : ∀ w' y, y ∈ ((s.returned w db').workers w').locks →
      w' ≠ w ∧ y ∈ (s.workers w').locks := by
    intro w' y hy
    have hidle : (s.returned w db').workers w' ≠ .idle := by
      intro hidle
      rw [hidle] at hy
      cases hy
    obtain ⟨hne, heq⟩ := hworkers w' _ rfl hidle
    exact ⟨hne, heq ▸ hy⟩
  refine ⟨?_, ?_, ?_, ?_, ?_, ?_, ?_, ?_, ?_, ?_⟩
  · intro y hy
    show db'.delivery y = s₀.db.delivery y
    have hold := h.still y hy
    rcases hy with hfirst | hout
    · cases hchange y with
      | same hdelivery => exact hdelivery.trans hold
      | publishes now p e hmem hpending =>
        rw [hold, hfirst] at hpending
        cases hpending
      | fails now hmem hpending =>
        rw [hold, hfirst] at hpending
        cases hpending
    · cases hchange y with
      | same hdelivery => exact hdelivery.trans hold
      | publishes now p e hmem => exact absurd hmem hout
      | fails now hmem => exact absurd hmem hout
  · intro y
    show db'.audits y = s₀.db.audits y ∨ (db'.delivery y).published_at.isSome = true
    cases hchange y with
    | same hdelivery haudits =>
      rw [haudits, hdelivery]
      exact h.audits y
    | publishes now p e hmem hpending hp heq he hcontent hdelivery =>
      rw [hdelivery]
      exact .inr rfl
    | fails now hmem hpending hrange haudits hdelivery =>
      rw [haudits]
      exact .inl (h.pending hpending).2
  · intro y hy hfirst hpublished
    change (db'.delivery y).published_at.isSome = true at hpublished
    show ∃ p e, _ ∧ _ ∧ db'.audits y = some e ∧ _
    cases hchange y with
    | same hdelivery haudits =>
      rw [hdelivery] at hpublished
      rw [haudits]
      exact h.published y hy hfirst hpublished
    | publishes now p e hmem hpending hp heq he hcontent => exact ⟨p, e, hp, heq, he, hcontent⟩
    | fails now hmem hpending hrange haudits hdelivery =>
      have hnone : (s.db.delivery y).published_at.isNone = true := (Bool.and_eq_true_iff.mp hpending).1
      rw [hdelivery] at hpublished
      change (s.db.delivery y).published_at.isSome = true at hpublished
      rw [Option.isNone_iff_eq_none.mp hnone] at hpublished
      cases hpublished
  · intro y hy hfirst hdead
    change (db'.delivery y).dead_lettered_at.isSome = true at hdead
    show (db'.delivery y).published_at = none ∧ limits.max_attempts ≤ (db'.delivery y).attempts ∧ _
    cases hchange y with
    | same hdelivery haudits =>
      rw [hdelivery] at hdead ⊢
      exact h.dead y hy hfirst hdead
    | publishes now p e hmem hpending hp heq he hcontent hdelivery =>
      have hnone : (s.db.delivery y).dead_lettered_at.isNone = true :=
        (Bool.and_eq_true_iff.mp hpending).2
      rw [hdelivery] at hdead
      change (s.db.delivery y).dead_lettered_at.isSome = true at hdead
      rw [Option.isNone_iff_eq_none.mp hnone] at hdead
      cases hdead
    | fails now hmem hpending hrange haudits hdelivery hnot =>
      have hnone : (s.db.delivery y).published_at.isNone = true := (Bool.and_eq_true_iff.mp hpending).1
      rw [hdelivery] at hdead ⊢
      exact ⟨Option.isNone_iff_eq_none.mp hnone, fail_dead now hdead, hnot⟩
  · intro w'
    constructor
    · by_cases hw : w' = w
      · have hidle : (s.returned w db').workers w' = .idle := by
          rw [hw]
          exact Function.update_self ..
        rw [hidle]
        exact List.nodup_nil
      · have hsame : (s.returned w db').workers w' = s.workers w' := Function.update_of_ne hw ..
        rw [hsame]
        exact (h.locks w').1
    · intro y hy
      obtain ⟨hne, hy⟩ := hmem w' y hy
      obtain ⟨hids, hpending, honly⟩ := (h.locks w').2 y hy
      refine ⟨hids, ?_, fun w'' hy'' => honly w'' (hmem w'' y hy'').2⟩
      show (db'.delivery y).pending = true
      rw [hlocks y w' hne hy]
      exact hpending
  · intro w' now ids hw'
    obtain ⟨-, hw'⟩ := hworkers w' (.selected now ids) hw' nofun
    exact h.batches w' now ids hw'
  · intro w' y hw'
    obtain ⟨-, hw'⟩ := hworkers w' (.failed y) hw' nofun
    exact h.failed w' y hw'
  · intro y hy hpending
    change (db'.delivery y).pending = true at hpending
    show (db'.delivery y).attempts + 1 ≤ maxInteger
    cases hchange y with
    | same hdelivery =>
      rw [hdelivery] at hpending ⊢
      exact h.range y hy hpending
    | publishes now p e hmem hpending' hp heq he hcontent hdelivery =>
      rw [hdelivery, publish_pending] at hpending
      cases hpending
    | fails now hmem hpending' hrange haudits hdelivery =>
      rw [hdelivery] at hpending ⊢
      have hlt := fail_pending now hpending
      have hle := limits.attempts_le
      unfold maxInteger
      omega
  · intro w'
    show Function.update s.calls w (s.calls w + 1) w' + potential limits outbox db' ≤ _
    by_cases hw : w' = w
    · rw [hw, Function.update_self]
      exact hprogress
    · rw [Function.update_of_ne hw]
      have hbefore := h.progress w'
      omega
  · intro w' y hw'
    obtain ⟨hne, hw'⟩ := hworkers w' (.failed y) hw' nofun
    show (db'.delivery y).pending = true ∨
      Function.update s.calls w (s.calls w + 1) w' + 1 + potential limits outbox db' ≤ _
    rw [Function.update_of_ne hne]
    -- The row is pending still, or this worker has made progress with it.
    rcases h.pendingFailure w' y hw' with hpending | hdone
    · cases hafter : (db'.delivery y).pending with
      | true => exact .inl rfl
      | false =>
        right
        have hids := (h.failed w' y hw').1
        have hlt : potential limits outbox db' < potential limits outbox s.db := by
          refine potential_lt (fun y _ => (hchange y).weight_le) ⟨y, hids, ?_⟩
          rw [weight_zero hafter]
          exact weight_pos hpending
        have hbefore := h.progress w'
        omega
    · right
      omega

/-- A worker goes on without a change of the database. -/
theorem Exact.goes {w : Fin k} {p : WorkerPhase} (h : Exact env limits outbox s₀ s)
    (hnodup : p.locks.Nodup)
    (hp : ∀ y ∈ p.locks, y ∈ outbox.ids ∧ (s.db.delivery y).pending = true ∧
      ∀ w', w' ≠ w → y ∉ (s.workers w').locks)
    (hbatch : ∀ now ids, p = .selected now ids → ids ≠ [])
    (hfailed : ∀ y, p = .failed y → y ∈ outbox.ids ∧ (s.db.delivery y).pending = true ∧
      ¬ Projectable env outbox s₀.db.audits y) :
    Exact env limits outbox s₀ { s with workers := Function.update s.workers w p } := by
  refine ⟨h.still, h.audits, h.published, h.dead, ?_, ?_, ?_, h.range, h.progress, ?_⟩
  · intro w'
    show (Function.update s.workers w p w').locks.Nodup ∧
      ∀ y ∈ (Function.update s.workers w p w').locks, y ∈ outbox.ids ∧
        (s.db.delivery y).pending = true ∧
        ∀ w'', y ∈ (Function.update s.workers w p w'').locks → w'' = w'
    by_cases hw : w' = w
    · subst hw
      rw [Function.update_self]
      refine ⟨hnodup, ?_⟩
      intro y hy
      obtain ⟨hids, hpending, hothers⟩ := hp y hy
      refine ⟨hids, hpending, ?_⟩
      intro w'' hy''
      by_contra hne
      rw [Function.update_of_ne hne] at hy''
      exact hothers w'' hne hy''
    · rw [Function.update_of_ne hw]
      refine ⟨(h.locks w').1, ?_⟩
      intro y hy
      obtain ⟨hids, hpending, honly⟩ := (h.locks w').2 y hy
      refine ⟨hids, hpending, ?_⟩
      intro w'' hy''
      by_cases hw'' : w'' = w
      · rw [hw'', Function.update_self] at hy''
        exact absurd hy ((hp y hy'').2.2 w' hw)
      · rw [Function.update_of_ne hw''] at hy''
        exact honly w'' hy''
  · intro w' now ids hw'
    have hphase : Function.update s.workers w p w' = .selected now ids := hw'
    by_cases hw : w' = w
    · rw [hw, Function.update_self] at hphase
      exact hbatch now ids hphase
    · rw [Function.update_of_ne hw] at hphase
      exact h.batches w' now ids hphase
  · intro w' y hw'
    have hphase : Function.update s.workers w p w' = .failed y := hw'
    by_cases hw : w' = w
    · rw [hw, Function.update_self] at hphase
      obtain ⟨hids, hpending, hnot⟩ := hfailed y hphase
      exact ⟨hids, (h.pending hpending).1, hnot⟩
    · rw [Function.update_of_ne hw] at hphase
      exact h.failed w' y hphase
  · intro w' y hw'
    have hphase : Function.update s.workers w p w' = .failed y := hw'
    by_cases hw : w' = w
    · rw [hw, Function.update_self] at hphase
      exact .inl (hfailed y hphase).2.1
    · rw [Function.update_of_ne hw] at hphase
      exact h.pendingFailure w' y hphase

/-- The rows of a batch. -/
theorem mem_batch (h : x ∈ s.batch limits outbox now) : x ∈ outbox.ids ∧ s.due now x := by
  have hfilter := List.mem_of_mem_take h
  obtain ⟨hids, hdue⟩ := List.mem_filter.mp hfilter
  exact ⟨hids, of_decide_eq_true hdue⟩

/-- A batch has no row twice. -/
theorem nodup_batch (s : System k) (limits : Limits) (outbox : Outbox) (now : ℚ) :
    (s.batch limits outbox now).Nodup :=
  (outbox.nodup.filter _).sublist (List.take_sublist _ _)

/-- What the failure that is recorded does to the rows. -/
theorem recordFailure_change (y : String) (hx : x ∈ outbox.ids)
    (hnot : ¬ Projectable env outbox first x) :
    RowChange env limits outbox first db (recordFailure limits outbox now db x) y := by
  unfold recordFailure
  split
  · next hrow =>
    by_cases hy : y = x
    · subst hy
      exact .fails now hx hrow.2.1 hrow.2.2 rfl (Function.update_self ..) hnot
    · exact .same (Function.update_of_ne hy ..) rfl
  · exact .same rfl rfl

/-- Every step keeps the invariant, where the rows are apart; and an audit event that changes is that of
a pending row which the same step publishes. -/
theorem move_exact {m : Move k} (hapart : Apart env outbox s₀.db)
    (h : Exact env limits outbox s₀ s) (hmove : move env limits outbox s m = some s') :
    Exact env limits outbox s₀ s' ∧
    ∀ y, s'.db.audits y = s.db.audits y ∨ (y ∈ outbox.ids ∧ (s.db.delivery y).pending = true ∧
      (s'.db.delivery y).published_at.isSome = true) := by
  cases m with
  | select w now =>
    simp only [move] at hmove
    split at hmove
    · next hidle =>
      split at hmove
      · cases hmove
        exact ⟨h, fun _ => .inl rfl⟩
      · next id ids hbatch =>
        cases hmove
        refine ⟨?_, fun _ => .inl rfl⟩
        apply h.goes
        · have hnodup := nodup_batch s limits outbox now
          rw [hbatch] at hnodup
          exact hnodup
        · intro y hy
          have hy' : y ∈ s.batch limits outbox now := by
            rw [hbatch]
            exact hy
          obtain ⟨hids, hdue⟩ := mem_batch hy'
          exact ⟨hids, hdue.1, fun w' _ hlocked => hdue.2.2 ⟨w', hlocked⟩⟩
        · intro now' ids' heq
          cases heq
          exact List.cons_ne_nil id ids
        · exact fun y heq => nomatch heq
    · cases hmove
  | finish w =>
    simp only [move] at hmove
    split at hmove
    · next now ids hselected =>
      have hlocks := h.locks w
      rw [hselected] at hlocks
      obtain ⟨hnodup, hlocked⟩ := hlocks
      obtain ⟨hok, herror⟩ := projectAll_spec now (h.apart hapart) hnodup
        fun y hy => ⟨(hlocked y hy).1, (hlocked y hy).2.1⟩
      split at hmove
      · next db' hall =>
        cases hmove
        obtain ⟨hinside, houtside⟩ := hok db' hall
        have hchange : ∀ y, RowChange env limits outbox s₀.db.audits s.db db' y := by
          intro y
          by_cases hy : y ∈ ids
          · obtain ⟨p, e, hp, heq, he, hcontent, hdelivery⟩ := hinside y hy
            exact .publishes now p e (hlocked y hy).1 (hlocked y hy).2.1 hp heq he hcontent hdelivery
          · exact .same (houtside y hy).2 (houtside y hy).1
        refine ⟨h.returned hchange ?_ ?_, ?_⟩
        · intro y w' hne hy
          refine (houtside y fun hy' => hne ?_).2
          exact (hlocked y hy').2.2 w' hy
        · obtain ⟨y, hy⟩ := List.exists_mem_of_ne_nil ids (h.batches w now ids hselected)
          have hlt : potential limits outbox db' < potential limits outbox s.db := by
            refine potential_lt (fun y _ => (hchange y).weight_le) ⟨y, (hlocked y hy).1, ?_⟩
            obtain ⟨-, -, -, -, -, -, hdelivery⟩ := hinside y hy
            rw [hdelivery, weight_zero (publish_pending _ now)]
            exact weight_pos (hlocked y hy).2.1
          have hbefore := h.progress w
          omega
        · intro y
          by_cases hy : y ∈ ids
          · obtain ⟨-, -, -, -, -, -, hdelivery⟩ := hinside y hy
            refine .inr ⟨(hlocked y hy).1, (hlocked y hy).2.1, ?_⟩
            show (db'.delivery y).published_at.isSome = true
            rw [hdelivery]
            rfl
          · exact .inl (houtside y hy).1
      · next id hall =>
        cases hmove
        obtain ⟨hmem, hnot⟩ := herror id hall
        obtain ⟨hids, hpending, -⟩ := hlocked id hmem
        refine ⟨h.goes List.nodup_nil (fun y hy => nomatch hy) (fun _ _ heq => nomatch heq) ?_,
          fun _ => .inl rfl⟩
        intro y heq
        cases heq
        refine ⟨hids, hpending, ?_⟩
        rwa [projectable_congr (h.pending hpending).2] at hnot
    · cases hmove
  | record w now =>
    simp only [move] at hmove
    split at hmove
    · next id hfailed =>
      split at hmove
      · cases hmove
      · next hunlocked =>
        cases hmove
        obtain ⟨hids, -, hnot⟩ := h.failed w id hfailed
        have hchange : ∀ y, RowChange env limits outbox s₀.db.audits s.db
            (recordFailure limits outbox now s.db id) y := fun y => recordFailure_change y hids hnot
        refine ⟨h.returned hchange ?_ ?_, ?_⟩
        · intro y w' hne hy
          have hyid : y ≠ id := by
            intro heq
            exact hunlocked ⟨w', heq ▸ hy⟩
          unfold recordFailure
          split
          · exact Function.update_of_ne hyid ..
          · rfl
        · rcases h.pendingFailure w id hfailed with hpending | hdone
          · have hrow : id ∈ outbox.ids ∧ (s.db.delivery id).pending = true ∧
                (s.db.delivery id).attempts + 1 ≤ maxInteger :=
              ⟨hids, hpending, h.range id hids hpending⟩
            have hlt : potential limits outbox (recordFailure limits outbox now s.db id) <
                potential limits outbox s.db := by
              refine potential_lt (fun y _ => (hchange y).weight_le) ⟨id, hids, ?_⟩
              unfold recordFailure
              rw [if_pos hrow]
              show (Function.update s.db.delivery id _ id).weight limits < _
              rw [Function.update_self]
              exact weight_fail hpending now
            have hbefore := h.progress w
            omega
          · have hle : potential limits outbox (recordFailure limits outbox now s.db id) ≤
                potential limits outbox s.db := List.sum_le_sum fun y _ => (hchange y).weight_le
            omega
        · intro y
          left
          show (recordFailure limits outbox now s.db id).audits y = s.db.audits y
          unfold recordFailure
          split
          · rfl
          · rfl
    · cases hmove

/-! ## Runs -/

/-- The projection from a state: every row that gets published has an audit event with its id and its
prepared content; an audit event is written only in a commit that publishes its row; a row that gets
dead-lettered has used up its attempts and cannot be projected; a call that is made when a row is due and
not locked takes rows; and once a worker has returned from as many such calls as there is left to do, no
row is pending. -/
def ProjectsExactly (env : Env) (limits : Limits) (outbox : Outbox) (s₀ : System k) : Prop :=
  ∀ moves s, execAll (move env limits outbox) s₀ moves = some s →
    (∀ y ∈ outbox.ids, (s₀.db.delivery y).pending = true →
      (s.db.delivery y).published_at.isSome = true →
      ∃ p e, prepareEvent env y (outbox.content y) = some p ∧ p.event_id = y ∧
        s.db.audits y = some e ∧ HasContent p e) ∧
    (∀ m s', move env limits outbox s m = some s' → ∀ y, s'.db.audits y = s.db.audits y ∨
      (y ∈ outbox.ids ∧ (s.db.delivery y).pending = true ∧
        (s'.db.delivery y).published_at.isSome = true)) ∧
    (∀ y ∈ outbox.ids, (s₀.db.delivery y).pending = true →
      (s.db.delivery y).dead_lettered_at.isSome = true →
      limits.max_attempts ≤ (s.db.delivery y).attempts ∧ ¬ Projectable env outbox s.db.audits y) ∧
    (∀ now, ∀ y ∈ outbox.ids, s.due now y → s.batch limits outbox now ≠ []) ∧
    ∀ w, potential limits outbox s₀.db ≤ s.calls w →
      ∀ y ∈ outbox.ids, (s.db.delivery y).pending = false

/-- Every state of a run keeps the invariant. -/
theorem run_exact {moves : List (Move k)} (hidle : ∀ w, s₀.workers w = .idle)
    (hcalls : ∀ w, s₀.calls w = 0) (hapart : Apart env outbox s₀.db) (hrange : InRange outbox s₀.db)
    (hrun : execAll (move env limits outbox) s₀ moves = some s) : Exact env limits outbox s₀ s :=
  trace_invariant (I := fun _ s => Exact env limits outbox s₀ s) (exact_initial hidle hcalls hrange)
    (fun _ _ _ _ _ hu hmove => (move_exact hapart hu hmove).1) hrun

/-- **Exactly-once projection of rows that are apart.** With any number of workers, any payloads and any
audit events that are there, where no pending row prepares the id of another pending row, and no pending
row has used up the range of its attempts. -/
theorem projectsExactly_of_apart (env : Env) (limits : Limits) (outbox : Outbox) (s₀ : System k)
    (hidle : ∀ w, s₀.workers w = .idle) (hcalls : ∀ w, s₀.calls w = 0)
    (hapart : Apart env outbox s₀.db) (hrange : InRange outbox s₀.db) :
    ProjectsExactly env limits outbox s₀ := by
  intro moves s hrun
  have hexact : Exact env limits outbox s₀ s := run_exact hidle hcalls hapart hrange hrun
  refine ⟨hexact.published, fun m s' hmove => (move_exact hapart hexact hmove).2, ?_, ?_, ?_⟩
  · intro y hy hfirst hdead
    obtain ⟨hpublished, hattempts, hnot⟩ := hexact.dead y hy hfirst hdead
    refine ⟨hattempts, ?_⟩
    -- The row was not published, so its audit event is the one that was there.
    have haudits : s.db.audits y = s₀.db.audits y := by
      rcases hexact.audits y with hsame | hsome
      · exact hsame
      · rw [hpublished] at hsome
        cases hsome
    rwa [projectable_congr haudits]
  · intro now y hy hdue hbatch
    have hmem : y ∈ outbox.ids.filter fun id => s.due now id :=
      List.mem_filter.mpr ⟨hy, decide_eq_true hdue⟩
    rcases List.take_eq_nil_iff.mp hbatch with hzero | hnil
    · have hpos := limits.batch_pos
      omega
    · rw [hnil] at hmem
      cases hmem
  · intro w hcalls' y hy
    have hprogress := hexact.progress w
    have hzero : potential limits outbox s.db = 0 := by omega
    exact pending_of_potential hzero hy

/-- The standard library and the database, as they are on the payloads of the examples. -/
def plainEnv : Env where
  loads _ := none
  size v := match v with
    | .obj [] => 2
    | _ => 61
  bytes s := s.length
  casefold := lower
  stripUrlCredentials := some
  storable _ := true

/-- One worker that takes one row at a time. -/
def singleRow : Limits := ⟨1, 8, by decide, by decide, by decide, by decide⟩

/-- A row of the first tenant about a target. -/
def targetContent (target : String) : Content :=
  ⟨"t1", .obj [("action", .str "user.update"), ("tenant_id", .str "t1"), ("target_id", .str target)]⟩

/-- Two rows whose ids are the same but for a space. -/
def spacedOutbox : Outbox where
  ids := [" a", "a"]
  nodup := by decide
  content id := if id = "a" then targetContent "doc-2" else targetContent "doc-1"

/-- Two rows with other ids. -/
def plainOutbox : Outbox where
  ids := ["a", "b"]
  nodup := by decide
  content id := if id = "a" then targetContent "doc-2" else targetContent "doc-1"

/-- Rows that are due, no audit events, and a worker that is idle. -/
def dueSystem : System 1 where
  db := ⟨fun _ => ⟨0, 0, none, none, none⟩, fun _ => none⟩
  workers _ := .idle
  calls _ := 0

/-- The rows with other ids are projected exactly. -/
theorem plainOutbox_exact : ProjectsExactly plainEnv singleRow plainOutbox dueSystem := by
  refine projectsExactly_of_apart plainEnv singleRow plainOutbox dueSystem (fun _ => rfl) (fun _ => rfl)
    ?_ (fun _ _ _ => by show 0 + 1 ≤ 2147483647; omega)
  intro i hi _ p hp _ _ _
  have hids : ∀ i ∈ plainOutbox.ids, (prepareEvent plainEnv i (plainOutbox.content i)).all
      (fun p => p.event_id == i) = true := by decide +kernel
  have hid := hids i hi
  rw [hp] at hid
  exact beq_iff_eq.mp hid

/-- The row whose id has a space publishes the other one, with its own content. -/
theorem spacedOutbox_not_exact : ¬ ProjectsExactly plainEnv singleRow spacedOutbox dueSystem := by
  intro hexact
  have hsome : ((execAll (move plainEnv singleRow spacedOutbox) dueSystem
      [.select 0 0, .finish 0]).any fun s => (s.db.delivery "a").published_at.isSome &&
        (s.db.audits "a").any fun e => e.prepared.target_id == some "doc-1") = true := by decide +kernel
  have hprepared : (prepareEvent plainEnv "a" (spacedOutbox.content "a")).all
      (fun p => p.target_id == some "doc-2") = true := by decide +kernel
  obtain ⟨s, hrun, hs⟩ := (Option.any_eq_true _ _).mp hsome
  obtain ⟨hpublished, haudits⟩ := Bool.and_eq_true_iff.mp hs
  obtain ⟨e, he, htarget⟩ := (Option.any_eq_true _ _).mp haudits
  obtain ⟨p, e', hp, -, he', hcontent⟩ :=
    (hexact _ s hrun).1 "a" (by decide) rfl hpublished
  cases he.symm.trans he'
  rw [hp] at hprepared
  have hp' : p.target_id = some "doc-2" := beq_iff_eq.mp hprepared
  have he'' : e.prepared.target_id = some "doc-1" := beq_iff_eq.mp htarget
  -- The targets differ, so the contents do.
  rcases hcontent with heq | hsame
  · rw [heq, hp'] at he''
    exact absurd he'' (by decide)
  · unfold sameExistingEvent at hsame
    simp only [Bool.and_eq_true, beq_iff_eq] at hsame
    have htargets : e.prepared.target_id = p.target_id := hsame.1.1.1.2
    rw [he'', hp'] at htargets
    exact absurd htargets (by decide)

end RickIntelligence.Audit
