import RickIntelligence.Knowledge.Receipts

/-!
# A decision that is repeated

`resolve_publication` of `rick_knowledge/publication.py` may be called again for a decision whose
acknowledgement was lost, with requests to cancel before and in between. A decision that was written as
it was asked for is returned by every further call, and nothing changes
(`decisions_repeat`). A failure that was asked for of a receipt that is to be cancelled is written as a
cancellation, and the next call compares it with the failure and raises.
-/

namespace RickIntelligence.Knowledge

open Lib

section

variable {env : Env} {s s' : Store} {key : JobKey} {attempt : String} {outcome : Outcome} {r : Receipt}

/-! ## Decided receipts -/

/-- The decision was asked for of a pending receipt that is to be cancelled, and is a failure: it is
written as a cancellation. -/
def TurnsToCancelled (s : Store) (key : JobKey) (outcome : Outcome) : Prop :=
  outcome = .failed ∧ ∃ r, s.publications.lookup key = some r ∧ r.outcome = .pending ∧
    r.cancel_requested = true

/-- The receipt of an attempt is decided, under identities that are in order. -/
structure Decided (s : Store) (key : JobKey) (attempt : String) (r : Receipt) : Prop where
  identities : requirePublicationIdentities
    [some key.2.2.2, some key.1, some key.2.1, some key.2.2.1] = .ok ()
  stored : s.publications.lookup key = some r
  attempt_id : r.attempt_id = attempt
  decided : r.outcome ≠ .pending

/-- The receipt of a key is read. -/
theorem exec_getPublication
    (h : requirePublicationIdentities [some key.2.2.2, some key.1, some key.2.1, some key.2.2.1] = .ok ())
    (s : Store) : Proc.exec (getPublication key) s = (.ok (s.publications.lookup key), s) := by
  unfold getPublication
  rw [h]
  rfl

/-- **What a decision that returns has done.** It found the decision that is asked for, or it has written
one over the pending receipt, which is the one that is asked for or a cancellation. -/
theorem resolvePublication_returns {now : Instant} {result : Option Receipt}
    (hkeys : ∀ k p, s.publications.lookup k = some p → p.key = k)
    (h : Proc.exec (resolvePublication env now key attempt outcome) s = (.ok result, s')) :
    ∃ r, result = some r ∧ Decided s' key attempt r ∧
      ((r.outcome = outcome ∧ ¬ TurnsToCancelled s key outcome) ∨
        r.outcome = .cancelled ∧ TurnsToCancelled s key outcome) := by
  refine Proc.Holds.of_exec (Q := fun x t => ∀ result, x = .ok result → ∃ r, result = some r ∧
    Decided t key attempt r ∧ ((r.outcome = outcome ∧ ¬ TurnsToCancelled s key outcome) ∨
      r.outcome = .cancelled ∧ TurnsToCancelled s key outcome)) ?_ h result rfl
  clear h
  have hraises : ∀ (e : StoreError) (t : Store) result, (.error e : Except StoreError (Option Receipt)) =
      .ok result → ∃ r, result = some r ∧ Decided t key attempt r ∧
        ((r.outcome = outcome ∧ ¬ TurnsToCancelled s key outcome) ∨
          r.outcome = .cancelled ∧ TurnsToCancelled s key outcome) := by
    intro e t result h
    cases h
  unfold resolvePublication
  refine Proc.holds_raiseIf_bind (fun _ => hraises _ _) fun houtcome => ?_
  have hasked : outcome ≠ .pending := by simpa using houtcome
  apply Proc.holds_bind
  unfold getPublication
  refine Proc.holds_lift_bind (fun e _ => hraises e _) fun _ hids => Proc.holds_get_bind ?_
  cases hcurrent : s.publications.lookup key with
  | none => exact Proc.holds_pure (hraises _ _)
  | some current =>
    refine Proc.holds_pure ?_
    refine Proc.holds_raiseIf_bind (fun _ => hraises _ _) fun hattempt => ?_
    have hattempt' : current.attempt_id = attempt := by simpa using hattempt
    have honly : TurnsToCancelled s key outcome ↔ outcome = .failed ∧ current.outcome = .pending ∧
        current.cancel_requested = true := by
      unfold TurnsToCancelled
      simp only [hcurrent, Option.some.injEq, exists_eq_left']
    split
    · next hdecided =>
      have hdecided' : current.outcome ≠ .pending := by simpa using hdecided
      refine Proc.holds_raiseIf_bind (fun _ => hraises _ _) fun hsame => Proc.holds_pure ?_
      intro result hresult
      cases hresult
      refine ⟨current, rfl, ⟨hids, hcurrent, hattempt', hdecided'⟩, .inl ⟨by simpa using hsame, ?_⟩⟩
      rw [honly]
      exact fun hturns => hdecided' hturns.2.1
    · refine Proc.holds_lift_bind (fun e _ => hraises e _) fun decided hterminal => ?_
      obtain ⟨hpending, finished_at, rfl⟩ := terminalPublication_ok hterminal
      unfold writePublication
      refine Proc.holds_bind (Proc.holds_get_bind (Proc.holds_set ?_))
      have hkey := hkeys key current hcurrent
      rw [show Receipt.key { current with outcome, job_snapshot := { current.job_snapshot with
        finished_at } } = key from hkey, hcurrent]
      show Proc.Holds (getPublication key) _ _
      unfold Proc.Holds
      rw [exec_getPublication hids]
      simp only [AList.lookup_insert]
      intro result hresult
      cases hresult
      have hmerged : (mergeReceipt (some current) { current with
          outcome, job_snapshot := { current.job_snapshot with finished_at } }).outcome =
          if current.cancel_requested && outcome == .failed then .cancelled else outcome := by
        simp [mergeReceipt, hpending]
      have hsame : (mergeReceipt (some current) { current with
          outcome, job_snapshot := { current.job_snapshot with finished_at } }).attempt_id = attempt := by
        simp [mergeReceipt, hattempt']
      generalize mergeReceipt (some current) _ = merged at hmerged hsame
      refine ⟨merged, rfl, ⟨hids, AList.lookup_insert _, hsame, ?_⟩, ?_⟩
      · rw [hmerged]
        split
        · simp
        · exact hasked
      · rw [honly, hmerged]
        by_cases hturns : current.cancel_requested = true ∧ outcome = .failed
        · right
          simp [hturns.1, hturns.2, hpending]
        · left
          have hfalse : (current.cancel_requested && outcome == .failed) = false := by
            rw [← Bool.not_eq_true, Bool.and_eq_true, beq_iff_eq]
            exact hturns
          rw [hfalse]
          exact ⟨if_neg (by simp), fun h => hturns ⟨h.2.2, h.1⟩⟩

/-- A decided receipt is compared with what is asked for, and nothing changes. -/
theorem Decided.exec_resolve (h : Decided s key attempt r) (now : Instant)
    (hasked : outcome ≠ .pending) :
    Proc.exec (resolvePublication env now key attempt outcome) s =
      (if r.outcome = outcome then .ok (some r)
        else .error (.ownership "publication outcome is immutable"), s) := by
  have hholds : Proc.Holds (resolvePublication env now key attempt outcome) s fun x t =>
      x = (if r.outcome = outcome then .ok (some r)
        else .error (.ownership "publication outcome is immutable")) ∧ t = s := by
    unfold resolvePublication
    refine Proc.holds_raiseIf_bind (fun hp => absurd (by simpa using hp) hasked) fun _ => ?_
    refine Proc.holds_bind ?_
    have hread : Proc.Holds (getPublication key) s fun x t => x = .ok (some r) ∧ t = s := by
      unfold Proc.Holds
      rw [exec_getPublication h.identities, h.stored]
      exact ⟨rfl, rfl⟩
    refine hread.imp ?_
    rintro x t ⟨rfl, rfl⟩
    refine Proc.holds_raiseIf_bind (fun hne => absurd h.attempt_id (by simpa using hne)) fun _ => ?_
    rw [if_pos (by simpa using h.decided)]
    refine Proc.holds_raiseIf_bind (fun hne => ?_) fun hsame => Proc.holds_pure ?_
    · rw [if_neg (by simpa using hne)]
      exact ⟨rfl, rfl⟩
    · rw [if_pos (by simpa using hsame)]
      exact ⟨rfl, rfl⟩
  exact Prod.ext hholds.1 hholds.2

/-- A decision that is asked for again is returned, and nothing changes. -/
theorem Decided.repeats (h : Decided s key attempt r) (now : Instant) :
    Proc.exec (resolvePublication env now key attempt r.outcome) s = (.ok (some r), s) := by
  rw [h.exec_resolve now h.decided, if_pos rfl]

/-- Another decision is refused. -/
theorem Decided.refuses (h : Decided s key attempt r) (now : Instant) (hasked : outcome ≠ .pending)
    (hother : r.outcome ≠ outcome) :
    Proc.exec (resolvePublication env now key attempt outcome) s =
      (.error (.ownership "publication outcome is immutable"), s) := by
  rw [h.exec_resolve now hasked, if_neg hother]

/-- A request to cancel leaves what is decided. -/
theorem Decided.cancel (h : Decided s key attempt r) (job : Job) :
    Decided (Proc.exec (requestPublicationCancel job) s).2 key attempt r := by
  show Proc.Holds (requestPublicationCancel job) s fun _ t => Decided t key attempt r
  unfold requestPublicationCancel
  refine Proc.holds_lift_bind (fun _ _ => h) fun _ _ => ?_
  refine (markPublicationCancel_spec job).imp ?_
  rintro x t (rfl | ⟨-, p, hp, hpending, rfl⟩)
  · exact h
  · -- The marked receipt is pending, so it is another one.
    have hne : key ≠ job.key := by
      rintro rfl
      cases h.stored.symm.trans hp
      exact h.decided hpending
    exact ⟨h.identities, (AList.lookup_insert_ne hne).trans h.stored, h.attempt_id, h.decided⟩

/-! ## Retries -/

/-- What may happen between two calls for one decision: a request to cancel a job, or a further call. -/
inductive Retry where
  | cancel (job : Job)
  | resolve (now : Instant)

/-- The procedure of a retry for the decision on an attempt. -/
def Retry.run (env : Env) (key : JobKey) (attempt : String) (outcome : Outcome) : Retry → StoreProc Unit
  | cancel job => requestPublicationCancel job
  | resolve now => do
    let _ ← resolvePublication env now key attempt outcome

/-- The store after some retries. -/
def afterRetries (env : Env) (key : JobKey) (attempt : String) (outcome : Outcome) (s : Store)
    (retries : List Retry) : Store :=
  retries.foldl (fun s retry => (Proc.exec (retry.run env key attempt outcome) s).2) s

/-- After any retries, a further call for the decision returns the receipt and changes nothing. -/
def Repeats (env : Env) (key : JobKey) (attempt : String) (outcome : Outcome) (s : Store)
    (result : Option Receipt) : Prop :=
  ∀ (retries : List Retry) (now : Instant),
    Proc.exec (resolvePublication env now key attempt outcome)
      (afterRetries env key attempt outcome s retries) =
        (.ok result, afterRetries env key attempt outcome s retries)

/-- Retries leave what is decided. -/
theorem Decided.retries (h : Decided s key attempt r) (retries : List Retry) :
    Decided (afterRetries env key attempt r.outcome s retries) key attempt r := by
  unfold afterRetries
  induction retries generalizing s with
  | nil => exact h
  | cons retry retries ih =>
    rw [List.foldl_cons]
    refine ih ?_
    cases retry with
    | cancel job => exact h.cancel job
    | resolve now =>
      show Proc.Holds (do let _ ← resolvePublication env now key attempt r.outcome) s
        fun _ t => Decided t key attempt r
      apply Proc.holds_bind
      unfold Proc.Holds
      rw [h.repeats now]
      exact h

end

/-- **A decision may be repeated, unless it was turned.** In every reachable store, a call for a decision
that returns may be repeated any number of times, with any requests to cancel in between, and every
further call returns the same receipt and changes nothing, if and only if the decision was not a failure
of a pending receipt that was to be cancelled. -/
theorem decisions_repeat (env : Env) (m : Machine) (hm : MachineReachable env m) (now : Instant)
    (key : JobKey) (attempt : String) (outcome : Outcome) (result : Option Receipt) (s : Store)
    (h : Proc.exec (resolvePublication env now key attempt outcome) m.store = (.ok result, s)) :
    Repeats env key attempt outcome s result ↔ ¬ TurnsToCancelled m.store key outcome := by
  obtain ⟨r, rfl, hdecided, ⟨hsame, hkept⟩ | ⟨hcancelled, hturns⟩⟩ :=
    resolvePublication_returns hm.ok.store.keys h
  · refine ⟨fun _ => hkept, fun _ retries now => ?_⟩
    rw [← hsame]
    exact (hdecided.retries retries).repeats now
  · refine ⟨fun hrepeats => ?_, fun hkept => absurd hturns hkept⟩
    have hother : r.outcome ≠ outcome := by
      rw [hcancelled, hturns.1]
      simp
    have hasked : outcome ≠ .pending := by
      rw [hturns.1]
      simp
    have hagain := (hdecided.refuses now hasked hother).symm.trans (hrepeats [] now)
    cases (Prod.mk.inj hagain).1

/-! ## A lost acknowledgement -/

/-- The decision on the job of the begun machine. -/
def plainResolve (outcome : Outcome) : StoreProc (Option Receipt) :=
  resolvePublication plainEnv (.seconds 200) (plainJob []).key "attempt-1" outcome

/-- The machine with a begun publication is reachable. -/
theorem begunMachine_reachable : MachineReachable plainEnv begunMachine :=
  .tail .refl ⟨.call (.beginPublication (plainJob []) none 0), fun _ => rfl, rfl⟩

/-- A commit may be repeated. -/
theorem commit_repeats : ∃ result s,
    Proc.exec (plainResolve .committed) begunMachine.store = (.ok result, s) ∧
      Repeats plainEnv (plainJob []).key "attempt-1" .committed s result := by
  have hok : (Proc.exec (plainResolve .committed) begunMachine.store).1.isOk = true := by decide +kernel
  cases hexec : Proc.exec (plainResolve .committed) begunMachine.store with
  | mk x s =>
    rw [hexec] at hok
    cases x with
    | error e => cases hok
    | ok result =>
      refine ⟨result, s, rfl, ?_⟩
      exact (decisions_repeat plainEnv begunMachine begunMachine_reachable _ _ _ _ result s hexec).mpr
        fun hturns => by cases hturns.1

/-- The machine in which the begun publication is to be cancelled. -/
def cancelledMachine : Machine :=
  ((Event.call (.requestPublicationCancel (plainJob []))).exec plainEnv begunMachine).2

/-- **A failure cannot be asked for again.** The call for a failure returns the receipt, which is
cancelled, and the same call raises when its acknowledgement was lost. -/
theorem turned_failure_raises : MachineReachable plainEnv cancelledMachine ∧
    ∃ r s, Proc.exec (plainResolve .failed) cancelledMachine.store = (.ok (some r), s) ∧
      r.outcome = .cancelled ∧ Proc.exec (plainResolve .failed) s =
        (.error (.ownership "publication outcome is immutable"), s) := by
  have hreachable : MachineReachable plainEnv cancelledMachine := by
    refine .tail begunMachine_reachable ⟨.call (.requestPublicationCancel (plainJob [])), ?_, rfl⟩
    intro _
    rfl
  refine ⟨hreachable, ?_⟩
  have hflag : ((Proc.exec (plainResolve .failed) cancelledMachine.store).1.toOption.bind
      fun result => result.map Receipt.outcome) = some .cancelled := by decide +kernel
  cases hexec : Proc.exec (plainResolve .failed) cancelledMachine.store with
  | mk x s =>
    rw [hexec] at hflag
    cases x with
    | error e => cases hflag
    | ok result =>
      obtain ⟨r, rfl, hdecided, -⟩ := resolvePublication_returns hreachable.ok.store.keys hexec
      have hcancelled : r.outcome = .cancelled := by
        simpa [Except.toOption] using hflag
      exact ⟨r, s, rfl, hcancelled, hdecided.refuses _ (by simp) (by simp [hcancelled])⟩

end RickIntelligence.Knowledge
