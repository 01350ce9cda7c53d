import RickIntelligence.Lib.Run
import RickIntelligence.Lib.Trace
import RickIntelligence.Qdrant.Request

/-!
# Interleaved requests to Qdrant

The requests of any number of threads interleave: a call is admitted under the lock of the circuit,
and tells how it ended under the lock. The circuit has no way to know which call is its probe, so
that a call from before the circuit opened may end the probe's turn or close the circuit.

`Circuit.one_probe_at_a_time` is about the runs in which no call does so (`Orderly`);
`earlier_calls_disturb` has runs in which one does.
-/

namespace RickIntelligence.Qdrant

open Lib Relation

/-- The circuit, the clock, and the calls in flight. `openings` counts how often the circuit was
opened, and each call in flight has the count of when it was admitted: neither is in the source, both
are there to say which calls were admitted since the circuit last opened. -/
structure Circuit (ι T : Type) where
  breaker : Breaker T
  clock : T
  openings : ℕ
  calls : ι → Option ℕ

/-- The clock advances, a call is made, or a call in flight is over. -/
inductive Event (ι T : Type) where
  | tick (clock : T)
  | call (i : ι)
  | finish (i : ι) (operation : String) (transport : ℕ → Reply) (sleeper : ℕ → Bool)

namespace Circuit

section System

variable {ι T : Type} [DecidableEq ι] [LinearOrder T] [Sub T]

/-- The circuit of a new store. -/
def new (clock : T) : Circuit ι T := ⟨.new, clock, 0, fun _ => none⟩

/-- The circuit is open. -/
def IsOpen (c : Circuit ι T) : Prop := c.breaker.opened_at ≠ none

/-- The call was admitted since the circuit last opened. -/
def Recent (c : Circuit ι T) (i : ι) : Prop := c.calls i = some c.openings

/-- The call was admitted before the circuit last opened. -/
def Earlier (c : Circuit ι T) (i : ι) : Prop := ∃ n, c.calls i = some n ∧ n < c.openings

/-- A call ends. A failure opens the circuit if there were enough of them. -/
def finish (cfg : RequestConfig T) (i : ι) (ending : Ending) (c : Circuit ι T) : Circuit ι T where
  breaker := ending.apply cfg c.clock c.breaker
  clock := c.clock
  openings :=
    if ending = .failure ∧ cfg.circuit_failure_threshold ≤ c.breaker.consecutive_failures + 1 then
      c.openings + 1
    else c.openings
  calls := Function.update c.calls i none

/-- The circuit after an event that may happen in it. A call that is not admitted leaves it. -/
def exec (cfg : RequestConfig T) (c : Circuit ι T) : Event ι T → Option (Circuit ι T)
  | .tick clock => if c.clock ≤ clock then some { c with clock } else none
  | .call i =>
    match c.calls i, c.breaker.acquire cfg c.clock with
    | none, (true, breaker) =>
      some { c with breaker, calls := Function.update c.calls i (some c.openings) }
    | none, (false, _) => some c
    | some _, _ => none
  | .finish i operation transport sleeper =>
    match c.calls i with
    | some _ => some (c.finish cfg i (attempts cfg operation transport sleeper).2)
    | none => none

/-- One event of an interleaving. -/
def Step (cfg : RequestConfig T) (c c' : Circuit ι T) : Prop := ∃ e, c.exec cfg e = some c'

/-- The event does not let a call disturb the probe of an open circuit: a call from before the circuit
opened does not succeed, nor clear the probe while there is one, and an exception does not leave a
call that was admitted since from the side. -/
def Orderly (cfg : RequestConfig T) (c : Circuit ι T) : Event ι T → Prop
  | .finish i operation transport sleeper => c.IsOpen →
    (c.Earlier i → (attempts cfg operation transport sleeper).2 ≠ .success ∧
      ((attempts cfg operation transport sleeper).2 = .cleared → ∀ j, ¬c.Recent j)) ∧
    (c.Recent i → (attempts cfg operation transport sleeper).2 ≠ .untold)
  | _ => True

/-- One event that is orderly. -/
def OrderlyStep (cfg : RequestConfig T) (c c' : Circuit ι T) : Prop :=
  ∃ e, Orderly cfg c e ∧ c.exec cfg e = some c'

/-- The circuits that orderly events lead to. -/
def Reachable (cfg : RequestConfig T) (c : Circuit ι T) : Prop :=
  ∃ clock, ReflTransGen (OrderlyStep cfg) (new clock) c

/-- The call is let through between the two. -/
def Admits (c c' : Circuit ι T) (i : ι) : Prop := c.calls i = none ∧ (c'.calls i).isSome = true

/-- The circuit is younger than the time after which it lets a probe through. -/
def Young (cfg : RequestConfig T) (c : Circuit ι T) : Prop :=
  ∃ opened_at, c.breaker.opened_at = some opened_at ∧ c.clock - opened_at < cfg.circuit_reset_seconds

/-! ## What an event does -/

/-- What an event does: it leaves the circuit but for the clock, it admits a call, or a call ends. -/
inductive Effect (cfg : RequestConfig T) (c : Circuit ι T) : Event ι T → Circuit ι T → Prop
  | ticks (clock : T) : Effect cfg c (.tick clock) { c with clock }
  | rejects (i : ι) (hcall : c.calls i = none) (hacquire : (c.breaker.acquire cfg c.clock).1 = false) :
      Effect cfg c (.call i) c
  | admits (i : ι) (breaker : Breaker T) (hcall : c.calls i = none)
      (hacquire : c.breaker.acquire cfg c.clock = (true, breaker)) :
      Effect cfg c (.call i)
        { c with breaker, calls := Function.update c.calls i (some c.openings) }
  | ends (i : ι) (operation : String) (transport : ℕ → Reply) (sleeper : ℕ → Bool) (n : ℕ)
      (hcall : c.calls i = some n) :
      Effect cfg c (.finish i operation transport sleeper)
        (c.finish cfg i (attempts cfg operation transport sleeper).2)

/-- An event does one of these. -/
theorem exec_effect {cfg : RequestConfig T} {c c' : Circuit ι T} {e : Event ι T}
    (h : c.exec cfg e = some c') : Effect cfg c e c' := by
  cases e with
  | tick clock =>
    simp only [exec] at h
    split at h
    · cases h
      exact .ticks clock
    · cases h
  | call i =>
    simp only [exec] at h
    cases hcall : c.calls i with
    | some n => simp [hcall] at h
    | none =>
      cases hacquire : c.breaker.acquire cfg c.clock with
      | mk admitted breaker =>
        simp only [hcall, hacquire] at h
        cases admitted with
        | true =>
          cases h
          exact .admits i breaker hcall hacquire
        | false =>
          cases h
          refine .rejects i hcall ?_
          rw [hacquire]
  | finish i operation transport sleeper =>
    simp only [exec] at h
    cases hcall : c.calls i with
    | none => simp [hcall] at h
    | some n =>
      simp only [hcall] at h
      cases h
      exact .ends i operation transport sleeper n hcall

/-- What the circuit does when it admits a call: it is closed, or the call becomes its probe. -/
theorem acquire_admits {cfg : RequestConfig T} {now : T} {b b' : Breaker T}
    (h : b.acquire cfg now = (true, b')) :
    b.opened_at = none ∧ b' = b ∨
      ∃ opened_at, b.opened_at = some opened_at ∧ ¬now - opened_at < cfg.circuit_reset_seconds ∧
        b.probe_in_flight = false ∧ b' = { b with probe_in_flight := true } := by
  unfold Breaker.acquire at h
  cases hopened : b.opened_at with
  | none =>
    simp only [hopened] at h
    cases h
    exact .inl ⟨rfl, rfl⟩
  | some opened_at =>
    simp only [hopened] at h
    split at h
    · cases h
    · next hage =>
      split at h
      · cases h
      · next hprobe =>
        cases h
        exact .inr ⟨opened_at, rfl, hage, by simpa using hprobe, by rw [← hopened]⟩

end System

/-! ## What holds in every circuit -/

section States

variable {ι T : Type} {cfg : RequestConfig T} {c : Circuit ι T}

/-- An open circuit has had enough failures, and its flag says whether a call that was admitted since
is in flight, of which there is one at most. A closed circuit has no flag. -/
structure Inv (cfg : RequestConfig T) (c : Circuit ι T) : Prop where
  counts : ∀ i n, c.calls i = some n → n ≤ c.openings
  failures : c.IsOpen → cfg.circuit_failure_threshold ≤ c.breaker.consecutive_failures
  closed : ¬c.IsOpen → c.breaker.probe_in_flight = false
  flag : c.IsOpen → (c.breaker.probe_in_flight = true ↔ ∃ i, c.Recent i)
  probe : c.IsOpen → ∀ i j, c.Recent i → c.Recent j → i = j

/-- A new circuit. -/
theorem inv_new (cfg : RequestConfig T) (clock : T) : (new clock : Circuit ι T).Inv cfg := by
  have hclosed : ¬(new clock : Circuit ι T).IsOpen := fun h => h rfl
  refine ⟨?_, fun h => absurd h hclosed, fun _ => rfl, fun h => absurd h hclosed,
    fun h => absurd h hclosed⟩
  intro i n hn
  cases hn

/-- After a failure the circuit is closed, or it has just opened. -/
theorem recordFailure_cases (hc : c.Inv cfg) :
    ¬c.IsOpen ∧ c.breaker.recordFailure cfg c.clock =
        ⟨c.breaker.consecutive_failures + 1, none, false⟩ ∧
      ¬cfg.circuit_failure_threshold ≤ c.breaker.consecutive_failures + 1 ∨
    c.breaker.recordFailure cfg c.clock =
        ⟨c.breaker.consecutive_failures + 1, some c.clock, false⟩ ∧
      cfg.circuit_failure_threshold ≤ c.breaker.consecutive_failures + 1 := by
  by_cases hmany : cfg.circuit_failure_threshold ≤ c.breaker.consecutive_failures + 1
  · exact .inr ⟨if_pos hmany, hmany⟩
  · have hclosed : c.breaker.opened_at = none := by
      by_contra hopen
      have hfailures := hc.failures hopen
      omega
    refine .inl ⟨fun h => h hclosed, ?_, hmany⟩
    unfold Breaker.recordFailure
    rw [if_neg hmany, hclosed]

/-- A call in flight was admitted before the circuit last opened, or since. -/
theorem Inv.earlier_or_recent (hc : c.Inv cfg) {i : ι} {n : ℕ} (hcall : c.calls i = some n) :
    c.Earlier i ∨ c.Recent i := by
  rcases Nat.lt_or_eq_of_le (hc.counts i n hcall) with hlt | heq
  · exact .inl ⟨n, hcall, hlt⟩
  · rw [heq] at hcall
    exact .inr hcall

variable [DecidableEq ι]

/-- The calls that are left are older than the count. -/
theorem counts_update (hc : c.Inv cfg) (i : ι) {j : ι} {n : ℕ}
    (hn : Function.update c.calls i none j = some n) : c.calls j = some n ∧ n ≤ c.openings := by
  by_cases hj : j = i
  · subst hj
    rw [Function.update_self] at hn
    cases hn
  · rw [Function.update_of_ne hj] at hn
    exact ⟨hn, hc.counts j n hn⟩

/-- A call that fails keeps the invariant. -/
theorem Inv.fails (hc : c.Inv cfg) (i : ι) : (c.finish cfg i .failure).Inv cfg := by
  rcases recordFailure_cases hc with ⟨hclosed, hbreaker, hfew⟩ | ⟨hbreaker, hmany⟩
  · have hfinish : c.finish cfg i .failure = ⟨⟨c.breaker.consecutive_failures + 1, none, false⟩,
        c.clock, c.openings, Function.update c.calls i none⟩ := by
      unfold finish
      rw [if_neg fun h => hfew h.2]
      show (⟨c.breaker.recordFailure cfg c.clock, _, _, _⟩ : Circuit ι T) = _
      rw [hbreaker]
    rw [hfinish]
    refine ⟨fun j n hn => (counts_update hc i hn).2, fun h => absurd rfl h, fun _ => rfl,
      fun h => absurd rfl h, fun h => absurd rfl h⟩
  · have hfinish : c.finish cfg i .failure = ⟨⟨c.breaker.consecutive_failures + 1, some c.clock, false⟩,
        c.clock, c.openings + 1, Function.update c.calls i none⟩ := by
      unfold finish
      rw [if_pos ⟨rfl, hmany⟩]
      show (⟨c.breaker.recordFailure cfg c.clock, _, _, _⟩ : Circuit ι T) = _
      rw [hbreaker]
    rw [hfinish]
    -- The circuit opens anew, and every call in flight was admitted before.
    have hnone : ∀ j, Function.update c.calls i none j ≠ some (c.openings + 1) := by
      intro j hj
      have hle := (counts_update hc i hj).2
      omega
    refine ⟨?_, fun _ => hmany, fun h => absurd (Option.some_ne_none c.clock) h, fun _ => ?_, ?_⟩
    · intro j n hn
      have hle := (counts_update hc i hn).2
      show n ≤ c.openings + 1
      omega
    · exact iff_of_false Bool.false_ne_true fun ⟨j, hj⟩ => hnone j hj
    · intro _ j _ hj
      exact absurd hj (hnone j)

/-- A call that ends without a failure leaves the count. -/
theorem finish_openings {ending : Ending} (h : ending ≠ .failure) (i : ι) :
    (c.finish cfg i ending).openings = c.openings :=
  if_neg fun hfailure => h hfailure.1

/-- A call that clears the probe keeps the invariant if it was the probe or there is none. -/
theorem Inv.clears (hc : c.Inv cfg) {i : ι} (hprobe : c.IsOpen → ∀ j, c.Recent j → j = i) :
    (c.finish cfg i .cleared).Inv cfg := by
  have hopenings : (c.finish cfg i .cleared).openings = c.openings := finish_openings (by simp) i
  have hnone : c.IsOpen → ∀ j, ¬(c.finish cfg i .cleared).Recent j := by
    intro hopen j hj
    unfold Recent at hj
    rw [hopenings] at hj
    have hrecent := (counts_update hc i hj).1
    rw [hprobe hopen j hrecent] at hj
    have hself : (c.finish cfg i .cleared).calls i = none := Function.update_self _ _ _
    rw [hself] at hj
    cases hj
  refine ⟨?_, hc.failures, fun _ => rfl, fun hopen => ?_, ?_⟩
  · intro j n hn
    rw [hopenings]
    exact (counts_update hc i hn).2
  · exact iff_of_false Bool.false_ne_true fun ⟨j, hj⟩ => hnone hopen j hj
  · intro hopen j _ hj
    exact absurd hj (hnone hopen j)

/-- A call that tells nothing keeps the invariant unless it was the probe. -/
theorem Inv.untold (hc : c.Inv cfg) {i : ι} (hother : c.IsOpen → ¬c.Recent i) :
    (c.finish cfg i .untold).Inv cfg := by
  have hopenings : (c.finish cfg i .untold).openings = c.openings := finish_openings (by simp) i
  have hrecent : c.IsOpen → ∀ j, (c.finish cfg i .untold).Recent j ↔ c.Recent j := by
    intro hopen j
    unfold Recent
    rw [hopenings]
    constructor
    · intro hj
      exact (counts_update hc i hj).1
    · intro hj
      have hji : j ≠ i := by
        rintro rfl
        exact hother hopen hj
      exact (Function.update_of_ne hji _ _).trans hj
  refine ⟨?_, hc.failures, hc.closed, fun hopen => ?_, ?_⟩
  · intro j n hn
    rw [hopenings]
    exact (counts_update hc i hn).2
  · rw [exists_congr (hrecent hopen)]
    exact hc.flag hopen
  · intro hopen j k hj hk
    exact hc.probe hopen j k ((hrecent hopen j).mp hj) ((hrecent hopen k).mp hk)

/-- A call that succeeds closes the circuit. -/
theorem Inv.succeeds (hc : c.Inv cfg) (i : ι) : (c.finish cfg i .success).Inv cfg := by
  have hclosed : ¬(c.finish cfg i .success).IsOpen := fun h => h rfl
  refine ⟨?_, fun h => absurd h hclosed, fun _ => rfl, fun h => absurd h hclosed,
    fun h => absurd h hclosed⟩
  intro j n hn
  rw [finish_openings (by simp)]
  exact (counts_update hc i hn).2

end States

section Steps

variable {ι T : Type} [DecidableEq ι] [LinearOrder T] [Sub T] {cfg : RequestConfig T}
  {c c' : Circuit ι T}

/-- An admitted call keeps the invariant. -/
theorem Inv.admits (hc : c.Inv cfg) {i : ι} {breaker : Breaker T} (hcall : c.calls i = none)
    (hacquire : c.breaker.acquire cfg c.clock = (true, breaker)) :
    Inv cfg { c with breaker, calls := Function.update c.calls i (some c.openings) } := by
  have hcounts : ∀ j n, Function.update c.calls i (some c.openings) j = some n → n ≤ c.openings := by
    intro j n hn
    by_cases hj : j = i
    · subst hj
      rw [Function.update_self] at hn
      cases hn
      exact le_rfl
    · rw [Function.update_of_ne hj] at hn
      exact hc.counts j n hn
  rcases acquire_admits hacquire with ⟨hclosed, rfl⟩ | ⟨opened_at, hopened, -, hprobe, rfl⟩
  · -- The circuit is closed, and stays so.
    have hnot : ¬c.IsOpen := fun h => h hclosed
    exact ⟨hcounts, fun h => absurd h hnot, fun _ => hc.closed hnot, fun h => absurd h hnot,
      fun h => absurd h hnot⟩
  · -- No call that was admitted since is in flight, and the new one is the probe.
    have hopen : c.IsOpen := by
      unfold IsOpen
      rw [hopened]
      exact Option.some_ne_none opened_at
    have honly : ∀ j, Function.update c.calls i (some c.openings) j = some c.openings → j = i := by
      intro j hj
      by_contra hji
      rw [Function.update_of_ne hji] at hj
      have hset := (hc.flag hopen).mpr ⟨j, hj⟩
      rw [hprobe] at hset
      cases hset
    refine ⟨hcounts, fun _ => hc.failures hopen, fun h => absurd hopen h, fun _ => ?_, ?_⟩
    · exact iff_of_true rfl ⟨i, Function.update_self _ _ _⟩
    · intro _ j k hj hk
      exact (honly j hj).trans (honly k hk).symm

/-- An orderly event keeps the invariant. -/
theorem Inv.step (hc : c.Inv cfg) (h : OrderlyStep cfg c c') : c'.Inv cfg := by
  obtain ⟨e, horderly, hexec⟩ := h
  cases exec_effect hexec with
  | ticks clock => exact ⟨hc.counts, hc.failures, hc.closed, hc.flag, hc.probe⟩
  | rejects => exact hc
  | admits i breaker hcall hacquire => exact hc.admits hcall hacquire
  | ends i operation transport sleeper n hcall =>
    have hends : c.IsOpen → _ := horderly
    generalize (attempts cfg operation transport sleeper).2 = ending at hends ⊢
    cases ending with
    | success => exact hc.succeeds i
    | failure => exact hc.fails i
    | cleared =>
      refine hc.clears fun hopen j hj => ?_
      rcases hc.earlier_or_recent hcall with hearlier | hrecent
      · exact absurd hj (((hends hopen).1 hearlier).2 rfl j)
      · exact hc.probe hopen j i hj hrecent
    | untold => exact hc.untold fun hopen hrecent => (hends hopen).2 hrecent rfl

/-- The invariant holds in every circuit that orderly events lead to. -/
theorem Reachable.inv (h : Reachable cfg c) : c.Inv cfg := by
  obtain ⟨clock, hrun⟩ := h
  exact run_invariant (fun _ _ hc hstep => hc.step hstep) (inv_new cfg clock) hrun

end Steps

/-- **One probe at a time, and no wedge.** In every run of orderly events: no call is admitted while the
circuit is open and young; of the calls that were admitted since the circuit last opened, one at most
is in flight while it is open; the circuit is closed only by a call that was admitted since it last
opened; and where no call is in flight, a call is admitted unless the circuit is young. -/
theorem one_probe_at_a_time {ι T : Type} [DecidableEq ι] [LinearOrder T] [Sub T]
    (cfg : RequestConfig T) (c : Circuit ι T) (hc : Reachable cfg c) :
    (∀ e c' i, c.exec cfg e = some c' → c.Admits c' i → ¬c.Young cfg) ∧
    (c.IsOpen → ∀ i j, c.Recent i → c.Recent j → i = j) ∧
    (∀ e c', Orderly cfg c e → c.exec cfg e = some c' → c.IsOpen → ¬c'.IsOpen →
      ∃ i operation transport sleeper, e = .finish i operation transport sleeper ∧ c.Recent i) ∧
    ((∀ i, c.calls i = none) → ¬c.Young cfg → ∀ i, ∃ c', c.exec cfg (.call i) = some c' ∧
      c.Admits c' i) := by
  have hinv := hc.inv
  refine ⟨?_, hinv.probe, ?_, ?_⟩
  · rintro e c' i hexec ⟨hbefore, hafter⟩ ⟨opened_at, hopened, hyoung⟩
    cases exec_effect hexec with
    | ticks => simp [hbefore] at hafter
    | rejects => simp [hbefore] at hafter
    | admits j breaker hcall hacquire =>
      rcases acquire_admits hacquire with ⟨hclosed, -⟩ | ⟨opened_at', hopened', hage, -⟩
      · cases hclosed.symm.trans hopened
      · cases hopened'.symm.trans hopened
        exact hage hyoung
    | ends j operation transport sleeper n hcall =>
      have hnone : (c.finish cfg j (attempts cfg operation transport sleeper).2).calls i = none := by
        by_cases hij : i = j
        · subst hij
          exact Function.update_self _ _ _
        · exact (Function.update_of_ne hij _ _).trans hbefore
      simp [hnone] at hafter
  · intro e c' horderly hexec hopen hclosed
    cases exec_effect hexec with
    | ticks => exact absurd hopen hclosed
    | rejects => exact absurd hopen hclosed
    | admits i breaker hcall hacquire =>
      rcases acquire_admits hacquire with ⟨hnone, -⟩ | ⟨opened_at, hopened, -, -, rfl⟩
      · exact absurd hnone hopen
      · exact absurd hopen hclosed
    | ends i operation transport sleeper n hcall =>
      refine ⟨i, operation, transport, sleeper, rfl, ?_⟩
      rcases hinv.earlier_or_recent hcall with hearlier | hrecent
      · -- Of the endings only a success closes the circuit.
        have hends : c.IsOpen → _ := horderly
        have hother := ((hends hopen).1 hearlier).1
        revert hclosed hother
        generalize (attempts cfg operation transport sleeper).2 = ending
        intro hclosed hother
        cases ending with
        | success => exact absurd rfl hother
        | failure =>
          rcases recordFailure_cases hinv with ⟨hnot, -⟩ | ⟨hbreaker, -⟩
          · exact absurd hopen hnot
          · refine absurd ?_ hclosed
            show (c.breaker.recordFailure cfg c.clock).opened_at ≠ none
            rw [hbreaker]
            exact Option.some_ne_none c.clock
        | cleared => exact absurd hopen hclosed
        | untold => exact absurd hopen hclosed
      · exact hrecent
  · intro hnone hold i
    cases hopened : c.breaker.opened_at with
    | none =>
      have hacquire : c.breaker.acquire cfg c.clock = (true, c.breaker) := by
        simp [Breaker.acquire, hopened]
      refine ⟨{ c with calls := Function.update c.calls i (some c.openings) }, ?_, hnone i, ?_⟩
      · simp [exec, hnone i, hacquire]
      · simp
    | some opened_at =>
      have hopen : c.IsOpen := by
        unfold IsOpen
        rw [hopened]
        exact Option.some_ne_none opened_at
      have hprobe : c.breaker.probe_in_flight = false := by
        by_contra hset
        obtain ⟨j, hj⟩ := (hinv.flag hopen).mp (eq_true_of_ne_false hset)
        cases (hnone j).symm.trans hj
      have hage : ¬c.clock - opened_at < cfg.circuit_reset_seconds :=
        fun hyoung => hold ⟨opened_at, hopened, hyoung⟩
      have hacquire : c.breaker.acquire cfg c.clock =
          (true, { c.breaker with probe_in_flight := true }) := by
        simp [Breaker.acquire, hopened, hage, hprobe]
      refine ⟨{ c with
        breaker := { c.breaker with probe_in_flight := true }
        calls := Function.update c.calls i (some c.openings) }, ?_, hnone i, ?_⟩
      · simp [exec, hnone i, hacquire]
      · simp

/-! ## Runs of a circuit that opens at its first failure -/

/-- Two attempts are not too many. -/
theorem two_attempts : 1 ≤ 2 ∧ 2 ≤ 5 := by decide

/-- Two attempts, and a circuit that opens at the first failure for 15 seconds. -/
def eagerConfig : RequestConfig ℤ where
  max_attempts := 2
  retry_backoff_seconds := 1 / 5
  circuit_failure_threshold := 1
  circuit_reset_seconds := 15
  max_response_bytes := 1000000
  attempts_range := two_attempts
  threshold_range := by decide

/-- A call that ends with a response. -/
def respond (i status_code : ℕ) : Event ℕ ℤ :=
  .finish i "query" (fun _ => .response ⟨status_code, []⟩) fun _ => true

/-- A call whose attempts fail, with a sleeper that raises or does not. -/
def fail (i : ℕ) (sleeper : Bool) : Event ℕ ℤ :=
  .finish i "query" (fun _ => .exception false) fun _ => sleeper

/-- What a run shows: when the circuit opened, how often, and the calls 1, 2 and 3. -/
def shown (c : Circuit ℕ ℤ) : Option ℤ × ℕ × Option ℕ × Option ℕ × Option ℕ :=
  (c.breaker.opened_at, c.openings, c.calls 1, c.calls 2, c.calls 3)

/-- The circuit after the run. -/
def after (es : List (Event ℕ ℤ)) : Option (Circuit ℕ ℤ) :=
  execAll (exec eagerConfig) (new 0) es

/-- The circuit has opened, and lets a probe through. -/
def openedCircuit : Circuit ℕ ℤ := ⟨⟨1, some 0, false⟩, 15, 1, fun _ => none⟩

/-- The opened circuit is reached by a call that fails. -/
theorem openedCircuit_reachable : Reachable eagerConfig openedCircuit := by
  refine ⟨0, .tail (.tail (.single ⟨.call 0, trivial, rfl⟩) ⟨fail 0 true, ?_, rfl⟩)
    ⟨.tick 15, trivial, ?_⟩⟩
  · intro hopen
    exact absurd rfl hopen
  · have hfailed : ((attempts eagerConfig "query" (fun _ => .exception false) fun _ => true).2) =
        .failure := by decide +kernel
    have hcalls : Function.update (Function.update (fun _ : ℕ => (none : Option ℕ)) 0 (some 0)) 0 none =
        fun _ => none := by
      rw [Function.update_idem, Function.update_eq_self]
    simp only [hfailed, exec, finish, new, Breaker.new]
    rw [hcalls]
    rfl

/-- The opened circuit admits a call. -/
theorem openedCircuit_admits : ∃ c', openedCircuit.exec eagerConfig (.call 1) = some c' ∧
    openedCircuit.Admits c' 1 := by
  refine (one_probe_at_a_time eagerConfig openedCircuit openedCircuit_reachable).2.2.2
    (fun _ => rfl) ?_ 1
  rintro ⟨opened_at, hopened, hyoung⟩
  cases hopened
  exact absurd hyoung (by decide)

/-- **Earlier calls disturb the probe.** A call from before the circuit opened closes it by a success;
a call from before it opened that is refused lets a second probe through beside the first; and after
an exception of the sleeper has left the probe, no call is in flight and none is admitted. -/
theorem earlier_calls_disturb :
    (after [.call 0, .call 1, fail 0 true]).map shown = some (some 0, 1, some 0, none, none) ∧
    (after [.call 0, .call 1, fail 0 true, respond 1 200]).map shown =
      some (none, 1, none, none, none) ∧
    (after [.call 0, .call 1, fail 0 true, .tick 15, .call 2, respond 1 404, .call 3]).map shown =
      some (some 0, 1, none, some 1, some 1) ∧
    (after [.call 0, fail 0 true, .tick 15, .call 1, fail 1 false, .tick 1000, .call 2]).map shown =
      some (some 0, 1, none, none, none) := by
  refine ⟨?_, ?_, ?_, ?_⟩ <;> decide +kernel

end Circuit

end RickIntelligence.Qdrant
