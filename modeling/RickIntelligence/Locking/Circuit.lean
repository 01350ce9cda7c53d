import RickIntelligence.Lib.Run
import RickIntelligence.Lib.Trace
import RickIntelligence.Locking.Breaker

/-!
# Interleaved calls of the circuit breaker

The calls of any number of threads interleave (`Circuit.Step`): a call reads the clock, then takes the
lock in `begin_call`, and finishes with one of `record_success`, `record_failure` and `release_call`,
where `record_failure` also reads the clock before it takes the lock. The main result is what holds in
every such run (`Circuit.circuit_protocol`).
-/

namespace RickIntelligence.Locking

open Lib Relation

/-- How far a call has come. A call that is rejected is finished. -/
inductive Phase (T : Type) where
  | beginning (now : T)
  | admitted (generation : ℕ)
  | failing (generation : ℕ) (now : T)
  | finished
  deriving DecidableEq, Repr

/-- The generation of an admitted call that has not finished. -/
def Phase.unfinished? {T : Type} : Phase T → Option ℕ
  | admitted g | failing g _ => some g
  | beginning _ | finished => none

/-- A circuit breaker, the clock, and the calls that have started. -/
structure Circuit (ι T : Type) where
  breaker : RedisCircuitBreaker T
  clock : T
  calls : ι → Option (Phase T)

/-- The steps of the calls: each is a reading of the clock or what happens under the lock. -/
inductive Event (ι T : Type) where
  | tick (clock : T)
  | read (call : ι)
  | beginCall (call : ι)
  | recordSuccess (call : ι)
  | readFailure (call : ι)
  | recordFailure (call : ι)
  | releaseCall (call : ι)

namespace Circuit

section System

variable {ι T : Type} [DecidableEq ι] [LinearOrder T] [Zero T] [Add T]

/-- A circuit without calls. -/
def new (clock : T) : Circuit ι T := ⟨.new, clock, fun _ => none⟩

/-- The circuit with a call at another phase. -/
def put (c : Circuit ι T) (i : ι) (phase : Phase T) (breaker : RedisCircuitBreaker T) : Circuit ι T :=
  { c with breaker, calls := Function.update c.calls i (some phase) }

/-- The circuit after an event that may happen in it. -/
def exec (cfg : CircuitConfig T) (c : Circuit ι T) : Event ι T → Option (Circuit ι T)
  | .tick clock => if c.clock ≤ clock then some { c with clock } else none
  | .read i =>
    match c.calls i with
    | none => some (c.put i (.beginning c.clock) c.breaker)
    | some _ => none
  | .beginCall i =>
    match c.calls i with
    | some (.beginning now) =>
      match c.breaker.beginCall now with
      | (some g, breaker) => some (c.put i (.admitted g) breaker)
      | (none, breaker) => some (c.put i .finished breaker)
    | _ => none
  | .recordSuccess i =>
    match c.calls i with
    | some (.admitted g) => some (c.put i .finished (c.breaker.recordSuccess (some g)))
    | _ => none
  | .readFailure i =>
    match c.calls i with
    | some (.admitted g) => some (c.put i (.failing g c.clock) c.breaker)
    | _ => none
  | .recordFailure i =>
    match c.calls i with
    | some (.failing g now) =>
      some (c.put i .finished (c.breaker.recordFailure cfg now (some g)))
    | _ => none
  | .releaseCall i =>
    match c.calls i with
    | some (.admitted g) => some (c.put i .finished (c.breaker.releaseCall g))
    | _ => none

/-- One event of an interleaving. -/
def Step (cfg : CircuitConfig T) (c c' : Circuit ι T) : Prop := ∃ e, c.exec cfg e = some c'

/-- The circuits that events lead to. -/
def Reachable (cfg : CircuitConfig T) (c : Circuit ι T) : Prop :=
  ∃ clock, ReflTransGen (Step cfg) (new clock) c

/-- The generation of a call that is admitted and has not finished. -/
def unfinished? (c : Circuit ι T) (i : ι) : Option ℕ := (c.calls i).bind Phase.unfinished?

/-- The call is let through between the two. -/
def Admits (c c' : Circuit ι T) (i : ι) : Prop :=
  c.unfinished? i = none ∧ (c'.unfinished? i).isSome = true

/-- The admitted call finishes between the two. -/
def Finishes (c c' : Circuit ι T) (i : ι) : Prop :=
  (c.unfinished? i).isSome = true ∧ c'.unfinished? i = none

/-- The circuit opens or closes between the two. -/
def Turns (c c' : Circuit ι T) : Prop :=
  c'.breaker.state ≠ c.breaker.state ∧ c'.breaker.state ≠ .halfOpen

/-- One event that leaves the circuit half open. -/
def ProbingStep (cfg : CircuitConfig T) (c c' : Circuit ι T) : Prop :=
  Step cfg c c' ∧ c'.breaker.state = .halfOpen

end System

/-! ## What an event does -/

section Steps

variable {ι T : Type} [DecidableEq ι]

/-- A call at another phase leaves the other calls. -/
theorem unfinished_put (c : Circuit ι T) (i : ι) (phase : Phase T) (b : RedisCircuitBreaker T) :
    (c.put i phase b).unfinished? = Function.update c.unfinished? i phase.unfinished? := by
  funext j
  unfold unfinished? put
  by_cases hj : j = i
  · subst hj
    simp
  · simp [hj]

variable [LinearOrder T] {c c' : Circuit ι T}

/-- What an event does: it leaves the breaker and the unfinished calls, it admits a call, or a call
finishes. -/
inductive Effect (c : Circuit ι T) : Circuit ι T → Prop
  | waits {c' : Circuit ι T} (hbreaker : c'.breaker = c.breaker)
      (hunfinished : c'.unfinished? = c.unfinished?)
      (hfinished : ∀ i, c.calls i = some .finished → c'.calls i = some .finished)
      (hclock : c.clock ≤ c'.clock)
      (hread : ∀ i now, c'.calls i = some (.beginning now) →
        c.calls i = some (.beginning now) ∨ now = c.clock) : Effect c c'
  | admits {i : ι} {now : T} {g : ℕ} {b : RedisCircuitBreaker T}
      (hcall : c.calls i = some (.beginning now)) (hbegin : c.breaker.beginCall now = (some g, b)) :
      Effect c (c.put i (.admitted g) b)
  | ends {i : ι} {g : ℕ} {b : RedisCircuitBreaker T} (hcall : c.unfinished? i = some g)
      (hfinish : c.breaker.Finish g b) : Effect c (c.put i .finished b)

variable {i : ι} {phase : Phase T} {b : RedisCircuitBreaker T} {g : ℕ}

/-- A step of a call that changes neither the breaker nor whether the call is unfinished. -/
theorem Effect.put (hold : c.calls i ≠ some .finished) (hphase : phase.unfinished? = c.unfinished? i)
    (hread : ∀ now, phase = .beginning now → now = c.clock) :
    Effect c (c.put i phase c.breaker) := by
  refine .waits rfl ?_ ?_ le_rfl ?_
  · rw [unfinished_put, hphase, Function.update_eq_self]
  · intro j hj
    have hji : j ≠ i := by
      rintro rfl
      exact hold hj
    simpa [Circuit.put, hji] using hj
  · intro j now hj
    by_cases hji : j = i
    · subst hji
      have hphase : phase = .beginning now := by simpa [Circuit.put] using hj
      exact .inr (hread now hphase)
    · exact .inl (by simpa [Circuit.put, hji] using hj)

/-! ## What holds in every circuit -/

/-- Unfinished calls are of the current generation or an earlier one; while the circuit is open all of
them are of earlier ones, and while it is half open only the probe is not. -/
structure Inv (c : Circuit ι T) : Prop where
  clocks : ∀ i now, c.calls i = some (.beginning now) → now ≤ c.clock
  generations : ∀ i g, c.unfinished? i = some g → g ≤ c.breaker.generation
  opened : c.breaker.state = .opened → c.breaker.probe_in_flight = false ∧
    ∀ i, c.unfinished? i ≠ some c.breaker.generation
  probe : c.breaker.state = .halfOpen → ∀ i, c.unfinished? i = some c.breaker.generation →
    c.breaker.probe_in_flight = true ∧ ∀ j, c.unfinished? j = some c.breaker.generation → j = i
  in_flight : c.breaker.state = .halfOpen → c.breaker.probe_in_flight = true →
    ∃ i, c.unfinished? i = some c.breaker.generation

/-- A call of the clock's reading, at another phase than the first, keeps the readings. -/
theorem Inv.clocks_put (hc : c.Inv) (hphase : ∀ now, phase ≠ .beginning now) (j : ι) (now : T)
    (hj : (c.put i phase b).calls j = some (.beginning now)) : now ≤ c.clock := by
  by_cases hji : j = i
  · subst hji
    have hbeginning : phase = .beginning now := by simpa [put] using hj
    exact absurd hbeginning (hphase now)
  · exact hc.clocks j now (by simpa [put, hji] using hj)

/-- An admitted call keeps the invariant. -/
theorem Inv.admits (hc : c.Inv) {now : T} (hcall : c.calls i = some (.beginning now))
    (hbegin : c.breaker.beginCall now = (some g, b)) :
    (c.put i (.admitted g) b).Inv := by
  have hnew : c.unfinished? i = none := by simp [unfinished?, hcall, Phase.unfinished?]
  obtain ⟨rfl, hcases⟩ := RedisCircuitBreaker.beginCall_admits hbegin
  have hgeneration : b.generation = c.breaker.generation := by
    rcases hcases with ⟨-, rfl⟩ | ⟨-, -, rfl⟩ <;> rfl
  have hunfinished : ∀ j h, (c.put i (.admitted c.breaker.generation) b).unfinished? j = some h →
      j = i ∧ h = c.breaker.generation ∨ c.unfinished? j = some h := by
    intro j h hj
    rw [unfinished_put] at hj
    by_cases hji : j = i
    · subst hji
      exact .inl ⟨rfl, by simpa [Phase.unfinished?, eq_comm] using hj⟩
    · exact .inr (by simpa [hji] using hj)
  have hopened : b.state ≠ .opened := by
    rcases hcases with ⟨hstate, rfl⟩ | ⟨-, -, rfl⟩
    · simp [hstate]
    · simp
  refine ⟨hc.clocks_put (by simp), ?_, fun hstate => absurd hstate hopened, ?_, ?_⟩
  · intro j h hj
    show h ≤ b.generation
    rw [hgeneration]
    rcases hunfinished j h hj with ⟨-, rfl⟩ | hold
    · exact le_rfl
    · exact hc.generations j h hold
  · intro hstate j hj
    have hb : b.state = .halfOpen := hstate
    rcases hcases with ⟨hclosed, rfl⟩ | ⟨hbefore, hfree, rfl⟩
    · rw [hclosed] at hb
      cases hb
    · -- No call of this generation was unfinished, so the new one is the only one.
      have hnone : ∀ j, c.unfinished? j ≠ some c.breaker.generation := by
        intro j hj
        rcases hbefore with ⟨hopen, -⟩ | hhalf
        · exact (hc.opened hopen).2 j hj
        · have hprobe := (hc.probe hhalf j hj).1
          rw [hfree] at hprobe
          cases hprobe
      have honly : ∀ j, (c.put i (.admitted c.breaker.generation)
          { c.breaker with state := .halfOpen, probe_in_flight := true }).unfinished? j =
            some c.breaker.generation → j = i := by
        intro j hj
        rcases hunfinished j _ hj with ⟨hji, -⟩ | hold
        · exact hji
        · exact absurd hold (hnone j)
      exact ⟨rfl, fun k hk => (honly k hk).trans (honly j hj).symm⟩
  · intro _ _
    refine ⟨i, ?_⟩
    show _ = some b.generation
    rw [unfinished_put, hgeneration]
    simp [Phase.unfinished?]

/-- A finished call keeps the invariant. -/
theorem Inv.ends (hc : c.Inv) (hcall : c.unfinished? i = some g) (hfinish : c.breaker.Finish g b) :
    (c.put i .finished b).Inv := by
  have hunfinished : ∀ j h, (c.put i .finished b).unfinished? j = some h →
      j ≠ i ∧ c.unfinished? j = some h := by
    intro j h hj
    rw [unfinished_put] at hj
    by_cases hji : j = i
    · subst hji
      simp [Phase.unfinished?] at hj
    · exact ⟨hji, by simpa [hji] using hj⟩
  have hkept : ∀ j h, j ≠ i → c.unfinished? j = some h →
      (c.put i .finished b).unfinished? j = some h := by
    intro j h hji hj
    rw [unfinished_put]
    simpa [hji] using hj
  refine ⟨hc.clocks_put (by simp), ?_, ?_, ?_, ?_⟩
  · intro j h hj
    exact le_trans (hc.generations j h (hunfinished j h hj).2) hfinish.generation_le.1
  · intro hstate
    have hb : b.state = .opened := hstate
    cases hfinish with
    | nothing =>
      exact ⟨(hc.opened hb).1, fun j hj => (hc.opened hb).2 j (hunfinished j _ hj).2⟩
    | frees _ hhalf =>
      have hb : c.breaker.state = .opened := hb
      rw [hhalf] at hb
      cases hb
    | counts => exact ⟨rfl, fun j hj => (hc.opened hb).2 j (hunfinished j _ hj).2⟩
    | turns _ _ hprobe hnext =>
      refine ⟨hprobe, fun j hj => ?_⟩
      have hle := hc.generations j _ (hunfinished j _ hj).2
      have hb : (c.put i .finished b).breaker.generation = c.breaker.generation + 1 := hnext
      omega
  · intro hstate j hj
    have hb : b.state = .halfOpen := hstate
    obtain ⟨hji, hold⟩ := hunfinished j _ hj
    cases hfinish with
    | nothing =>
      exact ⟨(hc.probe hb j hold).1, fun k hk => (hc.probe hb j hold).2 k (hunfinished k _ hk).2⟩
    | frees hgeneration hhalf =>
      -- The probe itself has finished, and there is no other.
      exact absurd ((hc.probe hhalf j hold).2 i (hgeneration ▸ hcall)).symm hji
    | counts _ hhalf => exact absurd hb hhalf
    | turns _ hhalf => exact absurd hb hhalf
  · intro hstate hprobe
    have hb : b.state = .halfOpen := hstate
    cases hfinish with
    | nothing hother =>
      obtain ⟨j, hj⟩ := hc.in_flight hb hprobe
      have hji : j ≠ i := by
        rintro rfl
        exact hother (Option.some.inj (hcall.symm.trans hj)) hb
      exact ⟨j, hkept j _ hji hj⟩
    | frees => cases hprobe
    | counts _ hhalf => exact absurd hb hhalf
    | turns _ hhalf => exact absurd hb hhalf

/-! ## Runs -/

section Runs

variable [Zero T] [Add T] {cfg : CircuitConfig T}

/-- Every event has one of the effects. -/
theorem exec_effect {e : Event ι T} (h : c.exec cfg e = some c') : Effect c c' := by
  cases e with
  | tick clock =>
    simp only [exec, Option.ite_none_right_eq_some, Option.some.injEq] at h
    obtain ⟨hclock, rfl⟩ := h
    exact .waits rfl rfl (fun _ hi => hi) hclock fun _ _ hi => .inl hi
  | read i =>
    cases hcall : c.calls i with
    | some phase => simp [exec, hcall] at h
    | none =>
      simp only [exec, hcall, Option.some.injEq] at h
      subst h
      refine .put (by simp [hcall]) (by simp [unfinished?, hcall, Phase.unfinished?]) ?_
      rintro now ⟨⟩
      rfl
  | beginCall i =>
    rcases hcall : c.calls i with _ | ⟨now⟩ | _ | _ | _
    case some.beginning =>
      rcases hbegin : c.breaker.beginCall now with ⟨_ | g, b⟩
      · simp only [exec, hcall, hbegin, Option.some.injEq] at h
        rw [RedisCircuitBreaker.beginCall_rejects hbegin] at h
        subst h
        exact .put (by simp [hcall]) (by simp [unfinished?, hcall, Phase.unfinished?]) (by simp)
      · simp only [exec, hcall, hbegin, Option.some.injEq] at h
        subst h
        exact .admits hcall hbegin
    all_goals simp [exec, hcall] at h
  | readFailure i =>
    rcases hcall : c.calls i with _ | _ | g | _ | _
    case some.admitted =>
      simp only [exec, hcall, Option.some.injEq] at h
      subst h
      exact .put (by simp [hcall]) (by simp [unfinished?, hcall, Phase.unfinished?]) (by simp)
    all_goals simp [exec, hcall] at h
  | recordSuccess i =>
    rcases hcall : c.calls i with _ | _ | g | _ | _
    case some.admitted =>
      simp only [exec, hcall, Option.some.injEq] at h
      subst h
      exact .ends (by simp [unfinished?, hcall, Phase.unfinished?])
        (RedisCircuitBreaker.recordSuccess_finish _ _)
    all_goals simp [exec, hcall] at h
  | recordFailure i =>
    rcases hcall : c.calls i with _ | _ | _ | ⟨g, now⟩ | _
    case some.failing =>
      simp only [exec, hcall, Option.some.injEq] at h
      subst h
      exact .ends (by simp [unfinished?, hcall, Phase.unfinished?])
        (RedisCircuitBreaker.recordFailure_finish _ _ _ _)
    all_goals simp [exec, hcall] at h
  | releaseCall i =>
    rcases hcall : c.calls i with _ | _ | g | _ | _
    case some.admitted =>
      simp only [exec, hcall, Option.some.injEq] at h
      subst h
      exact .ends (by simp [unfinished?, hcall, Phase.unfinished?])
        (RedisCircuitBreaker.releaseCall_finish _ _)
    all_goals simp [exec, hcall] at h

/-- An event keeps the invariant. -/
theorem Step.inv (h : Step cfg c c') (hc : c.Inv) : c'.Inv := by
  obtain ⟨e, he⟩ := h
  cases exec_effect he with
  | waits hbreaker hunfinished _ hclock hread =>
    refine ⟨?_, ?_, ?_, ?_, ?_⟩
    · intro i now hi
      rcases hread i now hi with hold | rfl
      · exact le_trans (hc.clocks i now hold) hclock
      · exact hclock
    all_goals rw [hbreaker, hunfinished]
    · exact hc.generations
    · exact hc.opened
    · exact hc.probe
    · exact hc.in_flight
  | admits hcall hbegin => exact hc.admits hcall hbegin
  | ends hcall hfinish => exact hc.ends hcall hfinish

/-- The invariant holds in every circuit that events lead to. -/
theorem Reachable.inv (h : Reachable cfg c) : c.Inv := by
  obtain ⟨clock, hrun⟩ := h
  refine run_invariant (fun a b ha hab => hab.inv ha) ?_ hrun
  refine ⟨fun i now h => ?_, fun i g h => ?_, fun h => ?_, fun h => ?_, fun h => ?_⟩
  · cases h
  · cases h
  all_goals cases h

/-- Generations only grow, by one when the circuit opens or closes, and stay while it is half open. -/
theorem Step.generation (h : Step cfg c c') :
    c.breaker.generation ≤ c'.breaker.generation ∧
    (Turns c c' → c.breaker.generation < c'.breaker.generation) ∧
    (c'.breaker.state = .halfOpen → c'.breaker.generation = c.breaker.generation) := by
  obtain ⟨e, he⟩ := h
  cases exec_effect he with
  | waits hbreaker =>
    rw [Turns, hbreaker]
    exact ⟨le_rfl, fun hturns => absurd rfl hturns.1, fun _ => rfl⟩
  | @admits i now g b _ hbegin =>
    obtain ⟨-, ⟨-, rfl⟩ | ⟨-, -, rfl⟩⟩ := RedisCircuitBreaker.beginCall_admits hbegin
    · exact ⟨le_rfl, fun hturns => absurd rfl hturns.1, fun _ => rfl⟩
    · exact ⟨le_rfl, fun hturns => absurd rfl hturns.2, fun _ => rfl⟩
  | @ends i g b _ hfinish =>
    obtain ⟨hle, hchange⟩ := hfinish.generation_le
    refine ⟨hle, fun hturns => ?_, fun hstate => ?_⟩
    · have hnext := (hchange (.inl hturns.1)).2.2
      show c.breaker.generation < b.generation
      omega
    · by_contra hne
      exact (hchange (.inr hne)).2.1 hstate

/-- An unfinished call keeps its generation until it finishes, and a finished call stays so. -/
theorem Step.call (h : Step cfg c c') {i : ι} {g : ℕ}
    (hi : c.unfinished? i = some g ∨ c.calls i = some .finished) :
    c'.unfinished? i = some g ∨ c'.calls i = some .finished := by
  obtain ⟨e, he⟩ := h
  cases exec_effect he with
  | waits _ hunfinished hfinished =>
    rw [hunfinished]
    exact hi.imp id (hfinished i)
  | @admits j now h b hcall _ =>
    have hij : i ≠ j := by
      rintro rfl
      rcases hi with hi | hi
      · simp [unfinished?, hcall, Phase.unfinished?] at hi
      · simp [hcall] at hi
    simpa [unfinished?, put, hij] using hi
  | @ends j h b _ _ =>
    by_cases hij : i = j
    · subst hij
      right
      simp [put]
    · simpa [unfinished?, put, hij] using hi

/-- A call that a step lets through has the current generation. -/
theorem Step.admitted (h : Step cfg c c') {i : ι} {g : ℕ} (hold : c.unfinished? i = none)
    (hnew : c'.unfinished? i = some g) :
    g = c.breaker.generation ∧ ∃ now, c.calls i = some (.beginning now) ∧
      (c.breaker.state = .opened → ¬ now < c.breaker.opened_until) := by
  obtain ⟨e, he⟩ := h
  cases exec_effect he with
  | waits _ hunfinished =>
    rw [hunfinished, hold] at hnew
    cases hnew
  | @admits j now h b hcall hbegin =>
    obtain ⟨rfl, hcases⟩ := RedisCircuitBreaker.beginCall_admits hbegin
    rw [unfinished_put] at hnew
    by_cases hij : i = j
    · subst hij
      refine ⟨by simpa [Phase.unfinished?, eq_comm] using hnew, now, hcall, fun hopen => ?_⟩
      rcases hcases with ⟨hclosed, -⟩ | ⟨⟨-, hlate⟩ | hhalf, -⟩
      · rw [hopen] at hclosed
        cases hclosed
      · exact hlate
      · rw [hopen] at hhalf
        cases hhalf
    · rw [Function.update_of_ne hij, hold] at hnew
      cases hnew
  | @ends j h b _ _ =>
    rw [unfinished_put] at hnew
    by_cases hij : i = j
    · subst hij
      simp [Phase.unfinished?] at hnew
    · rw [Function.update_of_ne hij, hold] at hnew
      cases hnew

/-- A call of an earlier generation finishes without a change of the breaker. -/
theorem Step.stale (h : Step cfg c c') {i : ι} {g : ℕ} (hi : c.unfinished? i = some g)
    (hi' : c'.unfinished? i = none) (hg : g ≠ c.breaker.generation) :
    c'.breaker = c.breaker := by
  obtain ⟨e, he⟩ := h
  cases exec_effect he with
  | waits hbreaker => exact hbreaker
  | @admits j now h b hcall _ =>
    rw [unfinished_put] at hi'
    by_cases hij : i = j
    · subst hij
      simp [Phase.unfinished?] at hi'
    · rw [Function.update_of_ne hij, hi] at hi'
      cases hi'
  | @ends j h b hcall hfinish =>
    by_cases hij : i = j
    · subst hij
      cases hi.symm.trans hcall
      exact hfinish.stale hg
    · rw [unfinished_put, Function.update_of_ne hij, hi] at hi'
      cases hi'

/-- While the circuit stays half open, its generation stays, and a call that was not there before has
that generation. -/
theorem probing_run {a d : Circuit ι T} (h : ReflTransGen (ProbingStep cfg) c d)
    (hstart : ∀ i g, a.unfinished? i = none → c.unfinished? i = some g → g = c.breaker.generation) :
    d.breaker.generation = c.breaker.generation ∧
    ∀ i g, a.unfinished? i = none → d.unfinished? i = some g → g = d.breaker.generation := by
  induction h with
  | refl => exact ⟨rfl, hstart⟩
  | @tail b d _ hstep ih =>
    obtain ⟨hgeneration, hcalls⟩ := ih
    have hsame := hstep.1.generation.2.2 hstep.2
    refine ⟨hsame.trans hgeneration, fun i g hi hg => ?_⟩
    rw [hsame]
    cases hb : b.unfinished? i with
    | none => exact (hstep.1.admitted hb hg).1
    | some g' =>
      rcases hstep.1.call (.inl hb) with hg' | hfinished
      · cases hg.symm.trans hg'
        exact hcalls i g hi hb
      · simp [unfinished?, hfinished, Phase.unfinished?] at hg

/-- **The protocol of the circuit breaker.** In every circuit that the interleaved calls lead to: no
call is admitted while the circuit is open and the clock is before `opened_until`; from when the circuit
becomes half open until it is not, at most one of the calls admitted since is unfinished; a call
that was admitted before the circuit opened or closed changes nothing when it finishes; and if no
admitted call is unfinished, `begin_call` admits a call at every late enough clock. -/
theorem circuit_protocol (cfg : CircuitConfig T) (c : Circuit ι T) (hc : Reachable cfg c) :
    (∀ c' i, Step cfg c c' → c.breaker.state = .opened → c.clock < c.breaker.opened_until →
      ¬ Admits c c' i) ∧
    (∀ c' d i j, Step cfg c c' → c.breaker.state ≠ .halfOpen → c'.breaker.state = .halfOpen →
      ReflTransGen (ProbingStep cfg) c' d → Admits c d i → Admits c d j → i = j) ∧
    (∀ c' d d' i, (c.unfinished? i).isSome = true → Step cfg c c' → Turns c c' →
      ReflTransGen (Step cfg) c' d → Step cfg d d' → Finishes d d' i → d'.breaker = d.breaker) ∧
    ((∀ i, c.unfinished? i = none) →
      ∃ late, ∀ now, late ≤ now → (c.breaker.beginCall now).1.isSome = true) := by
  have hinv := hc.inv
  refine ⟨?_, ?_, ?_, ?_⟩
  · intro c' i hstep hopen hearly hadmits
    obtain ⟨g, hg⟩ := Option.isSome_iff_exists.mp hadmits.2
    obtain ⟨-, now, hcall, hlate⟩ := hstep.admitted hadmits.1 hg
    exact hlate hopen (lt_of_le_of_lt (hinv.clocks i now hcall) hearly)
  · intro c' d i j hstep _ hhalf hrun hi hj
    have hstart : ∀ i g, c.unfinished? i = none → c'.unfinished? i = some g →
        g = c'.breaker.generation := by
      intro i g hold hnew
      rw [hstep.generation.2.2 hhalf]
      exact (hstep.admitted hold hnew).1
    obtain ⟨-, hcalls⟩ := probing_run hrun hstart
    have hprobing : d.breaker.state = .halfOpen := by
      rcases hrun.cases_tail with rfl | ⟨b, -, hlast⟩
      · exact hhalf
      · exact hlast.2
    have hd : d.Inv := by
      refine run_invariant (fun a b ha hab => hab.1.inv ha) (hstep.inv hinv) hrun
    obtain ⟨g, hg⟩ := Option.isSome_iff_exists.mp hi.2
    obtain ⟨h, hh⟩ := Option.isSome_iff_exists.mp hj.2
    have hgi := hcalls i g hi.1 hg
    have hgj := hcalls j h hj.1 hh
    subst hgi hgj
    exact (hd.probe hprobing j hh).2 i hg
  · intro c' d d' i hi hstep hturns hrun hlast hfinishes
    obtain ⟨g, hg⟩ := Option.isSome_iff_exists.mp hi
    have hle := hinv.generations i g hg
    have hlt := hstep.generation.2.1 hturns
    -- The call keeps its generation until it finishes, and the breaker has left it.
    have hcall : d.unfinished? i = some g ∨ d.calls i = some .finished :=
      run_invariant (I := fun b : Circuit ι T => b.unfinished? i = some g ∨ b.calls i = some .finished)
        (fun a b ha hab => hab.call ha) (hstep.call (.inl hg)) hrun
    have hgrown : c'.breaker.generation ≤ d.breaker.generation :=
      run_invariant (I := fun b : Circuit ι T => c'.breaker.generation ≤ b.breaker.generation)
        (fun a b ha hab => le_trans ha hab.generation.1) le_rfl hrun
    rcases hcall with hcall | hfinished
    · exact hlast.stale hcall hfinishes.2 (by omega)
    · have hnone := hfinishes.1
      simp [unfinished?, hfinished, Phase.unfinished?] at hnone
  · intro hnone
    refine ⟨c.breaker.opened_until, fun now hlate => ?_⟩
    unfold RedisCircuitBreaker.beginCall
    cases hstate : c.breaker.state with
    | closed => rfl
    | opened =>
      have hfree := (hinv.opened hstate).1
      simp [hfree, not_lt.mpr hlate]
    | halfOpen =>
      have hfree : c.breaker.probe_in_flight = false := by
        by_contra hprobe
        obtain ⟨i, hi⟩ := hinv.in_flight hstate (eq_true_of_ne_false hprobe)
        rw [hnone i] at hi
        cases hi
      simp [hfree]

end Runs

end Steps

/-! ## A late call beside the probe -/

/-- A breaker that opens at the first failure, for ten seconds. -/
def plainConfig : CircuitConfig ℚ := ⟨1, 10, by decide⟩

/-- Two calls are admitted, and the first of them fails. -/
def failingCalls : List (Event ℕ ℚ) :=
  [.read 0, .beginCall 0, .read 1, .beginCall 1, .readFailure 0, .recordFailure 0]

/-- The circuit that the failed call opens. -/
def openCircuit : Circuit ℕ ℚ := (execAll (exec plainConfig) (new 0) failingCalls).getD (new 0)

/-- After ten seconds a third call is admitted, while the second has not finished. -/
def probedCircuit : Circuit ℕ ℚ :=
  (execAll (exec plainConfig) openCircuit [.tick 10, .read 2, .beginCall 2]).getD openCircuit

/-- A list of events that may happen leads to its circuit. -/
theorem execAll_getD {c d : Circuit ℕ ℚ} {es : List (Event ℕ ℚ)}
    (h : (execAll (exec plainConfig) c es).isSome = true) :
    ReflTransGen (Step plainConfig) c ((execAll (exec plainConfig) c es).getD d) := by
  obtain ⟨c', hc'⟩ := Option.isSome_iff_exists.mp h
  rw [hc']
  exact execAll_run hc'

/-- The calls lead to the open circuit. -/
theorem openCircuit_reachable : Reachable plainConfig openCircuit :=
  ⟨0, execAll_getD (by decide +kernel)⟩

/-- A third call has read the clock too early. -/
def earlyCircuit : Circuit ℕ ℚ := openCircuit.put 2 (.beginning 0) openCircuit.breaker

/-- The early call is not admitted. -/
theorem earlyCircuit_rejects :
    ¬ Admits earlyCircuit (earlyCircuit.put 2 .finished earlyCircuit.breaker) 2 := by
  have hreachable : Reachable plainConfig earlyCircuit := by
    obtain ⟨clock, hrun⟩ := openCircuit_reachable
    exact ⟨clock, hrun.tail ⟨.read 2, rfl⟩⟩
  have hcall : earlyCircuit.calls 2 = some (.beginning 0) := rfl
  have hbegin : earlyCircuit.breaker.beginCall 0 = (none, earlyCircuit.breaker) := by
    decide +kernel
  have hstep : Step plainConfig earlyCircuit
      (earlyCircuit.put 2 .finished earlyCircuit.breaker) :=
    ⟨.beginCall 2, by simp only [exec, hcall, hbegin]⟩
  exact (circuit_protocol plainConfig earlyCircuit hreachable).1 _ 2 hstep (by decide +kernel)
    (by decide +kernel)

/-- A call that was admitted while the circuit was closed may be unfinished beside the probe. -/
theorem closed_call_beside_probe :
    ¬ ∀ c : Circuit ℕ ℚ, Reachable plainConfig c → c.breaker.state = .halfOpen →
      ∀ i j, (c.unfinished? i).isSome = true → (c.unfinished? j).isSome = true → i = j := by
  intro h
  have hreachable : Reachable plainConfig probedCircuit := by
    obtain ⟨clock, hrun⟩ := openCircuit_reachable
    exact ⟨clock, hrun.trans (execAll_getD (by decide +kernel))⟩
  have hcalls : (1 : ℕ) = 2 := h probedCircuit hreachable (by decide +kernel) 1 2
    (by decide +kernel) (by decide +kernel)
  omega

end Circuit

end RickIntelligence.Locking
