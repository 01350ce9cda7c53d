import Mathlib

/-!
# The circuit breaker

`RedisCircuitBreaker` lets calls through until enough of them fail, rejects calls while it cools down,
and then lets one probe through to find out whether the server is back. The result of a call counts
only if the circuit has not opened or closed since the call was admitted, which the generation tells.
What a call may do to the breaker when it finishes is `RedisCircuitBreaker.Finish`.

Time is any linear order with an addition, so that nothing rests on how floating-point numbers round.
-/

namespace RickIntelligence.Locking

/-- `RedisCircuitState`. -/
inductive CircuitState where
  | closed
  | opened
  | halfOpen
  deriving DecidableEq, Repr

/-- The arguments of `RedisCircuitBreaker`. -/
structure CircuitConfig (T : Type) where
  failure_threshold : ℕ
  cooldown_seconds : T
  threshold_range : 1 ≤ failure_threshold ∧ failure_threshold ≤ 32

/-- The fields of `RedisCircuitBreaker` that its methods write. -/
structure RedisCircuitBreaker (T : Type) where
  state : CircuitState
  failures : ℕ
  opened_until : T
  probe_in_flight : Bool
  generation : ℕ
  deriving DecidableEq, Repr

namespace RedisCircuitBreaker

section Methods

variable {T : Type}

/-- A new circuit breaker. -/
def new [Zero T] : RedisCircuitBreaker T := ⟨.closed, 0, 0, false, 0⟩

/-- `begin_call`, with the reading of the clock: the generation of an admitted call. -/
def beginCall [LT T] [DecidableLT T] (now : T) (b : RedisCircuitBreaker T) :
    Option ℕ × RedisCircuitBreaker T :=
  match b.state with
  | .opened =>
    if now < b.opened_until || b.probe_in_flight then (none, b)
    else (some b.generation, { b with state := .halfOpen, probe_in_flight := true })
  | .halfOpen =>
    if b.probe_in_flight then (none, b)
    else (some b.generation, { b with probe_in_flight := true })
  | .closed => (some b.generation, b)

/-- The generation of a result is missing or the current one. -/
def current (generation : Option ℕ) (b : RedisCircuitBreaker T) : Bool :=
  generation.all (· == b.generation)

/-- `record_success`. -/
def recordSuccess [Zero T] (generation : Option ℕ) (b : RedisCircuitBreaker T) :
    RedisCircuitBreaker T :=
  if b.current generation then ⟨.closed, 0, 0, false, b.generation + 1⟩ else b

/-- `record_failure`, with the reading of the clock. -/
def recordFailure [Add T] (cfg : CircuitConfig T) (now : T) (generation : Option ℕ)
    (b : RedisCircuitBreaker T) : RedisCircuitBreaker T :=
  if b.current generation then
    if b.state = .halfOpen then
      { b with
        state := .opened, opened_until := now + cfg.cooldown_seconds, probe_in_flight := false,
        generation := b.generation + 1 }
    else if cfg.failure_threshold ≤ b.failures + 1 then
      { b with
        state := .opened, failures := b.failures + 1, opened_until := now + cfg.cooldown_seconds,
        probe_in_flight := false, generation := b.generation + 1 }
    else { b with failures := b.failures + 1, probe_in_flight := false }
  else b

/-- `release_call`. -/
def releaseCall (generation : ℕ) (b : RedisCircuitBreaker T) : RedisCircuitBreaker T :=
  if generation = b.generation ∧ b.state = .halfOpen then { b with probe_in_flight := false } else b

end Methods

/-! ## What the methods do -/

section Specs

variable {T : Type} {b b' : RedisCircuitBreaker T} {g : ℕ}

/-- A given generation is current if it is the breaker's. -/
@[simp] theorem current_some : b.current (some g) = true ↔ g = b.generation := by
  simp [current]

/-- What `begin_call` does if it admits the call. -/
theorem beginCall_admits [LT T] [DecidableLT T] {now : T} (h : b.beginCall now = (some g, b')) :
    g = b.generation ∧
    (b.state = .closed ∧ b' = b ∨
      (b.state = .opened ∧ ¬ now < b.opened_until ∨ b.state = .halfOpen) ∧
        b.probe_in_flight = false ∧ b' = { b with state := .halfOpen, probe_in_flight := true }) := by
  unfold beginCall at h
  split at h
  · next hstate =>
    split at h
    · simp at h
    · next hfree =>
      simp only [Bool.or_eq_true, decide_eq_true_eq, not_or, Bool.not_eq_true] at hfree
      cases h
      exact ⟨rfl, .inr ⟨.inl ⟨hstate, hfree.1⟩, hfree.2, rfl⟩⟩
  · next hstate =>
    split at h
    · simp at h
    · next hfree =>
      cases h
      exact ⟨rfl, .inr ⟨.inr hstate, by simpa using hfree, by rw [← hstate]⟩⟩
  · next hstate =>
    cases h
    exact ⟨rfl, .inl ⟨hstate, rfl⟩⟩

/-- `begin_call` changes nothing if it rejects the call. -/
theorem beginCall_rejects [LT T] [DecidableLT T] {now : T} (h : b.beginCall now = (none, b')) :
    b' = b := by
  unfold beginCall at h
  split at h
  · split at h
    · cases h
      rfl
    · simp at h
  · split at h
    · cases h
      rfl
    · simp at h
  · simp at h

/-- How a call finishes changes the breaker: not at all, or, in its own generation, it frees the
probe, counts a failure, or turns the circuit and begins a generation. -/
inductive Finish (b : RedisCircuitBreaker T) (g : ℕ) : RedisCircuitBreaker T → Prop
  | nothing (hother : g = b.generation → b.state ≠ .halfOpen) : Finish b g b
  | frees (hgeneration : g = b.generation) (hstate : b.state = .halfOpen) :
      Finish b g { b with probe_in_flight := false }
  | counts (hgeneration : g = b.generation) (hstate : b.state ≠ .halfOpen) :
      Finish b g { b with failures := b.failures + 1, probe_in_flight := false }
  | turns (hgeneration : g = b.generation) {b' : RedisCircuitBreaker T}
      (hstate : b'.state ≠ .halfOpen) (hprobe : b'.probe_in_flight = false)
      (hnext : b'.generation = b.generation + 1) : Finish b g b'

/-- `record_success` finishes a call. -/
theorem recordSuccess_finish [Zero T] (b : RedisCircuitBreaker T) (g : ℕ) :
    b.Finish g (b.recordSuccess (some g)) := by
  unfold recordSuccess
  split
  · next h => exact .turns (current_some.mp h) (by simp) rfl rfl
  · next h => exact .nothing fun hg => absurd (current_some.mpr hg) h

/-- `record_failure` finishes a call. -/
theorem recordFailure_finish [Add T] (cfg : CircuitConfig T) (now : T) (b : RedisCircuitBreaker T)
    (g : ℕ) : b.Finish g (b.recordFailure cfg now (some g)) := by
  unfold recordFailure
  split
  · next h =>
    have hg := current_some.mp h
    split
    · exact .turns hg (by simp) rfl rfl
    · next hstate =>
      split
      · exact .turns hg (by simp) rfl rfl
      · exact .counts hg hstate
  · next h => exact .nothing fun hg => absurd (current_some.mpr hg) h

/-- `release_call` finishes a call. -/
theorem releaseCall_finish (b : RedisCircuitBreaker T) (g : ℕ) : b.Finish g (b.releaseCall g) := by
  unfold releaseCall
  split
  · next h => exact .frees h.1 h.2
  · next h => exact .nothing fun hg hstate => h ⟨hg, hstate⟩

/-- A call of an earlier generation finishes without a change. -/
theorem Finish.stale (h : b.Finish g b') (hg : g ≠ b.generation) : b' = b := by
  cases h with
  | nothing => rfl
  | frees hgeneration => exact absurd hgeneration hg
  | counts hgeneration => exact absurd hgeneration hg
  | turns hgeneration => exact absurd hgeneration hg

/-- Where the circuit does not turn, the generation stays. -/
theorem Finish.generation_le (h : b.Finish g b') :
    b.generation ≤ b'.generation ∧
      (b'.state ≠ b.state ∨ b'.generation ≠ b.generation → g = b.generation ∧
        b'.state ≠ .halfOpen ∧ b'.generation = b.generation + 1) := by
  cases h with
  | nothing => simp
  | frees => simp
  | counts => simp
  | turns hgeneration hstate _ hnext =>
    exact ⟨by omega, fun _ => ⟨hgeneration, hstate, hnext⟩⟩

end Specs

end RedisCircuitBreaker

end RickIntelligence.Locking
