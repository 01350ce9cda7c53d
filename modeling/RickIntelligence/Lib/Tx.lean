import Mathlib

/-!
# Transactions

A transaction reads and writes a state, and returns a value or raises. What it raises carries no
state: the caller of a transaction that raised goes on with the state from before it, which is what
a rollback leaves (`Tx.commit`).

The lemmas say when each combinator returns and with what, so that a transaction which returned is
taken apart from its first step on.
-/

namespace RickIntelligence.Lib

/-- A transaction over the states `σ`. -/
abbrev Tx (σ ε α : Type) := StateT σ (Except ε) α

namespace Tx

variable {σ ε α β : Type}

/-- Raise an error. -/
def raise (e : ε) : Tx σ ε α := fun _ => .error e

/-- A pure computation that may raise. -/
def lift (x : Except ε α) : Tx σ ε α := fun s => x.map fun a => (a, s)

/-- Raise an error when a condition holds. -/
def raiseIf (c : Bool) (e : ε) : Tx σ ε Unit := if c then raise e else pure ()

/-- What a transaction leaves behind: its result and its state, or its error and the state from
before it. -/
def commit (x : Tx σ ε α) (s : σ) : Except ε α × σ :=
  match x s with
  | .ok (a, s') => (.ok a, s')
  | .error e => (.error e, s)

/-! ## When a transaction returns -/

variable {x : Tx σ ε α} {f : α → Tx σ ε β} {s s' : σ} {a : α} {e : ε}

/-- A sequence returns when its first part returns, and its second part from there. -/
theorem bind_ok {s'' : σ} {b : β} :
    (x >>= f) s = .ok (b, s'') ↔ ∃ a s', x s = .ok (a, s') ∧ f a s' = .ok (b, s'') := by
  change (Except.bind (x s) fun p => f p.1 p.2) = .ok (b, s'') ↔ _
  cases h : x s with
  | error e => simp [Except.bind]
  | ok p =>
    obtain ⟨a, s'⟩ := p
    simp [Except.bind]

/-- A value is returned with the state as it was. -/
theorem pure_ok {b : α} :
    (pure a : Tx σ ε α) s = .ok (b, s') ↔ a = b ∧ s = s' := by
  change (Except.ok (a, s) : Except ε (α × σ)) = .ok (b, s') ↔ _
  simp

/-- A raised error is not a return. -/
theorem raise_ok : (raise e : Tx σ ε α) s = .ok (a, s') ↔ False := by
  simp [raise]

/-- A pure computation returns its value with the state as it was. -/
theorem lift_ok {x : Except ε α} :
    (lift x : Tx σ ε α) s = .ok (a, s') ↔ x = .ok a ∧ s = s' := by
  cases x <;> simp [lift, Except.map]

/-- A condition that did not raise does not hold. -/
theorem raiseIf_ok {c : Bool} {u : Unit} :
    (raiseIf c e : Tx σ ε Unit) s = .ok (u, s') ↔ c = false ∧ s = s' := by
  cases c with
  | true => simp [raiseIf, raise_ok]
  | false => simp [raiseIf, pure_ok]

/-- The state is read as it is. -/
theorem get_ok {a : σ} : (get : Tx σ ε σ) s = .ok (a, s') ↔ s = a ∧ s = s' := by
  change (Except.ok (s, s) : Except ε (σ × σ)) = .ok (a, s') ↔ _
  simp

/-- The state is replaced. -/
theorem set_ok {t : σ} {u : PUnit} :
    (set t : Tx σ ε PUnit) s = .ok (u, s') ↔ t = s' := by
  change (Except.ok (PUnit.unit, t) : Except ε (PUnit × σ)) = .ok (u, s') ↔ _
  simp

/-- A modified state is the function's value. -/
theorem modify_ok {f : σ → σ} {u : PUnit} :
    (modify f : Tx σ ε PUnit) s = .ok (u, s') ↔ f s = s' := by
  change (Except.ok (PUnit.unit, f s) : Except ε (PUnit × σ)) = .ok (u, s') ↔ _
  simp

/-- A mapped transaction returns exactly when the transaction does. -/
theorem map_ok {f : α → β} {b : β} :
    (f <$> x) s = .ok (b, s') ↔ ∃ a, x s = .ok (a, s') ∧ b = f a := by
  rw [map_eq_pure_bind]
  simp only [bind_ok, pure_ok]
  constructor
  · rintro ⟨a, _, hx, rfl, rfl⟩
    exact ⟨a, hx, rfl⟩
  · rintro ⟨a, hx, rfl⟩
    exact ⟨a, s', hx, rfl, rfl⟩

/-! ## Running a transaction forward -/

/-- After a part that returns, the rest runs from there. -/
theorem bind_of_ok (h : x s = .ok (a, s')) :
    (x >>= f) s = f a s' := by
  change (Except.bind (x s) fun p => f p.1 p.2) = _
  rw [h]
  rfl

/-- After a part that raises, nothing runs. -/
theorem bind_of_error (h : x s = .error e) :
    (x >>= f) s = .error e := by
  change (Except.bind (x s) fun p => f p.1 p.2) = _
  rw [h]
  rfl

/-- A read state is handed on. -/
theorem get_bind {f : σ → Tx σ ε β} : (get >>= f) s = f s s := rfl

/-- A mapped transaction leaves the mapped result. -/
theorem commit_map {f : α → β} :
    (f <$> x).commit s = ((x.commit s).1.map f, (x.commit s).2) := by
  have hmap : (f <$> x) s = (x s).map fun p => (f p.1, p.2) := by
    rw [map_eq_pure_bind]
    rfl
  unfold commit
  rw [hmap]
  cases x s with
  | error e => rfl
  | ok p => rfl

end Tx

end RickIntelligence.Lib
