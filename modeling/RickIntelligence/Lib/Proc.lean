import Mathlib

/-!
# Procedures

A procedure reads and writes a state, and returns a value or raises. Unlike a transaction it is not
rolled back: what it has written when it raises stays written. That a call which raises has changed
nothing is therefore a property to be proved of it.

`Holds x s Q` says that the procedure ends from `s` with a result and a state for which `Q` holds,
and the rules below take a procedure apart from its first step on, with one branch for a raise.
-/

namespace RickIntelligence.Lib

/-- A procedure over the states `σ`. -/
abbrev Proc (σ ε α : Type) := ExceptT ε (StateM σ) α

namespace Proc

variable {σ ε α β : Type}

/-- Run a procedure: its result, and the state that it leaves. -/
def exec (x : Proc σ ε α) (s : σ) : Except ε α × σ := (ExceptT.run x).run s

/-- Raise an error. -/
def raise (e : ε) : Proc σ ε α := throw e

/-- A pure computation that may raise. -/
def lift (x : Except ε α) : Proc σ ε α :=
  match x with
  | .ok a => pure a
  | .error e => throw e

/-- Raise an error when a condition holds. -/
def raiseIf (c : Bool) (e : ε) : Proc σ ε Unit := if c then raise e else pure ()

/-- Run a procedure, and what handles an error that it raises from the state that it leaves. -/
def handle (x : Proc σ ε α) (f : ε → Proc σ ε α) : Proc σ ε α := tryCatch x f

/-- The procedure ends with a result and a state that satisfy `Q`. -/
def Holds (x : Proc σ ε α) (s : σ) (Q : Except ε α → σ → Prop) : Prop := Q (exec x s).1 (exec x s).2

/-! ## Rules -/

variable {s : σ} {Q : Except ε β → σ → Prop}

variable {x : Proc σ ε β} {s' : σ} {e : ε} {f : α → Proc σ ε β}

/-- A procedure that holds for a result and a state ends with them. -/
theorem Holds.of_exec {r : Except ε β} (h : Holds x s Q) (hx : exec x s = (r, s')) : Q r s' := by
  unfold Holds at h
  rw [hx] at h
  exact h

/-- A weaker property holds. -/
theorem Holds.imp {Q' : Except ε β → σ → Prop} (h : Holds x s Q) (hQ : ∀ r s', Q r s' → Q' r s') : Holds x s Q' :=
  hQ _ _ h

/-- A returned value leaves the state as it was. -/
theorem holds_pure {b : β} (h : Q (.ok b) s) : Holds (pure b) s Q := h

/-- A raised error leaves the state as it was. -/
theorem holds_raise (h : Q (.error e) s) : Holds (raise e) s Q := h

/-- The first part of a sequence returns, and the second part goes on from there, or it raises. -/
theorem holds_bind {x : Proc σ ε α} (h : Holds x s fun r s' => match r with
      | .ok a => Holds (f a) s' Q
      | .error e => Q (.error e) s') : Holds (x >>= f) s Q := by
  unfold Holds at h ⊢
  have hrun : exec (x >>= f) s = match exec x s with
      | (.ok a, s') => exec (f a) s'
      | (.error e, s') => (.error e, s') := by
    show (ExceptT.run (x >>= f)).run s = _
    rw [ExceptT.run_bind, StateT.run_bind]
    show (match (ExceptT.run x).run s with | (r, s') => _) = _
    cases hx : (ExceptT.run x).run s with
    | mk r s' =>
      cases r with
      | ok a =>
        simp only [exec, hx]
        rfl
      | error e =>
        simp only [exec, hx]
        rfl
  rw [hrun]
  cases hx : exec x s with
  | mk r s' =>
    rw [hx] at h
    cases r with
    | ok a => exact h
    | error e => exact h

/-- A pure computation raises, or its value is used. -/
theorem holds_lift_bind {x : Except ε α} (herror : ∀ e, x = .error e → Q (.error e) s)
    (hok : ∀ a, x = .ok a → Holds (f a) s Q) :
    Holds (lift x >>= f) s Q := by
  apply holds_bind
  cases x with
  | ok a => exact hok a rfl
  | error e => exact herror e rfl

/-- A condition raises, or it does not hold. -/
theorem holds_raiseIf_bind {c : Bool} {f : Unit → Proc σ ε β} (herror : c = true → Q (.error e) s)
    (hok : c = false → Holds (f ()) s Q) :
    Holds (raiseIf c e >>= f) s Q := by
  apply holds_bind
  cases c with
  | true => exact herror rfl
  | false => exact hok rfl

/-- The state is read. -/
theorem holds_get_bind {f : σ → Proc σ ε β} (h : Holds (f s) s Q) : Holds (get >>= f) s Q :=
  holds_bind h

/-- The state is written. -/
theorem holds_set_bind {f : PUnit → Proc σ ε β} (h : Holds (f ⟨⟩) s' Q) :
    Holds (set s' >>= f) s Q :=
  holds_bind h

/-- The state is written. -/
theorem holds_set {Q : Except ε PUnit → σ → Prop} (h : Q (.ok ⟨⟩) s') :
    Holds (set s' : Proc σ ε PUnit) s Q := h

/-- A procedure returns, or its error is handled. -/
theorem holds_handle {f : ε → Proc σ ε β} (h : Holds x s fun r s' => match r with
      | .ok b => Q (.ok b) s'
      | .error e => Holds (f e) s' Q) : Holds (handle x f) s Q := by
  unfold Holds at h ⊢
  have hrun : exec (handle x f) s = match exec x s with
      | (.ok b, s') => (.ok b, s')
      | (.error e, s') => exec (f e) s' := by
    show (ExceptT.run (tryCatch x f)).run s = _
    cases hx : exec x s with
    | mk r s' =>
      have hx' : (ExceptT.run x).run s = (r, s') := hx
      have hcatch : (ExceptT.run (tryCatch x f)).run s = (ExceptT.run x >>= fun r => match r with
          | .ok b => pure (.ok b)
          | .error e => ExceptT.run (f e)).run s := rfl
      rw [hcatch, StateT.run_bind, hx']
      cases r with
      | ok b => rfl
      | error e => rfl
  rw [hrun]
  cases hx : exec x s with
  | mk r s' =>
    rw [hx] at h
    cases r with
    | ok b => exact h
    | error e => exact h

end Proc

end RickIntelligence.Lib
