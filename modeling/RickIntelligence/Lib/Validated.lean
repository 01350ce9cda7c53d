import Mathlib

/-!
# Records that are checked when they are built

A frozen record whose constructor normalises its fields and refuses some of them is a function
`post : α → Except ε α`: it returns the normalised record or the error that the constructor raises.
A built record is a fixed point of its constructor, and `Validated post` is the type of these, so
that a record which its constructor would change or refuse cannot be written down. `Validated.make`
is the constructor itself, for a `post` whose results are fixed points (`Normalises`).

The checks of a constructor are a list of refusals in the order in which it makes them
(`raiseFirst`): the first whose condition holds is raised.
-/

namespace RickIntelligence.Lib

/-- A bind that returns has a first computation that returns, and a second that returns from its
value. -/
theorem except_bind_ok {ε α β : Type} {x : Except ε α} {f : α → Except ε β} {b : β} :
    x >>= f = .ok b ↔ ∃ a, x = .ok a ∧ f a = .ok b := by
  cases x with
  | error e => simp [bind, Except.bind]
  | ok a => simp [bind, Except.bind]

/-- A mapped computation returns exactly when the computation does. -/
theorem except_map_ok {ε α β : Type} {x : Except ε α} {f : α → β} {b : β} :
    f <$> x = .ok b ↔ ∃ a, x = .ok a ∧ f a = b := by
  cases x with
  | error e => simp [Functor.map, Except.map]
  | ok a => simp [Functor.map, Except.map]

/-- What every step of a fold that succeeds keeps. -/
theorem foldlM_invariant {ε α β : Type} {f : β → α → Except ε β} {I : β → Prop} {l : List α}
    (hstep : ∀ b a b', a ∈ l → I b → f b a = .ok b' → I b') {b b' : β} (hb : I b)
    (h : l.foldlM f b = .ok b') : I b' := by
  induction l generalizing b with
  | nil =>
    cases h
    exact hb
  | cons a l ih =>
    rw [List.foldlM_cons, except_bind_ok] at h
    obtain ⟨c, hc, hrest⟩ := h
    exact ih (fun b a b' ha => hstep b a b' (List.mem_cons_of_mem _ ha))
      (hstep b a c List.mem_cons_self hb hc) hrest

/-- Replacing the error of a computation does not change when it returns. -/
theorem mapError_ok {ε ε' α : Type*} {x : Except ε α} {f : ε → ε'} {a : α} :
    x.mapError f = .ok a ↔ x = .ok a := by
  cases x <;> simp [Except.mapError]

/-! ## Refusals in order -/

/-- The first refusal whose condition holds is raised; with none, nothing happens. -/
def raiseFirst {ε : Type*} : List (Bool × ε) → Except ε Unit
  | [] => .ok ()
  | (true, e) :: _ => .error e
  | (false, _) :: rest => raiseFirst rest

/-- A list of refusals passes exactly when none of its conditions holds. -/
theorem raiseFirst_ok {ε : Type*} {checks : List (Bool × ε)} {u : Unit} :
    raiseFirst checks = .ok u ↔ ∀ c ∈ checks, c.1 = false := by
  induction checks with
  | nil => simp [raiseFirst]
  | cons c rest ih =>
    obtain ⟨b, e⟩ := c
    cases b with
    | true => simp [raiseFirst]
    | false => simp [raiseFirst, ih]

/-! ## Fixed points of a constructor -/

/-- A constructor whose results it accepts unchanged. -/
class Normalises {α ε : Type*} (post : α → Except ε α) : Prop where
  /-- A record that the constructor returns is returned unchanged. -/
  idem : ∀ {a b : α}, post a = .ok b → post b = .ok b

/-- The records that a constructor returns: its fixed points. -/
@[ext]
structure Validated {α ε : Type*} (post : α → Except ε α) where
  /-- The fields of the record. -/
  val : α
  /-- The constructor returns the record unchanged. -/
  accepted : post val = .ok val

namespace Validated

variable {α ε : Type*} {post : α → Except ε α}

instance [DecidableEq α] : DecidableEq (Validated post) := fun v w =>
  decidable_of_iff (v.val = w.val) Validated.ext_iff.symm

/-- The constructor: it builds the normalised record, or raises. -/
def make [Normalises post] (a : α) : Except ε (Validated post) :=
  match h : post a with
  | .error e => .error e
  | .ok b => .ok ⟨b, Normalises.idem h⟩

/-- The constructor returns the record with the normalised fields. -/
theorem make_ok [Normalises post] {a : α} {v : Validated post} :
    make a = .ok v ↔ post a = .ok v.val := by
  unfold make
  split
  · next e h => simp [h]
  · next b h => simp [h, Validated.ext_iff]

end Validated

end RickIntelligence.Lib
