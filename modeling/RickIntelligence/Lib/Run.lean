import Mathlib

/-!
# Runs of a step relation

A run is a chain of steps, `Relation.ReflTransGen step`. A property that one step keeps is kept by a
run (`run_invariant`). Where an invariant gives every step a higher rank and every state a bounded
one, runs end: their length is bounded (`Path.rank_add_le`), none is infinite
(`no_infinite_run`), and every state leads to one without a further step (`exists_stuck`).
-/

namespace RickIntelligence.Lib

open Relation

variable {α : Type*} {step : α → α → Prop} {I : α → Prop}

/-- A property that one step keeps is kept by a run. -/
theorem run_invariant (hstep : ∀ a b, I a → step a b → I b) {a b : α} (ha : I a)
    (h : ReflTransGen step a b) : I b := by
  induction h with
  | refl => exact ha
  | tail _ hbc ih => exact hstep _ _ ih hbc

/-- A run of a given number of steps. -/
inductive Path (step : α → α → Prop) : ℕ → α → α → Prop
  | refl (a : α) : Path step 0 a a
  | tail {n : ℕ} {a b c : α} : Path step n a b → step b c → Path step (n + 1) a c

/-- A run of some number of steps is a run. -/
theorem Path.run {n : ℕ} {a b : α} (h : Path step n a b) : ReflTransGen step a b := by
  induction h with
  | refl => exact .refl
  | tail _ hbc ih => exact ih.tail hbc

section Bounded

variable {rank : α → ℕ} {bound : ℕ}

/-- Every step of a run adds to the rank. -/
theorem Path.rank_add_le (hstep : ∀ a b, I a → step a b → I b)
    (hrank : ∀ a b, I a → step a b → rank a < rank b) {n : ℕ} {a b : α} (ha : I a)
    (h : Path step n a b) : rank a + n ≤ rank b := by
  induction h with
  | refl => exact le_rfl
  | tail hab hbc ih =>
    have hlt := hrank _ _ (run_invariant hstep ha hab.run) hbc
    have hle := ih ha
    omega

/-- With a bounded rank that every step raises, no run is infinite. -/
theorem no_infinite_run (hstep : ∀ a b, I a → step a b → I b)
    (hrank : ∀ a b, I a → step a b → rank a < rank b)
    (hbound : ∀ a, I a → rank a ≤ bound) (f : ℕ → α) (h0 : I (f 0)) :
    ¬ ∀ n, step (f n) (f (n + 1)) := by
  intro hf
  have hpath : ∀ n, Path step n (f 0) (f n) := by
    intro n
    induction n with
    | zero => exact .refl _
    | succ n ih => exact ih.tail (hf n)
  have hlen := Path.rank_add_le hstep hrank h0 (hpath (bound + 1))
  have hle := hbound _ (run_invariant hstep h0 (hpath (bound + 1)).run)
  omega

/-- With a bounded rank that every step raises, every state leads to one without a further step. -/
theorem exists_stuck (hstep : ∀ a b, I a → step a b → I b)
    (hrank : ∀ a b, I a → step a b → rank a < rank b)
    (hbound : ∀ a, I a → rank a ≤ bound) {a : α} (ha : I a) :
    ∃ b, ReflTransGen step a b ∧ ∀ c, ¬ step b c := by
  -- The induction is on what is left of the bound.
  induction hn : bound - rank a using Nat.strong_induction_on generalizing a with
  | _ n ih =>
    by_cases hstuck : ∀ c, ¬ step a c
    · exact ⟨a, .refl, hstuck⟩
    · push Not at hstuck
      obtain ⟨c, hc⟩ := hstuck
      have hlt := hrank a c ha hc
      have hle := hbound c (hstep a c ha hc)
      obtain ⟨b, hb, hend⟩ := ih (bound - rank c) (by omega) (hstep a c ha hc) rfl
      exact ⟨b, .head hc hb, hend⟩

end Bounded

end RickIntelligence.Lib
