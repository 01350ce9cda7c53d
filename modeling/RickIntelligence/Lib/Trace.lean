import Mathlib

/-!
# Traces of a machine

A machine is a function that takes a state and an event to the next state, if the event may happen
there. A trace is a list of events that happen one after the other (`execAll`). An invariant of traces
may speak of the events so far (`trace_invariant`), each with the state that it happens in (`visits`),
for one of whether some event of them happened in a state with some property (`Happens`).
-/

namespace RickIntelligence.Lib

open Relation

variable {σ ε : Type*} {exec : σ → ε → Option σ} {s t : σ} {es : List ε}

/-- The state after a list of events. -/
def execAll (exec : σ → ε → Option σ) : σ → List ε → Option σ
  | s, [] => some s
  | s, e :: es => (exec s e).bind fun t => execAll exec t es

/-- Events one after the other. -/
theorem execAll_append (exec : σ → ε → Option σ) (s : σ) (es es' : List ε) :
    execAll exec s (es ++ es') = (execAll exec s es).bind fun t => execAll exec t es' := by
  induction es generalizing s with
  | nil => rfl
  | cons e es ih =>
    simp only [List.cons_append, execAll, Option.bind_assoc]
    congr 1
    funext t
    exact ih t

/-- The last event of a trace. -/
theorem execAll_snoc {e : ε} :
    execAll exec s (es ++ [e]) = some t ↔ ∃ u, execAll exec s es = some u ∧ exec u e = some t := by
  rw [execAll_append, Option.bind_eq_some_iff]
  simp [execAll]

/-- A trace is a run of the steps of the machine. -/
theorem execAll_run (h : execAll exec s es = some t) :
    ReflTransGen (fun a b => ∃ e, exec a e = some b) s t := by
  induction es generalizing s with
  | nil =>
    cases h
    exact .refl
  | cons e es ih =>
    obtain ⟨u, hu, hrest⟩ := Option.bind_eq_some_iff.mp h
    exact .head ⟨e, hu⟩ (ih hrest)

/-- What holds at first, and is kept by one more event, holds after every trace. -/
theorem trace_invariant {I : List ε → σ → Prop} (hstart : I [] s)
    (hstep : ∀ es u e t, execAll exec s es = some u → I es u → exec u e = some t → I (es ++ [e]) t)
    (h : execAll exec s es = some t) : I es t := by
  induction es using List.reverseRecOn generalizing t with
  | nil =>
    cases h
    exact hstart
  | append_singleton es e ih =>
    obtain ⟨u, hu, he⟩ := execAll_snoc.mp h
    exact hstep es u e t hu (ih hu) he

/-- The events of a trace, each with the state that it happens in. -/
def visits (exec : σ → ε → Option σ) : σ → List ε → List (σ × ε)
  | _, [] => []
  | s, e :: es =>
    (s, e) :: match exec s e with
      | some t => visits exec t es
      | none => []

/-- The events of a trace with more events after it. -/
theorem visits_append {es' : List ε} (h : execAll exec s es = some t) :
    visits exec s (es ++ es') = visits exec s es ++ visits exec t es' := by
  induction es generalizing s with
  | nil =>
    cases h
    rfl
  | cons e es ih =>
    obtain ⟨u, hu, hrest⟩ := Option.bind_eq_some_iff.mp h
    simp only [List.cons_append, visits, hu, ih hrest]

/-- The events of a trace with one more. -/
theorem visits_snoc {e : ε} (h : execAll exec s es = some t) :
    visits exec s (es ++ [e]) = visits exec s es ++ [(t, e)] := by
  rw [visits_append h]
  congr 1
  simp only [visits]
  split <;> rfl

/-- Some event of the trace happens in a state with the property. -/
def Happens (exec : σ → ε → Option σ) (s : σ) (es : List ε) (P : σ → ε → Prop) : Prop :=
  ∃ u e, (u, e) ∈ visits exec s es ∧ P u e

/-- Nothing happens in a trace without events. -/
theorem not_happens_nil {P : σ → ε → Prop} : ¬ Happens exec s [] P := by
  rintro ⟨u, e, hmem, -⟩
  cases hmem

/-- What happens in a trace with one more event: it happened before, or happens now. -/
theorem happens_snoc {P : σ → ε → Prop} {e : ε} (h : execAll exec s es = some t) :
    Happens exec s (es ++ [e]) P ↔ Happens exec s es P ∨ P t e := by
  unfold Happens
  rw [visits_snoc h]
  constructor
  · rintro ⟨u, e', hmem, hP⟩
    rcases List.mem_append.mp hmem with hmem | hmem
    · exact .inl ⟨u, e', hmem, hP⟩
    · cases List.mem_singleton.mp hmem
      exact .inr hP
  · rintro (⟨u, e', hmem, hP⟩ | hP)
    · exact ⟨u, e', List.mem_append_left _ hmem, hP⟩
    · exact ⟨t, e, by simp, hP⟩

end RickIntelligence.Lib
