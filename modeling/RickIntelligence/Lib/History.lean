import Mathlib

/-!
# Histories of keyed rows

A history is the list of the versions that were written of the rows of a keyed store, each with what
it was written for, from a store without rows. `current` replays it, and it is `Linked` when every
version starts from what the ones before it left and is of an allowed kind.

Two things are read off a linked history: how often something happened to a row in a stretch of it,
from a measure that grows with it (`Linked.countP_add`), and since when a row has been in a
condition, and that nothing ended it since (`Linked.since`).
-/

namespace RickIntelligence.Lib

/-- A version of the row under a key: what was there, and what was left. -/
structure Version (κ α γ : Type) where
  key : κ
  cause : γ
  before : Option α
  after : Option α

namespace History

variable {κ α γ : Type} [DecidableEq κ] {P : Version κ α γ → Prop}

/-- The row under a key after a history. -/
def current (past : List (Version κ α γ)) (k : κ) : Option α :=
  past.foldl (fun r v => if v.key = k then v.after else r) none

/-- The last version decides what is there. -/
theorem current_snoc (past : List (Version κ α γ)) (v : Version κ α γ) (k : κ) :
    current (past ++ [v]) k = if v.key = k then v.after else current past k := by
  simp [current]

/-- Every version starts from what the ones before it left, and is allowed. -/
inductive Linked (P : Version κ α γ → Prop) : List (Version κ α γ) → Prop where
  | nil : Linked P []
  | snoc {past : List (Version κ α γ)} {v : Version κ α γ} (hpast : Linked P past)
      (hbefore : v.before = current past v.key) (hv : P v) : Linked P (past ++ [v])

namespace Linked

variable {past : List (Version κ α γ)}

/-- The last version of a linked history. -/
theorem snoc_inv {v : Version κ α γ} (h : Linked P (past ++ [v])) :
    Linked P past ∧ v.before = current past v.key ∧ P v := by
  generalize hl : past ++ [v] = l at h
  cases h with
  | nil => simp at hl
  | snoc hpast hbefore hv =>
    obtain ⟨rfl, hlast⟩ := List.append_inj' hl rfl
    obtain rfl := (List.cons.inj hlast).1
    exact ⟨hpast, hbefore, hv⟩

/-- The beginning of a linked history is linked. -/
theorem of_append {later : List (Version κ α γ)} (h : Linked P (past ++ later)) :
    Linked P past := by
  induction later using List.reverseRecOn with
  | nil => rwa [List.append_nil] at h
  | append_singleton later v ih =>
    rw [← List.append_assoc] at h
    exact ih h.snoc_inv.1

/-- Every version of a linked history is allowed. -/
theorem allowed (h : Linked P past) : ∀ v ∈ past, P v := by
  induction h with
  | nil => simp
  | snoc hpast hbefore hv ih =>
    intro w hw
    rcases List.mem_append.mp hw with hw | hw
    · exact ih w hw
    · rw [List.mem_singleton.mp hw]
      exact hv

/-- What happens to a row in a stretch of its history is counted by a measure that grows by one with
it, and not otherwise. -/
theorem countP_add {later : List (Version κ α γ)} (h : Linked P (past ++ later)) {k : κ} {m : Option α → ℕ}
    {p : Version κ α γ → Bool} (hm : ∀ v ∈ later, P v → v.key = k → m v.after = m v.before + if p v then 1 else 0) :
    (later.countP fun v => decide (v.key = k) && p v) + m (current past k) =
      m (current (past ++ later) k) := by
  induction later using List.reverseRecOn with
  | nil => simp
  | append_singleton later v ih =>
    rw [← List.append_assoc] at h ⊢
    obtain ⟨hpast, hbefore, hv⟩ := h.snoc_inv
    have hrec := ih hpast fun w hw => hm w (List.mem_append_left _ hw)
    rw [List.countP_append, List.countP_singleton, current_snoc]
    by_cases hk : v.key = k
    · have hstep := hm v (by simp) hv hk
      rw [hbefore, hk] at hstep
      simp only [hk, decide_true, Bool.true_and, if_true]
      omega
    · simp only [hk, decide_false, Bool.false_and, Bool.false_eq_true, if_false]
      omega

/-- A row that is in a condition came into it with a version, and has been in it since. -/
theorem since (h : Linked P past) {k : κ} {Q : Option α → Prop} (hnone : ¬ Q none) (hQ : Q (current past k)) :
    ∃ first v later, past = first ++ v :: later ∧ v.key = k ∧ P v ∧ ¬ Q v.before ∧ Q v.after ∧
      ∀ w ∈ later, w.key = k → Q w.before ∧ Q w.after := by
  induction h with
  | nil => exact absurd hQ hnone
  | @snoc past v hpast hbefore hv ih =>
    rw [current_snoc] at hQ
    by_cases hk : v.key = k
    · rw [if_pos hk] at hQ
      by_cases hQb : Q v.before
      · -- The condition is older than the last version.
        rw [hbefore, hk] at hQb
        obtain ⟨first, u, later, rfl, hu, hPu, hbu, hau, hlater⟩ := ih hQb
        refine ⟨first, u, later ++ [v], by simp, hu, hPu, hbu, hau, ?_⟩
        intro w hw hwk
        rcases List.mem_append.mp hw with hw | hw
        · exact hlater w hw hwk
        · rw [List.mem_singleton.mp hw, hbefore, hk]
          exact ⟨hQb, hQ⟩
      · exact ⟨past, v, [], rfl, hk, hv, hQb, hQ, by simp⟩
    · rw [if_neg hk] at hQ
      obtain ⟨first, u, later, rfl, hu, hPu, hbu, hau, hlater⟩ := ih hQ
      refine ⟨first, u, later ++ [v], by simp, hu, hPu, hbu, hau, ?_⟩
      intro w hw hwk
      rcases List.mem_append.mp hw with hw | hw
      · exact hlater w hw hwk
      · rw [List.mem_singleton.mp hw] at hwk
        exact absurd hwk hk

end Linked

end History

end RickIntelligence.Lib
