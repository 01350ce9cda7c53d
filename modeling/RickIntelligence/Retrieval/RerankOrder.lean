import RickIntelligence.Retrieval.RerankCache

/-!
# The order of reranked candidates

With scores that are ordered, the candidates are put in the order of their new scores, and those of one
score of before are put with the ones of the sparse leg first, in the order of their new scores
otherwise (`rerank_arranged`). The positions that they have together are those of the sort by the new
scores.
-/

namespace RickIntelligence.Retrieval

open Lib

variable {ρ δ : Type} [LinearOrder ρ] {ops : Operations ρ}

/-! ## The two sorts -/

/-- What the first sort goes by. -/
theorem scoreLe_iff (a b : Reranked ρ δ) :
    (!scoreLt ops.ordered a b) = true ↔
      b.new_score < a.new_score ∨ (b.new_score = a.new_score ∧ b.score ≤ a.score) := by
  have hlt : ∀ x y : ρ, ops.ordered.lt x y = decide (x < y) := fun _ _ => rfl
  unfold scoreLt
  rw [Bool.not_eq_true', Bool.or_eq_false_iff, hlt, hlt, hlt, Bool.and_eq_false_iff,
    Bool.not_eq_false', decide_eq_false_iff_not, decide_eq_true_eq, decide_eq_false_iff_not, not_lt,
    not_lt]
  constructor
  · rintro ⟨hle, hlt | hscore⟩
    · exact .inl hlt
    · exact (lt_or_eq_of_le hle).imp id fun heq => ⟨heq, hscore⟩
  · rintro (hlt | ⟨heq, hscore⟩)
    · exact ⟨hlt.le, .inl hlt⟩
    · exact ⟨heq.le, .inr hscore⟩

/-- The first sort puts the higher scores first. -/
theorem pairwise_scoreSort (scored : List (Reranked ρ δ)) :
    (scoreSort ops.ordered scored).Pairwise fun a b =>
      b.new_score < a.new_score ∨ (b.new_score = a.new_score ∧ b.score ≤ a.score) := by
  have htrans : ∀ a b c : Reranked ρ δ, (!scoreLt ops.ordered a b) = true →
      (!scoreLt ops.ordered b c) = true → (!scoreLt ops.ordered a c) = true := by
    intro a b c hab hbc
    rw [scoreLe_iff] at hab hbc ⊢
    rcases hab with hab | ⟨hab, hab'⟩ <;> rcases hbc with hbc | ⟨hbc, hbc'⟩
    · exact .inl (hbc.trans hab)
    · exact .inl (hbc ▸ hab)
    · exact .inl (hab ▸ hbc)
    · exact .inr ⟨hbc.trans hab, hbc'.trans hab'⟩
  have htotal : ∀ a b : Reranked ρ δ,
      (!scoreLt ops.ordered a b || !scoreLt ops.ordered b a) = true := by
    intro a b
    rw [Bool.or_eq_true, scoreLe_iff, scoreLe_iff]
    rcases lt_trichotomy a.new_score b.new_score with h | h | h
    · exact .inr (.inl h)
    · rcases le_total a.score b.score with hs | hs
      · exact .inr (.inr ⟨h, hs⟩)
      · exact .inl (.inr ⟨h.symm, hs⟩)
    · exact .inl (.inl h)
  have hsorted := List.pairwise_mergeSort htrans htotal scored
  exact hsorted.imp fun {a b} hab => (scoreLe_iff a b).mp hab

/-- The second sort puts the candidates of the sparse leg first, and keeps the order otherwise. -/
theorem sparseFirst_spec (tied : List (Reranked ρ δ)) :
    (sparseFirst ops.ordered tied).Pairwise
        (fun a b => ops.zero < b.sparse_score → ops.zero < a.sparse_score) ∧
      ∀ found, (sparseFirst ops.ordered tied).filter
          (fun cand => decide (inSparse ops.ordered cand = found)) =
        tied.filter fun cand => decide (inSparse ops.ordered cand = found) := by
  have hfound : ∀ cand : Reranked ρ δ,
      inSparse ops.ordered cand = true ↔ ops.zero < cand.sparse_score := by
    intro cand
    show decide (ops.zero < cand.sparse_score) = true ↔ _
    rw [decide_eq_true_eq]
  have htrans : ∀ a b c : Reranked ρ δ,
      (inSparse ops.ordered a || !inSparse ops.ordered b) = true →
        (inSparse ops.ordered b || !inSparse ops.ordered c) = true →
          (inSparse ops.ordered a || !inSparse ops.ordered c) = true := by
    intro a b c
    cases inSparse ops.ordered a <;> cases inSparse ops.ordered b <;> simp
  have htotal : ∀ a b : Reranked ρ δ,
      ((inSparse ops.ordered a || !inSparse ops.ordered b) ||
        (inSparse ops.ordered b || !inSparse ops.ordered a)) = true := by
    intro a b
    cases inSparse ops.ordered a <;> cases inSparse ops.ordered b <;> rfl
  constructor
  · have hsorted := List.pairwise_mergeSort htrans htotal tied
    apply hsorted.imp
    intro a b hab hb
    rw [(hfound b).mpr hb, Bool.not_true, Bool.or_false] at hab
    exact (hfound a).mp hab
  · intro found
    apply filter_mergeSort tied htrans htotal
    intro a b ha hb
    rw [of_decide_eq_true ha, of_decide_eq_true hb]
    cases found <;> rfl

/-! ## Arranged candidates -/

/-- How a result is arranged: it has the candidates with their new scores; of two with one score of
before, the first is one of the sparse leg if the second is; and if both are or none, the first has the
higher new score; and the scores of before stand where the sort by the new scores puts them. -/
structure Arranged (ops : Operations ρ) (scored result : List (Reranked ρ δ)) : Prop where
  perm : result.Perm scored
  sparse_first : result.Pairwise fun a b =>
    a.score = b.score → ops.zero < b.sparse_score → ops.zero < a.sparse_score
  by_score : result.Pairwise fun a b => a.score = b.score →
    (ops.zero < a.sparse_score ↔ ops.zero < b.sparse_score) → b.new_score ≤ a.new_score
  slots : result.map (·.score) = (scoreSort ops.ordered scored).map (·.score)

/-- The candidates that are sorted and regrouped are arranged. -/
theorem arranged_regroup (scored : List (Reranked ρ δ)) :
    Arranged ops scored (regroup (fun cand => ops.ordered.key cand.score) (sparseFirst ops.ordered)
      (scoreSort ops.ordered scored)) := by
  have horder : ∀ tied : List (Reranked ρ δ), (sparseFirst ops.ordered tied).Perm tied := fun tied =>
    List.mergeSort_perm tied _
  have hsorted := @pairwise_scoreSort ρ δ _ ops scored
  -- In each group the candidates of the sparse leg come first, and then the higher new scores.
  have hgroup : ∀ k, ((regroup (fun cand => ops.ordered.key cand.score) (sparseFirst ops.ordered)
      (scoreSort ops.ordered scored)).filter
        fun cand => decide (ops.ordered.key cand.score = k)).Pairwise fun a b =>
          (ops.zero < b.sparse_score → ops.zero < a.sparse_score) ∧
            ((ops.zero < a.sparse_score ↔ ops.zero < b.sparse_score) →
              b.new_score ≤ a.new_score) := by
    intro k
    rw [regroup_filter horder]
    obtain ⟨hfirst, hstable⟩ := @sparseFirst_spec ρ δ _ ops
      ((scoreSort ops.ordered scored).filter fun cand => decide (ops.ordered.key cand.score = k))
    apply hfirst.and
    have hclass : (sparseFirst ops.ordered ((scoreSort ops.ordered scored).filter
        fun cand => decide (ops.ordered.key cand.score = k))).Pairwise fun a b =>
          inSparse ops.ordered a = inSparse ops.ordered b → b.new_score ≤ a.new_score := by
      apply pairwise_of_groups
      intro found
      rw [hstable found]
      apply List.Pairwise.filter
      apply List.Pairwise.filter
      exact hsorted.imp fun {a b} hab => hab.elim le_of_lt fun h => h.1.le
    apply hclass.imp
    intro a b hab hiff
    apply hab
    show decide (ops.zero < a.sparse_score) = decide (ops.zero < b.sparse_score)
    simp only [hiff]
  have hpairwise := pairwise_of_groups hgroup
  exact ⟨(regroup_perm horder _).trans (List.mergeSort_perm _ _),
    hpairwise.imp fun {a b} hab heq => (hab heq).1, hpairwise.imp fun {a b} hab heq => (hab heq).2,
    regroup_map_key horder _⟩

end RickIntelligence.Retrieval
