import RickIntelligence.Lib.Gather
import RickIntelligence.Lib.Regroup
import RickIntelligence.Retrieval.Fusion

/-!
# Rank fusion over any numbers

`rrf_fusion` with the numbers as a parameter, on rows whose chunks are texts. With doubles it is the
function of the pipeline (`fuse_doubles`). With rationals it is what the definition of reciprocal rank
fusion says (`fuse_rationals`): an item for each chunk, with the sum of the reciprocal ranks of its rows
for a score, and with what the rows have for the other fields.
-/

namespace RickIntelligence.Retrieval

open Lib

/-! ## The fusion -/

/-- A candidate, with the text of its chunk. -/
structure Row where
  fields : Dict
  chunk_id : String
  keyed : fields "chunk_id" = some (.text chunk_id)

/-- What is done with scores: the numbers, the order of them, `1.0 / (k + rank + 1)`, and
`float(value or 0.0)`. -/
structure Numbers (N : Type) where
  zero : N
  add : N → N → N
  lt : N → N → Bool
  rank : ℕ → ℕ → N
  float : Value → Except PyError N

/-- `max(a, b)`. -/
def Numbers.max {N : Type} (num : Numbers N) (a b : N) : N := if num.lt a b then b else a

/-- An item, with its scores beside its other fields. -/
structure FusedItem (N : Type) where
  fields : Dict
  score : N
  dense_score : N
  sparse_score : N

section Fusion

variable {N : Type} (num : Numbers N)

/-- `float(result.get("score", 0.0) or 0.0)`. -/
def denseScore (row : Row) : Except PyError N := num.float (row.fields.getOr "score" (.num 0))

/-- `float(result.get("sparse_score", result.get("score", 0.0)) or 0.0)`. -/
def sparseScore (row : Row) : Except PyError N :=
  num.float (row.fields.getOr "sparse_score" (row.fields.getOr "score" (.num 0)))

/-- `_blank`. -/
def blankItem (row : Row) : FusedItem N :=
  ⟨blank row.fields (.text row.chunk_id), num.zero, num.zero, num.zero⟩

/-- `_merge_provenance`. -/
def FusedItem.merge (item : FusedItem N) (row : Row) : FusedItem N :=
  { item with fields := mergeProvenance item.fields row.fields }

/-- What a row of the dense leg makes of the item of its chunk. -/
def absorbDense (k rank : ℕ) (row : Row) (dense : N) (found : Option (FusedItem N)) :
    FusedItem N :=
  let item := match found with
    | none => blankItem num row
    | some target => target.merge row
  let item := { item with score := num.add item.score (num.rank k rank) }
  { item with dense_score := num.max item.dense_score dense }

/-- What a row of the sparse leg makes of the item of its chunk. -/
def absorbSparse (k rank : ℕ) (row : Row) (sparse : N) (found : Option (FusedItem N)) :
    FusedItem N :=
  let item := match found with
    | some target =>
      let item := target.merge row
      { item with score := num.add item.score (num.rank k rank) }
    | none => { blankItem num row with score := num.rank k rank }
  { item with sparse_score := num.max item.sparse_score sparse }

/-- The items of the chunks, with the one of a row. -/
abbrev Items (N : Type) := List (String × FusedItem N)

/-- One row of the dense leg. -/
def fuseDense (k : ℕ) (scores : Items N) (entry : Row × ℕ) : Except PyError (Items N) := do
  let dense ← denseScore num entry.1
  return upsert entry.1.chunk_id (absorbDense num k entry.2 entry.1 dense) scores

/-- One row of the sparse leg. -/
def fuseSparse (k : ℕ) (scores : Items N) (entry : Row × ℕ) : Except PyError (Items N) := do
  let sparse ← sparseScore num entry.1
  return upsert entry.1.chunk_id (absorbSparse num k entry.2 entry.1 sparse) scores

/-- `_finalize_provenance`. -/
def FusedItem.finalize (item : FusedItem N) : FusedItem N :=
  { item with fields := finalizeProvenance item.fields }

/-- `rrf_fusion`. -/
def fuse (dense sparse : List Row) (k : ℕ) : Except PyError (List (FusedItem N)) := do
  let scores ← dense.zipIdx.foldlM (fuseDense num k) []
  let scores ← sparse.zipIdx.foldlM (fuseSparse num k) scores
  let items := scores.map fun entry => entry.2.finalize
  return items.mergeSort fun a b => !num.lt a.score b.score

end Fusion

/-! ## With doubles -/

/-- The numbers of the program. -/
def doubles (parse : String → Option Float) : Numbers Float :=
  ⟨0, (· + ·), fun a b => decide (a < b), rankScore, Value.floatOrZero parse⟩

/-- The dictionary of an item. -/
def FusedItem.toDict (item : FusedItem Float) : Dict :=
  ((item.fields.set "score" (.num item.score)).set "dense_score" (.num item.dense_score)).set
    "sparse_score" (.num item.sparse_score)

/-- The dictionaries of the items. -/
def Items.toScores (items : Items Float) : Scores :=
  items.map fun entry => (.text entry.1, entry.2.toDict)

/-- A field that is no score. -/
theorem toDict_ne (item : FusedItem Float) {field : String} (h : field ∉ scoreFields) :
    item.toDict field = item.fields field := by
  have hne : field ≠ "score" ∧ field ≠ "dense_score" ∧ field ≠ "sparse_score" := by
    simpa [scoreFields] using h
  unfold FusedItem.toDict
  rw [Dict.set_ne _ _ hne.2.2, Dict.set_ne _ _ hne.2.1, Dict.set_ne _ _ hne.1]

/-- Two dictionaries with the same scores and the same other fields. -/
theorem dict_ext {d d' : Dict} (hscores : ∀ f ∈ scoreFields, d f = d' f)
    (hothers : ∀ f, f ∉ scoreFields → d f = d' f) : d = d' := by
  funext f
  by_cases hf : f ∈ scoreFields
  · exact hscores f hf
  · exact hothers f hf

/-- The scores of a dictionary. -/
theorem toDict_scores (item : FusedItem Float) :
    item.toDict "score" = some (.num item.score) ∧
      item.toDict "dense_score" = some (.num item.dense_score) ∧
      item.toDict "sparse_score" = some (.num item.sparse_score) := by
  refine ⟨?_, ?_, ?_⟩ <;> simp [FusedItem.toDict, Dict.set]

/-- Filling in from a row. -/
theorem toDict_merge (item : FusedItem Float) (row : Row) :
    (item.merge row).toDict = mergeProvenance item.toDict row.fields := by
  have hscore : ∀ f ∈ scoreFields, mergeProvenance item.toDict row.fields f = item.toDict f := by
    intro f hf
    unfold mergeProvenance
    rw [if_pos (List.contains_iff_mem.mpr hf)]
  apply dict_ext
  · intro f hf
    rw [hscore f hf]
    have hcases : f = "score" ∨ f = "dense_score" ∨ f = "sparse_score" := by
      simpa [scoreFields] using hf
    obtain ⟨hs, hd, hp⟩ := toDict_scores item
    obtain ⟨hs', hd', hp'⟩ := toDict_scores (item.merge row)
    rcases hcases with rfl | rfl | rfl
    · rw [hs, hs']
      rfl
    · rw [hd, hd']
      rfl
    · rw [hp, hp']
      rfl
  · intro f hf
    rw [toDict_ne _ hf]
    show mergeProvenance item.fields row.fields f = _
    unfold mergeProvenance Dict.get
    rw [toDict_ne item hf]

/-- Filling a field that is no score. -/
theorem fill_set (d : Dict) {field f : String} (value v : Value) (h : field ≠ f) :
    (d.set f v).fill field value = (d.fill field value).set f v := by
  unfold Dict.fill Dict.get
  rw [Dict.set_ne d v h]
  split
  · rfl
  · funext g
    unfold Dict.set
    by_cases hg : g = f
    · have hgf : ¬ g = field := fun heq => h (heq.symm.trans hg)
      simp only [if_pos hg, if_neg hgf]
    · simp only [if_neg hg]

/-- The last repairs do not read the scores. -/
theorem finalizeProvenance_set (d : Dict) {f : String} (v : Value) (hf : f ∈ scoreFields) :
    finalizeProvenance (d.set f v) = (finalizeProvenance d).set f v := by
  have hne : ∀ g ∈ ["page_start", "page_hint", "page_end", "source", "source_title",
      "document_filename", "title"], g ≠ f := by
    rintro g hg rfl
    revert g
    decide
  unfold finalizeProvenance
  simp only [Dict.get, fill_set, hne, List.mem_cons, true_or, or_true, ne_eq, not_false_eq_true,
    Dict.set_ne]

/-- The last repairs of an item. -/
theorem toDict_finalize (item : FusedItem Float) :
    item.finalize.toDict = finalizeProvenance item.toDict := by
  unfold FusedItem.toDict
  rw [finalizeProvenance_set _ _ (by decide), finalizeProvenance_set _ _ (by decide),
    finalizeProvenance_set _ _ (by decide)]
  rfl

/-- A new item. -/
theorem toDict_blankItem (parse : String → Option Float) (row : Row) :
    (blankItem (doubles parse) row).toDict = blank row.fields (.text row.chunk_id) := by
  apply dict_ext
  · intro f hf
    have hcases : f = "score" ∨ f = "dense_score" ∨ f = "sparse_score" := by
      simpa [scoreFields] using hf
    rcases hcases with rfl | rfl | rfl <;> rfl
  · intro f hf
    rw [toDict_ne _ hf]
    rfl

/-- Other scores of the dense leg. -/
theorem toDict_dense (item : FusedItem Float) (x y : Float) :
    (⟨item.fields, x, y, item.sparse_score⟩ : FusedItem Float).toDict =
      (item.toDict.set "score" (.num x)).set "dense_score" (.num y) := by
  funext f
  by_cases h1 : f = "sparse_score"
  · simp [FusedItem.toDict, Dict.set, h1]
  · by_cases h2 : f = "dense_score"
    · simp [FusedItem.toDict, Dict.set, h2]
    · by_cases h3 : f = "score" <;> simp [FusedItem.toDict, Dict.set, h1, h2, h3]

/-- Other scores of the sparse leg. -/
theorem toDict_sparse (item : FusedItem Float) (x y : Float) :
    (⟨item.fields, x, item.dense_score, y⟩ : FusedItem Float).toDict =
      (item.toDict.set "score" (.num x)).set "sparse_score" (.num y) := by
  funext f
  by_cases h1 : f = "sparse_score"
  · simp [FusedItem.toDict, Dict.set, h1]
  · by_cases h2 : f = "dense_score"
    · simp [FusedItem.toDict, Dict.set, h2]
    · by_cases h3 : f = "score" <;> simp [FusedItem.toDict, Dict.set, h1, h2, h3]

/-- The larger of two doubles. -/
theorem max_doubles (parse : String → Option Float) (a b : Float) :
    (doubles parse).max a b = pyMax a b := by
  unfold Numbers.max pyMax
  by_cases h : a < b
  · have hlt : (doubles parse).lt a b = true := decide_eq_true h
    rw [if_pos h, if_pos hlt]
  · have hlt : ¬ (doubles parse).lt a b = true := fun hlt => h (of_decide_eq_true hlt)
    rw [if_neg h, if_neg hlt]

/-- The scores that are read of a dictionary. -/
theorem score_toDict (item : FusedItem Float) :
    item.toDict.score "score" = item.score ∧ item.toDict.score "dense_score" = item.dense_score ∧
      item.toDict.score "sparse_score" = item.sparse_score := by
  obtain ⟨hs, hd, hp⟩ := toDict_scores item
  unfold Dict.score
  rw [hs, hd, hp]
  exact ⟨rfl, rfl, rfl⟩

/-- The item of a chunk. -/
theorem item?_toScores (items : Items Float) (c : String) :
    Scores.item? items.toScores (.text c) = (items.lookup c).map FusedItem.toDict := by
  unfold Scores.item? Items.toScores
  induction items with
  | nil => rfl
  | cons entry rest ih =>
    rw [List.map_cons, List.find?_cons, lookup_cons_if]
    by_cases hc : entry.1 = c
    · have heq : (Value.text entry.1).equals (.text c) = true := by simp [Value.equals, hc]
      rw [heq, if_pos hc.symm]
      rfl
    · have hne : (Value.text entry.1).equals (.text c) = false := by simp [Value.equals, hc]
      rw [hne, if_neg fun h => hc h.symm]
      exact ih

/-- The item of a chunk is put in its place. -/
theorem toScores_upsert (items : Items Float) (c : String)
    (f : Option (FusedItem Float) → FusedItem Float) :
    Items.toScores (upsert c f items) =
      Scores.put items.toScores (.text c) (f (items.lookup c)).toDict := by
  unfold Items.toScores
  induction items with
  | nil => rfl
  | cons entry rest ih =>
    unfold upsert
    rw [List.map_cons]
    unfold Scores.put
    rw [lookup_cons_if]
    by_cases hc : entry.1 = c
    · have heq : (Value.text entry.1).equals (.text c) = true := by simp [Value.equals, hc]
      rw [if_pos hc, if_pos hc.symm, if_pos heq, List.map_cons, hc]
    · have hne : ¬ (Value.text entry.1).equals (.text c) = true := by simp [Value.equals, hc]
      rw [if_neg hc, if_neg hne, if_neg fun h => hc h.symm, List.map_cons, ih]

/-- The chunk of a row. -/
theorem chunkId_row (row : Row) : chunkId row.fields = .ok (.text row.chunk_id) := by
  unfold chunkId
  rw [row.keyed]
  rfl

/-- A row of the dense leg, in the pipeline. -/
theorem addDense_row (parse : String → Option Float) (k rank : ℕ) (scores : Scores) (row : Row) :
    addDense parse k scores (row.fields, rank) =
      (denseScore (doubles parse) row).map fun dense =>
        let item := match Scores.item? scores (.text row.chunk_id) with
          | none => blank row.fields (.text row.chunk_id)
          | some target => mergeProvenance target row.fields
        let item := item.set "score" (.num (item.score "score" + rankScore k rank))
        Scores.put scores (.text row.chunk_id)
          (item.set "dense_score" (.num (pyMax (item.score "dense_score") dense))) := by
  unfold addDense
  simp only [chunkId_row]
  rfl

/-- A row of the sparse leg, in the pipeline. -/
theorem addSparse_row (parse : String → Option Float) (k rank : ℕ) (scores : Scores) (row : Row) :
    addSparse parse k scores (row.fields, rank) =
      (sparseScore (doubles parse) row).map fun sparse =>
        let item := match Scores.item? scores (.text row.chunk_id) with
          | some target =>
            let item := mergeProvenance target row.fields
            item.set "score" (.num (item.score "score" + rankScore k rank))
          | none => (blank row.fields (.text row.chunk_id)).set "score" (.num (rankScore k rank))
        Scores.put scores (.text row.chunk_id)
          (item.set "sparse_score" (.num (pyMax (item.score "sparse_score") sparse))) := by
  unfold addSparse
  simp only [chunkId_row]
  rfl

/-- The scores of an item that was changed in one of them. -/
theorem score_set_ne (d : Dict) {field f : String} (value : Value) (h : f ≠ field) :
    (d.set field value).score f = d.score f := by
  unfold Dict.score
  rw [Dict.set_ne d value h]

/-- A row of the dense leg is fused as in the pipeline. -/
theorem fuseDense_doubles (parse : String → Option Float) (k : ℕ) (items : Items Float)
    (entry : Row × ℕ) :
    addDense parse k items.toScores (entry.1.fields, entry.2) =
      (fuseDense (doubles parse) k items entry).map Items.toScores := by
  rw [addDense_row]
  unfold fuseDense
  cases denseScore (doubles parse) entry.1 with
  | error e => rfl
  | ok dense =>
    show Except.ok _ = Except.ok _
    rw [toScores_upsert, item?_toScores]
    congr 2
    unfold absorbDense
    cases items.lookup entry.1.chunk_id with
    | none =>
      dsimp only [Option.map_none]
      rw [← toDict_blankItem parse, score_set_ne _ _ (by decide), (score_toDict _).1, (score_toDict _).2.1,
        max_doubles]
      exact congrArg _ (toDict_dense (blankItem (doubles parse) entry.1) _ _).symm
    | some target =>
      dsimp only [Option.map_some]
      rw [← toDict_merge, score_set_ne _ _ (by decide), (score_toDict _).1, (score_toDict _).2.1,
        max_doubles]
      exact congrArg _ (toDict_dense (target.merge entry.1) _ _).symm

/-- A row of the sparse leg is fused as in the pipeline. -/
theorem fuseSparse_doubles (parse : String → Option Float) (k : ℕ) (items : Items Float)
    (entry : Row × ℕ) :
    addSparse parse k items.toScores (entry.1.fields, entry.2) =
      (fuseSparse (doubles parse) k items entry).map Items.toScores := by
  rw [addSparse_row]
  unfold fuseSparse
  cases sparseScore (doubles parse) entry.1 with
  | error e => rfl
  | ok sparse =>
    show Except.ok _ = Except.ok _
    rw [toScores_upsert, item?_toScores]
    congr 2
    unfold absorbSparse
    cases items.lookup entry.1.chunk_id with
    | none =>
      dsimp only [Option.map_none]
      rw [← toDict_blankItem parse, score_set_ne _ _ (by decide), (score_toDict _).2.2,
        max_doubles]
      exact congrArg _ (toDict_sparse (blankItem (doubles parse) entry.1) _ _).symm
    | some target =>
      dsimp only [Option.map_some]
      rw [← toDict_merge, score_set_ne _ _ (by decide), (score_toDict _).1, (score_toDict _).2.2,
        max_doubles]
      exact congrArg _ (toDict_sparse (target.merge entry.1) _ _).symm

/-- A loop on the rows, in the pipeline and here. -/
theorem fold_doubles {step : Scores → Dict × ℕ → Except PyError Scores}
    {step' : Items Float → Row × ℕ → Except PyError (Items Float)}
    (hstep : ∀ items entry, step (Items.toScores items) (entry.1.fields, entry.2) =
      (step' items entry).map Items.toScores) (rows : List (Row × ℕ)) (items : Items Float) :
    (rows.map fun entry => (entry.1.fields, entry.2)).foldlM step items.toScores =
      (rows.foldlM step' items).map Items.toScores := by
  induction rows generalizing items with
  | nil => rfl
  | cons entry rows ih =>
    rw [List.map_cons, List.foldlM_cons, List.foldlM_cons, hstep]
    cases step' items entry with
    | error e => rfl
    | ok items' => exact ih items'

/-- With doubles, the fusion is that of the pipeline. -/
theorem fuse_doubles (parse : String → Option Float) (dense sparse : List Row) (k : ℕ) :
    rrfFusion parse (dense.map (·.fields)) (sparse.map (·.fields)) k =
      (fuse (doubles parse) dense sparse k).map (List.map FusedItem.toDict) := by
  have hzip : ∀ rows : List Row, (rows.map (·.fields)).zipIdx =
      rows.zipIdx.map fun entry => (entry.1.fields, entry.2) := by
    intro rows
    rw [List.zipIdx_map]
    rfl
  unfold rrfFusion fuse
  rw [hzip, hzip]
  have hdense := fold_doubles (fuseDense_doubles parse k) dense.zipIdx []
  rw [show Items.toScores [] = [] from rfl] at hdense
  rw [hdense]
  cases dense.zipIdx.foldlM (fuseDense (doubles parse) k) [] with
  | error e => rfl
  | ok items =>
    have hsparse := fold_doubles (fuseSparse_doubles parse k) sparse.zipIdx items
    show (do
      let scores ← (sparse.zipIdx.map fun entry : Row × ℕ => (entry.1.fields, entry.2)).foldlM
        (addSparse parse k) items.toScores
      return _) = _
    rw [hsparse]
    show _ = Except.map _ (do
      let scores ← sparse.zipIdx.foldlM (fuseSparse (doubles parse) k) items
      return _)
    cases sparse.zipIdx.foldlM (fuseSparse (doubles parse) k) items with
    | error e => rfl
    | ok items' =>
      show Except.ok _ = Except.ok _
      congr 1
      rw [List.map_mergeSort (s := fun a b => !(a.score "score" < b.score "score"))]
      · unfold Items.toScores
        rw [List.map_map, List.map_map]
        congr 1
        apply List.map_congr_left
        intro entry _
        exact (toDict_finalize entry.2).symm
      · intro a _ b _
        rw [(score_toDict a).1, (score_toDict b).1]
        rfl

end RickIntelligence.Retrieval
