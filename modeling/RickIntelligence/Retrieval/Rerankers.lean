import RickIntelligence.Lib.Gather
import RickIntelligence.Retrieval.RerankCache

/-!
# The rerankers of the pipeline

The three rerankers of `rick_retrieval/rerank.py` on candidates that are dictionaries: the one that does
nothing, BM25F, and the one of an embedding model. Whatever they make of the scores, the candidates that
they return are candidates that they got (`reranker_subperm`).
-/

namespace RickIntelligence.Retrieval

open Lib

/-! ## Candidates as dictionaries -/

/-- A value that is joined with others has to be a text. -/
def requireText : Value → Except PyError String
  | .text s => .ok s
  | _ => .error .type

/-- `" ".join(cand.get("tags", []) or [])`. -/
def joinedTags (tags : Value) : Except PyError String :=
  match tags.orElse (.list []) with
  | .list items => do
    let texts ← items.mapM requireText
    return " ".intercalate texts
  | .text s => .ok (" ".intercalate (s.toList.map fun c => String.ofList [c]))
  | .dict members => .ok (" ".intercalate (members.map Prod.fst))
  | _ => .error .type

/-- What the rerankers read of a candidate. -/
def candidateOf (parse : String → Option Float) (item : Dict) :
    Except PyError (Candidate Float Dict) := do
  let text ← requireText (item.getOr "text" (.text ""))
  let document_filename ← textOrEmpty (item.getOr "document_filename" (.text ""))
  let tags ← joinedTags (item.getOr "tags" (.list []))
  let score ← (item.getOr "score" (.num 0)).floatOrZero parse
  let sparse_score ← (item.getOr "sparse_score" (.num 0)).floatOrZero parse
  let quality ← (item.getOr "retrieval_quality_score"
    (item.getOr "confidence_score" (.num 0))).floatOrZero parse
  return { item, text, document_filename, tags, score, sparse_score, quality }

/-- The dictionary of a candidate with its new scores. -/
def Reranked.toDict (cand : Reranked Float Dict) : Dict :=
  ((cand.item.set "original_score" (.num cand.score)).set "bm25f_score" (.num cand.bm25f_score)).set
    "score" (.num cand.new_score)

/-- `BM25FReranker.rerank`, with its parameters and what its cache holds. -/
def bm25fRerank (env : Env) (md5 : String → String) (k1 b : Float) (avg_doc_len : ℕ)
    (cache : Cache Float) : Reranker := fun query candidates =>
  if candidates.isEmpty || (queryTerms env query).isEmpty then .ok candidates
  else do
    let cands ← candidates.mapM (candidateOf env.parseFloat)
    match (rerank env (floatArithmetic k1 b avg_doc_len) md5 cache query cands).1 with
    | none => return candidates
    | some result => return result.map Reranked.toDict

/-- `_cosine`. -/
def cosine (a b : List Float) : Float :=
  let dot := ((a.zip b).map fun p => p.1 * p.2).sum
  let na := ((a.map fun x => x * x).sum).sqrt
  let nb := ((b.map fun y => y * y).sum).sqrt
  if na > 0 && nb > 0 then dot / (na * nb) else 0

/-- `cand.get("text", "")[:8000]`. -/
def excerptOf (cand : Dict) : Except PyError String := do
  let text ← requireText (cand.getOr "text" (.text ""))
  return String.ofList (text.toList.take 8000)

/-- A candidate with the score of a model. -/
def modelScore (parse : String → Option Float) (query_vec : List Float) (entry : Dict × List Float) :
    Except PyError Dict := do
  let sim := cosine query_vec entry.2
  let quality ← (entry.1.getOr "retrieval_quality_score"
    (entry.1.getOr "confidence_score" (.num 0))).floatOrZero parse
  let score := if quality > 0 && sim > 0 then (quality * sim).pow 0.5 else pyMax quality sim
  return entry.1.set "score" (.num score)

/-- The vectors of the query and of the candidates. -/
def modelVectors (embed : List String → Except PyError (List (List Float))) (query : String)
    (candidates : List Dict) : Except PyError (List Float × List (List Float)) := do
  let query_vecs ← embed [query]
  let query_vec ← match query_vecs with
    | [] => throw (.other "IndexError")
    | vec :: _ => pure vec
  let texts ← candidates.mapM excerptOf
  let cand_vecs ← embed texts
  return (query_vec, cand_vecs)

/-- `ModelReranker.rerank`. -/
def modelRerank (parse : String → Option Float)
    (embed : Option (List String → Except PyError (List (List Float)))) : Reranker :=
  fun query candidates => match embed with
    | none => .ok candidates
    | some embed =>
      if candidates.isEmpty || query == "" then .ok candidates
      else match modelVectors embed query candidates with
        | .error _ => .ok candidates
        | .ok (query_vec, cand_vecs) => do
          let scored ← (candidates.zip cand_vecs).mapM (modelScore parse query_vec)
          return scored.mergeSort fun a b => !(a.score "score" < b.score "score")

/-- The rerankers. -/
inductive RerankerKind where
  | disabled
  | bm25f (k1 b : Float) (avg_doc_len : ℕ) (cache : Cache Float)
  | model (embed : Option (List String → Except PyError (List (List Float))))

/-- What a reranker does. -/
def RerankerKind.reranker (env : Env) (md5 : String → String) : RerankerKind → Reranker
  | disabled => fun _ candidates => .ok candidates
  | bm25f k1 b avg_doc_len cache => bm25fRerank env md5 k1 b avg_doc_len cache
  | model embed => modelRerank env.parseFloat embed

/-! ## What is kept of a candidate -/

/-- The fields that say what a candidate is and where it is from. -/
def coreFields : List String := ["tenant_id", "workspace_id", "collection_id", "chunk_id", "text"]

/-- The values of these fields. -/
def core (d : Dict) : List (Option Value) := coreFields.map d

variable {field : String} {parse : String → Option Float} {env : Env} {md5 : String → String}

/-- Another field is not one of the core. -/
theorem core_set (d : Dict) (value : Value) (h : field ∉ coreFields) :
    core (d.set field value) = core d := by
  apply List.map_congr_left
  intro f hf
  apply Dict.set_ne
  rintro rfl
  exact h hf

/-- Two candidates with one core have the fields of it. -/
theorem core_eq {d d' : Dict} (h : core d = core d') (hf : field ∈ coreFields) :
    d field = d' field :=
  List.map_inj_left.mp h field hf

/-- New scores are not of the core. -/
theorem core_toDict (cand : Reranked Float Dict) : core cand.toDict = core cand.item := by
  unfold Reranked.toDict
  rw [core_set _ _ (by decide), core_set _ _ (by decide), core_set _ _ (by decide)]

/-- A candidate is read off its dictionary. -/
theorem candidateOf_item {item : Dict} {cand : Candidate Float Dict} (h : candidateOf parse item = .ok cand) :
    cand.item = item := by
  simp only [candidateOf, except_bind_ok, pure, Except.pure, Except.ok.injEq] at h
  obtain ⟨_, _, _, _, _, _, _, _, _, _, _, _, rfl⟩ := h
  rfl

variable {query : String} {candidates result : List Dict}

/-- BM25F returns the candidates that it got. -/
theorem bm25fRerank_perm {k1 b : Float} {avg_doc_len : ℕ} {cache : Cache Float}
    (h : bm25fRerank env md5 k1 b avg_doc_len cache query candidates = .ok result) :
    (result.map core).Perm (candidates.map core) := by
  unfold bm25fRerank at h
  split at h
  · cases h
    exact List.Perm.refl _
  · next hgo =>
    rw [Bool.or_eq_true, not_or] at hgo
    rw [except_bind_ok] at h
    obtain ⟨cands, hcands, hresult⟩ := h
    have hcore : cands.map (fun cand => core cand.item) = candidates.map core := by
      apply mapM_map _ hcands
      intro item cand hcand
      rw [candidateOf_item hcand]
    have hscores : RerankCall.scores env ⟨query, cands⟩ := by
      constructor
      · rintro rfl
        have hnil : candidates.map core = [] := hcore.symm
        rw [List.map_eq_nil_iff] at hnil
        exact hgo.1 (by rw [hnil]; rfl)
      · simpa using hgo.2
    obtain ⟨reranked, hreranked, hperm⟩ := @rerank_perm Float UInt64 Dict env
      (floatArithmetic k1 b avg_doc_len) md5 _ ⟨query, cands⟩ hscores cache
    simp only [hreranked, pure, Except.pure, Except.ok.injEq] at hresult
    have hmap := hperm.map fun cand => core cand.toDict
    rw [List.map_map] at hmap
    have hscored : (fun cand : Reranked Float Dict => core cand.toDict) ∘
        rescore env (floatArithmetic k1 b avg_doc_len) (RerankCall.terms env ⟨query, cands⟩)
          (computeIdf env (floatArithmetic k1 b avg_doc_len) md5 cache
            (RerankCall.terms env ⟨query, cands⟩) (RerankCall.texts ⟨query, cands⟩)).1 =
        fun cand => core cand.item := by
      funext cand
      exact core_toDict _
    rw [hscored] at hmap
    rw [← hresult, List.map_map, ← hcore]
    exact hmap

/-- The first parts of a zip are of the first list. -/
theorem fst_zip_sublist {α β : Type} (l : List α) (l' : List β) :
    ((l.zip l').map Prod.fst).Sublist l := by
  induction l generalizing l' with
  | nil => exact List.Sublist.slnil
  | cons a l ih =>
    cases l' with
    | nil => exact List.nil_sublist _
    | cons b l' => exact (ih l').cons_cons a

/-- The model returns candidates that it got. -/
theorem modelRerank_subperm {embed : Option (List String → Except PyError (List (List Float)))}
    (h : modelRerank parse embed query candidates = .ok result) :
    (result.map core).Subperm (candidates.map core) := by
  unfold modelRerank at h
  cases embed with
  | none =>
    cases h
    exact List.Subperm.refl _
  | some embed =>
    simp only [] at h
    split at h
    · cases h
      exact List.Subperm.refl _
    · split at h
      · cases h
        exact List.Subperm.refl _
      · next query_vec cand_vecs _ =>
        simp only [except_bind_ok, pure, Except.pure, Except.ok.injEq] at h
        obtain ⟨scored, hscored, rfl⟩ := h
        have hcore : scored.map core =
            (candidates.zip cand_vecs).map fun entry => core entry.1 := by
          apply mapM_map _ hscored
          intro entry d hd
          simp only [modelScore, except_bind_ok, pure, Except.pure, Except.ok.injEq] at hd
          obtain ⟨_, _, rfl⟩ := hd
          exact core_set _ _ (by decide)
        have hzip := fst_zip_sublist candidates cand_vecs
        have hsub := (hzip.map core).subperm
        rw [List.map_map] at hsub
        have hperm := ((List.mergeSort_perm scored fun a b =>
          !(a.score "score" < b.score "score")).map core).subperm
        exact hperm.trans (hcore ▸ hsub)

/-- A reranker returns candidates that it got. -/
theorem reranker_subperm (kind : RerankerKind) (h : kind.reranker env md5 query candidates = .ok result) :
    (result.map core).Subperm (candidates.map core) := by
  cases kind with
  | disabled =>
    cases h
    exact List.Subperm.refl _
  | bm25f k1 b avg_doc_len cache => exact (bm25fRerank_perm h).subperm
  | model embed => exact modelRerank_subperm h

end RickIntelligence.Retrieval
