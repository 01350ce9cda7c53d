import RickIntelligence.Lib.Regroup
import RickIntelligence.Retrieval.Pipeline

/-!
# Reranking

`BM25FReranker` of `rick_retrieval/rerank.py`. A candidate gets a new score from the terms of the query
that its fields have; the candidates are sorted by it, and those that had one score before are put with
the ones that the sparse leg has found first, at the positions that they have together.

The frequencies of the terms are kept in a cache, under the terms, the number of the texts and a digest
of the texts joined.

Numbers are of any type. What is computed with them is in `Operations`, and the comparisons of scores
are in `Arithmetic`: those of an order (`Operations.ordered`), or those of floats
(`floatArithmetic`).
-/

namespace RickIntelligence.Retrieval

open Lib

/-! ## Arithmetic -/

/-- A field of a candidate that is scored. -/
inductive RerankField where
  | body
  | filename
  | tags
  deriving DecidableEq, Repr

/-- What is computed with scores. -/
structure Operations (ρ : Type) where
  zero : ρ
  one : ρ
  add : ρ → ρ → ρ
  /-- `math.log((n - df + 0.5) / (df + 0.5) + 1.0)`, of `n` and `df`. -/
  idf : ℕ → ℕ → ρ
  /-- `idf * tf_norm * pos * weight`, of the field, `idf`, `tf`, `doc_len` and `rank`. -/
  gain : RerankField → ρ → ℕ → ℕ → ℕ → ρ
  /-- `(quality * bm25f) ** 0.5`. -/
  geometricMean : ρ → ρ → ρ

/-- Scores that are compared, and that are the keys of a dictionary. -/
structure Arithmetic (ρ κ : Type) extends Operations ρ where
  lt : ρ → ρ → Bool
  key : ρ → κ

/-- Scores that are compared by an order. -/
def Operations.ordered {ρ : Type} [LinearOrder ρ] (ops : Operations ρ) : Arithmetic ρ ρ :=
  { ops with
    lt := fun a b => decide (a < b)
    key := id }

/-- The arithmetic of `BM25FReranker` on floats. Two floats are one key of a dictionary if they have
the same bits, or both are zeros. -/
def floatArithmetic (k1 b : Float) (avg_doc_len : ℕ) : Arithmetic Float UInt64 where
  zero := 0
  one := 1
  add := (· + ·)
  idf n df := Float.log ((Float.ofNat n - Float.ofNat df + 0.5) / (Float.ofNat df + 0.5) + 1.0)
  gain field idf tf doc_len rank :=
    let tf := Float.ofNat tf
    let tf_norm := (tf * (k1 + 1)) /
      (tf + k1 * (1 - b + b * Float.ofNat doc_len / Float.ofNat (max avg_doc_len 1)))
    let pos := match field with
      | .body => 1.0 / Float.ofNat (rank + 1)
      | .filename | .tags => 1.0
    let weight := match field with
      | .body => 1.0
      | .filename => 0.3
      | .tags => 0.2
    idf * tf_norm * pos * weight
  geometricMean quality bm25f := (quality * bm25f).pow 0.5
  lt x y := x < y
  key x := if x == 0 then 0 else x.toBits

/-! ## Candidates -/

/-- What the reranker reads of a candidate, besides the candidate itself: its text, its filename and
its tags joined, or `""` for them; its fused score and the score of the sparse leg, or `0.0`; and the
quality of the retrieval. -/
structure Candidate (ρ δ : Type) where
  item : δ
  text : String
  document_filename : String
  tags : String
  score : ρ
  sparse_score : ρ
  quality : ρ
  deriving DecidableEq

/-- `new_cand`: a candidate with its new scores. Its score of before is `original_score`. -/
structure Reranked (ρ δ : Type) extends Candidate ρ δ where
  bm25f_score : ρ
  new_score : ρ
  deriving DecidableEq

/-- `sorted(set(items))`. -/
def sortedTerms (items : List String) : List String := items.dedup.insertionSort (· ≤ ·)

/-- `content_query_terms(query) or set(tokenize_terms(query))`. -/
def queryTerms (env : Env) (query : String) : List String :=
  let content := contentQueryTerms env query
  if content.isEmpty then (tokenizeTerms env query).dedup else content

/-- `len(text.split())`. -/
def wordCount (text : String) : ℕ :=
  ((wordRuns (fun c => !isSpace c) [] text.toList).filter fun run => !run.isEmpty).length

section Reranker

variable {ρ κ δ : Type} [DecidableEq κ] (env : Env) (A : Arithmetic ρ κ) (md5 : String → String)

/-! ## Frequencies -/

/-- The number of the texts that have a term. -/
def documentFrequency (texts : List String) (term : String) : ℕ :=
  (texts.filter fun text => (tokenizeTerms env text).contains term).length

/-- A dictionary of inverse document frequencies. -/
abbrev Idf (ρ : Type) := List (String × ρ)

/-- The frequencies that `_compute_idf` computes. -/
def freshIdf (query_terms texts : List String) : Idf ρ :=
  if texts.length = 0 then query_terms.map fun t => (t, A.one)
  else
    let terms := (query_terms ++ texts.flatMap (tokenizeTerms env)).dedup
    terms.map fun term => (term, A.idf texts.length (documentFrequency env texts term))

/-- The key of the cache: the terms, the number of the texts, and their digest. -/
abbrev CacheKey := List String × ℕ × String

/-- `cache_key`. -/
def cacheKey (query_terms texts : List String) : CacheKey :=
  (sortedTerms query_terms, texts.length, md5 ("\x1f".intercalate texts))

/-- `_idf_cache`. -/
abbrev Cache (ρ : Type) := List (CacheKey × Idf ρ)

/-- `_compute_idf`: the frequencies, and the cache after it. -/
def computeIdf (cache : Cache ρ) (query_terms texts : List String) : Idf ρ × Cache ρ :=
  match cache.lookup (cacheKey md5 query_terms texts) with
  | some idf => (idf, cache)
  | none =>
    let idf := freshIdf env A query_terms texts
    (idf, (cacheKey md5 query_terms texts, idf) :: cache)

/-! ## Scores -/

/-- `_field_score`. -/
def fieldScore (terms : List String) (field : RerankField) (field_text : String) (idf : Idf ρ)
    (doc_len : ℕ) : ρ :=
  let field_terms := tokenizeTerms env field_text
  field_terms.zipIdx.foldl (fun score entry =>
    if terms.contains entry.1 then
      A.add score (A.gain field ((idf.lookup entry.1).getD A.zero) (field_terms.count entry.1) doc_len
        entry.2)
    else score) A.zero

/-- The candidate with its new scores. -/
def rescore (terms : List String) (idf : Idf ρ) (cand : Candidate ρ δ) : Reranked ρ δ :=
  let body := fieldScore env A terms .body cand.text idf (wordCount cand.text)
  let fname := fieldScore env A terms .filename cand.document_filename idf
    (max (wordCount cand.document_filename) 1)
  let tag_score := fieldScore env A terms .tags cand.tags idf (max (wordCount cand.tags) 1)
  let bm25f := A.add (A.add body fname) tag_score
  { cand with
    bm25f_score := bm25f
    new_score :=
      if A.lt A.zero cand.quality && A.lt A.zero bm25f then A.geometricMean cand.quality bm25f
      else if A.lt cand.quality bm25f then bm25f else cand.quality }

/-- `<` on the new score and the one of before. -/
def scoreLt (a b : Reranked ρ δ) : Bool :=
  A.lt a.new_score b.new_score ||
    (!A.lt b.new_score a.new_score && A.lt a.score b.score)

/-- The candidates by their scores, the highest first. -/
def scoreSort (scored : List (Reranked ρ δ)) : List (Reranked ρ δ) :=
  scored.mergeSort fun a b => !scoreLt A a b

/-- The sparse leg has found the candidate. -/
def inSparse (cand : Reranked ρ δ) : Bool := A.lt A.zero cand.sparse_score

/-- The candidates with those of the sparse leg first. -/
def sparseFirst (tied : List (Reranked ρ δ)) : List (Reranked ρ δ) :=
  tied.mergeSort fun a b => inSparse A a || !inSparse A b

/-- `rerank`: the candidates with new scores in their new order, or nothing if the list is returned
as it is; and the cache after it. -/
def rerank (cache : Cache ρ) (query : String) (candidates : List (Candidate ρ δ)) :
    Option (List (Reranked ρ δ)) × Cache ρ :=
  if candidates.isEmpty then (none, cache)
  else
    let query_terms := queryTerms env query
    if query_terms.isEmpty then (none, cache)
    else
      let terms := sortedTerms query_terms
      let (idf, cache) := computeIdf env A md5 cache terms (candidates.map (·.text))
      let scored := scoreSort A (candidates.map (rescore env A terms idf))
      (some (regroup (fun cand => A.key cand.score) (sparseFirst A) scored), cache)

/-- The list that `rerank` returns, without the new scores. -/
def returned (candidates : List (Candidate ρ δ)) :
    Option (List (Reranked ρ δ)) → List (Candidate ρ δ)
  | none => candidates
  | some result => result.map (·.toCandidate)

end Reranker

end RickIntelligence.Retrieval
