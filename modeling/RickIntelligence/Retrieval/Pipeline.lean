import RickIntelligence.Lib.Text
import RickIntelligence.Retrieval.Fusion

/-!
# The retrieval pipeline

`RetrievalEngine.retrieve` searches in the primary backend, or in the fallback if that finds nothing,
drops the candidates outside of the caller's scope, fuses the two legs, drops duplicates, ranks, and
selects evidence within a budget of characters.

`select` is what follows the search. What the pipeline takes from outside is in `Env`: the text
functions of the standard library on characters outside of ASCII, the embedding, and the formatting
of values.
-/

namespace RickIntelligence.Retrieval

open Lib

/-- What the pipeline takes from outside: `\w` of `re`, `str.lower`, `str.isdigit`, what `float` makes
of a text, `str` of a value, and the embedding of a query. -/
structure Env where
  isWord : Char → Bool
  lower : String → String
  isdigit : String → Bool
  parseFloat : String → Option Float
  format : Value → String
  embed : String → List Float

/-! ## Text -/

/-- The text with every run of spaces as one space; the flag says that the last character was one. -/
def collapseSpaces : Bool → List Char → List Char
  | _, [] => []
  | spaced, c :: cs =>
    if isSpace c then
      if spaced then collapseSpaces true cs else ' ' :: collapseSpaces true cs
    else c :: collapseSpaces false cs

/-- `normalize_query`, with its default of 2000 characters. -/
def normalizeQuery (query : String) : Except PyError String :=
  let cleaned := strip (String.ofList (collapseSpaces false query.toList))
  if cleaned = "" then .error (.value "empty query")
  else .ok (String.ofList (cleaned.toList.take 2000))

/-- `MEANINGLESS_QUERY_TOKENS`. -/
def meaninglessQueryTokens : List String :=
  ["a", "ao", "aos", "as", "ate", "até", "com", "como", "da", "das", "de", "do", "dos",
    "e", "em", "essa", "esse", "esta", "este", "foi", "na", "nas", "no", "nos", "o", "os",
    "ou", "para", "por", "qual", "quais", "quando", "quanto", "que", "se", "sem", "ser",
    "sao", "são", "sua", "suas", "seu", "seus", "uma", "um", "usa", "usada", "usado",
    "utiliza", "utilizado"]

/-- `LOW_SIGNAL_DOMAIN_TOKENS`. -/
def lowSignalDomainTokens : List String :=
  ["animal", "animais", "paciente", "pacientes",
    "gato", "gatos", "felino", "felinos", "cat", "cats", "feline", "felines",
    "cao", "caes", "cão", "cães", "cachorro", "cachorros", "cachorra", "cachorras",
    "canino", "caninos", "dog", "dogs", "canine", "canines",
    "sintoma", "sintomas", "sinal", "sinais",
    "doenca", "doenças", "doença", "doencas",
    "protocolo", "protocolos", "protocol", "protocols", "approach", "management"]

/-- The runs of word characters of a text, from a run that has begun. -/
def wordRuns (isWord : Char → Bool) : List Char → List Char → List (List Char)
  | run, [] => [run]
  | run, c :: cs => if isWord c then wordRuns isWord (run ++ [c]) cs else run :: wordRuns isWord [] cs

/-- `tokenize_terms`, with its default of two characters. -/
def tokenizeTerms (env : Env) (text : String) : List String :=
  (((wordRuns env.isWord [] (env.lower text).toList).filter fun run => 2 ≤ run.length).map
    String.ofList).filter fun token => !meaninglessQueryTokens.contains token

/-- `content_query_terms`. -/
def contentQueryTerms (env : Env) (text : String) : List String :=
  ((tokenizeTerms env text).filter fun t =>
    !lowSignalDomainTokens.contains t && !env.isdigit t).dedup

/-- `text or ""` of a value that is read as text. -/
def textOrEmpty (v : Value) : Except PyError String :=
  match v.orElse (.text "") with
  | .text s => .ok s
  | _ => .error .attribute

/-! ## Quality -/

/-- `_lexical_diversity_ratio`. -/
def lexicalDiversityRatio (env : Env) (text : String) : Float :=
  let tokens := tokenizeTerms env text
  if tokens.length < 20 then 1 else Float.ofNat tokens.dedup.length / Float.ofNat tokens.length

/-- Two lists of terms have one in common. -/
def intersects (a b : List String) : Bool := a.any b.contains

/-- `_has_minimal_support`. -/
def hasMinimalSupport (env : Env) (query text : String) : Bool :=
  let content_terms := contentQueryTerms env query
  let text_terms := tokenizeTerms env text
  if !content_terms.isEmpty then intersects content_terms text_terms
  else
    let non_numeric := (tokenizeTerms env query).filter fun t => !env.isdigit t
    non_numeric.isEmpty || intersects non_numeric (text_terms.filter fun t => !env.isdigit t)

/-- `_query_term_coverage`. -/
def queryTermCoverage (env : Env) (query text : String) : Float :=
  let content := contentQueryTerms env query
  let terms := if content.isEmpty then (tokenizeTerms env query).dedup else content
  if terms.isEmpty then 0
  else Float.ofNat (terms.filter (tokenizeTerms env text).contains).length / Float.ofNat terms.length

/-- `min(a, b)`. -/
def pyMin (a b : Float) : Float := if b < a then b else a

/-- `max(0.0, min(1.0, x))`. -/
def clamp (x : Float) : Float := pyMax 0 (pyMin 1 x)

/-- `retrieval_quality_score`, of a query that is not empty. -/
def retrievalQualityScore (env : Env) (item : Dict) (query : String) : Except PyError Float := do
  let dense := clamp (← (item.getOr "dense_score" (.num 0)).floatOrZero env.parseFloat)
  let raw_sparse ← (item.getOr "sparse_score" (.num 0)).floatOrZero env.parseFloat
  let sparse := match item.get "text" with
    | .text s =>
      if raw_sparse > 0 then queryTermCoverage env query s else clamp (Float.tanh (raw_sparse / 4))
    | _ => clamp (Float.tanh (raw_sparse / 4))
  let rrf := clamp (Float.tanh ((← (item.getOr "score" (.num 0)).floatOrZero env.parseFloat) * 30))
  let text ← textOrEmpty (item.getOr "text" (.text ""))
  let diversity := lexicalDiversityRatio env text
  let support := hasMinimalSupport env query text
  if dense <= 0 && sparse <= 0 then return clamp rrf
  if dense > 0 && sparse > 0 then
    let combined := pyMax dense sparse + pyMin dense sparse * 0.15 + rrf * 0.10
    if sparse > 0 && !support && dense < 0.55 then return clamp (pyMin combined 0.19)
    return clamp combined
  let score := pyMax dense sparse
  if dense > 0 && sparse <= 0 && diversity < 0.2 then
    return clamp (score * pyMax 0.1 (diversity / 0.2) + rrf * 0.10)
  if sparse > 0 && !support && dense < 0.55 then return clamp (pyMin score 0.19)
  return clamp (score + rrf * 0.10)

/-! ## Scope and duplicates -/

/-- What a caller may see. -/
structure SearchScope where
  workspace_id : String
  allowed : List String
  tenant_id : String

/-- The value is the text. -/
def isText (s : String) : Value → Bool
  | .text t => t == s
  | _ => false

/-- `_in_scope`. -/
def inScope (scope : SearchScope) (chunk : Dict) : Bool :=
  isText scope.tenant_id (chunk.get "tenant_id") && isText scope.workspace_id (chunk.get "workspace_id") &&
    match chunk.get "collection_id" with
    | .text collection =>
      collection != "" && (scope.allowed.contains "*" || scope.allowed.contains collection)
    | _ => false

/-- The fingerprint of a candidate in `dedupe_candidates`: its document, and how its text begins. -/
def fingerprint (cand : Dict) : Except PyError (Value × String) := do
  let document_id := cand.get "document_id"
  match (cand.getOr "text" (.text "")).orElse (.text "") with
  | .text s =>
    if document_id.hashable then return (document_id, String.ofList (s.toList.take 120))
    else throw .type
  | _ => throw .type

/-- One candidate of `dedupe_candidates`: it is kept unless its fingerprint was seen. -/
def dedupeStep (state : List (Value × String) × List Dict) (cand : Dict) :
    Except PyError (List (Value × String) × List Dict) := do
  let (seen, out) := state
  let (document_id, text) ← fingerprint cand
  if seen.any fun f => f.1.equals document_id && f.2 == text then return (seen, out)
  else return (seen ++ [(document_id, text)], out ++ [cand])

/-- `dedupe_candidates`. -/
def dedupeCandidates (candidates : List Dict) : Except PyError (List Dict) := do
  let (_, out) ← candidates.foldlM dedupeStep ([], [])
  return out

/-! ## Ranking and selection -/

/-- `RetrievalOptions`, with what `__post_init__` checks. -/
structure RetrievalOptions where
  top_k : ℕ
  rerank : Bool
  max_context_chars : ℕ
  candidate_multiplier : ℕ
  top_k_range : 1 ≤ top_k ∧ top_k ≤ 100
  max_context_chars_range : 1 ≤ max_context_chars ∧ max_context_chars ≤ 1000000
  candidate_multiplier_range : 1 ≤ candidate_multiplier ∧ candidate_multiplier ≤ 100

/-- A reranker. -/
abbrev Reranker := String → List Dict → Except PyError (List Dict)

/-- The item with its quality. -/
def withQuality (env : Env) (query : String) (item : Dict) : Except PyError Dict := do
  let quality ← retrievalQualityScore env item query
  return (item.set "retrieval_quality_score" (.num quality)).set "confidence_score" (.num quality)

/-- `<` on what the items are ranked by: the score, whether the sparse leg has found the item, and
its quality. -/
def rankLt (a b : Dict) : Bool :=
  if a.score "score" != b.score "score" then a.score "score" < b.score "score"
  else if decide (a.score "sparse_score" > 0) != decide (b.score "sparse_score" > 0) then
    b.score "sparse_score" > 0
  else a.score "retrieval_quality_score" < b.score "retrieval_quality_score"

/-- An entry of the evidence. -/
structure Evidence where
  evidence_id : String
  document_id : Value
  chunk_id : Value
  workspace_id : Value
  tenant_id : Value
  collection_id : Value
  text : String
  source : Value
  title : Value
  page_start : Value
  page_end : Value
  section_name : Value
  checksum : Value
  document_version : Value
  score : Float
  rank : ℕ
  dense_score : Float
  sparse_score : Float

/-- The evidence of an item, with the part of its text that is selected. -/
def evidenceOf (env : Env) (item : Dict) (text : String) (rank : ℕ) : Except PyError Evidence := do
  let score ← (item.getOr "score" (.num 0)).floatOrZero env.parseFloat
  let dense_score ← (item.getOr "dense_score" (.num 0)).floatOrZero env.parseFloat
  let sparse_score ← (item.getOr "sparse_score" (.num 0)).floatOrZero env.parseFloat
  return {
    evidence_id := "ev-" ++ env.format (item.get "chunk_id")
    document_id := item.get "document_id"
    chunk_id := item.get "chunk_id"
    workspace_id := item.get "workspace_id"
    tenant_id := item.get "tenant_id"
    collection_id := (item.get "collection_id").orElse (.text "rag_phase0")
    text
    source := ((item.get "document_filename").orElse (item.get "source")).orElse (.text "")
    title := (item.get "title").orElse (.text "")
    page_start := item.get "page_start"
    page_end := item.getOr "page_end" (item.get "page_start")
    section_name := item.get "section"
    checksum := (item.get "checksum").orElse (.text "")
    document_version := (item.get "document_version").orElse .none
    score
    rank
    dense_score
    sparse_score }

/-- The selection under a budget of characters, from the item of a rank on. -/
def selectEvidence (env : Env) : List Dict → ℕ → ℕ → Except PyError (List Evidence)
  | [], _, _ => return []
  | item :: items, rank, budget =>
    if budget = 0 then return []
    else match item.getOr "text" (.text "") with
      | .text s =>
        let text := s.toList.take budget
        if text.isEmpty then selectEvidence env items (rank + 1) budget
        else do
          let evidence ← evidenceOf env item (String.ofList text) rank
          let rest ← selectEvidence env items (rank + 1) (budget - text.length)
          return evidence :: rest
      | _ => selectEvidence env items (rank + 1) budget

/-- The ranked items of the candidates that are in scope. -/
def rankCandidates (env : Env) (scope : SearchScope) (query : String) (dense sparse : List Dict) :
    Except PyError (List Dict) := do
  let fused ← rrfFusion env.parseFloat dense sparse 60
  let fused ← dedupeCandidates (fused.filter (inScope scope))
  let fused ← fused.mapM (withQuality env query)
  return fused.mergeSort fun a b => !rankLt a b

/-- What follows the search: the evidence, and the number of candidates. -/
def select (env : Env) (scope : SearchScope) (query : String) (options : RetrievalOptions)
    (reranker : Reranker) (dense sparse : List Dict) : Except PyError (List Evidence × ℕ) := do
  let dense := dense.filter (inScope scope)
  let sparse := sparse.filter (inScope scope)
  let fused ← rankCandidates env scope query dense sparse
  let fused ← if options.rerank then do
      let reranked ← reranker query fused
      pure (reranked.filter (inScope scope))
    else pure fused
  let evidence ← selectEvidence env (fused.take options.top_k) 0 options.max_context_chars
  return (evidence, fused.length)

/-! ## Search -/

/-- What a backend is asked. -/
structure SearchRequest where
  query : String
  query_vector : List Float
  scope : SearchScope
  chunks : List Dict
  limit : ℕ

/-- What a backend finds. A pair of lists has no name of the backend and no metadata. -/
structure SearchResult where
  dense : List Dict
  sparse : List Dict
  backend : Option String
  fallback_used : Bool
  metadata : List (String × Value)

/-- A backend. -/
structure Backend where
  name : String
  search : SearchRequest → Except PyError SearchResult

/-- `RetrievalEngine`, with the index that is attached to it. -/
structure Engine where
  backend : Backend
  fallback : Option Backend
  reranker : Reranker
  index : List Dict

/-- The parts of a `RetrievalContext` that `retrieve` reads. -/
structure RetrievalContext where
  workspace_id : Option String
  tenant_id : Option String
  allowed_collection_ids : Option (List String)

/-- `RetrievalResult`. -/
structure RetrievalResult where
  query : String
  evidence : List Evidence
  candidate_count : ℕ
  selected_count : ℕ
  backend : String
  fallback_used : Bool
  metadata : List (String × Value)

/-- The metadata with other metadata over it. -/
def overlay (base upper : List (String × Value)) : List (String × Value) :=
  base.map (fun m => (m.1, (upper.lookup m.1).getD m.2)) ++
    upper.filter fun m => (base.lookup m.1).isNone

/-- What `retrieve` does before it searches: the normalized query, and the request unless no
collection is allowed. -/
def request (env : Env) (engine : Engine) (query : String) (context : RetrievalContext)
    (options : RetrievalOptions) : Except PyError (String × Option SearchRequest) := do
  let normalized ← normalizeQuery query
  let workspace_id ← match context.workspace_id with
    | some w => pure w
    | none => throw (.key "workspace_id")
  let tenant_id := strip (context.tenant_id.getD "")
  if tenant_id = "" then throw (.value "tenant_id is required")
  let allowed := context.allowed_collection_ids.getD []
  if allowed.isEmpty then return (normalized, none)
  else return (normalized, some ⟨normalized, env.embed normalized, ⟨workspace_id, allowed, tenant_id⟩,
    engine.index, max (options.top_k * options.candidate_multiplier) 20⟩)

/-- The search in the primary backend, and in the fallback if nothing is found. -/
def search (engine : Engine) (req : SearchRequest) : Except PyError SearchResult := do
  let (primary, unavailable) ← match engine.backend.search req with
    | .ok found =>
      pure ({ found with backend := found.backend <|> some engine.backend.name }, false)
    | .error .hybridUnavailable =>
      if engine.fallback.isNone then throw .hybridUnavailable
      else pure (⟨[], [], some engine.backend.name, false, []⟩, true)
    | .error e => throw e
  match engine.fallback with
  | none => return primary
  | some fallback =>
    if primary.dense.isEmpty && primary.sparse.isEmpty then do
      let found ← fallback.search req
      let reason := if unavailable then "primary_unavailable" else "empty_primary"
      return { found with
        backend := found.backend <|> some fallback.name
        fallback_used := true
        metadata := overlay [("primary_backend", .text (primary.backend.getD "")),
          ("primary_observation", .dict primary.metadata), ("fallback_reason", .text reason)]
          found.metadata }
    else return primary

/-- `RetrievalEngine.retrieve`. -/
def retrieve (env : Env) (engine : Engine) (query : String) (context : RetrievalContext)
    (options : RetrievalOptions) : Except PyError RetrievalResult := do
  let (normalized, req) ← request env engine query context options
  match req with
  | none =>
    return ⟨normalized, [], 0, 0, engine.backend.name, false,
      [("authorization", .text "empty_scope")]⟩
  | some req =>
    let found ← search engine req
    let (evidence, candidate_count) ←
      select env req.scope normalized options engine.reranker found.dense found.sparse
    return ⟨normalized, evidence, candidate_count, evidence.length, found.backend.getD "",
      found.fallback_used, found.metadata⟩

end RickIntelligence.Retrieval
