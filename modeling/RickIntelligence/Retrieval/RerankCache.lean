import RickIntelligence.Retrieval.Rerank

/-!
# The cache of the reranker

The cache is keyed by the terms of the query, the number of the texts and the digest of the texts joined
with a separator that a text may have, so two lists of texts may have one key. Every entry holds the
frequencies of a call that came before (`Recorded`), so a call is answered as by a reranker with an empty
cache if the lists of texts that share its key agree on the frequencies of its terms
(`rerank_transparent`).
-/

namespace RickIntelligence.Retrieval

open Lib

variable {ρ κ δ : Type} {env : Env} {A : Arithmetic ρ κ} {md5 : String → String}

/-! ## Terms -/

/-- Sorted terms are sorted already. -/
theorem sortedTerms_sortedTerms (items : List String) :
    sortedTerms (sortedTerms items) = sortedTerms items := by
  have hnodup : (sortedTerms items).Nodup :=
    (List.perm_insertionSort _ _).nodup_iff.mpr (List.nodup_dedup items)
  have hsorted : (sortedTerms items).Pairwise (· ≤ ·) := List.pairwise_insertionSort _ _
  conv_lhs => rw [sortedTerms]
  rw [hnodup.dedup, hsorted.insertionSort_eq]

/-- A dictionary that gives a value to every item of a list. -/
theorem lookup_map_pair {β : Type} (f : String → β) (items : List String) (t : String) :
    (items.map fun item => (item, f item)).lookup t = if t ∈ items then some (f t) else none := by
  induction items with
  | nil => rfl
  | cons item items ih =>
    rw [List.map_cons, List.lookup_cons]
    by_cases ht : t = item
    · simp [ht]
    · rw [beq_false_of_ne ht]
      simp [ih, ht]

/-- The frequency of a term of the query. -/
theorem lookup_freshIdf {query_terms texts : List String} (hne : texts ≠ []) {t : String}
    (ht : t ∈ query_terms) :
    (freshIdf env A query_terms texts).lookup t =
      some (A.idf texts.length (documentFrequency env texts t)) := by
  have hlen : texts.length ≠ 0 := fun h => hne (List.length_eq_zero_iff.mp h)
  have hmem : t ∈ (query_terms ++ texts.flatMap (tokenizeTerms env)).dedup :=
    List.mem_dedup.mpr (List.mem_append_left _ ht)
  unfold freshIdf
  rw [if_neg hlen]
  simp only [lookup_map_pair, if_pos hmem]

/-! ## Scores and frequencies -/

/-- A score depends on the frequencies of the terms alone. -/
theorem fieldScore_congr {terms : List String} {idf idf' : Idf ρ}
    (h : ∀ t ∈ terms, idf.lookup t = idf'.lookup t) (field : RerankField) (field_text : String)
    (doc_len : ℕ) :
    fieldScore env A terms field field_text idf doc_len =
      fieldScore env A terms field field_text idf' doc_len := by
  have hstep : (fun score (entry : String × ℕ) =>
      if terms.contains entry.1 then
        A.add score (A.gain field ((idf.lookup entry.1).getD A.zero)
          ((tokenizeTerms env field_text).count entry.1) doc_len entry.2)
      else score) = fun score (entry : String × ℕ) =>
      if terms.contains entry.1 then
        A.add score (A.gain field ((idf'.lookup entry.1).getD A.zero)
          ((tokenizeTerms env field_text).count entry.1) doc_len entry.2)
      else score := by
    funext score entry
    split
    · next hterm => rw [h entry.1 (List.contains_iff_mem.mp hterm)]
    · rfl
  unfold fieldScore
  simp only [hstep]

/-- New scores depend on the frequencies of the terms alone. -/
theorem rescore_congr {terms : List String} {idf idf' : Idf ρ}
    (h : ∀ t ∈ terms, idf.lookup t = idf'.lookup t) :
    rescore (δ := δ) env A terms idf = rescore env A terms idf' := by
  funext cand
  unfold rescore
  simp only [fieldScore_congr h]

/-! ## Calls -/

/-- A call of `rerank`. -/
structure RerankCall (ρ δ : Type) where
  query : String
  candidates : List (Candidate ρ δ)

/-- The texts of a call. -/
def RerankCall.texts (call : RerankCall ρ δ) : List String := call.candidates.map (·.text)

/-- The call does not return its list as it is. -/
def RerankCall.scores (env : Env) (call : RerankCall ρ δ) : Prop :=
  call.candidates ≠ [] ∧ queryTerms env call.query ≠ []

/-- The sorted terms of a call. -/
def RerankCall.terms (env : Env) (call : RerankCall ρ δ) : List String :=
  sortedTerms (queryTerms env call.query)

variable [DecidableEq κ]

/-- The cache after a sequence of calls. -/
def cacheAfter (env : Env) (A : Arithmetic ρ κ) (md5 : String → String)
    (calls : List (RerankCall ρ δ)) : Cache ρ :=
  calls.foldl (fun cache call => (rerank env A md5 cache call.query call.candidates).2) []

/-- Every entry of the cache holds the frequencies of one of the calls, under its key. -/
def Recorded (env : Env) (A : Arithmetic ρ κ) (md5 : String → String)
    (calls : List (RerankCall ρ δ)) (cache : Cache ρ) : Prop :=
  ∀ entry ∈ cache, ∃ call ∈ calls, call.scores env ∧
    entry = (cacheKey md5 (call.terms env) call.texts, freshIdf env A (call.terms env) call.texts)

/-- What a call that scores does with the cache. -/
theorem rerank_of_scores {call : RerankCall ρ δ} (h : call.scores env) (cache : Cache ρ) :
    rerank env A md5 cache call.query call.candidates =
      (some (regroup (fun cand => A.key cand.score) (sparseFirst A) (scoreSort A
          (call.candidates.map (rescore env A (call.terms env)
            (computeIdf env A md5 cache (call.terms env) call.texts).1)))),
        (computeIdf env A md5 cache (call.terms env) call.texts).2) := by
  have hcandidates : call.candidates.isEmpty = false := by simpa using h.1
  have hterms : (queryTerms env call.query).isEmpty = false := by simpa using h.2
  unfold rerank
  simp only [hcandidates, hterms, Bool.false_eq_true, if_false]
  rfl

/-- A call that scores returns its candidates with their new scores. -/
theorem rerank_perm {call : RerankCall ρ δ} (h : call.scores env) (cache : Cache ρ) :
    ∃ result, (rerank env A md5 cache call.query call.candidates).1 = some result ∧
      result.Perm (call.candidates.map (rescore env A (call.terms env)
        (computeIdf env A md5 cache (call.terms env) call.texts).1)) := by
  rw [rerank_of_scores h]
  refine ⟨_, rfl, ?_⟩
  have horder : ∀ tied : List (Reranked ρ δ), (sparseFirst A tied).Perm tied := fun tied =>
    List.mergeSort_perm tied _
  exact (regroup_perm horder _).trans (List.mergeSort_perm _ _)

/-- What a call that does not score does with the cache. -/
theorem rerank_of_not_scores {call : RerankCall ρ δ} (h : ¬ call.scores env) (cache : Cache ρ) :
    rerank env A md5 cache call.query call.candidates = (none, cache) := by
  unfold rerank
  split
  · rfl
  · next hcandidates =>
    have hterms : (queryTerms env call.query).isEmpty = true := by
      by_contra hterms
      exact h ⟨by simpa using hcandidates, by simpa using hterms⟩
    simp only [hterms, if_true]

/-- One call keeps what is recorded. -/
theorem Recorded.rerank {calls : List (RerankCall ρ δ)} {cache : Cache ρ}
    (h : Recorded env A md5 calls cache) (call : RerankCall ρ δ) :
    Recorded env A md5 (calls ++ [call])
      (Retrieval.rerank env A md5 cache call.query call.candidates).2 := by
  have hold : Recorded env A md5 (calls ++ [call]) cache := by
    intro entry hentry
    obtain ⟨call', hcall', hrest⟩ := h entry hentry
    exact ⟨call', List.mem_append_left _ hcall', hrest⟩
  by_cases hscores : call.scores env
  · rw [rerank_of_scores hscores]
    unfold computeIdf
    split
    · exact hold
    · intro entry hentry
      rcases List.mem_cons.mp hentry with rfl | hentry
      · exact ⟨call, List.mem_append_right _ (List.mem_singleton.mpr rfl), hscores, rfl⟩
      · exact hold entry hentry
  · rw [rerank_of_not_scores hscores]
    exact hold

/-- After any calls the cache holds the frequencies of calls. -/
theorem recorded_cacheAfter (calls : List (RerankCall ρ δ)) :
    Recorded env A md5 calls (cacheAfter env A md5 calls) := by
  induction calls using List.reverseRecOn with
  | nil =>
    intro entry hentry
    cases hentry
  | append_singleton calls call ih =>
    unfold cacheAfter at ih ⊢
    rw [List.foldl_append]
    exact ih.rerank call

/-! ## Transparency -/

/-- The two calls have different terms, numbers of texts or joined texts, or their texts agree on the
frequencies of the terms. -/
def Agrees (env : Env) (earlier call : RerankCall ρ δ) : Prop :=
  earlier.terms env = call.terms env → earlier.texts.length = call.texts.length →
    "\x1f".intercalate earlier.texts = "\x1f".intercalate call.texts →
      ∀ t ∈ call.terms env, documentFrequency env earlier.texts t = documentFrequency env call.texts t

omit [DecidableEq κ] in
/-- The frequencies that a call finds in the cache are its own. -/
theorem lookup_computeIdf (hmd5 : Function.Injective md5) {calls : List (RerankCall ρ δ)}
    {cache : Cache ρ} (hcache : Recorded env A md5 calls cache) {call : RerankCall ρ δ}
    (hscores : call.scores env)
    (h : ∀ earlier ∈ calls, earlier.scores env → Agrees env earlier call) :
    ∀ t ∈ call.terms env, (computeIdf env A md5 cache (call.terms env) call.texts).1.lookup t =
      (freshIdf env A (call.terms env) call.texts).lookup t := by
  intro t ht
  unfold computeIdf
  split
  · next idf hl =>
    obtain ⟨l, r, hlist, -⟩ := List.lookup_eq_some_iff.mp hl
    obtain ⟨earlier, hearlier, hescores, hentry⟩ := hcache (_, idf) (by
      rw [hlist]
      exact List.mem_append_right l List.mem_cons_self)
    obtain ⟨hkey, hidf⟩ := Prod.mk.inj hentry
    obtain ⟨hterms, hrest⟩ := Prod.mk.inj hkey
    obtain ⟨hlength, hdigest⟩ := Prod.mk.inj hrest
    have hsame : earlier.terms env = call.terms env := by
      unfold RerankCall.terms at hterms ⊢
      rw [sortedTerms_sortedTerms, sortedTerms_sortedTerms] at hterms
      exact hterms.symm
    have hfrequency := h earlier hearlier hescores hsame hlength.symm (hmd5 hdigest).symm t ht
    have hearliertexts : earlier.texts ≠ [] := fun hnil => hescores.1 (List.map_eq_nil_iff.mp hnil)
    have htexts : call.texts ≠ [] := fun hnil => hscores.1 (List.map_eq_nil_iff.mp hnil)
    rw [hidf, lookup_freshIdf hearliertexts (hsame ▸ ht), lookup_freshIdf htexts ht, hfrequency,
      hlength]
  · rfl

/-- After any calls, a call is answered as by a reranker that was not used before, if no earlier call
with its key has other frequencies of its terms. -/
theorem rerank_transparent (env : Env) (A : Arithmetic ρ κ) (md5 : String → String)
    (hmd5 : Function.Injective md5) (calls : List (RerankCall ρ δ)) (call : RerankCall ρ δ)
    (h : ∀ earlier ∈ calls, earlier.scores env → Agrees env earlier call) :
    (rerank env A md5 (cacheAfter env A md5 calls) call.query call.candidates).1 =
      (rerank env A md5 [] call.query call.candidates).1 := by
  by_cases hscores : call.scores env
  · have hlookup : ∀ t ∈ call.terms env,
        (computeIdf env A md5 (cacheAfter env A md5 calls) (call.terms env) call.texts).1.lookup t =
          (freshIdf env A (call.terms env) call.texts).lookup t :=
      lookup_computeIdf hmd5 (recorded_cacheAfter calls) hscores h
    have hempty : (computeIdf env A md5 [] (call.terms env) call.texts).1 =
        freshIdf env A (call.terms env) call.texts := rfl
    rw [rerank_of_scores hscores, rerank_of_scores hscores, hempty, rescore_congr hlookup]
  · rw [rerank_of_not_scores hscores, rerank_of_not_scores hscores]

/-! ## A collision -/

/-- The text functions on ASCII. -/
def wordEnv : Env where
  isWord c := isAlnumAscii c || c == '_'
  lower := Lib.lower
  isdigit s := s.toList.all isDigitAscii
  parseFloat _ := none
  format _ := ""
  embed _ := []

/-- Scores that count the texts of the terms. -/
def countOperations : Operations ℕ where
  zero := 0
  one := 1
  add := (· + ·)
  idf _ df := df
  gain _ idf _ _ _ := idf
  geometricMean quality bm25f := quality * bm25f

/-- A candidate with a text. -/
def textCandidate (text : String) : Candidate ℕ Unit := ⟨(), text, "", "", 0, 0, 0⟩

/-- A call with a term that one of its two texts has twice. -/
def twiceInOne : RerankCall ℕ Unit := ⟨"aa", [textCandidate "aa\x1faa", textCandidate "bb"]⟩

/-- A call with the term in both texts, which joined are those of `twiceInOne`. -/
def onceInBoth : RerankCall ℕ Unit := ⟨"aa", [textCandidate "aa", textCandidate "aa\x1fbb"]⟩

/-- After a call without a collision. -/
theorem rerank_transparent_twice :
    (rerank wordEnv countOperations.ordered id
        (cacheAfter wordEnv countOperations.ordered id [twiceInOne]) twiceInOne.query
        twiceInOne.candidates).1 =
      (rerank wordEnv countOperations.ordered id [] twiceInOne.query twiceInOne.candidates).1 := by
  apply rerank_transparent wordEnv countOperations.ordered id Function.injective_id
  intro earlier hearlier _
  rw [List.mem_singleton.mp hearlier]
  intro _ _ _ t _
  rfl

/-- After a call with a collision the scores are other ones. -/
theorem rerank_collision_ne :
    (rerank wordEnv countOperations.ordered id
        (cacheAfter wordEnv countOperations.ordered id [twiceInOne]) onceInBoth.query
        onceInBoth.candidates).1 ≠
      (rerank wordEnv countOperations.ordered id [] onceInBoth.query onceInBoth.candidates).1 := by
  intro hsame
  have hscores : onceInBoth.scores wordEnv := by
    unfold RerankCall.scores
    decide +kernel
  have hreturns := @rerank_perm ℕ ℕ Unit wordEnv countOperations.ordered id _ onceInBoth hscores
  obtain ⟨result, hresult, hperm⟩ :=
    hreturns (cacheAfter wordEnv countOperations.ordered id [twiceInOne])
  obtain ⟨result', hresult', hperm'⟩ := hreturns []
  rw [hresult, hresult', Option.some.injEq] at hsame
  subst hsame
  have hmap := (hperm.symm.trans hperm').map (·.bm25f_score)
  revert hmap
  decide +kernel

end RickIntelligence.Retrieval
