import RickIntelligence.Lib.Validated
import RickIntelligence.Retrieval.Pipeline

/-!
# Foreign candidates

The pipeline drops the candidates outside of the caller's scope before it fuses, so that they have no
influence on scores, order or provenance. They have one on the choice of the backend: the fallback is
asked if the primary backend finds nothing at all, and a foreign candidate is something.

`retrieve_same_iff` says when two results of the primary backend with the same candidates in scope
lead to the same evidence.
-/

namespace RickIntelligence.Retrieval

open Lib

/-! ## Items stay in scope -/

section Scope

variable {scope : SearchScope} {d target result : Dict}

/-- A chunk is in scope if it names the tenant, the workspace and an allowed collection. -/
theorem inScope_iff : inScope scope d = true ↔
    d "tenant_id" = some (.text scope.tenant_id) ∧
    d "workspace_id" = some (.text scope.workspace_id) ∧
    ∃ c, d "collection_id" = some (.text c) ∧ c ≠ "" ∧
      (scope.allowed.contains "*" || scope.allowed.contains c) = true := by
  have htext : ∀ (s : String) (v : Option Value),
      isText s (v.getD .none) = true ↔ v = some (.text s) := by
    intro s v
    rcases v with _ | v
    · simp [isText]
    · cases v <;> simp [isText]
  unfold inScope Dict.get
  rw [Bool.and_eq_true, Bool.and_eq_true, htext, htext, and_assoc]
  refine and_congr_right fun _ => and_congr_right fun _ => ?_
  rcases d "collection_id" with _ | v
  · simp
  · cases v <;> simp

/-- The scope of a chunk is in three of its fields. -/
theorem inScope_congr {d' : Dict} (htenant : d' "tenant_id" = d "tenant_id")
    (hworkspace : d' "workspace_id" = d "workspace_id")
    (hcollection : d' "collection_id" = d "collection_id") : inScope scope d' = inScope scope d := by
  unfold inScope Dict.get
  rw [htenant, hworkspace, hcollection]

/-- A score does not change the scope. -/
theorem inScope_set {field : String} (value : Value) (hfield : field ∈ scoreFields) :
    inScope scope (d.set field value) = inScope scope d := by
  have hne : ∀ f ∈ ["tenant_id", "workspace_id", "collection_id"], f ≠ field := by
    intro f hf heq
    subst heq
    revert hfield
    revert hf
    revert f
    decide
  exact inScope_congr (Dict.set_ne d value (hne _ (by simp))) (Dict.set_ne d value (hne _ (by simp)))
    (Dict.set_ne d value (hne _ (by simp)))

/-- The item of a chunk in scope is in scope. -/
theorem inScope_blank (chunk_id : Value) (h : inScope scope result = true) :
    inScope scope (blank result chunk_id) = true := by
  obtain ⟨htenant, hworkspace, c, hcollection, hc, hallowed⟩ := inScope_iff.mp h
  have htruthy : (Value.text c).truthy = true := by simpa [Value.truthy] using hc
  refine inScope_iff.mpr ⟨?_, ?_, c, ?_, hc, hallowed⟩
  · simp [blank, Dict.set_ne, Dict.setDefault_ne, ite_apply, htenant]
  · simp [blank, Dict.set_ne, Dict.setDefault, ite_apply, hworkspace]
  · simp [blank, Dict.set_ne, Dict.setDefault_ne, Dict.get, ite_apply, hcollection, htruthy]

/-- What is filled in from a chunk in scope keeps an item in scope. -/
theorem inScope_mergeProvenance (h : inScope scope target = true)
    (hresult : inScope scope result = true) :
    inScope scope (mergeProvenance target result) = true := by
  obtain ⟨htenant, hworkspace, c, hcollection, hc, -⟩ := inScope_iff.mp h
  obtain ⟨htenant', hworkspace', -⟩ := inScope_iff.mp hresult
  rw [← h]
  apply inScope_congr
  · simp [mergeProvenance, scoreFields, htenant, htenant', Dict.get]
  · simp [mergeProvenance, scoreFields, hworkspace, hworkspace', Dict.get]
  · have hvalue : (Value.text c).hasValue = true := by simpa [Value.hasValue] using hc
    simp only [mergeProvenance, Dict.get, hcollection, Option.getD_some, hvalue, Bool.not_true,
      Bool.false_and, Bool.false_eq_true, if_false]
    split
    · rfl
    · cases result "collection_id" with
      | none => rfl
      | some value => rfl

/-- The last repairs of an item are not of its scope. -/
theorem inScope_finalizeProvenance (scope : SearchScope) (d : Dict) :
    inScope scope (finalizeProvenance d) = inScope scope d := by
  have hkept : ∀ f ∈ ["tenant_id", "workspace_id", "collection_id"], finalizeProvenance d f = d f := by
    intro f hf
    have hne : f ≠ "page_start" ∧ f ≠ "page_end" ∧ f ≠ "source" ∧ f ≠ "document_filename" ∧
        f ≠ "title" := by
      revert f
      decide
    simp [finalizeProvenance, Dict.fill_ne, hne]
  exact inScope_congr (hkept _ (by simp)) (hkept _ (by simp)) (hkept _ (by simp))

/-! ## Fusion keeps candidates -/

/-- The items are in scope. -/
def AllInScope (scope : SearchScope) (scores : Scores) : Prop :=
  ∀ entry ∈ scores, inScope scope entry.2 = true

variable {scores scores' : Scores} {parse : String → Option Float} {k : ℕ}

variable {chunk_id : Value} {item : Dict} {rank : ℕ} {dense sparse items : List Dict}

/-- An item that is put is there, beside items that were there. -/
theorem mem_put {entry : Value × Dict} (h : entry ∈ Scores.put scores chunk_id item) :
    entry.2 = item ∨ entry ∈ scores := by
  induction scores with
  | nil =>
    rw [List.mem_singleton.mp h]
    exact .inl rfl
  | cons old rest ih =>
    unfold Scores.put at h
    split at h
    · rcases List.mem_cons.mp h with rfl | hold
      · exact .inl rfl
      · exact .inr (List.mem_cons_of_mem _ hold)
    · rcases List.mem_cons.mp h with rfl | hrest
      · exact .inr List.mem_cons_self
      · exact (ih hrest).imp id fun hold => List.mem_cons_of_mem _ hold

/-- There is an item after one is put. -/
theorem put_ne_nil (scores : Scores) (chunk_id : Value) (item : Dict) :
    Scores.put scores chunk_id item ≠ [] := by
  cases scores with
  | nil => exact List.cons_ne_nil _ _
  | cons old rest =>
    unfold Scores.put
    split <;> exact List.cons_ne_nil _ _

/-- The item of a chunk is one of the items. -/
theorem item_inScope (h : AllInScope scope scores) (hitem : Scores.item? scores chunk_id = some item) :
    inScope scope item = true := by
  obtain ⟨entry, hentry, rfl⟩ := Option.map_eq_some_iff.mp hitem
  exact h entry (List.mem_of_find?_eq_some hentry)

/-- A row of the dense leg leaves items in scope, and at least one. -/
theorem addDense_inScope (hscores : AllInScope scope scores) (hresult : inScope scope result = true)
    (h : addDense parse k scores (result, rank) = .ok scores') :
    AllInScope scope scores' ∧ scores' ≠ [] := by
  simp only [addDense, except_bind_ok, pure, Except.pure, Except.ok.injEq] at h
  obtain ⟨chunk_id, -, dense, -, rfl⟩ := h
  refine ⟨fun entry hentry => ?_, put_ne_nil _ _ _⟩
  rcases mem_put hentry with hnew | hold
  · rw [hnew, inScope_set _ (by simp [scoreFields]), inScope_set _ (by simp [scoreFields])]
    split
    · exact inScope_blank chunk_id hresult
    · next target htarget => exact inScope_mergeProvenance (item_inScope hscores htarget) hresult
  · exact hscores entry hold

/-- A row of the sparse leg leaves items in scope, and at least one. -/
theorem addSparse_inScope (hscores : AllInScope scope scores) (hresult : inScope scope result = true)
    (h : addSparse parse k scores (result, rank) = .ok scores') :
    AllInScope scope scores' ∧ scores' ≠ [] := by
  simp only [addSparse, except_bind_ok, pure, Except.pure, Except.ok.injEq] at h
  obtain ⟨chunk_id, -, sparse, -, rfl⟩ := h
  refine ⟨fun entry hentry => ?_, put_ne_nil _ _ _⟩
  rcases mem_put hentry with hnew | hold
  · rw [hnew, inScope_set _ (by simp [scoreFields])]
    split
    · next target htarget =>
      rw [inScope_set _ (by simp [scoreFields])]
      exact inScope_mergeProvenance (item_inScope hscores htarget) hresult
    · rw [inScope_set _ (by simp [scoreFields])]
      exact inScope_blank chunk_id hresult
  · exact hscores entry hold

/-- The rows of a leg leave items in scope, and at least one if there is a row or was an item. -/
theorem fold_inScope {step : Scores → Dict × ℕ → Except PyError Scores}
    (hstep : ∀ scores result rank scores', AllInScope scope scores → inScope scope result = true → step scores (result, rank) = .ok scores' → AllInScope scope scores' ∧ scores' ≠ [])
    {leg : List Dict} (hleg : ∀ d ∈ leg, inScope scope d = true) (hscores : AllInScope scope scores)
    (h : leg.zipIdx.foldlM step scores = .ok scores') :
    AllInScope scope scores' ∧ (leg ≠ [] ∨ scores ≠ [] → scores' ≠ []) := by
  have hrow : ∀ row ∈ leg.zipIdx, inScope scope row.1 = true :=
    fun row hrow => hleg row.1 (List.fst_mem_of_mem_zipIdx hrow)
  cases hrows : leg.zipIdx with
  | nil =>
    rw [hrows] at h
    cases h
    have hnil : leg = [] := List.zipIdx_eq_nil_iff.mp hrows
    exact ⟨hscores, fun hor => hor.resolve_left (not_not.mpr hnil)⟩
  | cons row rows =>
    rw [hrows] at h hrow
    rw [List.foldlM_cons, except_bind_ok] at h
    obtain ⟨first, hfirst, hrest⟩ := h
    have hone := hstep scores row.1 row.2 first hscores (hrow row List.mem_cons_self) hfirst
    have hall := foldlM_invariant (I := fun scores => AllInScope scope scores ∧ scores ≠ [])
      (fun b r b' hr hb hb' => hstep b r.1 r.2 b' hb.1 (hrow r (List.mem_cons_of_mem _ hr)) hb')
      hone hrest
    exact ⟨hall.1, fun _ => hall.2⟩

/-- Candidates in scope are fused to items in scope, and to at least one. -/
theorem rrfFusion_inScope (hdense : ∀ d ∈ dense, inScope scope d = true)
    (hsparse : ∀ d ∈ sparse, inScope scope d = true) (h : rrfFusion parse dense sparse k = .ok items) :
    (∀ item ∈ items, inScope scope item = true) ∧ (dense ≠ [] ∨ sparse ≠ [] → items ≠ []) := by
  simp only [rrfFusion, except_bind_ok, pure, Except.pure, Except.ok.injEq] at h
  obtain ⟨scores, hscores, scores', hscores', rfl⟩ := h
  obtain ⟨hall, hne⟩ := fold_inScope (fun _ _ _ _ => addDense_inScope) hdense
    (fun _ hmem => absurd hmem List.not_mem_nil) hscores
  obtain ⟨hall', hne'⟩ := fold_inScope (fun _ _ _ _ => addSparse_inScope) hsparse hall hscores'
  constructor
  · intro item hitem
    obtain ⟨entry, hentry, rfl⟩ := List.mem_map.mp ((List.mem_mergeSort).mp hitem)
    rw [inScope_finalizeProvenance]
    exact hall' entry hentry
  · intro hor hnil
    have hlength := congrArg List.length hnil
    rw [List.length_mergeSort, List.length_map] at hlength
    refine hne' ?_ (List.length_eq_zero_iff.mp hlength)
    rcases hor with hd | hs
    · exact .inr (hne (.inl hd))
    · exact .inl hs

/-- Without duplicates there is still a candidate. -/
theorem dedupeCandidates_ne_nil {candidates out : List Dict} (hne : candidates ≠ [])
    (h : dedupeCandidates candidates = .ok out) : out ≠ [] := by
  obtain ⟨first, rest, rfl⟩ := List.exists_cons_of_ne_nil hne
  simp only [dedupeCandidates, except_bind_ok, pure, Except.pure, Except.ok.injEq,
    List.foldlM_cons] at h
  obtain ⟨state, ⟨state₁, hfirst, hrest⟩, rfl⟩ := h
  -- The first candidate is kept, and what is kept stays.
  have hkept : state₁.2 ≠ [] := by
    simp only [dedupeStep, except_bind_ok, List.any_nil, Bool.false_eq_true, if_false, pure,
      Except.pure, Except.ok.injEq] at hfirst
    obtain ⟨f, -, rfl⟩ := hfirst
    simp
  refine foldlM_invariant (I := fun state => state.2 ≠ []) ?_ hkept hrest
  intro state cand state' _ hstate hstep
  simp only [dedupeStep, except_bind_ok, pure, Except.pure] at hstep
  obtain ⟨f, -, hf⟩ := hstep
  split at hf
  · cases hf
    exact hstate
  · cases hf
    simp

/-- A list that is not empty is mapped to one that is not. -/
theorem mapM_ne_nil {α β ε : Type} {f : α → Except ε β} {l : List α} {l' : List β} (hne : l ≠ [])
    (h : l.mapM f = .ok l') : l' ≠ [] := by
  obtain ⟨a, rest, rfl⟩ := List.exists_cons_of_ne_nil hne
  simp only [List.mapM_cons, except_bind_ok, pure, Except.pure, Except.ok.injEq] at h
  obtain ⟨b, -, bs, -, rfl⟩ := h
  simp

/-- Where a candidate is in scope, some are ranked. -/
theorem rankCandidates_ne_nil {env : Env} {query : String} (hdense : ∀ d ∈ dense, inScope scope d = true)
    (hsparse : ∀ d ∈ sparse, inScope scope d = true) (hne : dense ≠ [] ∨ sparse ≠ [])
    (h : rankCandidates env scope query dense sparse = .ok items) :
    items ≠ [] := by
  simp only [rankCandidates, except_bind_ok, pure, Except.pure, Except.ok.injEq] at h
  obtain ⟨fused, hfused, deduped, hdeduped, scored, hscored, rfl⟩ := h
  obtain ⟨hall, hsome⟩ := rrfFusion_inScope hdense hsparse hfused
  rw [List.filter_eq_self.mpr hall] at hdeduped
  have hscored' := mapM_ne_nil (dedupeCandidates_ne_nil (hsome hne) hdeduped) hscored
  intro hnil
  have hlength := congrArg List.length hnil
  rw [List.length_mergeSort] at hlength
  exact hscored' (List.length_eq_zero_iff.mp hlength)

end Scope

/-! ## Two results of the primary backend -/

/-- The engine whose primary backend finds the result. -/
def Engine.withPrimary (engine : Engine) (found : SearchResult) : Engine :=
  { engine with backend := { engine.backend with search := fun _ => .ok found } }

/-- The evidence and the number of candidates that `retrieve` returns. -/
def outcome (env : Env) (engine : Engine) (query : String) (context : RetrievalContext)
    (options : RetrievalOptions) : Except PyError (List Evidence × ℕ) :=
  (fun r => (r.evidence, r.candidate_count)) <$> retrieve env engine query context options

/-- A result without candidates. -/
def SearchResult.isEmpty (found : SearchResult) : Bool := found.dense.isEmpty && found.sparse.isEmpty

/-- The candidates of a result that are in scope. -/
def SearchResult.inScope (scope : SearchScope) (found : SearchResult) : List Dict × List Dict :=
  (found.dense.filter (Retrieval.inScope scope), found.sparse.filter (Retrieval.inScope scope))

/-- The candidates of a search. -/
def legs (found : SearchResult) : List Dict × List Dict := (found.dense, found.sparse)

section Outcome

variable {env : Env} {engine : Engine} {query : String} {context : RetrievalContext}
  {options : RetrievalOptions} {found : SearchResult} {req : SearchRequest}

/-- The candidates that `retrieve` goes on with: those of the fallback if the primary backend has
found nothing at all. -/
theorem search_withPrimary (engine : Engine) (found : SearchResult) (req : SearchRequest) :
    legs <$> search (engine.withPrimary found) req =
      match engine.fallback with
      | none => .ok (legs found)
      | some fallback => if found.isEmpty then legs <$> fallback.search req else .ok (legs found) := by
  unfold search Engine.withPrimary
  cases hfallback : engine.fallback with
  | none => rfl
  | some fallback =>
    simp only [pure_bind]
    by_cases hempty : found.isEmpty = true
    · have hlegs : (found.dense.isEmpty && found.sparse.isEmpty) = true := hempty
      rw [if_pos hlegs, if_pos hempty]
      cases fallback.search req with
      | error e => rfl
      | ok r => rfl
    · have hlegs : ¬(found.dense.isEmpty && found.sparse.isEmpty) = true := hempty
      rw [if_neg hlegs, if_neg hempty]
      rfl

/-- What is returned for a request. -/
theorem outcome_request {normalized : String} {engine : Engine}
    (h : request env engine query context options = .ok (normalized, some req)) :
    outcome env engine query context options = (legs <$> search engine req) >>= fun found =>
      select env req.scope normalized options engine.reranker found.1 found.2 := by
  unfold outcome retrieve
  rw [h]
  cases hsearch : search engine req with
  | error e =>
    show (fun r => (RetrievalResult.evidence r, r.candidate_count)) <$> (search engine req >>= _) = _
    rw [hsearch]
    rfl
  | ok r =>
    show (fun r => (RetrievalResult.evidence r, r.candidate_count)) <$> (search engine req >>= _) = _
    rw [hsearch]
    show _ = select env req.scope normalized options engine.reranker r.dense r.sparse
    cases hselect : select env req.scope normalized options engine.reranker r.dense r.sparse with
    | error e => simp [bind, Except.bind, hselect, Functor.map, Except.map]
    | ok p => simp [bind, Except.bind, hselect, Functor.map, Except.map, pure, Except.pure]

variable {scope : SearchScope} {reranker : Reranker}

/-- What follows the search looks at the candidates in scope only. -/
theorem select_congr {found found' : SearchResult} (h : found.inScope scope = found'.inScope scope) :
    select env scope query options reranker found.dense found.sparse =
      select env scope query options reranker found'.dense found'.sparse := by
  obtain ⟨hdense, hsparse⟩ := Prod.mk.inj h
  unfold select
  rw [hdense, hsparse]

/-- Nothing is ranked without candidates. -/
theorem rankCandidates_nil (env : Env) (scope : SearchScope) (query : String) :
    rankCandidates env scope query [] [] = .ok [] := by
  have hfused : rrfFusion env.parseFloat [] [] 60 = .ok [] := by
    show Except.ok (List.mergeSort [] _) = _
    rw [List.mergeSort_nil]
  unfold rankCandidates
  rw [hfused]
  show Except.ok (List.mergeSort [] _) = _
  rw [List.mergeSort_nil]

/-- Nothing is selected from nothing. -/
theorem select_empty (hrerank : options.rerank = false) (h : found.inScope scope = ([], [])) :
    select env scope query options reranker found.dense found.sparse = .ok ([], 0) := by
  obtain ⟨hdense, hsparse⟩ := Prod.mk.inj h
  unfold select
  rw [hdense, hsparse, hrerank]
  show (rankCandidates env scope query [] [] >>= _) = _
  rw [rankCandidates_nil]
  show (selectEvidence env (List.take options.top_k []) 0 options.max_context_chars >>= _) = _
  rw [List.take_nil]
  rfl

/-- A candidate in scope is counted. -/
theorem select_counts (hrerank : options.rerank = false) (h : found.inScope scope ≠ ([], []))
    {evidence : List Evidence} {count : ℕ}
    (hselect : select env scope query options reranker found.dense found.sparse =
      .ok (evidence, count)) : count ≠ 0 := by
  have hne : found.dense.filter (inScope scope) ≠ [] ∨ found.sparse.filter (inScope scope) ≠ [] := by
    by_contra hnil
    rw [not_or, not_not, not_not] at hnil
    exact h (Prod.ext hnil.1 hnil.2)
  simp only [select, hrerank, Bool.false_eq_true, if_false, except_bind_ok, pure, Except.pure,
    Except.ok.injEq, Prod.mk.injEq] at hselect
  obtain ⟨items, hitems, _, rfl, _, -, -, rfl⟩ := hselect
  have hitems' := rankCandidates_ne_nil (fun d hd => (List.mem_filter.mp hd).2)
    (fun d hd => (List.mem_filter.mp hd).2) hne hitems
  exact fun hlength => hitems' (List.length_eq_zero_iff.mp hlength)

end Outcome

/-! ## The influence of foreign candidates -/

/-- The fallback is asked: whatever it raises is raised. -/
def Consults (env : Env) (engine : Engine) (query : String) (context : RetrievalContext)
    (options : RetrievalOptions) : Prop :=
  ∃ fallback, engine.fallback = some fallback ∧ ∀ e,
    retrieve env { engine with fallback := some { fallback with search := fun _ => .error e } }
      query context options = .error e

/-- If there is a fallback to ask, both of the results are without candidates at all, or neither is. -/
def SameEmptiness (env : Env) (engine : Engine) (query : String) (context : RetrievalContext)
    (options : RetrievalOptions) (found found' : SearchResult) : Prop :=
  ∀ normalized req, request env engine query context options = .ok (normalized, some req) →
    engine.fallback ≠ none → found.isEmpty = found'.isEmpty

/-- The fallback is asked for both of the results or for neither, or has nothing in scope to add. -/
def FallbackIndifferent (env : Env) (engine : Engine) (query : String) (context : RetrievalContext)
    (options : RetrievalOptions) (found found' : SearchResult) : Prop :=
  ∀ normalized req, request env engine query context options = .ok (normalized, some req) →
    ∀ fallback, engine.fallback = some fallback →
      found.isEmpty = found'.isEmpty ∨
        ∃ r, fallback.search req = .ok r ∧ r.inScope req.scope = ([], [])

section Influence

variable {env : Env} {engine : Engine} {query : String} {context : RetrievalContext}
  {options : RetrievalOptions} {found found' : SearchResult}

/-- The two results lead to the same evidence and the same number of candidates, without a reranker
and with every one. -/
def SameOutcome (env : Env) (engine : Engine) (query : String) (context : RetrievalContext)
    (options : RetrievalOptions) (found found' : SearchResult) : Prop :=
  ∀ (rerank : Bool) (reranker : Reranker),
    outcome env { engine.withPrimary found with reranker } query context { options with rerank } =
    outcome env { engine.withPrimary found' with reranker } query context { options with rerank }

variable {normalized : String} {req : SearchRequest}

/-- What is returned for a request, with the candidates of the primary backend or of the fallback. -/
theorem outcome_withPrimary (found : SearchResult) (rerank : Bool) (reranker : Reranker)
    (h : request env engine query context options = .ok (normalized, some req)) :
    outcome env { engine.withPrimary found with reranker } query context { options with rerank } =
      (match engine.fallback with
        | none => .ok (legs found)
        | some fallback =>
          if found.isEmpty then legs <$> fallback.search req else .ok (legs found)) >>= fun found =>
      select env req.scope normalized { options with rerank } reranker found.1 found.2 := by
  have hrequest : request env { engine.withPrimary found with reranker } query context
      { options with rerank } = .ok (normalized, some req) := h
  have hsearch : legs <$> search { engine.withPrimary found with reranker } req =
      legs <$> search (engine.withPrimary found) req := rfl
  rw [outcome_request hrequest, hsearch, search_withPrimary]

/-- The engine with a fallback that raises. -/
def Engine.withFailing (engine : Engine) (fallback : Backend) (e : PyError) : Engine :=
  { engine with fallback := some { fallback with search := fun _ => .error e } }

/-- A fallback that raises makes the search raise if nothing at all was found, and is not asked
otherwise. -/
theorem search_withFailing (engine : Engine) (found : SearchResult) (fallback : Backend) (e : PyError)
    (req : SearchRequest) :
    search ((engine.withPrimary found).withFailing fallback e) req =
      if found.isEmpty then .error e
      else .ok { found with backend := found.backend <|> some engine.backend.name } := by
  unfold search Engine.withPrimary Engine.withFailing
  simp only [pure_bind]
  by_cases hempty : found.isEmpty = true
  · have hlegs : (found.dense.isEmpty && found.sparse.isEmpty) = true := hempty
    rw [if_pos hlegs, if_pos hempty]
    rfl
  · have hlegs : ¬(found.dense.isEmpty && found.sparse.isEmpty) = true := hempty
    rw [if_neg hlegs, if_neg hempty]
    rfl

/-- The fallback is asked if there is one, the caller may search, and nothing at all was found. -/
theorem consults_iff : Consults env (engine.withPrimary found) query context options ↔
    (∃ normalized req, request env engine query context options = .ok (normalized, some req)) ∧
      engine.fallback ≠ none ∧ found.isEmpty = true := by
  constructor
  · rintro ⟨fallback, hfallback, h⟩
    have hsome : engine.fallback ≠ none := fun hnone => by cases hfallback.symm.trans hnone
    -- What does not depend on the error that the fallback raises is not that error.
    have hconst : ∀ r, ¬∀ e, retrieve env ((engine.withPrimary found).withFailing fallback e) query
        context options = r := by
      intro r hr
      have htwo : (Except.error PyError.type : Except PyError RetrievalResult) = .error .attribute :=
        (h .type).symm.trans ((hr .type).trans ((hr .attribute).symm.trans (h .attribute)))
      cases htwo
    have hrequest : ∀ e, request env ((engine.withPrimary found).withFailing fallback e) query context
        options = request env engine query context options := fun _ => rfl
    cases hr : request env engine query context options with
    | error e₀ =>
      refine absurd (fun e => ?_) (hconst (.error e₀))
      unfold retrieve
      rw [hrequest, hr]
      rfl
    | ok answer =>
      obtain ⟨normalized, _ | req⟩ := answer
      · refine absurd (fun e => ?_) (hconst (.ok ⟨normalized, [], 0, 0, engine.backend.name, false,
          [("authorization", .text "empty_scope")]⟩))
        unfold retrieve
        rw [hrequest, hr]
        rfl
      · refine ⟨⟨normalized, req, rfl⟩, hsome, ?_⟩
        by_contra hempty
        refine hconst (retrieve env ((engine.withPrimary found).withFailing fallback .type) query
          context options) fun e => ?_
        unfold retrieve
        rw [hrequest, hrequest, hr]
        show (search _ req >>= _) = (search _ req >>= _)
        rw [search_withFailing, search_withFailing, if_neg hempty, if_neg hempty]
        rfl
  · rintro ⟨⟨normalized, req, hr⟩, hsome, hempty⟩
    obtain ⟨fallback, hfallback⟩ := Option.ne_none_iff_exists'.mp hsome
    refine ⟨fallback, hfallback, fun e => ?_⟩
    have hrequest : request env ((engine.withPrimary found).withFailing fallback e) query context
        options = .ok (normalized, some req) := hr
    show retrieve env ((engine.withPrimary found).withFailing fallback e) query context options = _
    unfold retrieve
    rw [hrequest]
    show (search _ req >>= _) = _
    rw [search_withFailing, if_pos hempty]
    rfl

/-- Without a search there is nothing to differ in. -/
theorem sameOutcome_of_no_request
    (h : ∀ normalized req, request env engine query context options ≠ .ok (normalized, some req)) :
    SameOutcome env engine query context options found found' := by
  intro rerank reranker
  have hrequest : ∀ found, request env { engine.withPrimary found with reranker } query context
      { options with rerank } = request env engine query context options := fun _ => rfl
  unfold outcome retrieve
  rw [hrequest, hrequest]
  cases hr : request env engine query context options with
  | error e => rfl
  | ok answer =>
    obtain ⟨normalized, _ | req⟩ := answer
    · rfl
    · exact absurd hr (h normalized req)

/-- Candidates that agree in scope lead to the same selection. -/
theorem select_legs {scope : SearchScope} {reranker : Reranker} (h : found.inScope scope = found'.inScope scope) :
    ((.ok (legs found) : Except PyError _) >>= fun found =>
      select env scope normalized options reranker found.1 found.2) =
    (.ok (legs found') >>= fun found =>
      select env scope normalized options reranker found.1 found.2) :=
  select_congr h

/-- A result without candidates has none in scope. -/
theorem inScope_of_isEmpty (scope : SearchScope) (h : found.isEmpty = true) :
    found.inScope scope = ([], []) := by
  obtain ⟨hdense, hsparse⟩ := Bool.and_eq_true_iff.mp h
  unfold SearchResult.inScope
  rw [List.isEmpty_iff.mp hdense, List.isEmpty_iff.mp hsparse]
  rfl

/-- What the fallback finds in scope is missed if the primary backend finds foreign candidates
only. -/
theorem fallback_matters {fallback : Backend}
    (hr : request env engine query context options = .ok (normalized, some req))
    (hfallback : engine.fallback = some fallback) (hempty : found.isEmpty = true)
    (hnonempty : found'.isEmpty = false) (hscope : found'.inScope req.scope = ([], []))
    (hsame : SameOutcome env engine query context options found found') :
    ∃ r, fallback.search req = .ok r ∧ r.inScope req.scope = ([], []) := by
  have heq := hsame false engine.reranker
  rw [outcome_withPrimary _ _ _ hr, outcome_withPrimary _ _ _ hr] at heq
  simp only [hfallback, hempty, hnonempty, if_true, Bool.false_eq_true, if_false] at heq
  rw [show ((Except.ok (legs found') : Except PyError _) >>= fun found =>
    select env req.scope normalized { options with rerank := false } engine.reranker found.1 found.2) =
      .ok ([], 0) from select_empty rfl hscope] at heq
  cases hsearch : fallback.search req with
  | error e =>
    rw [hsearch] at heq
    cases heq
  | ok r =>
    refine ⟨r, rfl, ?_⟩
    by_contra hne
    rw [hsearch] at heq
    refine absurd rfl (select_counts ?_ hne heq)
    rfl

/-- With the fallback asked for both or for neither, or with nothing to find there, the outcome is
the same. -/
theorem sameOutcome_of_indifferent (hagree : ∀ normalized req,
      request env engine query context options = .ok (normalized, some req) →
      found.inScope req.scope = found'.inScope req.scope)
    (h : FallbackIndifferent env engine query context options found found') :
    SameOutcome env engine query context options found found' := by
  by_cases hreq : ∃ normalized req, request env engine query context options =
      .ok (normalized, some req)
  · obtain ⟨normalized, req, hr⟩ := hreq
    intro rerank reranker
    have hscope := hagree normalized req hr
    rw [outcome_withPrimary _ _ _ hr, outcome_withPrimary _ _ _ hr]
    cases hfallback : engine.fallback with
    | none => exact select_legs hscope
    | some fallback =>
      simp only
      cases hempty : found.isEmpty <;> cases hempty' : found'.isEmpty
      · exact select_legs hscope
      · obtain ⟨r, hsearch, hr'⟩ := (h normalized req hr fallback hfallback).resolve_left (by simp [*])
        rw [if_neg Bool.false_ne_true, if_pos rfl, hsearch]
        exact select_legs (hscope.trans ((inScope_of_isEmpty _ hempty').trans hr'.symm))
      · obtain ⟨r, hsearch, hr'⟩ := (h normalized req hr fallback hfallback).resolve_left (by simp [*])
        rw [if_pos rfl, if_neg Bool.false_ne_true, hsearch]
        exact select_legs (hr'.trans ((inScope_of_isEmpty _ hempty).symm.trans hscope))
      · rfl
  · exact sameOutcome_of_no_request fun normalized req hr => hreq ⟨normalized, req, hr⟩

/-- The same outcome with every reranker needs a fallback that is asked for both or for neither, or
has nothing to add. -/
theorem indifferent_of_sameOutcome (hagree : ∀ normalized req,
      request env engine query context options = .ok (normalized, some req) →
      found.inScope req.scope = found'.inScope req.scope)
    (h : SameOutcome env engine query context options found found') :
    FallbackIndifferent env engine query context options found found' := by
  intro normalized req hr fallback hfallback
  have hscope := hagree normalized req hr
  cases hempty : found.isEmpty <;> cases hempty' : found'.isEmpty
  · exact .inl rfl
  · refine .inr (fallback_matters hr hfallback hempty' hempty ?_ fun rerank reranker =>
      (h rerank reranker).symm)
    exact hscope.trans (inScope_of_isEmpty _ hempty')
  · refine .inr (fallback_matters hr hfallback hempty hempty' ?_ h)
    exact hscope.symm.trans (inScope_of_isEmpty _ hempty)
  · exact .inl rfl

end Influence

/-- **When foreign candidates have no influence.** Let two results of the primary backend have the
same candidates in scope. They lead to the same evidence, the same number of candidates (without a
reranker and with every one) and the same decision to ask the fallback exactly if there is no
fallback to ask, or both or neither of the results are without candidates at all. The evidence and
the number alone are the same also if the fallback finds nothing in scope. -/
theorem retrieve_same_iff (env : Env) (engine : Engine) (query : String) (context : RetrievalContext)
    (options : RetrievalOptions) (found found' : SearchResult)
    (hagree : ∀ normalized req,
      request env engine query context options = .ok (normalized, some req) →
      found.inScope req.scope = found'.inScope req.scope) :
    (SameOutcome env engine query context options found found' ∧
      (Consults env (engine.withPrimary found) query context options ↔
        Consults env (engine.withPrimary found') query context options) ↔
      SameEmptiness env engine query context options found found') ∧
    (SameOutcome env engine query context options found found' ↔
      FallbackIndifferent env engine query context options found found') := by
  refine ⟨⟨?_, ?_⟩, indifferent_of_sameOutcome hagree, sameOutcome_of_indifferent hagree⟩
  · rintro ⟨-, hconsults⟩ normalized req hr hsome
    rw [consults_iff, consults_iff] at hconsults
    rw [Bool.eq_iff_iff]
    constructor
    · intro hempty
      exact (hconsults.mp ⟨⟨normalized, req, hr⟩, hsome, hempty⟩).2.2
    · intro hempty
      exact (hconsults.mpr ⟨⟨normalized, req, hr⟩, hsome, hempty⟩).2.2
  · intro h
    refine ⟨sameOutcome_of_indifferent hagree ?_, ?_⟩
    · intro normalized req hr fallback hfallback
      refine .inl (h normalized req hr ?_)
      rw [hfallback]
      exact Option.some_ne_none fallback
    · rw [consults_iff, consults_iff]
      refine and_congr_right fun hreq => and_congr_right fun hsome => ?_
      obtain ⟨normalized, req, hr⟩ := hreq
      rw [h normalized req hr hsome]

/-! ## One candidate -/

/-- An item whose scores are numbers, with a text. -/
structure Scored (text : String) (item : Dict) : Prop where
  score : ∃ x, item "score" = some (.num x)
  dense_score : ∃ x, item "dense_score" = some (.num x)
  sparse_score : ∃ x, item "sparse_score" = some (.num x)
  text : item "text" = some (.text text)

/-- A text that stands for itself. -/
theorem text_orElse (text : String) : (Value.text text).orElse (.text "") = .text text := by
  unfold Value.orElse Value.truthy
  by_cases hempty : text = ""
  · subst hempty
    rfl
  · simp [hempty]

section Single

variable (env : Env) {item : Dict} {text : String}

/-- A scored item has a quality. -/
theorem retrievalQualityScore_ok (h : Scored text item) (query : String) :
    ∃ quality, retrievalQualityScore env item query = .ok quality := by
  obtain ⟨⟨score, hscore⟩, ⟨dense, hdense⟩, ⟨sparse, hsparse⟩, htext⟩ := h
  have htextOr : textOrEmpty (.text text) = .ok text := by
    unfold textOrEmpty
    rw [text_orElse]
  unfold retrievalQualityScore Dict.getOr Dict.get
  simp only [hdense, hsparse, hscore, htext, Option.getD_some, Value.floatOrZero, htextOr, bind,
    Except.bind, pure, Except.pure]
  simp only [← apply_ite Except.ok]
  exact ⟨_, rfl⟩

/-- A scored item is evidence. -/
theorem evidenceOf_ok (h : Scored text item) (excerpt : String) (rank : ℕ) :
    ∃ evidence, evidenceOf env item excerpt rank = .ok evidence := by
  obtain ⟨⟨score, hscore⟩, ⟨dense, hdense⟩, ⟨sparse, hsparse⟩, -⟩ := h
  unfold evidenceOf Dict.getOr
  simp only [hdense, hsparse, hscore, Option.getD_some, Value.floatOrZero, bind, Except.bind, pure,
    Except.pure]
  exact ⟨_, rfl⟩

/-- The quality is beside the scores. -/
theorem Scored.withQuality (h : Scored text item) (quality : Float) :
    Scored text ((item.set "retrieval_quality_score" (.num quality)).set "confidence_score"
      (.num quality)) := by
  constructor
  · simpa [Dict.set_ne] using h.score
  · simpa [Dict.set_ne] using h.dense_score
  · simpa [Dict.set_ne] using h.sparse_score
  · simpa [Dict.set_ne] using h.text

/-- A single candidate has no duplicate. -/
theorem dedupeCandidates_singleton (hdocument : (item.get "document_id").hashable = true)
    (h : Scored text item) : dedupeCandidates [item] = .ok [item] := by
  simp [dedupeCandidates, dedupeStep, fingerprint, hdocument, Dict.getOr, h.text, text_orElse, bind,
    Except.bind, pure, Except.pure]

/-- A single item with a text is selected. -/
theorem selectEvidence_singleton (h : Scored text item) (htext : text ≠ "") {budget : ℕ}
    (hbudget : budget ≠ 0) : ∃ evidence, selectEvidence env [item] 0 budget = .ok [evidence] := by
  have hne : (text.toList.take budget).isEmpty = false := by
    rw [List.isEmpty_eq_false_iff]
    simp [hbudget, htext]
  obtain ⟨evidence, hevidence⟩ := evidenceOf_ok env h (String.ofList (text.toList.take budget)) 0
  refine ⟨evidence, ?_⟩
  unfold selectEvidence Dict.getOr
  simp only [hbudget, if_false, h.text, Option.getD_some, hne, hevidence, Bool.false_eq_true]
  rfl

end Single

/-! ## A search of one tenant -/

/-- The functions on text that is ASCII, with an embedding into no dimension. -/
def asciiEnv : Env where
  isWord c := c.isAlphanum || c == '_'
  lower s := String.ofList (s.toList.map Char.toLower)
  isdigit s := !s.isEmpty && s.toList.all Char.isDigit
  parseFloat _ := none
  format
    | .text s => s
    | _ => ""
  embed _ := []

/-- A chunk of a tenant. -/
def chunkOf (tenant_id chunk_id : String) : Dict := fun field =>
  [("chunk_id", Value.text chunk_id), ("tenant_id", .text tenant_id), ("workspace_id", .text "w"),
    ("collection_id", .text "c"), ("text", .text "feline renal diet")].lookup field

/-- A result with candidates of the dense leg. -/
def denseResult (dense : List Dict) : SearchResult := ⟨dense, [], none, false, []⟩

/-- An engine with a fallback that finds one chunk of the tenant. -/
def tenantEngine : Engine where
  backend := ⟨"qdrant", fun _ => .ok (denseResult [])⟩
  fallback := some ⟨"memory", fun _ => .ok (denseResult [chunkOf "t" "k1"])⟩
  reranker _ items := .ok items
  index := []

/-- The tenant, who may see one collection. -/
def tenantContext : RetrievalContext := ⟨some "w", some "t", some ["c"]⟩

/-- The default options. -/
def defaultOptions : RetrievalOptions :=
  ⟨5, false, 12000, 10, by decide, by decide, by decide⟩

/-- What is asked for the tenant. -/
theorem tenant_request :
    request asciiEnv tenantEngine "renal diet" tenantContext defaultOptions =
      .ok ("renal diet", some ⟨"renal diet", [], ⟨"w", ["c"], "t"⟩, [], 50⟩) := by
  have hquery : normalizeQuery "renal diet" = .ok "renal diet" := by decide +kernel
  have htenant : strip ((some "t").getD "") = "t" := by decide +kernel
  unfold request tenantContext
  simp only [hquery, htenant]
  rfl

/-- Results that agree in the scope of the tenant agree for what is asked. -/
theorem tenant_agree {found found' : SearchResult}
    (h : found.inScope ⟨"w", ["c"], "t"⟩ = found'.inScope ⟨"w", ["c"], "t"⟩) :
    ∀ normalized req,
      request asciiEnv tenantEngine "renal diet" tenantContext defaultOptions =
        .ok (normalized, some req) → found.inScope req.scope = found'.inScope req.scope := by
  intro normalized req hr
  rw [tenant_request] at hr
  cases hr
  exact h

/-- The chunk of the fallback, as it is fused. -/
def tenantItem : Dict :=
  let item := blank (chunkOf "t" "k1") (.text "k1")
  finalizeProvenance ((item.set "score" (.num (item.score "score" + rankScore 60 0))).set "dense_score"
    (.num (pyMax 0 (if (0 : Float) != 0 then 0 else 0))))

/-- The fallback's result is fused to the item. -/
theorem tenant_fused :
    rrfFusion asciiEnv.parseFloat [chunkOf "t" "k1"] [] 60 = .ok [tenantItem] := by
  show Except.ok (List.mergeSort [_] _) = _
  rw [List.mergeSort_singleton]
  rfl

/-- The item is in the scope of the tenant. -/
theorem tenantItem_inScope : inScope ⟨"w", ["c"], "t"⟩ tenantItem = true := by
  unfold tenantItem
  rw [inScope_finalizeProvenance, inScope_set _ (by simp [scoreFields]),
    inScope_set _ (by simp [scoreFields])]
  exact inScope_blank _ rfl

/-- The item is scored. -/
theorem tenantItem_scored : Scored "feline renal diet" tenantItem := by
  constructor
  · simp [tenantItem, finalizeProvenance, Dict.fill_ne, Dict.set_ne]
  · simp [tenantItem, finalizeProvenance, Dict.fill_ne]
  · simp [tenantItem, finalizeProvenance, Dict.fill_ne, Dict.set_ne, blank]
  · simp [tenantItem, finalizeProvenance, Dict.fill_ne, Dict.set_ne, blank, Dict.setDefault,
      ite_apply, chunkOf]
    rfl

/-- The item is ranked alone. -/
theorem tenant_ranked : ∃ item, Scored "feline renal diet" item ∧
    rankCandidates asciiEnv ⟨"w", ["c"], "t"⟩ "renal diet" [chunkOf "t" "k1"] [] = .ok [item] := by
  obtain ⟨quality, hquality⟩ := retrievalQualityScore_ok asciiEnv tenantItem_scored "renal diet"
  have hdocument : (tenantItem.get "document_id").hashable = true := by
    simp [tenantItem, finalizeProvenance, Dict.fill_ne, Dict.set_ne, blank, Dict.setDefault, Dict.get,
      ite_apply, chunkOf]
    rfl
  refine ⟨_, tenantItem_scored.withQuality quality, ?_⟩
  unfold rankCandidates
  rw [tenant_fused]
  simp only [bind, Except.bind, List.filter_cons_of_pos tenantItem_inScope, List.filter_nil,
    dedupeCandidates_singleton hdocument tenantItem_scored, List.mapM_cons, List.mapM_nil, withQuality,
    hquality, pure, Except.pure, List.mergeSort_singleton]

/-- A foreign candidate beside one of the tenant has no influence. -/
theorem foreign_beside_own :
    SameOutcome asciiEnv tenantEngine "renal diet" tenantContext defaultOptions
      (denseResult [chunkOf "t" "k2"]) (denseResult [chunkOf "u" "k2", chunkOf "t" "k2"]) ∧
    (Consults asciiEnv (tenantEngine.withPrimary (denseResult [chunkOf "t" "k2"])) "renal diet"
        tenantContext defaultOptions ↔
      Consults asciiEnv (tenantEngine.withPrimary (denseResult [chunkOf "u" "k2", chunkOf "t" "k2"]))
        "renal diet" tenantContext defaultOptions) :=
  (retrieve_same_iff asciiEnv tenantEngine "renal diet" tenantContext defaultOptions _ _
    (tenant_agree (by rfl))).1.mpr fun _ _ _ _ => by rfl

/-- **A foreign candidate hides the fallback.** The primary backend finds one chunk of another tenant
where it found nothing, the candidates in scope are the same, and the evidence of the fallback is
gone. -/
theorem foreign_candidate_hides_fallback :
    (∀ normalized req,
      request asciiEnv tenantEngine "renal diet" tenantContext defaultOptions =
        .ok (normalized, some req) →
      (denseResult []).inScope req.scope = (denseResult [chunkOf "u" "k2"]).inScope req.scope) ∧
    outcome asciiEnv (tenantEngine.withPrimary (denseResult [chunkOf "u" "k2"])) "renal diet"
      tenantContext defaultOptions = .ok ([], 0) ∧
    ∃ evidence, outcome asciiEnv (tenantEngine.withPrimary (denseResult [])) "renal diet"
      tenantContext defaultOptions = .ok ([evidence], 1) := by
  refine ⟨tenant_agree (by rfl), ?_, ?_⟩
  · have h := outcome_withPrimary (denseResult [chunkOf "u" "k2"]) false tenantEngine.reranker
      tenant_request
    exact Eq.trans h (select_empty rfl (by rfl))
  · have h := outcome_withPrimary (denseResult []) false tenantEngine.reranker tenant_request
    obtain ⟨item, hitem, hranked⟩ := tenant_ranked
    obtain ⟨evidence, hevidence⟩ := selectEvidence_singleton asciiEnv hitem (by decide)
      (show (12000 : ℕ) ≠ 0 by decide)
    refine ⟨evidence, Eq.trans h ?_⟩
    show (rankCandidates asciiEnv ⟨"w", ["c"], "t"⟩ "renal diet" [chunkOf "t" "k1"] [] >>= _) = _
    rw [hranked]
    show (selectEvidence asciiEnv [item] 0 12000 >>= _) = _
    rw [hevidence]
    rfl

end RickIntelligence.Retrieval
