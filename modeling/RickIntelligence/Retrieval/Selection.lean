import RickIntelligence.Retrieval.Interference
import RickIntelligence.Retrieval.Rerankers

/-!
# Evidence and candidates

Every entry of the evidence is an excerpt of a candidate in scope (`retrieve_faithful`). Fusion keeps one
item for each chunk, whose text is that of one of its rows (`Tracked`); what follows drops items, ranks
them, and changes none of the fields that say what they are (`core`); and the selection cuts off the text
of the last one where the budget ends.
-/

namespace RickIntelligence.Retrieval

open Lib

/-! ## Items and rows -/

/-- The value is the one that a chunk is kept under, or equal to it. -/
def SameChunk (id v : Value) : Prop := v = id ∨ id.equals v = true

/-- An item in scope of a chunk, whose text is that of a row in scope of the chunk. -/
structure Sourced (scope : SearchScope) (rows : List Dict) (id : Value) (item : Dict) : Prop where
  chunk : item "chunk_id" = some id
  inside : inScope scope item = true
  text : ∀ s, s ≠ "" → item "text" = some (.text s) → ∃ row ∈ rows, inScope scope row = true ∧
    row "text" = some (.text s) ∧ ∃ v, row "chunk_id" = some v ∧ SameChunk id v

/-- Every item is one of its chunk, and no chunk has two. -/
structure Tracked (scope : SearchScope) (rows : List Dict) (scores : Scores) : Prop where
  sourced : ∀ entry ∈ scores, Sourced scope rows entry.1 entry.2
  distinct : (scores.map Prod.fst).Pairwise fun a b => a.equals b = false

section Fusion

variable {scope : SearchScope} {rows : List Dict} {scores : Scores} {id chunk_id : Value}
  {parse : String → Option Float} {k rank : ℕ} {dense sparse items : List Dict} {item : Dict}
  {item target result : Dict}

/-- A score is not of the fields of an item. -/
theorem Sourced.set (h : Sourced scope rows id item) {field : String} (value : Value)
    (hfield : field ∈ scoreFields) : Sourced scope rows id (item.set field value) := by
  have hchunk : "chunk_id" ≠ field := by
    rintro rfl
    revert hfield
    decide
  have htext : "text" ≠ field := by
    rintro rfl
    revert hfield
    decide
  refine ⟨?_, ?_, ?_⟩
  · rw [Dict.set_ne _ _ hchunk]
    exact h.chunk
  · rw [inScope_set _ hfield]
    exact h.inside
  · rw [Dict.set_ne _ _ htext]
    exact h.text

/-- A default is for a field that is not there. -/
theorem setDefault_self (d : Dict) (field : String) (value : Value) :
    d.setDefault field value field = some ((d field).getD value) := by
  unfold Dict.setDefault
  cases hd : d field with
  | none => simp
  | some v => simp [hd]

/-- The text of a new item. -/
theorem blank_text (result : Dict) (chunk_id : Value) :
    blank result chunk_id "text" = some ((result "text").getD (.text "")) := by
  have hset : ((result.set "chunk_id" chunk_id).setDefault "document_id" .none).setDefault
      "workspace_id" .none "text" = result "text" := by
    rw [Dict.setDefault_ne _ _ (by decide), Dict.setDefault_ne _ _ (by decide),
      Dict.set_ne _ _ (by decide)]
  rw [← hset, ← setDefault_self]
  simp [blank, Dict.set_ne, Dict.setDefault_ne, ite_apply]

/-- The first row of a chunk. -/
theorem sourced_blank (hmem : result ∈ rows) (hscope : inScope scope result = true)
    (hchunk : result "chunk_id" = some chunk_id) :
    Sourced scope rows chunk_id (blank result chunk_id) := by
  refine ⟨?_, inScope_blank chunk_id hscope, ?_⟩
  · simp [blank, Dict.set_ne, Dict.setDefault_ne, ite_apply]
  · intro s hs htext
    refine ⟨result, hmem, hscope, ?_, chunk_id, hchunk, .inl rfl⟩
    rw [blank_text, Option.some.injEq] at htext
    cases hrow : result "text" with
    | some v =>
      rw [hrow, Option.getD_some] at htext
      rw [htext]
    | none =>
      rw [hrow, Option.getD_none, Value.text.injEq] at htext
      exact absurd htext.symm hs

/-- A value that counts as missing is equal only to one that does. -/
theorem hasValue_of_equals (h : id.equals chunk_id = true) (hid : id.hasValue = false) :
    chunk_id.hasValue = false := by
  cases id with
  | none =>
    cases chunk_id with
    | none => rfl
    | _ => simp [Value.equals, Value.number?] at h
  | text s =>
    cases chunk_id with
    | text t =>
      have hst : s = t := by simpa [Value.equals] using h
      rw [← hst]
      exact hid
    | _ => simp [Value.equals, Value.number?] at h
  | bool b => simp [Value.hasValue] at hid
  | int n => simp [Value.hasValue] at hid
  | num x => simp [Value.hasValue] at hid
  | list items => cases chunk_id <;> simp [Value.equals, Value.number?] at h
  | dict members => cases chunk_id <;> simp [Value.equals, Value.number?] at h

/-- A further row of a chunk. -/
theorem Sourced.mergeProvenance (h : Sourced scope rows id target) (hmem : result ∈ rows)
    (hscope : inScope scope result = true) (hchunk : result "chunk_id" = some chunk_id)
    (hsame : id.equals chunk_id = true) :
    Sourced scope rows id (mergeProvenance target result) := by
  refine ⟨?_, inScope_mergeProvenance h.inside hscope, ?_⟩
  · have hkept : ¬ ((!(target.get "chunk_id").hasValue && chunk_id.hasValue) = true) := by
      rw [Dict.get, h.chunk, Option.getD_some]
      cases hid : id.hasValue with
      | true => simp
      | false => simp [hasValue_of_equals hsame hid]
    simp only [Retrieval.mergeProvenance, hchunk]
    rw [if_neg (by decide), if_neg hkept]
    exact h.chunk
  · intro s hs htext
    simp only [Retrieval.mergeProvenance] at htext
    rw [if_neg (by decide)] at htext
    cases hrow : result "text" with
    | none =>
      rw [hrow] at htext
      exact h.text s hs htext
    | some v =>
      rw [hrow] at htext
      simp only [] at htext
      split at htext
      · exact ⟨result, hmem, hscope, hrow.trans htext, chunk_id, hchunk, .inr hsame⟩
      · exact h.text s hs htext

/-- The last repairs are of other fields. -/
theorem Sourced.finalizeProvenance (h : Sourced scope rows id item) :
    Sourced scope rows id (finalizeProvenance item) := by
  have hkept : ∀ f ∈ ["chunk_id", "text"], Retrieval.finalizeProvenance item f = item f := by
    intro f hf
    have hne : f ≠ "page_start" ∧ f ≠ "page_end" ∧ f ≠ "source" ∧ f ≠ "document_filename" ∧
        f ≠ "title" := by
      revert f
      decide
    simp [Retrieval.finalizeProvenance, Dict.fill_ne, hne]
  refine ⟨?_, ?_, ?_⟩
  · rw [hkept _ (by simp)]
    exact h.chunk
  · rw [inScope_finalizeProvenance]
    exact h.inside
  · rw [hkept _ (by simp)]
    exact h.text

/-- A chunk that is not there is put at the end. -/
theorem put_of_item?_none (h : Scores.item? scores chunk_id = none) (item : Dict) :
    Scores.put scores chunk_id item = scores ++ [(chunk_id, item)] ∧
      ∀ entry ∈ scores, entry.1.equals chunk_id = false := by
  unfold Scores.item? at h
  rw [Option.map_eq_none_iff] at h
  induction scores with
  | nil =>
    refine ⟨rfl, ?_⟩
    intro entry hentry
    cases hentry
  | cons entry rest ih =>
    rw [List.find?_cons] at h
    cases heq : entry.1.equals chunk_id with
    | true =>
      rw [heq] at h
      cases h
    | false =>
      rw [heq] at h
      obtain ⟨hput, hall⟩ := ih h
      unfold Scores.put
      rw [heq, if_neg Bool.false_ne_true, hput]
      refine ⟨rfl, ?_⟩
      intro other hother
      rcases List.mem_cons.mp hother with rfl | hother
      · exact heq
      · exact hall other hother

/-- A chunk that is there gets another item at its place. -/
theorem put_of_item?_some (h : Scores.item? scores chunk_id = some target) (item : Dict) :
    ∃ l id r, scores = l ++ (id, target) :: r ∧ id.equals chunk_id = true ∧
      Scores.put scores chunk_id item = l ++ (id, item) :: r := by
  unfold Scores.item? at h
  induction scores with
  | nil => cases h
  | cons entry rest ih =>
    rw [List.find?_cons] at h
    unfold Scores.put
    cases heq : entry.1.equals chunk_id with
    | true =>
      rw [heq] at h
      have htarget : entry.2 = target := Option.some.inj h
      rw [if_pos rfl]
      exact ⟨[], entry.1, rest, by rw [← htarget]; rfl, heq, rfl⟩
    | false =>
      rw [heq] at h
      obtain ⟨l, id, r, hrest, hsame, hput⟩ := ih h
      rw [if_neg Bool.false_ne_true]
      exact ⟨entry :: l, id, r, by rw [hrest]; rfl, hsame, by rw [hput]; rfl⟩

/-- An item of a new chunk, and one of a chunk that is there. -/
theorem Tracked.put (h : Tracked scope rows scores)
    (hnew : Scores.item? scores chunk_id = none → Sourced scope rows chunk_id item)
    (hold : ∀ target id, Scores.item? scores chunk_id = some target →
      Sourced scope rows id target → id.equals chunk_id = true → Sourced scope rows id item) :
    Tracked scope rows (Scores.put scores chunk_id item) := by
  cases hi : Scores.item? scores chunk_id with
  | none =>
    obtain ⟨hput, hall⟩ := put_of_item?_none hi item
    rw [hput]
    refine ⟨?_, ?_⟩
    · intro entry hentry
      rcases List.mem_append.mp hentry with hentry | hentry
      · exact h.sourced entry hentry
      · rw [List.mem_singleton.mp hentry]
        exact hnew hi
    · rw [List.map_append, List.pairwise_append]
      refine ⟨h.distinct, List.pairwise_singleton _ _, ?_⟩
      intro a ha b hb
      obtain ⟨entry, hentry, rfl⟩ := List.mem_map.mp ha
      rw [List.mem_singleton.mp hb]
      exact hall entry hentry
  | some target =>
    obtain ⟨l, id, r, hscores, hsame, hput⟩ := put_of_item?_some hi item
    have htarget : Sourced scope rows id target := h.sourced (id, target) (by
      rw [hscores]
      exact List.mem_append_right l List.mem_cons_self)
    rw [hput]
    refine ⟨?_, ?_⟩
    · intro entry hentry
      rcases List.mem_append.mp hentry with hentry | hentry
      · exact h.sourced entry (hscores ▸ List.mem_append_left _ hentry)
      · rcases List.mem_cons.mp hentry with rfl | hentry
        · exact hold target id hi htarget hsame
        · exact h.sourced entry (hscores ▸ List.mem_append_right l (List.mem_cons_of_mem _ hentry))
    · have hdistinct := h.distinct
      rw [hscores, List.map_append, List.map_cons] at hdistinct
      rw [List.map_append, List.map_cons]
      exact hdistinct

/-- The chunk of a row is a field of it. -/
theorem chunkId_ok (h : chunkId result = .ok chunk_id) : result "chunk_id" = some chunk_id := by
  unfold chunkId at h
  split at h
  · cases h
  · next v hv =>
    split at h
    · cases h
      exact hv
    · cases h

/-- A row of the dense leg is tracked. -/
theorem addDense_tracked {scores' : Scores} (hscores : Tracked scope rows scores) (hmem : result ∈ rows)
    (hscope : inScope scope result = true) (h : addDense parse k scores (result, rank) = .ok scores') :
    Tracked scope rows scores' := by
  simp only [addDense, except_bind_ok, pure, Except.pure, Except.ok.injEq] at h
  obtain ⟨chunk_id, hchunk, dense, -, rfl⟩ := h
  have hrow := chunkId_ok hchunk
  apply hscores.put
  · intro hnone
    simp only [hnone]
    exact ((sourced_blank hmem hscope hrow).set _ (by decide)).set _ (by decide)
  · intro target id hsome htarget hsame
    simp only [hsome]
    exact ((htarget.mergeProvenance hmem hscope hrow hsame).set _ (by decide)).set _ (by decide)

/-- A row of the sparse leg is tracked. -/
theorem addSparse_tracked {scores' : Scores} (hscores : Tracked scope rows scores) (hmem : result ∈ rows)
    (hscope : inScope scope result = true) (h : addSparse parse k scores (result, rank) = .ok scores') :
    Tracked scope rows scores' := by
  simp only [addSparse, except_bind_ok, pure, Except.pure, Except.ok.injEq] at h
  obtain ⟨chunk_id, hchunk, sparse, -, rfl⟩ := h
  have hrow := chunkId_ok hchunk
  apply hscores.put
  · intro hnone
    simp only [hnone]
    exact ((sourced_blank hmem hscope hrow).set _ (by decide)).set _ (by decide)
  · intro target id hsome htarget hsame
    simp only [hsome]
    exact ((htarget.mergeProvenance hmem hscope hrow hsame).set _ (by decide)).set _ (by decide)

/-- The rows of both legs are tracked. -/
theorem rrfFusion_tracked (hrows : ∀ d, d ∈ dense ∨ d ∈ sparse → d ∈ rows ∧ inScope scope d = true)
    (h : rrfFusion parse dense sparse k = .ok items) :
    ∃ scores, Tracked scope rows scores ∧
      items.Perm (scores.map fun entry => finalizeProvenance entry.2) := by
  simp only [rrfFusion, except_bind_ok, pure, Except.pure, Except.ok.injEq] at h
  obtain ⟨scores, hscores, scores', hscores', rfl⟩ := h
  have hempty : Tracked scope rows [] := ⟨by simp, List.Pairwise.nil⟩
  have hdense : Tracked scope rows scores := by
    refine foldlM_invariant ?_ hempty hscores
    intro b row b' hrow hb hstep
    obtain ⟨hmem, hscope⟩ := hrows row.1 (.inl (List.fst_mem_of_mem_zipIdx hrow))
    exact addDense_tracked hb hmem hscope hstep
  have hsparse : Tracked scope rows scores' := by
    refine foldlM_invariant ?_ hdense hscores'
    intro b row b' hrow hb hstep
    obtain ⟨hmem, hscope⟩ := hrows row.1 (.inr (List.fst_mem_of_mem_zipIdx hrow))
    exact addSparse_tracked hb hmem hscope hstep
  exact ⟨scores', hsparse, List.mergeSort_perm _ _⟩

end Fusion

/-! ## Cores -/

/-- Two chunks that are not equal to each other. -/
def Distinct (a b : Value) : Prop := ¬ (a.equals b = true ∧ b.equals a = true)

/-- The chunk of a core. -/
def coreChunk (c : List (Option Value)) : Value := (c.getD 3 none).getD .none

/-- The chunk of a candidate is in its core. -/
theorem coreChunk_core (d : Dict) : coreChunk (core d) = d.get "chunk_id" := rfl

/-- Candidates in scope, with rows that their texts are from, and no two of one chunk. -/
structure Admitted (scope : SearchScope) (rows items : List Dict) : Prop where
  sourced : ∀ item ∈ items, ∃ id, Sourced scope rows id item
  distinct : (items.map core).Pairwise fun c c' => Distinct (coreChunk c) (coreChunk c')

variable {scope : SearchScope} {rows items dense sparse : List Dict} {item : Dict} {env : Env} {rank budget : ℕ}
  {evidence : List Evidence} {e : Evidence}

/-- Whether an item is of a chunk is in its core. -/
theorem Sourced.of_core {id : Value} {item' : Dict} (h : Sourced scope rows id item)
    (hcore : core item' = core item) :
    Sourced scope rows id item' := by
  refine ⟨?_, ?_, ?_⟩
  · rw [core_eq hcore (by decide)]
    exact h.chunk
  · rw [inScope_congr (core_eq hcore (by decide)) (core_eq hcore (by decide))
      (core_eq hcore (by decide))]
    exact h.inside
  · rw [core_eq hcore (by decide)]
    exact h.text

/-- Some of the candidates, in any order and with other scores. -/
theorem Admitted.of_subperm {items' : List Dict} (h : Admitted scope rows items)
    (hsub : (items'.map core).Subperm (items.map core)) :
    Admitted scope rows items' := by
  constructor
  · intro item hitem
    obtain ⟨old, hold, hcore⟩ := List.mem_map.mp (hsub.subset (List.mem_map_of_mem hitem))
    obtain ⟨id, hid⟩ := h.sourced old hold
    exact ⟨id, hid.of_core hcore.symm⟩
  · obtain ⟨l, hperm, hsublist⟩ := hsub
    have hl := h.distinct.sublist hsublist
    have hsymm : ∀ {c c' : List (Option Value)}, Distinct (coreChunk c) (coreChunk c') →
        Distinct (coreChunk c') (coreChunk c) := fun hne hboth => hne hboth.symm
    exact (List.Perm.pairwise_iff hsymm hperm).mp hl

/-- Fused candidates are admitted. -/
theorem rrfFusion_admitted {parse : String → Option Float} {k : ℕ}
    (hrows : ∀ d, d ∈ dense ∨ d ∈ sparse → d ∈ rows ∧ inScope scope d = true)
    (h : rrfFusion parse dense sparse k = .ok items) : Admitted scope rows items := by
  obtain ⟨scores, htracked, hperm⟩ := rrfFusion_tracked hrows h
  have hfinal : ∀ entry ∈ scores, Sourced scope rows entry.1 (finalizeProvenance entry.2) :=
    fun entry hentry => (htracked.sourced entry hentry).finalizeProvenance
  have hscores : Admitted scope rows (scores.map fun entry => finalizeProvenance entry.2) := by
    constructor
    · intro item hitem
      obtain ⟨entry, hentry, rfl⟩ := List.mem_map.mp hitem
      exact ⟨entry.1, hfinal entry hentry⟩
    · have hkeys := List.pairwise_map.mp htracked.distinct
      rw [List.map_map, List.pairwise_map]
      apply hkeys.imp_of_mem
      intro entry entry' hentry hentry' hne hboth
      simp only [Function.comp_apply, coreChunk_core, Dict.get, (hfinal entry hentry).chunk,
        (hfinal entry' hentry').chunk, Option.getD_some] at hboth
      rw [hne] at hboth
      exact Bool.false_ne_true hboth.1
  exact hscores.of_subperm (hperm.map core).subperm

/-- Dropping duplicates drops candidates. -/
theorem dedupeCandidates_sublist {candidates out : List Dict}
    (h : dedupeCandidates candidates = .ok out) : out.Sublist candidates := by
  have hfold : ∀ (candidates : List Dict) (state state' : List (Value × String) × List Dict),
      candidates.foldlM dedupeStep state = .ok state' →
        ∃ more, state'.2 = state.2 ++ more ∧ more.Sublist candidates := by
    intro candidates
    induction candidates with
    | nil =>
      intro state state' hstate
      cases hstate
      exact ⟨[], (List.append_nil _).symm, List.Sublist.slnil⟩
    | cons cand candidates ih =>
      intro state state' hstate
      rw [List.foldlM_cons, except_bind_ok] at hstate
      obtain ⟨next, hnext, hrest⟩ := hstate
      obtain ⟨more, hmore, hsub⟩ := ih next state' hrest
      simp only [dedupeStep, except_bind_ok, pure, Except.pure] at hnext
      obtain ⟨f, -, hf⟩ := hnext
      split at hf
      · cases hf
        exact ⟨more, hmore, hsub.cons cand⟩
      · cases hf
        exact ⟨cand :: more, by rw [hmore, List.append_assoc]; rfl, hsub.cons_cons cand⟩
  simp only [dedupeCandidates, except_bind_ok, pure, Except.pure, Except.ok.injEq] at h
  obtain ⟨state, hstate, rfl⟩ := h
  obtain ⟨more, hmore, hsub⟩ := hfold candidates ([], []) state hstate
  rw [hmore, List.nil_append]
  exact hsub

/-- Ranked candidates are admitted. -/
theorem rankCandidates_admitted {query : String}
    (hrows : ∀ d, d ∈ dense ∨ d ∈ sparse → d ∈ rows ∧ inScope scope d = true)
    (h : rankCandidates env scope query dense sparse = .ok items) : Admitted scope rows items := by
  simp only [rankCandidates, except_bind_ok, pure, Except.pure, Except.ok.injEq] at h
  obtain ⟨fused, hfused, deduped, hdeduped, scored, hscored, rfl⟩ := h
  have hadmitted := rrfFusion_admitted hrows hfused
  have hcore : scored.map core = deduped.map core := by
    apply mapM_map _ hscored
    intro item item' hitem
    simp only [withQuality, except_bind_ok, pure, Except.pure, Except.ok.injEq] at hitem
    obtain ⟨quality, -, rfl⟩ := hitem
    rw [core_set _ _ (by decide), core_set _ _ (by decide)]
  have hsub : (deduped.map core).Subperm (fused.map core) :=
    (((dedupeCandidates_sublist hdeduped).trans List.filter_sublist).map core).subperm
  have hperm := ((List.mergeSort_perm scored fun a b => !rankLt a b).map core).subperm
  exact hadmitted.of_subperm (hperm.trans (hcore ▸ hsub))

/-! ## Excerpts -/

/-- The evidence is an excerpt of the candidate. -/
structure ExcerptOf (item : Dict) (e : Evidence) : Prop where
  chunk : e.chunk_id = item.get "chunk_id"
  tenant : e.tenant_id = item.get "tenant_id"
  workspace : e.workspace_id = item.get "workspace_id"
  collection : e.collection_id = (item.get "collection_id").orElse (.text "rag_phase0")
  text : ∃ s, item.getOr "text" (.text "") = .text s ∧ e.text ≠ "" ∧ e.text.toList <+: s.toList

/-- What is selected of a list under a budget, from a rank on: excerpts of some of its items, of which
all but the last are whole. -/
structure Selects (items : List Dict) (rank budget : ℕ) (evidence : List Evidence) : Prop where
  ranks : evidence.Pairwise fun a b => a.rank < b.rank
  first : ∀ e ∈ evidence, rank ≤ e.rank
  chars : (evidence.map (·.text.length)).sum ≤ budget
  excerpts : ∃ pairs : List (Dict × Evidence), pairs.map Prod.snd = evidence ∧
    (pairs.map Prod.fst).Sublist items ∧ (∀ p ∈ pairs, ExcerptOf p.1 p.2) ∧
      ∀ p ∈ pairs.dropLast, p.1.getOr "text" (.text "") = .text p.2.text

/-- Nothing is selected. -/
theorem Selects.nil (items : List Dict) (rank budget : ℕ) : Selects items rank budget [] :=
  ⟨List.Pairwise.nil, by simp, Nat.zero_le _,
    ⟨[], rfl, List.nil_sublist _, by simp, by simp⟩⟩

/-- An item is passed over. -/
theorem Selects.skip (h : Selects items (rank + 1) budget evidence) (item : Dict) :
    Selects (item :: items) rank budget evidence := by
  obtain ⟨pairs, hsnd, hsub, hexcerpts, hwhole⟩ := h.excerpts
  refine ⟨h.ranks, ?_, h.chars, pairs, hsnd, hsub.cons item, hexcerpts, hwhole⟩
  intro e he
  have hfirst := h.first e he
  omega

/-- What an entry of the evidence is made of. -/
theorem evidenceOf_spec {text : String} (h : evidenceOf env item text rank = .ok e) :
    e.chunk_id = item.get "chunk_id" ∧ e.tenant_id = item.get "tenant_id" ∧
      e.workspace_id = item.get "workspace_id" ∧
      e.collection_id = (item.get "collection_id").orElse (.text "rag_phase0") ∧
      e.text = text ∧ e.rank = rank := by
  simp only [evidenceOf, except_bind_ok, pure, Except.pure, Except.ok.injEq] at h
  obtain ⟨_, _, _, _, _, _, rfl⟩ := h
  exact ⟨rfl, rfl, rfl, rfl, rfl, rfl⟩

/-- An item is selected, with as much of its text as the budget has room for. -/
theorem Selects.take {s : String} (hs : item.getOr "text" (.text "") = .text s)
    (hne : (s.toList.take budget).isEmpty = false)
    (he : evidenceOf env item (String.ofList (s.toList.take budget)) rank = .ok e)
    (h : Selects items (rank + 1) (budget - (s.toList.take budget).length) evidence)
    (hempty : budget - (s.toList.take budget).length = 0 → evidence = []) :
    Selects (item :: items) rank budget (e :: evidence) := by
  obtain ⟨hchunk, htenant, hworkspace, hcollection, htext, hrank⟩ := evidenceOf_spec he
  obtain ⟨pairs, hsnd, hsub, hexcerpts, hwhole⟩ := h.excerpts
  have hlength : e.text.length = (s.toList.take budget).length := by
    rw [htext, String.length_ofList]
  have hle : (s.toList.take budget).length ≤ budget := by
    rw [List.length_take]
    omega
  refine ⟨?_, ?_, ?_, (item, e) :: pairs, ?_, ?_, ?_, ?_⟩
  · rw [List.pairwise_cons]
    refine ⟨?_, h.ranks⟩
    intro b hb
    have hfirst := h.first b hb
    omega
  · intro b hb
    rcases List.mem_cons.mp hb with rfl | hb
    · omega
    · have hfirst := h.first b hb
      omega
  · have hchars := h.chars
    rw [List.map_cons, List.sum_cons]
    omega
  · rw [List.map_cons, hsnd]
  · exact hsub.cons_cons item
  · intro p hp
    rcases List.mem_cons.mp hp with rfl | hp
    · refine ⟨hchunk, htenant, hworkspace, hcollection, s, hs, ?_, ?_⟩
      · rw [htext]
        intro hnil
        have hlist := congrArg String.toList hnil
        rw [String.toList_ofList] at hlist
        rw [hlist] at hne
        cases hne
      · rw [htext, String.toList_ofList]
        exact List.take_prefix _ _
    · exact hexcerpts p hp
  · intro p hp
    cases hpairs : pairs with
    | nil =>
      rw [hpairs] at hp
      cases hp
    | cons q qs =>
      rw [hpairs, List.dropLast_cons_cons] at hp
      rcases List.mem_cons.mp hp with rfl | hp
      · -- Something was selected after it, so that the budget had room for all of its text.
        have hevidence : evidence ≠ [] := by
          rw [← hsnd, hpairs]
          exact List.cons_ne_nil _ _
        have hroom : (s.toList.take budget).length < budget := by
          by_contra hnot
          exact hevidence (hempty (by omega))
        have hall : s.toList.take budget = s.toList := by
          rw [List.length_take] at hroom
          exact List.take_of_length_le (by omega)
        show item.getOr "text" (.text "") = .text e.text
        rw [hs, htext, hall, String.ofList_toList]
      · exact hwhole p (hpairs ▸ hp)

/-- With no budget nothing is selected. -/
theorem selectEvidence_zero (h : selectEvidence env items rank 0 = .ok evidence) : evidence = [] := by
  cases items with
  | nil =>
    cases h
    rfl
  | cons item items =>
    rw [selectEvidence, if_pos rfl] at h
    cases h
    rfl

/-- The selection. -/
theorem selectEvidence_selects (h : selectEvidence env items rank budget = .ok evidence) :
    Selects items rank budget evidence := by
  induction items generalizing rank budget evidence with
  | nil =>
    cases h
    exact Selects.nil [] rank budget
  | cons item items ih =>
    rw [selectEvidence] at h
    split at h
    · cases h
      exact Selects.nil _ rank budget
    · split at h
      · next s hs =>
        dsimp only at h
        split at h
        · exact (ih h).skip item
        · next hne =>
          simp only [except_bind_ok, pure, Except.pure, Except.ok.injEq] at h
          obtain ⟨e, he, rest, hrest, rfl⟩ := h
          refine Selects.take hs (by simpa using hne) he (ih hrest) ?_
          intro hzero
          rw [hzero] at hrest
          exact selectEvidence_zero hrest
      · exact (ih h).skip item

/-! ## Retrieval -/

/-- The evidence is a bounded selection from the rows in scope, no two entries of one chunk: each is an
excerpt of a row, and all but the last have the whole text of theirs. -/
structure Faithful (scope : SearchScope) (options : RetrievalOptions) (rows : List Dict)
    (evidence : List Evidence) : Prop where
  count : evidence.length ≤ options.top_k
  ranks : evidence.Pairwise fun a b => a.rank < b.rank
  chars : (evidence.map (·.text.length)).sum ≤ options.max_context_chars
  chunks : evidence.Pairwise fun a b => Distinct a.chunk_id b.chunk_id
  inside : ∀ e ∈ evidence, e.tenant_id = .text scope.tenant_id ∧
    e.workspace_id = .text scope.workspace_id ∧ ∃ c, e.collection_id = .text c ∧ c ≠ "" ∧
      (scope.allowed.contains "*" || scope.allowed.contains c) = true
  sourced : ∃ pairs : List (Dict × Evidence), pairs.map Prod.snd = evidence ∧
    (∀ p ∈ pairs, p.1 ∈ rows ∧ inScope scope p.1 = true ∧
      (∃ v, p.1 "chunk_id" = some v ∧ SameChunk p.2.chunk_id v) ∧
      ∃ s, p.1 "text" = some (.text s) ∧ p.2.text ≠ "" ∧ p.2.text.toList <+: s.toList) ∧
    ∀ p ∈ pairs.dropLast, p.1 "text" = some (.text p.2.text)

/-- An excerpt of a candidate in scope is in scope. -/
theorem ExcerptOf.within (h : ExcerptOf item e) (hscope : inScope scope item = true) :
    e.tenant_id = .text scope.tenant_id ∧ e.workspace_id = .text scope.workspace_id ∧
      ∃ c, e.collection_id = .text c ∧ c ≠ "" ∧
        (scope.allowed.contains "*" || scope.allowed.contains c) = true := by
  obtain ⟨htenant, hworkspace, c, hc, hne, hallowed⟩ := inScope_iff.mp hscope
  refine ⟨?_, ?_, c, ?_, hne, hallowed⟩
  · rw [h.tenant, Dict.get, htenant]
    rfl
  · rw [h.workspace, Dict.get, hworkspace]
    rfl
  · rw [h.collection, Dict.get, hc]
    simp [Value.orElse, Value.truthy, hne]

/-- An excerpt of a candidate is one of a row of its chunk; it has the whole text of the row if it has
that of the candidate. -/
theorem ExcerptOf.row {id : Value} (h : ExcerptOf item e) (hsourced : Sourced scope rows id item) :
    ∃ row ∈ rows, inScope scope row = true ∧
      (∃ v, row "chunk_id" = some v ∧ SameChunk e.chunk_id v) ∧
      (∃ s, row "text" = some (.text s) ∧ e.text ≠ "" ∧ e.text.toList <+: s.toList) ∧
      (item.getOr "text" (.text "") = .text e.text → row "text" = some (.text e.text)) := by
  obtain ⟨s, hs, hne, hprefix⟩ := h.text
  have hnonempty : s ≠ "" := by
    rintro rfl
    apply hne
    rw [← String.toList_inj]
    exact List.prefix_nil.mp hprefix
  have htext : item "text" = some (.text s) := by
    unfold Dict.getOr at hs
    cases hitem : item "text" with
    | none =>
      rw [hitem, Option.getD_none, Value.text.injEq] at hs
      exact absurd hs.symm hnonempty
    | some v =>
      rw [hitem, Option.getD_some] at hs
      rw [hs]
  obtain ⟨row, hrow, hscope, hrowtext, v, hv, hsame⟩ := hsourced.text s hnonempty htext
  have hchunk : e.chunk_id = id := by
    rw [h.chunk, Dict.get, hsourced.chunk]
    rfl
  refine ⟨row, hrow, hscope, ⟨v, hv, ?_⟩, ⟨s, hrowtext, hne, hprefix⟩, ?_⟩
  · rw [hchunk]
    exact hsame
  · intro hwhole
    rw [hrowtext, ← hs, hwhole]

/-- A selection from admitted candidates is faithful. -/
theorem Selects.faithful {options : RetrievalOptions} (hadmitted : Admitted scope rows items)
    (hcount : items.length ≤ options.top_k) (h : Selects items 0 options.max_context_chars evidence) :
    Faithful scope options rows evidence := by
  obtain ⟨pairs, rfl, hsub, hexcerpts, hwhole⟩ := h.excerpts
  have hitems : ∀ p ∈ pairs, ∃ id, Sourced scope rows id p.1 := fun p hp =>
    hadmitted.sourced p.1 (hsub.subset (List.mem_map_of_mem hp))
  have hrow : ∀ p : Dict × Evidence, ∃ row : Dict, p ∈ pairs → row ∈ rows ∧
      inScope scope row = true ∧ (∃ v, row "chunk_id" = some v ∧ SameChunk p.2.chunk_id v) ∧
      (∃ s, row "text" = some (.text s) ∧ p.2.text ≠ "" ∧ p.2.text.toList <+: s.toList) ∧
      (p.1.getOr "text" (.text "") = .text p.2.text → row "text" = some (.text p.2.text)) := by
    intro p
    by_cases hp : p ∈ pairs
    · obtain ⟨id, hid⟩ := hitems p hp
      obtain ⟨row, hspec⟩ := (hexcerpts p hp).row hid
      exact ⟨row, fun _ => hspec⟩
    · exact ⟨p.1, fun hmem => absurd hmem hp⟩
  choose row hrow using hrow
  refine ⟨?_, h.ranks, h.chars, ?_, ?_, pairs.map fun p => (row p, p.2), ?_, ?_, ?_⟩
  · have hlength := hsub.length_le
    rw [List.length_map] at hlength ⊢
    omega
  · have hcores := hadmitted.distinct.sublist (hsub.map core)
    rw [List.map_map, List.pairwise_map] at hcores
    rw [List.pairwise_map]
    apply hcores.imp_of_mem
    intro p q hp hq hne
    rw [(hexcerpts p hp).chunk, (hexcerpts q hq).chunk]
    exact hne
  · intro e he
    obtain ⟨p, hp, rfl⟩ := List.mem_map.mp he
    obtain ⟨id, hid⟩ := hitems p hp
    exact (hexcerpts p hp).within hid.inside
  · rw [List.map_map]
    rfl
  · intro q hq
    obtain ⟨p, hp, rfl⟩ := List.mem_map.mp hq
    obtain ⟨hmem, hscope, hchunk, htext, -⟩ := hrow p hp
    exact ⟨hmem, hscope, hchunk, htext⟩
  · intro q hq
    rw [← List.map_dropLast] at hq
    obtain ⟨p, hp, rfl⟩ := List.mem_map.mp hq
    obtain ⟨-, -, -, -, hall⟩ := hrow p (List.dropLast_sublist pairs |>.subset hp)
    exact hall (hwhole p hp)

/-- What follows the search is faithful to what was found. -/
theorem select_faithful {md5 : String → String} {kind : RerankerKind} {query : String} {options : RetrievalOptions}
    {count : ℕ} (h : select env scope query options (kind.reranker env md5) dense sparse = .ok (evidence, count)) :
    Faithful scope options (dense ++ sparse) evidence := by
  simp only [select, except_bind_ok] at h
  obtain ⟨ranked, hranked, h⟩ := h
  have hitems : ∃ items : List Dict, (items.map core).Subperm (ranked.map core) ∧
      selectEvidence env (items.take options.top_k) 0 options.max_context_chars = .ok evidence := by
    split at h
    · simp only [except_bind_ok, pure, Except.pure, Except.ok.injEq] at h
      obtain ⟨reranked, hreranked, items, rfl, selected, hselected, hpair⟩ := h
      cases hpair
      have hfilter := (List.filter_sublist (p := inScope scope) (l := reranked)).map core
      exact ⟨_, hfilter.subperm.trans (reranker_subperm kind hreranked), hselected⟩
    · simp only [except_bind_ok, pure, Except.pure, Except.ok.injEq] at h
      obtain ⟨items, rfl, selected, hselected, hpair⟩ := h
      cases hpair
      exact ⟨_, List.Subperm.refl _, hselected⟩
  obtain ⟨items, hreranked, hselected⟩ := hitems
  have hrows : ∀ d, d ∈ dense.filter (inScope scope) ∨ d ∈ sparse.filter (inScope scope) →
      d ∈ dense ++ sparse ∧ inScope scope d = true := by
    intro d hd
    rcases hd with hd | hd
    · obtain ⟨hmem, hscope⟩ := List.mem_filter.mp hd
      exact ⟨List.mem_append_left _ hmem, hscope⟩
    · obtain ⟨hmem, hscope⟩ := List.mem_filter.mp hd
      exact ⟨List.mem_append_right _ hmem, hscope⟩
  have hadmitted := rankCandidates_admitted hrows hranked
  have htake : ((items.take options.top_k).map core).Subperm (items.map core) :=
    ((List.take_sublist _ _).map core).subperm
  apply (selectEvidence_selects hselected).faithful (hadmitted.of_subperm (htake.trans hreranked))
  rw [List.length_take]
  omega

/-- What `retrieve` returns is empty, or faithful to what the search has found. -/
theorem retrieve_faithful (env : Env) (md5 : String → String) (kind : RerankerKind) (engine : Engine)
    (query : String) (context : RetrievalContext) (options : RetrievalOptions) :
    match retrieve env { engine with reranker := kind.reranker env md5 } query context options with
    | .error _ => True
    | .ok result => result.evidence = [] ∨ ∃ normalized req found,
        request env { engine with reranker := kind.reranker env md5 } query context options =
          .ok (normalized, some req) ∧
        search { engine with reranker := kind.reranker env md5 } req = .ok found ∧
        Faithful req.scope options (found.dense ++ found.sparse) result.evidence := by
  cases hretrieve : retrieve env { engine with reranker := kind.reranker env md5 } query context
      options with
  | error e => exact trivial
  | ok result =>
    simp only [retrieve, except_bind_ok] at hretrieve
    obtain ⟨⟨normalized, req⟩, hreq, hresult⟩ := hretrieve
    cases req with
    | none =>
      cases hresult
      exact .inl rfl
    | some req =>
      simp only [except_bind_ok, pure, Except.pure, Except.ok.injEq] at hresult
      obtain ⟨found, hfound, ⟨evidence, count⟩, hselect, rfl⟩ := hresult
      exact .inr ⟨normalized, req, found, hreq, hfound, select_faithful hselect⟩

end RickIntelligence.Retrieval
