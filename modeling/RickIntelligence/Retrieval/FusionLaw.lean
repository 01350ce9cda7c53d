import RickIntelligence.Retrieval.RankFusion

/-!
# The law of rank fusion

With rational numbers, the item of a chunk is what the definition of reciprocal rank fusion says of the
rows of the chunk, in the order in which they come (`Absorbed`). Both loops keep this from row to row,
whether the row is the first of its chunk or not, and the sort at the end keeps the order of items with
one score (`fuse_rationals`).
-/

namespace RickIntelligence.Retrieval

open Lib

/-- Rational numbers. -/
def rationals (float : Value → Except PyError ℚ) : Numbers ℚ :=
  ⟨0, (· + ·), fun a b => decide (a < b), fun k rank => 1 / ((k : ℚ) + rank + 1), float⟩

/-- A row with its rank, the leg that it is of, and the score that is read of it. -/
structure Hit (N : Type) where
  dense : Bool
  row : Row
  rank : ℕ
  value : N

/-- What a row makes of the item of its chunk. -/
def absorb {N : Type} (num : Numbers N) (k : ℕ) (found : Option (FusedItem N)) (hit : Hit N) :
    FusedItem N :=
  if hit.dense then absorbDense num k hit.rank hit.row hit.value found
  else absorbSparse num k hit.rank hit.row hit.value found

/-- The rows of a chunk, with their ranks. -/
def occurrences (dense sparse : List Row) (c : String) : List (Row × ℕ) :=
  (dense.zipIdx ++ sparse.zipIdx).filter fun o => decide (o.1.chunk_id = c)

/-- The first value for a field that some rows have. -/
def firstValue (rows : List (Row × ℕ)) (field : String) : Option Value :=
  (rows.map fun o => o.1.fields.get field).find? Value.hasValue

/-- The fields that get a default in the place of a missing value. -/
def repairedFields : List String :=
  ["collection_id", "page_start", "page_end", "source", "document_filename", "title"]

/-! ## Fields -/

/-- The dictionary has the values of another one for a field, and none where that has none. -/
structure Keeps (d d' : Dict) (field : String) : Prop where
  value : (d.get field).hasValue = true → d' field = d field
  missing : (d.get field).hasValue = false → (d'.get field).hasValue = false

variable {d : Dict} {field : String}

/-- One change after another. -/
theorem Keeps.trans {d' d'' : Dict} (h : Keeps d d' field) (h' : Keeps d' d'' field) : Keeps d d'' field := by
  constructor
  · intro hvalue
    have heq := h.value hvalue
    have hvalue' : (d'.get field).hasValue = true := by
      rw [Dict.get, heq]
      exact hvalue
    rw [h'.value hvalue', heq]
  · intro hmissing
    exact h'.missing (h.missing hmissing)

/-- A field that is the same. -/
theorem Keeps.of_eq {d' : Dict} (h : d' field = d field) : Keeps d d' field := by
  constructor
  · intro _
    exact h
  · intro hmissing
    rw [Dict.get, h]
    exact hmissing

/-- A default that counts as missing. -/
theorem Keeps.setDefault (d : Dict) (field f : String) {value : Value}
    (hvalue : value.hasValue = false) : Keeps d (d.setDefault f value) field := by
  by_cases hf : field = f
  · subst hf
    constructor
    · intro h
      have hsome : (d field).isSome = true := by
        unfold Dict.get at h
        cases hd : d field with
        | none =>
          rw [hd] at h
          cases h
        | some v => rfl
      unfold Dict.setDefault
      rw [if_pos hsome]
    · intro h
      unfold Dict.setDefault
      split
      · exact h
      · rw [Dict.get, Dict.set_self, Option.getD_some]
        exact hvalue
  · exact Keeps.of_eq (Dict.setDefault_ne d value hf)

/-- A field that is set to another value. -/
theorem Keeps.set (d : Dict) {f : String} (value : Value) (h : field ≠ f) :
    Keeps d (d.set f value) field :=
  Keeps.of_eq (Dict.set_ne d value h)

/-- A new item keeps what its row has. -/
theorem blank_keeps (row : Row) (hscore : field ∉ scoreFields) (hpage : field ≠ "page_start")
    (hcollection : field ≠ "collection_id") :
    Keeps row.fields (blank row.fields (.text row.chunk_id)) field := by
  have hne : field ≠ "score" ∧ field ≠ "dense_score" ∧ field ≠ "sparse_score" := by
    simpa [scoreFields] using hscore
  have hchunk : row.fields.set "chunk_id" (.text row.chunk_id) = row.fields := by
    funext f
    unfold Dict.set
    split
    · next hf =>
      rw [hf, row.keyed]
    · rfl
  have hstart : ∀ d : Dict, Keeps d
      (if (d "page_start").isSome then d else d.set "page_start" (d.get "page_hint")) field := by
    intro d
    split
    · exact Keeps.of_eq rfl
    · exact Keeps.set d _ hpage
  have hplace : ∀ d : Dict, Keeps d (if (d.get "collection_id").truthy then d
      else d.set "collection_id" (.text "rag_phase0")) field := by
    intro d
    split
    · exact Keeps.of_eq rfl
    · exact Keeps.set d _ hcollection
  unfold blank
  rw [hchunk]
  refine Keeps.trans ?_ (Keeps.set _ _ hne.2.2)
  refine Keeps.trans ?_ (Keeps.set _ _ hne.2.1)
  refine Keeps.trans ?_ (Keeps.set _ _ hne.1)
  refine Keeps.trans ?_ (hplace _)
  refine Keeps.trans ?_ (Keeps.setDefault _ _ _ rfl)
  refine Keeps.trans ?_ (Keeps.setDefault _ _ _ rfl)
  refine Keeps.trans ?_ (Keeps.setDefault _ _ _ rfl)
  refine Keeps.trans ?_ (Keeps.setDefault _ _ _ rfl)
  refine Keeps.trans ?_ (Keeps.setDefault _ _ _ rfl)
  refine Keeps.trans ?_ (Keeps.setDefault _ _ _ rfl)
  refine Keeps.trans ?_ (hstart _)
  refine Keeps.trans ?_ (Keeps.setDefault _ _ _ rfl)
  refine Keeps.trans ?_ (Keeps.setDefault _ _ _ rfl)
  exact Keeps.setDefault _ _ _ rfl

/-- A field that is filled in only where it is missing. -/
theorem fill_keeps (f : String) (value : Value) (h : (d.get field).hasValue = true) :
    d.fill f value field = d field := by
  by_cases hf : field = f
  · subst hf
    unfold Dict.fill
    rw [if_pos h]
  · exact Dict.fill_ne d value hf

/-- The last repairs keep what is there. -/
theorem finalizeProvenance_keeps (h : (d.get field).hasValue = true) :
    finalizeProvenance d field = d field := by
  have hstep : ∀ (d' : Dict) (f : String) (value : Value), d' field = d field →
      d'.fill f value field = d field := by
    intro d' f value heq
    have hvalue : (d'.get field).hasValue = true := by
      rw [Dict.get, heq]
      exact h
    rw [fill_keeps f value hvalue, heq]
  unfold finalizeProvenance
  exact hstep _ _ _ (hstep _ _ _ (hstep _ _ _ (hstep _ _ _ (hstep _ _ _ rfl))))

/-- The last repairs are of some fields. -/
theorem finalizeProvenance_ne (d : Dict) (h : field ∉ repairedFields) :
    finalizeProvenance d field = d field := by
  have hne : field ≠ "collection_id" ∧ field ≠ "page_start" ∧ field ≠ "page_end" ∧
      field ≠ "source" ∧ field ≠ "document_filename" ∧ field ≠ "title" := by
    simpa [repairedFields] using h
  obtain ⟨-, hstart, hend, hsource, hfilename, htitle⟩ := hne
  unfold finalizeProvenance
  rw [Dict.fill_ne _ _ htitle, Dict.fill_ne _ _ hfilename, Dict.fill_ne _ _ hsource,
    Dict.fill_ne _ _ hend, Dict.fill_ne _ _ hstart]

/-! ## One chunk -/

/-- The item of a chunk is what the definition says of some rows of it. -/
structure Absorbed (k : ℕ) (c : String) (rows : List (Row × ℕ)) (item : FusedItem ℚ) : Prop where
  chunk : item.fields "chunk_id" = some (.text c)
  score : item.score = (rows.map fun o => 1 / ((k : ℚ) + o.2 + 1)).sum
  value : ∀ field ∉ scoreFields, field ≠ "page_start" → field ≠ "collection_id" →
    ∀ v, firstValue rows field = some v → item.fields field = some v
  missing : ∀ field ∉ scoreFields, field ≠ "page_start" → field ≠ "collection_id" →
    firstValue rows field = none → (item.fields.get field).hasValue = false

/-- The first value for a field with one more row. -/
theorem firstValue_concat (rows : List (Row × ℕ)) (o : Row × ℕ) (field : String) :
    firstValue (rows ++ [o]) field = (firstValue rows field).or
      (if (o.1.fields.get field).hasValue then some (o.1.fields.get field) else none) := by
  unfold firstValue
  rw [List.map_append, List.find?_append, List.map_singleton, List.find?_singleton]

/-- A value that is there is found under its field. -/
theorem eq_some_of_hasValue (h : (d.get field).hasValue = true) :
    d field = some (d.get field) := by
  unfold Dict.get at h ⊢
  cases hd : d field with
  | none =>
    rw [hd] at h
    cases h
  | some v => rfl

section Absorbing

variable {float : Value → Except PyError ℚ} {k : ℕ} {c : String}

variable {item : FusedItem ℚ} {rows : List (Row × ℕ)}

variable {row : Row} {rank : ℕ} {target : FusedItem ℚ} {hit : Hit ℚ}

/-- The first row of a chunk. -/
theorem absorbed_first (hc : row.chunk_id = c) (hfields : item.fields = blank row.fields (.text row.chunk_id))
    (hscore : item.score = 1 / ((k : ℚ) + rank + 1)) :
    Absorbed k c [(row, rank)] item := by
  constructor
  · rw [hfields, hc]
    simp [blank, Dict.set_ne, Dict.setDefault_ne, ite_apply]
  · rw [hscore]
    simp
  · intro field hfield hpage hcollection v hv
    have hkeeps := blank_keeps row hfield hpage hcollection
    have hone := firstValue_concat [] (row, rank) field
    rw [List.nil_append] at hone
    rw [hone, show firstValue [] field = none from rfl, Option.none_or] at hv
    split at hv
    · next hvalue =>
      rw [hfields, hkeeps.value hvalue, eq_some_of_hasValue hvalue]
      exact hv
    · cases hv
  · intro field hfield hpage hcollection hnone
    have hkeeps := blank_keeps row hfield hpage hcollection
    have hone := firstValue_concat [] (row, rank) field
    rw [List.nil_append] at hone
    rw [hone, show firstValue [] field = none from rfl, Option.none_or] at hnone
    split at hnone
    · cases hnone
    · next hvalue =>
      rw [hfields]
      exact hkeeps.missing (Bool.not_eq_true _ ▸ hvalue)

/-- One more row of a chunk. -/
theorem Absorbed.next (h : Absorbed k c rows target) (hc : row.chunk_id = c)
    (hfields : item.fields = mergeProvenance target.fields row.fields)
    (hscore : item.score = target.score + 1 / ((k : ℚ) + rank + 1)) :
    Absorbed k c (rows ++ [(row, rank)]) item := by
  have hmerge : ∀ field ∉ scoreFields, mergeProvenance target.fields row.fields field =
      if (target.fields.get field).hasValue = false ∧ (row.fields.get field).hasValue = true then
        row.fields field else target.fields field := by
    intro field hfield
    unfold mergeProvenance
    rw [if_neg fun hmem => hfield (List.contains_iff_mem.mp hmem)]
    cases hrow : row.fields field with
    | none =>
      have hmissing : (row.fields.get field).hasValue = false := by
        rw [Dict.get, hrow]
        rfl
      rw [if_neg fun hboth => by rw [hmissing] at hboth; exact Bool.false_ne_true hboth.2]
    | some v =>
      have hget : row.fields.get field = v := by
        rw [Dict.get, hrow]
        rfl
      rw [hget]
      cases (target.fields.get field).hasValue <;> cases hv : v.hasValue <;> simp [hv]
  constructor
  · rw [hfields, hmerge _ (by decide)]
    split
    · rw [row.keyed, hc]
    · exact h.chunk
  · rw [hscore, h.score]
    simp
  · intro field hfield hpage hcollection v hv
    rw [firstValue_concat] at hv
    rw [hfields, hmerge field hfield]
    cases hfirst : firstValue rows field with
    | some w =>
      have htarget := h.value field hfield hpage hcollection w hfirst
      have hvalue : (target.fields.get field).hasValue = true := by
        rw [Dict.get, htarget]
        exact List.find?_some (p := Value.hasValue) hfirst
      rw [hfirst, Option.some_or] at hv
      rw [if_neg fun hboth => by rw [hvalue] at hboth; exact Bool.true_eq_false.mp hboth.1, htarget, hv]
    | none =>
      have htarget := h.missing field hfield hpage hcollection hfirst
      rw [hfirst, Option.none_or] at hv
      split at hv
      · next hvalue =>
        rw [if_pos ⟨htarget, hvalue⟩, eq_some_of_hasValue hvalue]
        exact hv
      · cases hv
  · intro field hfield hpage hcollection hnone
    rw [firstValue_concat, Option.or_eq_none_iff] at hnone
    have htarget := h.missing field hfield hpage hcollection hnone.1
    have hrow : ¬ (row.fields.get field).hasValue = true := by
      intro hvalue
      rw [if_pos hvalue] at hnone
      cases hnone.2
    rw [hfields, Dict.get, hmerge field hfield, if_neg fun hboth => hrow hboth.2]
    exact htarget

/-- The first row of a chunk, of either leg. -/
theorem absorbed_absorb_none (hc : hit.row.chunk_id = c) :
    Absorbed k c [(hit.row, hit.rank)] (absorb (rationals float) k none hit) := by
  unfold absorb
  split
  · apply absorbed_first hc rfl
    show 0 + 1 / ((k : ℚ) + hit.rank + 1) = _
    rw [zero_add]
  · exact absorbed_first hc rfl rfl

/-- One more row of a chunk, of either leg. -/
theorem Absorbed.absorb_some (h : Absorbed k c rows target) (hc : hit.row.chunk_id = c) :
    Absorbed k c (rows ++ [(hit.row, hit.rank)]) (absorb (rationals float) k (some target) hit) := by
  unfold absorb
  split
  · exact h.next hc rfl rfl
  · exact h.next hc rfl rfl

/-- The item of a chunk is what the definition says of the rows of the chunk. -/
theorem gathered_absorbed {hits : List (Hit ℚ)} (hall : ∀ hit ∈ hits, hit.row.chunk_id = c)
    (h : gathered (absorb (rationals float) k) hits = some item) :
    Absorbed k c (hits.map fun hit => (hit.row, hit.rank)) item := by
  let P : List (Hit ℚ) → Option (FusedItem ℚ) → Prop := fun hits acc =>
    (∀ hit ∈ hits, hit.row.chunk_id = c) → (acc = none → hits = []) ∧
      ∀ item, acc = some item → Absorbed k c (hits.map fun hit => (hit.row, hit.rank)) item
  have hnil : P [] none := by
    intro _
    refine ⟨fun _ => rfl, ?_⟩
    intro item hitem
    cases hitem
  have hstep : ∀ hits hit acc, P hits acc →
      P (hits ++ [hit]) (some (absorb (rationals float) k acc hit)) := by
    intro hits hit acc ih hall
    have hc : hit.row.chunk_id = c := hall hit (by simp)
    obtain ⟨hnone, hsome⟩ := ih fun other hother => hall other (List.mem_append_left _ hother)
    constructor
    · intro habsurd
      cases habsurd
    · intro item hitem
      rw [← Option.some.inj hitem, List.map_append, List.map_singleton]
      cases acc with
      | none =>
        rw [hnone rfl, List.map_nil, List.nil_append]
        exact absorbed_absorb_none hc
      | some target => exact (hsome target rfl).absorb_some hc
  exact (gathered_induction (P := P) hits hnil hstep hall).2 item h

/-- The last repairs keep what the definition says. -/
theorem Absorbed.finalize (h : Absorbed k c rows item) :
    item.finalize.fields "chunk_id" = some (.text c) ∧ item.finalize.score = item.score ∧
      (∀ field ∉ scoreFields, field ≠ "page_start" → field ≠ "collection_id" →
        ∀ v, firstValue rows field = some v → item.finalize.fields field = some v) ∧
      ∀ field ∉ scoreFields, field ∉ repairedFields → firstValue rows field = none →
        (item.finalize.fields.get field).hasValue = false := by
  refine ⟨?_, rfl, ?_, ?_⟩
  · show finalizeProvenance item.fields "chunk_id" = _
    rw [finalizeProvenance_ne _ (by decide)]
    exact h.chunk
  · intro field hfield hpage hcollection v hv
    have hvalue := h.value field hfield hpage hcollection v hv
    have hhas : (item.fields.get field).hasValue = true := by
      rw [Dict.get, hvalue]
      exact List.find?_some (p := Value.hasValue) hv
    show finalizeProvenance item.fields field = _
    rw [finalizeProvenance_keeps hhas]
    exact hvalue
  · intro field hfield hrepaired hnone
    have hne : field ≠ "page_start" ∧ field ≠ "collection_id" := by
      constructor
      · rintro rfl
        exact hrepaired (by decide)
      · rintro rfl
        exact hrepaired (by decide)
    show (Dict.get (finalizeProvenance item.fields) field).hasValue = false
    rw [Dict.get, finalizeProvenance_ne _ hrepaired]
    exact h.missing field hfield hne.1 hne.2 hnone

end Absorbing

/-! ## The law -/

/-- The definition of reciprocal rank fusion: an item for each chunk, the highest scores first, those
with one score in the order in which their chunks first came, with the sums of the reciprocal ranks for
scores, and with the first values that the rows have for the other fields. -/
structure Fused (k : ℕ) (dense sparse : List Row) (items : List (FusedItem ℚ)) : Prop where
  chunks : (items.map (·.fields "chunk_id")).Perm
    ((((dense ++ sparse).map (·.chunk_id)).dedup).map fun c => some (.text c))
  score : ∀ item ∈ items, ∀ c, item.fields "chunk_id" = some (.text c) →
    item.score = ((occurrences dense sparse c).map fun o => 1 / ((k : ℚ) + o.2 + 1)).sum
  order : items.Pairwise fun a b => b.score ≤ a.score
  ties : items.Pairwise fun a b => a.score = b.score → ∀ c c',
    a.fields "chunk_id" = some (.text c) → b.fields "chunk_id" = some (.text c') →
    ((dense ++ sparse).map (·.chunk_id)).idxOf c < ((dense ++ sparse).map (·.chunk_id)).idxOf c'
  value : ∀ item ∈ items, ∀ c, item.fields "chunk_id" = some (.text c) →
    ∀ field ∉ scoreFields, field ≠ "page_start" → field ≠ "collection_id" →
    ∀ v, firstValue (occurrences dense sparse c) field = some v → item.fields field = some v
  missing : ∀ item ∈ items, ∀ c, item.fields "chunk_id" = some (.text c) →
    ∀ field ∉ scoreFields, field ∉ repairedFields →
    firstValue (occurrences dense sparse c) field = none → (item.fields.get field).hasValue = false

/-- The row of the dense leg, with what is read of it. -/
def denseHit {N : Type} (num : Numbers N) (entry : Row × ℕ) : Except PyError (Hit N) := do
  let dense ← denseScore num entry.1
  return ⟨true, entry.1, entry.2, dense⟩

/-- The row of the sparse leg, with what is read of it. -/
def sparseHit {N : Type} (num : Numbers N) (entry : Row × ℕ) : Except PyError (Hit N) := do
  let sparse ← sparseScore num entry.1
  return ⟨false, entry.1, entry.2, sparse⟩

variable {N : Type} {num : Numbers N} {dense sparse : List Row} {k : ℕ}

/-- The loop on the dense leg. -/
theorem fuseDense_hits (num : Numbers N) (k : ℕ) (rows : List (Row × ℕ)) (scores : Items N) :
    rows.foldlM (fuseDense num k) scores = (rows.mapM (denseHit num)).map fun hits =>
      hits.foldl (fun scores hit => upsert hit.row.chunk_id (absorb num k · hit) scores) scores := by
  rw [← foldlM_read]
  congr 1
  funext scores entry
  unfold fuseDense denseHit
  cases denseScore num entry.1 <;> rfl

/-- The loop on the sparse leg. -/
theorem fuseSparse_hits (num : Numbers N) (k : ℕ) (rows : List (Row × ℕ)) (scores : Items N) :
    rows.foldlM (fuseSparse num k) scores = (rows.mapM (sparseHit num)).map fun hits =>
      hits.foldl (fun scores hit => upsert hit.row.chunk_id (absorb num k · hit) scores) scores := by
  rw [← foldlM_read]
  congr 1
  funext scores entry
  unfold fuseSparse sparseHit
  cases sparseScore num entry.1 <;> rfl

variable {entry : Row × ℕ} {hit : Hit N} {float : Value → Except PyError ℚ}

/-- A row that was read is the row. -/
theorem denseHit_row (h : denseHit num entry = .ok hit) :
    (hit.row, hit.rank) = entry := by
  simp only [denseHit, except_bind_ok, pure, Except.pure, Except.ok.injEq] at h
  obtain ⟨_, _, rfl⟩ := h
  rfl

/-- A row that was read is the row. -/
theorem sparseHit_row (h : sparseHit num entry = .ok hit) :
    (hit.row, hit.rank) = entry := by
  simp only [sparseHit, except_bind_ok, pure, Except.pure, Except.ok.injEq] at h
  obtain ⟨_, _, rfl⟩ := h
  rfl

/-- The fusion gathers the rows of both legs under their chunks, one leg after the other. -/
theorem fuse_ok {items : List (FusedItem N)} (h : fuse num dense sparse k = .ok items) :
    ∃ hits : List (Hit N), hits.map (fun hit => (hit.row, hit.rank)) =
        dense.zipIdx ++ sparse.zipIdx ∧
      items = ((gather (fun hit => hit.row.chunk_id) (absorb num k) hits).map
        fun entry => entry.2.finalize).mergeSort fun a b => !num.lt a.score b.score := by
  simp only [fuse, except_bind_ok, pure, Except.pure, Except.ok.injEq] at h
  obtain ⟨scores, hdense, scores', hsparse, rfl⟩ := h
  rw [fuseDense_hits] at hdense
  rw [fuseSparse_hits] at hsparse
  obtain ⟨hits, hhits, rfl⟩ := except_map_ok.mp hdense
  obtain ⟨hits', hhits', rfl⟩ := except_map_ok.mp hsparse
  refine ⟨hits ++ hits', ?_, ?_⟩
  · have hrows := mapM_map (g := id) (fun _ _ => denseHit_row) hhits
    have hrows' := mapM_map (g := id) (fun _ _ => sparseHit_row) hhits'
    rw [List.map_append, hrows, hrows', List.map_id, List.map_id]
  · unfold gather
    rw [List.foldl_append]

/-- The fusion fails only where the score of a row cannot be read. -/
theorem fuse_error {e : PyError} (h : fuse num dense sparse k = .error e) :
    (∃ row ∈ dense, denseScore num row = .error e) ∨
      ∃ row ∈ sparse, sparseScore num row = .error e := by
  have hread : ∀ {x : Except PyError N} {f : N → Hit N},
      (do
        let v ← x
        return f v) = Except.error e → x = .error e := by
    intro x f hx
    cases x with
    | error e' =>
      cases hx
      rfl
    | ok v => cases hx
  unfold fuse at h
  rw [fuseDense_hits] at h
  cases hdense : dense.zipIdx.mapM (denseHit num) with
  | error e' =>
    rw [hdense] at h
    cases h
    obtain ⟨entry, hentry, herror⟩ := mapM_error hdense
    exact .inl ⟨entry.1, List.fst_mem_of_mem_zipIdx hentry, hread herror⟩
  | ok hits =>
    rw [hdense] at h
    simp only [fuseSparse_hits] at h
    cases hsparse : sparse.zipIdx.mapM (sparseHit num) with
    | error e' =>
      rw [hsparse] at h
      cases h
      obtain ⟨entry, hentry, herror⟩ := mapM_error hsparse
      exact .inr ⟨entry.1, List.fst_mem_of_mem_zipIdx hentry, hread herror⟩
    | ok hits' =>
      rw [hsparse] at h
      cases h

/-- The items of the chunks, before the sort, follow the definition. -/
theorem gather_absorbed {hits : List (Hit ℚ)}
    (hrows : hits.map (fun hit => (hit.row, hit.rank)) = dense.zipIdx ++ sparse.zipIdx)
    {entry : String × FusedItem ℚ}
    (h : entry ∈ gather (fun hit => hit.row.chunk_id) (absorb (rationals float) k) hits) :
    Absorbed k entry.1 (occurrences dense sparse entry.1) entry.2 := by
  have hgathered := (mem_gather _ _ hits entry.1 entry.2).mp h
  have habsorbed := gathered_absorbed (c := entry.1) (fun hit hhit =>
    of_decide_eq_true (List.mem_filter.mp hhit).2) hgathered
  have hoccurrences : occurrences dense sparse entry.1 =
      (hits.filter fun hit => decide (hit.row.chunk_id = entry.1)).map
        fun hit => (hit.row, hit.rank) := by
    unfold occurrences
    rw [← hrows, List.filter_map]
    rfl
  rw [hoccurrences]
  exact habsorbed

/-- The chunks of the rows that were read. -/
theorem hits_chunks {hits : List (Hit N)}
    (hrows : hits.map (fun hit => (hit.row, hit.rank)) = dense.zipIdx ++ sparse.zipIdx) :
    hits.map (fun hit => hit.row.chunk_id) = (dense ++ sparse).map (·.chunk_id) := by
  have hzip : ∀ rows : List Row,
      rows.zipIdx.map (fun o => o.1.chunk_id) = rows.map (·.chunk_id) := by
    intro rows
    have hfst := congrArg (List.map (·.chunk_id)) (List.zipIdx_map_fst 0 rows)
    rw [List.map_map] at hfst
    exact hfst
  have hmap := congrArg (List.map fun o : Row × ℕ => o.1.chunk_id) hrows
  rw [List.map_map, List.map_append, hzip, hzip, ← List.map_append] at hmap
  exact hmap

/-- Items of the chunks that follow the definition, sorted. -/
theorem fused_of_absorbed {entries : Items ℚ}
    (hmem : ∀ c, c ∈ entries.map Prod.fst ↔ c ∈ (dense ++ sparse).map (·.chunk_id))
    (hkeys : (entries.map Prod.fst).Pairwise fun c c' => ((dense ++ sparse).map (·.chunk_id)).idxOf c < ((dense ++ sparse).map (·.chunk_id)).idxOf c')
    (habsorbed : ∀ entry ∈ entries, Absorbed k entry.1 (occurrences dense sparse entry.1) entry.2) :
    Fused k dense sparse ((entries.map fun entry => entry.2.finalize).mergeSort
      fun a b => !(rationals float).lt a.score b.score) := by
  have hperm := List.mergeSort_perm (entries.map fun entry => entry.2.finalize) fun a b =>
    !(rationals float).lt a.score b.score
  have hle : ∀ a b : FusedItem ℚ,
      (!(rationals float).lt a.score b.score) = true ↔ b.score ≤ a.score := by
    intro a b
    show (!decide (a.score < b.score)) = true ↔ _
    rw [Bool.not_eq_true', decide_eq_false_iff_not, not_lt]
  have htrans : ∀ a b c : FusedItem ℚ, (!(rationals float).lt a.score b.score) = true →
      (!(rationals float).lt b.score c.score) = true →
      (!(rationals float).lt a.score c.score) = true := by
    intro a b c hab hbc
    rw [hle] at hab hbc ⊢
    exact hbc.trans hab
  have htotal : ∀ a b : FusedItem ℚ, (!(rationals float).lt a.score b.score ||
      !(rationals float).lt b.score a.score) = true := by
    intro a b
    rw [Bool.or_eq_true, hle, hle]
    exact le_total _ _
  -- The item of a chunk is made of the entry of the chunk.
  have hentry : ∀ item ∈ (entries.map fun entry => entry.2.finalize).mergeSort
      (fun a b => !(rationals float).lt a.score b.score), ∀ c,
      item.fields "chunk_id" = some (.text c) → ∃ entry ∈ entries, entry.1 = c ∧
        item = entry.2.finalize := by
    intro item hitem c hc
    obtain ⟨entry, hentry, rfl⟩ := List.mem_map.mp (hperm.mem_iff.mp hitem)
    rw [(habsorbed entry hentry).finalize.1, Option.some.injEq, Value.text.injEq] at hc
    exact ⟨entry, hentry, hc, rfl⟩
  refine ⟨?_, ?_, ?_, ?_, ?_, ?_⟩
  · have hnodup : (entries.map Prod.fst).Nodup := by
      apply hkeys.imp
      intro c c' hlt heq
      rw [heq] at hlt
      exact lt_irrefl _ hlt
    have hdedup : (entries.map Prod.fst).Perm ((dense ++ sparse).map (·.chunk_id)).dedup := by
      rw [List.perm_ext_iff_of_nodup hnodup (List.nodup_dedup _)]
      intro c
      rw [hmem, List.mem_dedup]
    have hchunks : (entries.map fun entry => entry.2.finalize).map (·.fields "chunk_id") =
        (entries.map Prod.fst).map fun c => some (.text c) := by
      rw [List.map_map, List.map_map]
      apply List.map_congr_left
      intro entry hentry
      exact (habsorbed entry hentry).finalize.1
    have hitems := hperm.map (·.fields "chunk_id")
    rw [hchunks] at hitems
    exact hitems.trans (hdedup.map _)
  · intro item hitem c hc
    obtain ⟨entry, hmem', rfl, rfl⟩ := hentry item hitem c hc
    rw [(habsorbed entry hmem').finalize.2.1]
    exact (habsorbed entry hmem').score
  · have hsorted := List.pairwise_mergeSort htrans htotal
      (entries.map fun entry => entry.2.finalize)
    apply hsorted.imp
    intro a b hab
    exact (hle a b).mp hab
  · apply @pairwise_of_groups (FusedItem ℚ) ℚ _ fun item => item.score
    intro score
    rw [filter_mergeSort _ htrans htotal]
    · apply List.Pairwise.filter
      rw [List.pairwise_map]
      have hpairs := List.pairwise_map.mp hkeys
      apply hpairs.imp_of_mem
      intro entry entry' hmem hmem' hlt c c' hc hc'
      rw [(habsorbed entry hmem).finalize.1, Option.some.injEq, Value.text.injEq] at hc
      rw [(habsorbed entry' hmem').finalize.1, Option.some.injEq, Value.text.injEq] at hc'
      rw [← hc, ← hc']
      exact hlt
    · intro a b ha hb
      rw [hle, of_decide_eq_true ha, of_decide_eq_true hb]
  · intro item hitem c hc field hfield hpage hcollection v hv
    obtain ⟨entry, hmem', rfl, rfl⟩ := hentry item hitem c hc
    exact (habsorbed entry hmem').finalize.2.2.1 field hfield hpage hcollection v hv
  · intro item hitem c hc field hfield hrepaired hnone
    obtain ⟨entry, hmem', rfl, rfl⟩ := hentry item hitem c hc
    exact (habsorbed entry hmem').finalize.2.2.2 field hfield hrepaired hnone

/-- With rationals, the fusion is what its definition says; it fails only where the score of a row
cannot be read. -/
theorem fuse_rationals (float : Value → Except PyError ℚ) (dense sparse : List Row) (k : ℕ) :
    match fuse (rationals float) dense sparse k with
    | .error e => (∃ row ∈ dense, denseScore (rationals float) row = .error e) ∨
        ∃ row ∈ sparse, sparseScore (rationals float) row = .error e
    | .ok items => Fused k dense sparse items := by
  cases hfuse : fuse (rationals float) dense sparse k with
  | error e => exact fuse_error hfuse
  | ok items =>
    obtain ⟨hits, hrows, rfl⟩ := fuse_ok hfuse
    have hchunks := hits_chunks hrows
    apply fused_of_absorbed
    · intro c
      rw [mem_map_fst_gather, hchunks]
    · rw [← hchunks]
      exact gather_pairwise _ _ hits
    · intro entry hentry
      exact gather_absorbed hrows hentry

end RickIntelligence.Retrieval
