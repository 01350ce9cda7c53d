import Mathlib

/-!
# Tables with a primary key, a unique key, and a row check

`Table pk uk ok` is a list of rows whose primary keys `pk` are distinct, whose keys `uk` are
distinct, and which all pass the check `ok`: what a database keeps of a table with a primary key, a
unique index, and check constraints. An insertion or an update that would break one of them has no
result.

The lemmas give the row found under a key after each change (`find?_insert`, `find?_replace`,
`find?_modify`, `find?_erase`), and when a count of rows does not grow (`countP_of_find?`,
`countP_le_of_find?`).
-/

namespace RickIntelligence.Lib

variable {α κ ι : Type}

/-- Rows with distinct primary keys and distinct unique keys that pass a check. -/
structure Table (pk : α → κ) (uk : α → ι) (ok : α → Bool) where
  /-- The rows. -/
  rows : List α
  /-- The primary keys are distinct. -/
  pk_nodup : (rows.map pk).Nodup
  /-- The unique keys are distinct. -/
  uk_nodup : (rows.map uk).Nodup
  /-- Every row passes the check. -/
  checked : ∀ r ∈ rows, ok r = true

namespace Table

variable {pk : α → κ} {uk : α → ι} {ok : α → Bool}

/-- The table without rows. -/
def empty : Table pk uk ok := ⟨[], by simp, by simp, by simp⟩

variable {t t' : Table pk uk ok} {r : α}

/-- Rows with one primary key are one row. -/
theorem eq_of_pk {r' : α} (h : r ∈ t.rows) (h' : r' ∈ t.rows) (hk : pk r = pk r') : r = r' :=
  List.inj_on_of_nodup_map t.pk_nodup h h' hk

/-- Rows with one unique key are one row. -/
theorem eq_of_uk {r' : α} (h : r ∈ t.rows) (h' : r' ∈ t.rows) (hk : uk r = uk r') : r = r' :=
  List.inj_on_of_nodup_map t.uk_nodup h h' hk

variable [DecidableEq κ]

/-- The row under a primary key. -/
def find? (t : Table pk uk ok) (k : κ) : Option α := t.rows.find? fun r => decide (pk r = k)

/-- The table without the row under a primary key. -/
def erase (t : Table pk uk ok) (k : κ) : Table pk uk ok :=
  ⟨t.rows.filter fun r => !decide (pk r = k),
    List.Nodup.sublist (List.Sublist.map _ List.filter_sublist) t.pk_nodup,
    List.Nodup.sublist (List.Sublist.map _ List.filter_sublist) t.uk_nodup,
    fun r hr => t.checked r (List.mem_of_mem_filter hr)⟩

/-! ## The row under a key -/

/-- The row found under a key is the one of the table with it. -/
theorem find?_eq_some {k : κ} :
    t.find? k = some r ↔ r ∈ t.rows ∧ pk r = k := by
  unfold find?
  constructor
  · intro h
    exact ⟨List.mem_of_find?_eq_some h, by simpa using List.find?_some h⟩
  · rintro ⟨hr, rfl⟩
    cases h : t.rows.find? fun x => decide (pk x = pk r) with
    | none => exact absurd (List.find?_eq_none.mp h r hr) (by simp)
    | some x =>
      have hx : pk x = pk r := by simpa using List.find?_some h
      rw [t.eq_of_pk (List.mem_of_find?_eq_some h) hr hx]

/-- No row is found under a key exactly when none of the table has it. -/
theorem find?_eq_none {k : κ} :
    t.find? k = none ↔ ∀ r ∈ t.rows, pk r ≠ k := by
  simp [find?]

/-- A row of the table is found under its key. -/
theorem find?_of_mem (h : r ∈ t.rows) : t.find? (pk r) = some r :=
  find?_eq_some.mpr ⟨h, rfl⟩

/-- After a deletion nothing is found under its key. -/
theorem find?_erase (k k' : κ) :
    (t.erase k).find? k' = if k' = k then none else t.find? k' := by
  split
  · next h =>
    apply find?_eq_none.mpr
    intro r hr
    have := List.of_mem_filter hr
    rw [h]
    simpa using this
  · next h =>
    cases hf : t.find? k' with
    | some x =>
      obtain ⟨hmem, hpk⟩ := find?_eq_some.mp hf
      apply find?_eq_some.mpr
      exact ⟨List.mem_filter.mpr ⟨hmem, by simp [hpk, h]⟩, hpk⟩
    | none =>
      apply find?_eq_none.mpr
      intro r hr
      exact find?_eq_none.mp hf r (List.mem_of_mem_filter hr)

/-! ## Changes in place -/

/-- A function on rows that keeps their keys and the check. -/
structure Keeps (pk : α → κ) (uk : α → ι) (ok : α → Bool) (f : α → α) : Prop where
  pk_eq : ∀ r, pk (f r) = pk r
  uk_eq : ∀ r, uk (f r) = uk r
  ok_of : ∀ r, ok r = true → ok (f r) = true

/-- The table with the row under a primary key changed in place. -/
def modify (t : Table pk uk ok) (k : κ) (f : α → α) (hf : Keeps pk uk ok f) : Table pk uk ok :=
  ⟨t.rows.map fun r => if pk r = k then f r else r, by
    have hmap : (t.rows.map fun r => if pk r = k then f r else r).map pk = t.rows.map pk := by
      rw [List.map_map]
      refine List.map_congr_left fun r _ => ?_
      show pk (if pk r = k then f r else r) = pk r
      split
      · exact hf.pk_eq r
      · rfl
    rw [hmap]
    exact t.pk_nodup, by
    have hmap : (t.rows.map fun r => if pk r = k then f r else r).map uk = t.rows.map uk := by
      rw [List.map_map]
      refine List.map_congr_left fun r _ => ?_
      show uk (if pk r = k then f r else r) = uk r
      split
      · exact hf.uk_eq r
      · rfl
    rw [hmap]
    exact t.uk_nodup, by
    intro r hr
    obtain ⟨x, hx, rfl⟩ := List.mem_map.mp hr
    split
    · exact hf.ok_of x (t.checked x hx)
    · exact t.checked x hx⟩

/-- After a change in place the changed row is found under its key. -/
theorem find?_modify (k : κ) {f : α → α} (hf : Keeps pk uk ok f) (k' : κ) :
    (t.modify k f hf).find? k' = if k' = k then (t.find? k).map f else t.find? k' := by
  have hfind : (t.modify k f hf).find? k' =
      (t.find? k').map fun r => if pk r = k then f r else r := by
    unfold find? modify
    rw [List.find?_map]
    congr 2
    funext r
    simp only [Function.comp]
    split
    · rw [hf.pk_eq]
    · rfl
  rw [hfind]
  split
  · next h =>
    subst h
    cases hr : t.find? k' with
    | none => rfl
    | some r => simp [(find?_eq_some.mp hr).2]
  · next h =>
    cases hr : t.find? k' with
    | none => rfl
    | some r => simp [(find?_eq_some.mp hr).2, h]

/-- If two tables find the same but under one key, their counts differ by what is found there. -/
theorem countP_of_find? (t t' : Table pk uk ok) (k : κ)
    (h : ∀ k', k' ≠ k → t'.find? k' = t.find? k') (p : α → Bool) :
    t'.rows.countP p + (t.find? k).toList.countP p =
      t.rows.countP p + (t'.find? k).toList.countP p := by
  -- The rows under the key are split off on both sides; the others are the same up to their order.
  have hkey : ∀ u : Table pk uk ok,
      (u.rows.filter fun r => decide (pk r = k)) = (u.find? k).toList := by
    intro u
    cases hu : u.find? k with
    | none =>
      rw [Option.toList_none, List.filter_eq_nil_iff]
      intro r hr
      simpa using find?_eq_none.mp hu r hr
    | some x =>
      obtain ⟨hx, hxk⟩ := find?_eq_some.mp hu
      rw [Option.toList_some]
      refine List.perm_singleton.mp ((List.perm_ext_iff_of_nodup ?_ (List.nodup_singleton x)).mpr ?_)
      · exact (List.Nodup.of_map pk u.pk_nodup).filter _
      · intro r
        simp only [List.mem_filter, decide_eq_true_eq, List.mem_singleton]
        constructor
        · rintro ⟨hr, hrk⟩
          exact u.eq_of_pk hr hx (hrk.trans hxk.symm)
        · rintro rfl
          exact ⟨hx, hxk⟩
  have hothers : (t'.rows.filter fun r => !decide (pk r = k)).Perm
      (t.rows.filter fun r => !decide (pk r = k)) := by
    refine (List.perm_ext_iff_of_nodup ?_ ?_).mpr ?_
    · exact (List.Nodup.of_map pk t'.pk_nodup).filter _
    · exact (List.Nodup.of_map pk t.pk_nodup).filter _
    · intro r
      simp only [List.mem_filter, Bool.not_eq_true', decide_eq_false_iff_not]
      refine and_congr_left fun hr => ?_
      constructor
      · intro hmem
        exact (find?_eq_some.mp (h (pk r) hr ▸ find?_of_mem hmem)).1
      · intro hmem
        exact (find?_eq_some.mp ((h (pk r) hr).symm ▸ find?_of_mem hmem)).1
  have hsplit : ∀ u : Table pk uk ok, u.rows.countP p = (u.find? k).toList.countP p +
      (u.rows.filter fun r => !decide (pk r = k)).countP p := by
    intro u
    rw [← hkey u]
    exact List.countP_eq_countP_filter_add u.rows p fun r => decide (pk r = k)
  rw [hsplit t, hsplit t', hothers.countP_eq p]
  omega

/-- If the rows that a predicate counts were counted before under their keys, but for some keys, the
count has grown by no more than the number of those. -/
theorem countP_le_of_find? (p : α → Bool) (new : List κ)
    (h : ∀ k r', t'.find? k = some r' → p r' = true → k ∈ new ∨ ∃ r, t.find? k = some r ∧ p r = true) :
    t'.rows.countP p ≤ t.rows.countP p + new.length := by
  have hnodup : ((t'.rows.filter p).map pk).Nodup :=
    List.Nodup.sublist (List.filter_sublist.map _) t'.pk_nodup
  have hsubset : (t'.rows.filter p).map pk ⊆ (t.rows.filter p).map pk ++ new := by
    intro k hk
    obtain ⟨r', hr', rfl⟩ := List.mem_map.mp hk
    obtain ⟨hmem, hp⟩ := List.mem_filter.mp hr'
    rcases h (pk r') r' (find?_of_mem hmem) hp with hnew | ⟨r, hr, hpr⟩
    · exact List.mem_append_right _ hnew
    · obtain ⟨hmem', hkey⟩ := find?_eq_some.mp hr
      exact List.mem_append_left _ (List.mem_map.mpr ⟨r, List.mem_filter.mpr ⟨hmem', hpr⟩, hkey⟩)
  have hle := (List.subperm_of_subset hnodup hsubset).length_le
  rwa [List.length_append, List.length_map, List.length_map, ← List.countP_eq_length_filter,
    ← List.countP_eq_length_filter] at hle

/-! ## Insertions and updates -/

variable [DecidableEq ι]

/-- A row may be added: it passes the check, and both its keys are new. -/
def Admits (t : Table pk uk ok) (r : α) : Prop :=
  ok r = true ∧ pk r ∉ t.rows.map pk ∧ uk r ∉ t.rows.map uk

instance (t : Table pk uk ok) (r : α) : Decidable (t.Admits r) :=
  inferInstanceAs (Decidable (_ ∧ _ ∧ _))

/-- The table with one more row. -/
def insert? (t : Table pk uk ok) (r : α) : Option (Table pk uk ok) :=
  if h : t.Admits r then
    some ⟨t.rows ++ [r], by
      rw [List.map_append, List.map_singleton, List.nodup_append]
      refine ⟨t.pk_nodup, List.nodup_singleton _, ?_⟩
      intro a ha b hb hab
      rw [List.mem_singleton.mp hb] at hab
      exact h.2.1 (hab ▸ ha), by
      rw [List.map_append, List.map_singleton, List.nodup_append]
      refine ⟨t.uk_nodup, List.nodup_singleton _, ?_⟩
      intro a ha b hb hab
      rw [List.mem_singleton.mp hb] at hab
      exact h.2.2 (hab ▸ ha), by
      intro x hx
      rcases List.mem_append.mp hx with hx | hx
      · exact t.checked x hx
      · rw [List.mem_singleton.mp hx]
        exact h.1⟩
  else none

/-- A row may take the place of the one with its primary key: it passes the check, and no other row
has its unique key. -/
def AdmitsUpdate (t : Table pk uk ok) (r : α) : Prop :=
  ok r = true ∧ ∀ x ∈ t.rows, pk x ≠ pk r → uk x ≠ uk r

instance (t : Table pk uk ok) (r : α) : Decidable (t.AdmitsUpdate r) :=
  inferInstanceAs (Decidable (_ ∧ _))

/-- A row in the place of the one with its primary key. -/
def put (pk : α → κ) (r x : α) : α := if pk x = pk r then r else x

/-- Replacing a row keeps the primary keys. -/
theorem map_pk_put (r : α) (l : List α) : (l.map (put pk r)).map pk = l.map pk := by
  rw [List.map_map]
  apply List.map_congr_left
  intro x _
  show pk (put pk r x) = pk x
  unfold put
  split
  · next h => exact h.symm
  · rfl

/-- The table with a row in the place of the one with its primary key. -/
def replace? (t : Table pk uk ok) (r : α) : Option (Table pk uk ok) :=
  if h : t.AdmitsUpdate r then
    some ⟨t.rows.map (put pk r), by rw [map_pk_put]; exact t.pk_nodup, by
      -- Of two rows at most one has the primary key of `r`, and the other keeps its unique key.
      have hpk := List.pairwise_map.mp t.pk_nodup
      have huk := List.pairwise_map.mp t.uk_nodup
      rw [List.map_map]
      apply List.pairwise_map.mpr
      refine (hpk.and huk).imp_of_mem ?_
      intro a b ha hb hab
      show uk (put pk r a) ≠ uk (put pk r b)
      unfold put
      split
      · next hka =>
        rw [if_neg (by rw [← hka]; exact hab.1.symm)]
        exact (h.2 b hb (by rw [← hka]; exact hab.1.symm)).symm
      · next hka =>
        split
        · exact h.2 a ha hka
        · exact hab.2, by
      intro x hx
      obtain ⟨y, hy, rfl⟩ := List.mem_map.mp hx
      unfold put
      split
      · exact h.1
      · exact t.checked y hy⟩
  else none

/-- An insertion has a result exactly when the table admits the row. -/
theorem insert?_eq_some :
    t.insert? r = some t' ↔ t.Admits r ∧ t'.rows = t.rows ++ [r] := by
  unfold insert?
  split
  · next h =>
    simp only [Option.some.injEq, h, true_and]
    constructor
    · rintro rfl
      rfl
    · intro ht
      cases t'
      simp only [Table.mk.injEq]
      exact ht.symm
  · next h => simp [h]

/-- An update has a result exactly when the table admits it. -/
theorem replace?_eq_some :
    t.replace? r = some t' ↔ t.AdmitsUpdate r ∧ t'.rows = t.rows.map (put pk r) := by
  unfold replace?
  split
  · next h =>
    simp only [Option.some.injEq, h, true_and]
    constructor
    · rintro rfl
      rfl
    · intro ht
      cases t'
      simp only [Table.mk.injEq]
      exact ht.symm
  · next h => simp [h]

/-- After an insertion the new row is found under its key. -/
theorem find?_insert (h : t.insert? r = some t') (k : κ) :
    t'.find? k = if k = pk r then some r else t.find? k := by
  obtain ⟨hadm, hrows⟩ := insert?_eq_some.mp h
  split
  · next hk =>
    apply find?_eq_some.mpr
    rw [hrows]
    exact ⟨by simp, hk.symm⟩
  · next hk =>
    unfold find?
    rw [hrows, List.find?_append]
    simp [Ne.symm hk]

/-- After an update the new row is found under its key. -/
theorem find?_replace {old : α} (h : t.replace? r = some t') (hold : t.find? (pk r) = some old) (k : κ) :
    t'.find? k = if k = pk r then some r else t.find? k := by
  obtain ⟨-, hrows⟩ := replace?_eq_some.mp h
  split
  · next hk =>
    obtain ⟨hmem, hpk⟩ := find?_eq_some.mp hold
    apply find?_eq_some.mpr
    rw [hrows]
    exact ⟨List.mem_map.mpr ⟨old, hmem, if_pos hpk⟩, hk.symm⟩
  · next hk =>
    cases hf : t.find? k with
    | some x =>
      obtain ⟨hmem, hpk⟩ := find?_eq_some.mp hf
      apply find?_eq_some.mpr
      rw [hrows]
      exact ⟨List.mem_map.mpr ⟨x, hmem, if_neg (by rw [hpk]; exact hk)⟩, hpk⟩
    | none =>
      apply find?_eq_none.mpr
      intro y hy
      have hmem : pk y ∈ t'.rows.map pk := List.mem_map_of_mem hy
      rw [hrows, map_pk_put] at hmem
      obtain ⟨x, hx, hxy⟩ := List.mem_map.mp hmem
      rw [← hxy]
      exact find?_eq_none.mp hf x hx

end Table

end RickIntelligence.Lib
