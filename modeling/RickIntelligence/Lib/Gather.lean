import RickIntelligence.Lib.Validated

/-!
# Gathering under keys

A list is gone through once, and what is kept under the key of each item is made of what was kept under
it before and the item (`gather`). The keys then stand in the order in which they first came
(`gather_pairwise`), and what is kept under a key depends on the items of that key alone
(`mem_gather`).
-/

namespace RickIntelligence.Lib

variable {α β κ : Type} [DecidableEq κ]

/-- The entries with the one of a key made of the one that it had. -/
def upsert (k : κ) (f : Option β → β) : List (κ × β) → List (κ × β)
  | [] => [(k, f none)]
  | entry :: rest =>
    if entry.1 = k then (k, f (some entry.2)) :: rest else entry :: upsert k f rest

/-- What is gathered of a list under the keys of its items. -/
def gather (key : α → κ) (f : Option β → α → β) (l : List α) : List (κ × β) :=
  l.foldl (fun entries a => upsert (key a) (f · a) entries) []

/-- What is gathered of a list under one key. -/
def gathered (f : Option β → α → β) (l : List α) : Option β :=
  l.foldl (fun acc a => some (f acc a)) none

/-- One more item under one key. -/
theorem gathered_concat (f : Option β → α → β) (l : List α) (a : α) :
    gathered f (l ++ [a]) = some (f (gathered f l) a) := by
  unfold gathered
  rw [List.foldl_concat]

/-- What holds after every item holds of what is gathered. -/
theorem gathered_induction {f : Option β → α → β} {P : List α → Option β → Prop} (l : List α)
    (hnil : P [] none) (hstep : ∀ l a acc, P l acc → P (l ++ [a]) (some (f acc a))) :
    P l (gathered f l) := by
  induction l using List.reverseRecOn with
  | nil => exact hnil
  | append_singleton l a ih =>
    rw [gathered_concat]
    exact hstep l a _ ih

/-- One more item. -/
theorem gather_concat (key : α → κ) (f : Option β → α → β) (l : List α) (a : α) :
    gather key f (l ++ [a]) = upsert (key a) (f · a) (gather key f l) := by
  unfold gather
  rw [List.foldl_concat]

/-- A key that is there keeps its place, and another one comes last. -/
theorem map_fst_upsert (k : κ) (f : Option β → β) (entries : List (κ × β)) :
    (upsert k f entries).map Prod.fst =
      if k ∈ entries.map Prod.fst then entries.map Prod.fst else entries.map Prod.fst ++ [k] := by
  induction entries with
  | nil => simp [upsert]
  | cons entry rest ih =>
    unfold upsert
    by_cases hk : entry.1 = k
    · simp [hk]
    · have hne : ¬ k = entry.1 := fun heq => hk heq.symm
      rw [if_neg hk, List.map_cons, ih]
      by_cases hmem : k ∈ rest.map Prod.fst
      · rw [if_pos hmem, List.map_cons, if_pos (List.mem_cons_of_mem _ hmem)]
      · have hnot : k ∉ entry.1 :: rest.map Prod.fst := by
          rw [List.mem_cons, not_or]
          exact ⟨hne, hmem⟩
        rw [if_neg hmem, List.map_cons, if_neg hnot, List.cons_append]

/-- The first entry, or one of the others. -/
theorem lookup_cons_if (k : κ) (entry : κ × β) (rest : List (κ × β)) :
    (entry :: rest).lookup k = if k = entry.1 then some entry.2 else rest.lookup k := by
  rw [List.lookup_cons]
  by_cases hk : k = entry.1
  · rw [hk, beq_self_eq_true, if_pos rfl]
  · rw [beq_false_of_ne hk, if_neg hk]

/-- What is found under a key after a change of one. -/
theorem lookup_upsert (k k' : κ) (f : Option β → β) (entries : List (κ × β)) :
    (upsert k f entries).lookup k' =
      if k' = k then some (f (entries.lookup k)) else entries.lookup k' := by
  induction entries with
  | nil =>
    unfold upsert
    rw [lookup_cons_if]
    rfl
  | cons entry rest ih =>
    unfold upsert
    by_cases hentry : entry.1 = k
    · rw [if_pos hentry, lookup_cons_if, lookup_cons_if, lookup_cons_if, if_pos hentry.symm, hentry]
      by_cases hk : k' = k
      · rw [if_pos hk, if_pos hk]
      · rw [if_neg hk, if_neg hk, if_neg hk]
    · have hne : ¬ k = entry.1 := fun heq => hentry heq.symm
      rw [if_neg hentry, lookup_cons_if, lookup_cons_if, lookup_cons_if, if_neg hne, ih]
      by_cases hk : k' = entry.1
      · have hother : ¬ k' = k := fun heq => hentry (hk.symm.trans heq)
        rw [if_pos hk, if_neg hother, if_pos hk]
      · rw [if_neg hk, if_neg hk]

/-- What is found under a key is gathered of the items of the key. -/
theorem lookup_gather (key : α → κ) (f : Option β → α → β) (l : List α) (k : κ) :
    (gather key f l).lookup k = gathered f (l.filter fun a => decide (key a = k)) := by
  induction l using List.reverseRecOn with
  | nil => rfl
  | append_singleton l a ih =>
    rw [gather_concat, lookup_upsert, List.filter_append, ih]
    by_cases hk : key a = k
    · have hone : [a].filter (fun x => decide (key x = k)) = [a] := by simp [hk]
      rw [if_pos hk.symm, hone, gathered_concat, ← ih, hk]
    · have hnone : [a].filter (fun x => decide (key x = k)) = [] := by simp [hk]
      rw [if_neg fun heq => hk heq.symm, hnone, List.append_nil]

/-- The keys are those of the items. -/
theorem mem_map_fst_gather (key : α → κ) (f : Option β → α → β) (l : List α) (k : κ) :
    k ∈ (gather key f l).map Prod.fst ↔ k ∈ l.map key := by
  induction l using List.reverseRecOn with
  | nil => rfl
  | append_singleton l a ih =>
    rw [gather_concat, map_fst_upsert, List.map_append, List.mem_append, ← ih]
    split
    · next hmem =>
      constructor
      · exact Or.inl
      · rintro (h | h)
        · exact h
        · rw [List.mem_singleton.mp h]
          exact hmem
    · rw [List.mem_append]
      rfl

/-- The keys stand in the order in which they first came. -/
theorem gather_pairwise (key : α → κ) (f : Option β → α → β) (l : List α) :
    ((gather key f l).map Prod.fst).Pairwise fun k k' =>
      (l.map key).idxOf k < (l.map key).idxOf k' := by
  induction l using List.reverseRecOn with
  | nil => exact List.Pairwise.nil
  | append_singleton l a ih =>
    have hkept : ((gather key f l).map Prod.fst).Pairwise fun k k' =>
        ((l ++ [a]).map key).idxOf k < ((l ++ [a]).map key).idxOf k' := by
      apply ih.imp_of_mem
      intro k k' hk hk' hlt
      rw [List.map_append, List.idxOf_append_of_mem ((mem_map_fst_gather key f l k).mp hk),
        List.idxOf_append_of_mem ((mem_map_fst_gather key f l k').mp hk')]
      exact hlt
    rw [gather_concat, map_fst_upsert]
    split
    · exact hkept
    · next hnew =>
      rw [List.pairwise_append]
      refine ⟨hkept, List.pairwise_singleton _ _, ?_⟩
      intro k hk k' hk'
      rw [mem_map_fst_gather] at hnew hk
      rw [List.mem_singleton.mp hk', List.map_append, List.idxOf_append_of_mem hk,
        List.idxOf_append_of_notMem hnew]
      have hlt := List.idxOf_lt_length_of_mem hk
      omega

/-- No key is there twice. -/
theorem gather_nodup (key : α → κ) (f : Option β → α → β) (l : List α) :
    ((gather key f l).map Prod.fst).Nodup := by
  apply (gather_pairwise key f l).imp
  intro k k' hlt heq
  rw [heq] at hlt
  exact lt_irrefl _ hlt

/-- An entry of a list without repeated keys is what is found under its key. -/
theorem mem_iff_lookup {entries : List (κ × β)} (h : (entries.map Prod.fst).Nodup) (k : κ) (b : β) :
    (k, b) ∈ entries ↔ entries.lookup k = some b := by
  induction entries with
  | nil => simp
  | cons entry rest ih =>
    rw [List.map_cons, List.nodup_cons] at h
    rw [List.mem_cons, lookup_cons_if]
    by_cases hk : k = entry.1
    · have hnone : (k, b) ∉ rest := by
        intro hb
        exact h.1 (hk ▸ List.mem_map_of_mem (f := Prod.fst) hb)
      rw [if_pos hk]
      constructor
      · rintro (heq | hrest)
        · rw [← heq]
        · exact absurd hrest hnone
      · intro hb
        exact .inl (Prod.ext hk (Option.some.inj hb).symm)
    · rw [if_neg hk, ← ih h.2]
      constructor
      · rintro (heq | hrest)
        · exact absurd (congrArg Prod.fst heq) hk
        · exact hrest
      · exact .inr

/-- What is kept under a key is gathered of the items of the key. -/
theorem mem_gather (key : α → κ) (f : Option β → α → β) (l : List α) (k : κ) (b : β) :
    (k, b) ∈ gather key f l ↔ gathered f (l.filter fun a => decide (key a = k)) = some b := by
  rw [mem_iff_lookup (gather_nodup key f l), lookup_gather]

/-! ## Reading first -/

variable {γ ε : Type} {f : α → Except ε γ} {l : List α}

/-- A computation on every item of a list that keeps something of each keeps it of the list. -/
theorem mapM_map {δ : Type} {g : α → δ} {g' : γ → δ} (hf : ∀ a b, f a = .ok b → g' b = g a) {l' : List γ}
    (h : l.mapM f = .ok l') :
    l'.map g' = l.map g := by
  induction l generalizing l' with
  | nil =>
    cases h
    rfl
  | cons a l ih =>
    simp only [List.mapM_cons, except_bind_ok, pure, Except.pure, Except.ok.injEq] at h
    obtain ⟨b, hb, bs, hbs, rfl⟩ := h
    rw [List.map_cons, List.map_cons, hf a b hb, ih hbs]

/-- A computation on every item of a list gives what it gives of each. -/
theorem mapM_ok {l' : List γ} :
    l.mapM f = .ok l' ↔ List.Forall₂ (fun a b => f a = .ok b) l l' := by
  induction l generalizing l' with
  | nil => simp [pure, Except.pure, eq_comm]
  | cons a l ih =>
    simp only [List.mapM_cons, except_bind_ok, pure, Except.pure, Except.ok.injEq, List.forall₂_cons_left_iff]
    constructor
    · rintro ⟨b, hb, bs, hbs, rfl⟩
      exact ⟨b, bs, hb, ih.mp hbs, rfl⟩
    · rintro ⟨b, bs, hb, hbs, rfl⟩
      exact ⟨b, hb, bs, ih.mpr hbs, rfl⟩

/-- A computation on every item of a list fails at one of them, or at none. -/
theorem mapM_error {e : ε} (h : l.mapM f = .error e) :
    ∃ a ∈ l, f a = .error e := by
  induction l with
  | nil => cases h
  | cons a l ih =>
    rw [List.mapM_cons] at h
    cases ha : f a with
    | error e' =>
      rw [ha] at h
      cases h
      exact ⟨a, List.mem_cons_self, ha⟩
    | ok b =>
      cases hl : l.mapM f with
      | error e' =>
        rw [ha, hl] at h
        cases h
        obtain ⟨a', hmem, ha'⟩ := ih hl
        exact ⟨a', List.mem_cons_of_mem _ hmem, ha'⟩
      | ok bs =>
        rw [ha, hl] at h
        cases h

/-- A loop that reads something of each item is one over what was read. -/
theorem foldlM_read {σ : Type} (r : α → Except ε γ) (g : σ → γ → σ) (l : List α) (s : σ) :
    l.foldlM (fun s a => do
      let c ← r a
      return g s c) s = (l.mapM r).map fun cs => cs.foldl g s := by
  induction l generalizing s with
  | nil => rfl
  | cons a l ih =>
    rw [List.foldlM_cons, List.mapM_cons]
    cases ha : r a with
    | error e => rfl
    | ok c =>
      have hstep : ∀ (s : σ), (do
          let c ← (Except.ok c : Except ε γ)
          return g s c) = Except.ok (g s c) := fun _ => rfl
      rw [hstep]
      show l.foldlM _ (g s c) = _
      rw [ih]
      cases l.mapM r with
      | error e => rfl
      | ok cs => rfl

end RickIntelligence.Lib
