import Mathlib

/-!
# Reordering a list within its groups

The items of a list are grouped by a key (`slotsByKey`), and each group is put in an order of its own
at the positions that it has (`regroup`). The keys then stand where they stood (`regroup_map_key`), and
the items of one key are those of the list in the order of the group (`regroup_filter`).
-/

namespace RickIntelligence.Lib

variable {α κ : Type} [DecidableEq κ]

/-! ## Groups -/

/-- The groups with one more position in the group of a key. -/
def appendSlot (key : κ) (index : ℕ) : List (κ × List ℕ) → List (κ × List ℕ)
  | [] => [(key, [index])]
  | group :: groups =>
    if group.1 = key then (group.1, group.2 ++ [index]) :: groups
    else group :: appendSlot key index groups

/-- The positions of the items of each key. -/
def slotsByKey (key : α → κ) (l : List α) : List (κ × List ℕ) :=
  l.zipIdx.foldl (fun groups item => appendSlot (key item.1) item.2 groups) []

/-- The items at some positions, put in an order and written back to these positions. -/
def rewriteSlots (order : List α → List α) (l : List α) (slots : List ℕ) : List α :=
  if slots.length < 2 then l
  else (slots.zip (order (slots.filterMap (l[·]?)))).foldl (fun acc e => acc.set e.1 e.2) l

/-- The list with every group in its order. -/
def regroup (key : α → κ) (order : List α → List α) (l : List α) : List α :=
  (slotsByKey key l).foldl (fun acc group => rewriteSlots order acc group.2) l

/-- The positions of the items with a property. -/
def positions (p : α → Bool) : List α → List ℕ
  | [] => []
  | x :: xs => if p x then 0 :: (positions p xs).map (· + 1) else (positions p xs).map (· + 1)

/-- The list with the items that have a property replaced by others, one after the other. -/
def fill (p : α → Bool) : List α → List α → List α
  | [], _ => []
  | x :: xs, [] => x :: xs
  | x :: xs, y :: ys => if p x then y :: fill p xs ys else x :: fill p xs (y :: ys)

/-- The positions in a list that is not empty. -/
theorem positions_cons (p : α → Bool) (x : α) (xs : List α) :
    positions p (x :: xs) =
      if p x then 0 :: (positions p xs).map (· + 1) else (positions p xs).map (· + 1) := rfl

/-- Filling in a list that is not empty. -/
theorem fill_cons (p : α → Bool) (x y : α) (xs ys : List α) :
    fill p (x :: xs) (y :: ys) = if p x then y :: fill p xs ys else x :: fill p xs (y :: ys) := rfl

/-- The positions of a group. -/
def slotsOf (groups : List (κ × List ℕ)) (key : κ) : List ℕ := (groups.lookup key).getD []

/-- One more position is one of its key. -/
theorem slotsOf_appendSlot (key k : κ) (index : ℕ) (groups : List (κ × List ℕ)) :
    slotsOf (appendSlot key index groups) k =
      if k = key then slotsOf groups k ++ [index] else slotsOf groups k := by
  induction groups with
  | nil =>
    unfold appendSlot slotsOf
    rw [List.lookup_cons, List.lookup_nil]
    by_cases hk : k = key
    · simp [hk]
    · simp [hk, beq_false_of_ne hk]
  | cons group groups ih =>
    unfold slotsOf at ih ⊢
    unfold appendSlot
    split
    · next hg =>
      rw [List.lookup_cons, List.lookup_cons, hg]
      by_cases hk : k = key
      · simp [hk]
      · simp [hk, beq_false_of_ne hk]
    · next hg =>
      rw [List.lookup_cons, List.lookup_cons]
      by_cases hk : k = group.1
      · have hne : k ≠ key := fun heq => hg (hk ▸ heq)
        simp [hk, hg]
      · rw [beq_false_of_ne hk]
        exact ih

/-- One more position makes no key double. -/
theorem keys_appendSlot (key : κ) (index : ℕ) (groups : List (κ × List ℕ)) :
    (appendSlot key index groups).map Prod.fst =
      if key ∈ groups.map Prod.fst then groups.map Prod.fst else groups.map Prod.fst ++ [key] := by
  induction groups with
  | nil => rfl
  | cons group groups ih =>
    unfold appendSlot
    split
    · next hg =>
      rw [List.map_cons, List.map_cons, hg, if_pos List.mem_cons_self]
    · next hg =>
      have hmem : (key ∈ group.1 :: groups.map Prod.fst) ↔ key ∈ groups.map Prod.fst := by
        rw [List.mem_cons, or_iff_right fun heq => hg heq.symm]
      rw [List.map_cons, List.map_cons, ih]
      simp only [hmem]
      split <;> rfl

/-- A list of groups with different keys has every group under its key. -/
theorem lookup_of_mem {groups : List (κ × List ℕ)} (hnodup : (groups.map Prod.fst).Nodup) {k : κ}
    {slots : List ℕ} (h : (k, slots) ∈ groups) : groups.lookup k = some slots := by
  induction groups with
  | nil => cases h
  | cons group groups ih =>
    rw [List.map_cons, List.nodup_cons] at hnodup
    rw [List.lookup_cons]
    rcases List.mem_cons.mp h with rfl | h
    · simp
    · have hne : k ≠ group.1 := by
        rintro rfl
        exact hnodup.1 (List.mem_map.mpr ⟨_, h, rfl⟩)
      rw [beq_false_of_ne hne]
      exact ih hnodup.2 h

/-- The groups of a list have different keys, and the positions of the items of each. -/
theorem slotsByKey_spec (key : α → κ) (l : List α) :
    ((slotsByKey key l).map Prod.fst).Nodup ∧
      ∀ k, slotsOf (slotsByKey key l) k = positions (fun x => decide (key x = k)) l := by
  have hfold : ∀ (l : List α) (n : ℕ) (groups : List (κ × List ℕ)),
      (groups.map Prod.fst).Nodup →
        (((l.zipIdx n).foldl (fun groups item => appendSlot (key item.1) item.2 groups) groups).map
          Prod.fst).Nodup ∧
        ∀ k, slotsOf ((l.zipIdx n).foldl
            (fun groups item => appendSlot (key item.1) item.2 groups) groups) k =
          slotsOf groups k ++ (positions (fun x => decide (key x = k)) l).map (· + n) := by
    intro l
    induction l with
    | nil =>
      intro n groups hnodup
      exact ⟨hnodup, fun k => (List.append_nil _).symm⟩
    | cons x xs ih =>
      intro n groups hnodup
      have hnodup' : ((appendSlot (key x) n groups).map Prod.fst).Nodup := by
        rw [keys_appendSlot]
        split
        · exact hnodup
        · next hkey =>
          rw [← List.concat_eq_append]
          exact hnodup.concat hkey
      obtain ⟨hkeys, hslots⟩ := ih (n + 1) (appendSlot (key x) n groups) hnodup'
      rw [List.zipIdx_cons, List.foldl_cons]
      refine ⟨hkeys, fun k => ?_⟩
      rw [hslots k, slotsOf_appendSlot]
      have hshift : ((positions (fun x => decide (key x = k)) xs).map (· + 1)).map (· + n) =
          (positions (fun x => decide (key x = k)) xs).map (· + (n + 1)) := by
        rw [List.map_map]
        apply List.map_congr_left
        intro i _
        show i + 1 + n = i + (n + 1)
        omega
      rw [positions_cons]
      by_cases hk : key x = k
      · rw [if_pos hk.symm, if_pos (decide_eq_true hk), List.map_cons, hshift, List.append_assoc,
          Nat.zero_add]
        rfl
      · rw [if_neg fun heq => hk heq.symm, if_neg (by simpa using hk), hshift]
  obtain ⟨hkeys, hslots⟩ := hfold l 0 [] List.nodup_nil
  refine ⟨hkeys, fun k => ?_⟩
  have hk := hslots k
  have hzero : (positions (fun x => decide (key x = k)) l).map (· + 0) =
      positions (fun x => decide (key x = k)) l := List.map_id _
  rw [hzero] at hk
  exact hk

/-! ## Positions -/

/-- The positions depend only on where the property holds. -/
theorem positions_congr {p : α → Bool} {l l' : List α} (h : l.map p = l'.map p) :
    positions p l = positions p l' := by
  induction l generalizing l' with
  | nil =>
    cases l' with
    | nil => rfl
    | cons y ys => cases h
  | cons x xs ih =>
    cases l' with
    | nil => cases h
    | cons y ys =>
      rw [List.map_cons, List.map_cons, List.cons.injEq] at h
      rw [positions_cons, positions_cons, h.1, ih h.2]

/-- There are as many positions as items. -/
theorem length_positions (p : α → Bool) (l : List α) :
    (positions p l).length = (l.filter p).length := by
  induction l with
  | nil => rfl
  | cons x xs ih =>
    rw [positions_cons, List.filter_cons]
    split <;> simp [ih]

/-- The items at the positions. -/
theorem filterMap_positions (p : α → Bool) (l : List α) :
    (positions p l).filterMap (l[·]?) = l.filter p := by
  induction l with
  | nil => rfl
  | cons x xs ih =>
    have hshift : ((positions p xs).map (· + 1)).filterMap ((x :: xs)[·]?) = xs.filter p := by
      rw [List.filterMap_map, ← ih]
      rfl
    rw [positions_cons, List.filter_cons]
    split
    · simp only [List.filterMap_cons, List.getElem?_cons_zero, hshift]
    · exact hshift

/-- Writing to later positions keeps the first item. -/
theorem foldl_set_succ (x : α) (indexes : List ℕ) (new xs : List α) :
    ((indexes.map (· + 1)).zip new).foldl (fun acc e => acc.set e.1 e.2) (x :: xs) =
      x :: (indexes.zip new).foldl (fun acc e => acc.set e.1 e.2) xs := by
  induction indexes generalizing new xs with
  | nil => rfl
  | cons i indexes ih =>
    cases new with
    | nil => rfl
    | cons y ys =>
      simp only [List.map_cons, List.zip_cons_cons, List.foldl_cons, List.set_cons_succ]
      exact ih ys _

/-- Writing items to the positions fills them in. -/
theorem foldl_set_positions (p : α → Bool) (l new : List α) :
    ((positions p l).zip new).foldl (fun acc e => acc.set e.1 e.2) l = fill p l new := by
  induction l generalizing new with
  | nil => rfl
  | cons x xs ih =>
    cases new with
    | nil => simp [fill]
    | cons y ys =>
      rw [positions_cons, fill_cons]
      split
      · rw [List.zip_cons_cons, List.foldl_cons, List.set_cons_zero, foldl_set_succ, ih]
      · rw [foldl_set_succ, ih]

section Fill

variable {p : α → Bool} {l new : List α}

/-- The items with the property are those that were filled in. -/
theorem filter_fill (hlen : new.length = (l.filter p).length) (hnew : ∀ x ∈ new, p x = true) :
    (fill p l new).filter p = new := by
  induction l generalizing new with
  | nil => exact (List.length_eq_zero_iff.mp hlen).symm
  | cons x xs ih =>
    cases new with
    | nil =>
      have hnil : ((x :: xs).filter p).length = 0 := hlen.symm
      exact List.length_eq_zero_iff.mp hnil
    | cons y ys =>
      rw [List.filter_cons] at hlen
      rw [fill_cons]
      by_cases hx : p x = true
      · rw [if_pos hx] at hlen ⊢
        rw [List.filter_cons, if_pos (hnew y List.mem_cons_self),
          ih (by simpa using hlen) fun z hz => hnew z (List.mem_cons_of_mem _ hz)]
      · rw [if_neg hx] at hlen ⊢
        rw [List.filter_cons, if_neg hx, ih hlen hnew]

/-- A property of none of the items that are replaced or filled in selects what it selected. -/
theorem filter_fill_of_disjoint {q : α → Bool} (hp : ∀ x, p x = true → q x = false)
    (hnew : ∀ x ∈ new, p x = true) : (fill p l new).filter q = l.filter q := by
  induction l generalizing new with
  | nil => rfl
  | cons x xs ih =>
    cases new with
    | nil => rfl
    | cons y ys =>
      rw [fill_cons]
      split
      · next hx =>
        rw [List.filter_cons_of_neg (by simp [hp y (hnew y List.mem_cons_self)]),
          List.filter_cons_of_neg (by simp [hp x hx]),
          ih fun z hz => hnew z (List.mem_cons_of_mem _ hz)]
      · rw [List.filter_cons, List.filter_cons, ih hnew]

/-- A function that has one value on what is replaced and on what is filled in has its values where it
had them. -/
theorem map_fill {β : Type} {f : α → β} {b : β} (hp : ∀ x, p x = true → f x = b)
    (hnew : ∀ x ∈ new, p x = true) : (fill p l new).map f = l.map f := by
  induction l generalizing new with
  | nil => rfl
  | cons x xs ih =>
    cases new with
    | nil => rfl
    | cons y ys =>
      rw [fill_cons]
      split
      · next hx =>
        rw [List.map_cons, List.map_cons, hp x hx, hp y (hnew y List.mem_cons_self),
          ih fun z hz => hnew z (List.mem_cons_of_mem _ hz)]
      · rw [List.map_cons, List.map_cons, ih hnew]

end Fill

/-! ## Regrouping -/

section Regroup

variable {key : α → κ} {order : List α → List α} (horder : ∀ l, (order l).Perm l)

include horder

/-- A list of less than two items has one order. -/
theorem order_of_length_lt_two {l : List α} (h : l.length < 2) : order l = l := by
  have hperm := horder l
  match l, h with
  | [], _ => exact List.perm_nil.mp hperm
  | [x], _ => exact List.perm_singleton.mp hperm
  | _ :: _ :: _, h =>
    simp only [List.length_cons] at h
    omega

/-- One group is put in its order, and the others stay as they are. -/
theorem rewriteSlots_spec (l : List α) (k : κ) :
    (rewriteSlots order l (positions (fun x => decide (key x = k)) l)).map key = l.map key ∧
      ∀ k', (rewriteSlots order l (positions (fun x => decide (key x = k)) l)).filter
          (fun x => decide (key x = k')) =
        if k' = k then order (l.filter fun x => decide (key x = k))
        else l.filter fun x => decide (key x = k') := by
  have hmem : ∀ x ∈ order (l.filter fun x => decide (key x = k)), decide (key x = k) = true := by
    intro x hx
    exact (List.mem_filter.mp ((horder _).mem_iff.mp hx)).2
  unfold rewriteSlots
  split
  · next hlen =>
    rw [length_positions] at hlen
    refine ⟨rfl, fun k' => ?_⟩
    split
    · next hk => rw [hk, order_of_length_lt_two horder hlen]
    · rfl
  · rw [filterMap_positions, foldl_set_positions]
    refine ⟨map_fill (fun x hx => of_decide_eq_true hx) hmem, fun k' => ?_⟩
    split
    · next hk =>
      rw [hk]
      exact filter_fill (horder _).length_eq hmem
    · next hk =>
      apply filter_fill_of_disjoint _ hmem
      intro x hx
      rw [of_decide_eq_true hx]
      exact decide_eq_false fun heq => hk heq.symm

/-- Every group of a list of groups is put in its order, and the others stay as they are. -/
theorem foldl_rewriteSlots_spec (groups : List (κ × List ℕ)) (l : List α)
    (hnodup : (groups.map Prod.fst).Nodup)
    (hslots : ∀ group ∈ groups, group.2 = positions (fun x => decide (key x = group.1)) l) :
    (groups.foldl (fun acc group => rewriteSlots order acc group.2) l).map key = l.map key ∧
      ∀ k, (groups.foldl (fun acc group => rewriteSlots order acc group.2) l).filter
          (fun x => decide (key x = k)) =
        if k ∈ groups.map Prod.fst then order (l.filter fun x => decide (key x = k))
        else l.filter fun x => decide (key x = k) := by
  induction groups generalizing l with
  | nil => exact ⟨rfl, fun k => rfl⟩
  | cons group groups ih =>
    rw [List.map_cons, List.nodup_cons] at hnodup
    obtain ⟨hmap, hfilter⟩ := rewriteSlots_spec horder l group.1
    rw [← hslots group List.mem_cons_self] at hmap hfilter
    have hrest : ∀ g ∈ groups, g.2 =
        positions (fun x => decide (key x = g.1)) (rewriteSlots order l group.2) := by
      intro g hg
      rw [hslots g (List.mem_cons_of_mem _ hg)]
      apply positions_congr
      have hcomp := congrArg (List.map fun k => decide (k = g.1)) hmap
      rw [List.map_map, List.map_map] at hcomp
      exact hcomp.symm
    obtain ⟨hmap', hfilter'⟩ := ih (rewriteSlots order l group.2) hnodup.2 hrest
    rw [List.foldl_cons]
    refine ⟨hmap'.trans hmap, fun k => ?_⟩
    rw [hfilter' k, hfilter k, List.map_cons]
    by_cases hk : k = group.1
    · have hnot : k ∉ groups.map Prod.fst := hk ▸ hnodup.1
      rw [if_neg hnot, if_pos hk, if_pos (hk ▸ List.mem_cons_self), hk]
    · rw [if_neg hk]
      have hiff : (k ∈ group.1 :: groups.map Prod.fst) ↔ k ∈ groups.map Prod.fst := by
        rw [List.mem_cons, or_iff_right hk]
      simp only [hiff]

/-- What regrouping does: the keys stand where they stood, and each group is in its order. -/
theorem regroup_spec (l : List α) :
    (regroup key order l).map key = l.map key ∧
      ∀ k, (regroup key order l).filter (fun x => decide (key x = k)) =
        order (l.filter fun x => decide (key x = k)) := by
  obtain ⟨hnodup, hslots⟩ := slotsByKey_spec key l
  have hgroups : ∀ group ∈ slotsByKey key l,
      group.2 = positions (fun x => decide (key x = group.1)) l := by
    intro group hgroup
    obtain ⟨k, slots⟩ := group
    rw [← hslots k, slotsOf, lookup_of_mem hnodup hgroup]
    rfl
  obtain ⟨hmap, hfilter⟩ := foldl_rewriteSlots_spec horder _ l hnodup hgroups
  refine ⟨hmap, fun k => ?_⟩
  unfold regroup
  rw [hfilter k]
  split
  · rfl
  · next hk =>
    -- No item has a key without a group.
    have hlookup : (slotsByKey key l).lookup k = none := by
      rw [List.lookup_eq_none_iff]
      intro group hgroup
      rw [bne_iff_ne]
      rintro rfl
      exact hk (List.mem_map_of_mem hgroup)
    have hnil : positions (fun x => decide (key x = k)) l = [] := by
      rw [← hslots k, slotsOf, hlookup]
      rfl
    have hlen := length_positions (fun x => decide (key x = k)) l
    rw [hnil] at hlen
    rw [order_of_length_lt_two horder (by rw [← hlen]; decide)]

/-- Regrouping keeps the keys where they are. -/
theorem regroup_map_key (l : List α) : (regroup key order l).map key = l.map key :=
  (regroup_spec horder l).1

/-- The items of a key, after regrouping. -/
theorem regroup_filter (l : List α) (k : κ) :
    (regroup key order l).filter (fun x => decide (key x = k)) =
      order (l.filter fun x => decide (key x = k)) :=
  (regroup_spec horder l).2 k

/-- Regrouping a list gives its items. -/
theorem regroup_perm (l : List α) : (regroup key order l).Perm l := by
  classical
  rw [List.perm_iff_count]
  intro x
  have hcount : ∀ l : List α, l.count x = (l.filter fun y => decide (key y = key x)).count x :=
    fun l => (List.count_filter (by simp)).symm
  rw [hcount, regroup_filter horder, hcount l]
  exact (horder _).count_eq x

end Regroup

/-! ## Stable sorting -/

/-- A relation on the items of each key, in their order, is one on any two items of one key. -/
theorem pairwise_of_groups {key : α → κ} {R : α → α → Prop} {l : List α}
    (h : ∀ k, (l.filter fun x => decide (key x = k)).Pairwise R) :
    l.Pairwise fun a b => key a = key b → R a b := by
  induction l with
  | nil => exact List.Pairwise.nil
  | cons x xs ih =>
    rw [List.pairwise_cons]
    constructor
    · intro b hb heq
      have hx := h (key x)
      rw [List.filter_cons, if_pos (decide_eq_true rfl), List.pairwise_cons] at hx
      exact hx.1 b (List.mem_filter.mpr ⟨hb, decide_eq_true heq.symm⟩)
    · apply ih
      intro k
      apply List.Pairwise.sublist _ (h k)
      exact (List.sublist_cons_self x xs).filter _

/-- A stable sort keeps the order of items that are related both ways. -/
theorem filter_mergeSort {le : α → α → Bool} {p : α → Bool} (l : List α)
    (htrans : ∀ a b c, le a b = true → le b c = true → le a c = true)
    (htotal : ∀ a b, (le a b || le b a) = true)
    (h : ∀ a b, p a = true → p b = true → le a b = true) :
    (l.mergeSort le).filter p = l.filter p := by
  have hpairwise : (l.filter p).Pairwise (fun a b => le a b = true) := by
    apply List.Pairwise.imp_of_mem _ (List.pairwise_of_forall (l := l.filter p) fun _ _ => trivial)
    intro a b ha hb _
    exact h a b (List.mem_filter.mp ha).2 (List.mem_filter.mp hb).2
  have hsub : (l.filter p).Sublist (l.mergeSort le) :=
    List.sublist_mergeSort htrans htotal hpairwise List.filter_sublist
  have hfilter := hsub.filter p
  rw [List.filter_filter] at hfilter
  simp only [Bool.and_self] at hfilter
  have hlen : (l.filter p).length = ((l.mergeSort le).filter p).length :=
    (((List.mergeSort_perm l le).filter p).length_eq).symm
  exact (hfilter.eq_of_length hlen).symm

end RickIntelligence.Lib
