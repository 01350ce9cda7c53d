import Mathlib

/-!
# Registers

A register keeps one value under each of its keys, in the order in which the keys came. A value that is set
takes the place of the one that was there (`set`), and a key that is popped leaves no entry (`pop`). A
register of amounts has a total, and setting or popping one entry changes it by that entry alone
(`total_set`, `total_pop`).
-/

namespace RickIntelligence.Lib

variable {κ α : Type} [DecidableEq κ]

/-- Entries with the value of a key replaced, or added at the end. -/
def setEntry (k : κ) (a : α) : List (κ × α) → List (κ × α)
  | [] => [(k, a)]
  | entry :: rest => if entry.1 = k then (k, a) :: rest else entry :: setEntry k a rest

/-- The keys of entries with one more set. -/
theorem map_fst_setEntry (k : κ) (a : α) (entries : List (κ × α)) :
    (setEntry k a entries).map Prod.fst =
      if k ∈ entries.map Prod.fst then entries.map Prod.fst else entries.map Prod.fst ++ [k] := by
  induction entries with
  | nil => simp [setEntry]
  | cons entry rest ih =>
    unfold setEntry
    by_cases hk : entry.1 = k
    · rw [if_pos hk]
      simp [hk]
    · rw [if_neg hk, List.map_cons, ih]
      have hmem : k ∈ (entry :: rest).map Prod.fst ↔ k ∈ rest.map Prod.fst := by
        simp [Ne.symm hk]
      by_cases hrest : k ∈ rest.map Prod.fst
      · rw [if_pos hrest, if_pos (hmem.mpr hrest), List.map_cons]
      · rw [if_neg hrest, if_neg (mt hmem.mp hrest), List.map_cons, List.cons_append]

/-- A register: entries of distinct keys. -/
structure Register (κ α : Type) where
  entries : List (κ × α)
  nodup : (entries.map Prod.fst).Nodup

namespace Register

variable (r : Register κ α) {k k' : κ} {a : α}

/-- The register without entries. -/
def empty : Register κ α := ⟨[], List.nodup_nil⟩

/-- The keys of a register. -/
def keys : List κ := r.entries.map Prod.fst

/-- The values of a register. -/
def values : List α := r.entries.map Prod.snd

/-- `d.get(k)`. -/
def get? (k : κ) : Option α := (r.entries.find? fun entry => decide (entry.1 = k)).map Prod.snd

/-- `d[k] = a`. -/
def set (k : κ) (a : α) : Register κ α where
  entries := setEntry k a r.entries
  nodup := by
    rw [map_fst_setEntry]
    split
    · exact r.nodup
    · next hk =>
      rw [List.nodup_append]
      refine ⟨r.nodup, List.nodup_singleton k, ?_⟩
      intro x hx y hy heq
      rw [heq, List.mem_singleton.mp hy] at hx
      exact hk hx

/-- The entries with a property. -/
def keep (p : κ × α → Bool) : Register κ α where
  entries := r.entries.filter p
  nodup := r.nodup.sublist (List.filter_sublist.map Prod.fst)

/-- `d.pop(k, None)`. -/
def pop (k : κ) : Register κ α := r.keep fun entry => decide (entry.1 ≠ k)

/-! ## Entries -/

section Entries

variable {r}

/-- A key without an entry. -/
theorem get?_eq_none : r.get? k = none ↔ k ∉ r.keys := by
  unfold get? keys
  rw [Option.map_eq_none_iff, List.find?_eq_none, List.mem_map]
  constructor
  · rintro h ⟨entry, hentry, rfl⟩
    exact h entry hentry (decide_eq_true rfl)
  · intro h entry hentry heq
    exact h ⟨entry, hentry, of_decide_eq_true heq⟩

/-- A key with an entry is one of the register. -/
theorem mem_keys_of_get? (h : r.get? k = some a) : k ∈ r.keys := by
  by_contra hk
  rw [get?_eq_none.mpr hk] at h
  cases h

/-- The value that was set. -/
theorem get?_set_self : (r.set k a).get? k = some a := by
  have hentry : ∀ entries : List (κ × α),
      ((setEntry k a entries).find? fun entry => decide (entry.1 = k)).map Prod.snd = some a := by
    intro entries
    induction entries with
    | nil => simp [setEntry]
    | cons entry rest ih =>
      unfold setEntry
      by_cases hk : entry.1 = k
      · rw [if_pos hk, List.find?_cons_of_pos (by simp)]
        rfl
      · rw [if_neg hk, List.find?_cons_of_neg (by simpa using hk)]
        exact ih
  exact hentry r.entries

/-- The keys after one is set. -/
theorem mem_keys_set : k' ∈ (r.set k a).keys ↔ k' = k ∨ k' ∈ r.keys := by
  unfold keys set
  simp only [map_fst_setEntry]
  split
  · next hk =>
    constructor
    · exact .inr
    · rintro (rfl | hmem)
      · exact hk
      · exact hmem
  · rw [List.mem_append, List.mem_singleton, or_comm]

/-- Popping a key that is there leaves fewer entries. -/
theorem length_pop_lt (h : k ∈ r.keys) : (r.pop k).entries.length < r.entries.length := by
  obtain ⟨entry, hentry, heq⟩ := List.mem_map.mp h
  refine List.length_filter_lt_length_iff_exists.mpr ⟨entry, hentry, ?_⟩
  simp [heq]

omit [DecidableEq κ] in
/-- The keys of the entries with a property. -/
theorem mem_keys_of_keep {p : κ × α → Bool} (h : k ∈ (r.keep p).keys) : k ∈ r.keys :=
  (List.filter_sublist.map Prod.fst).mem h

end Entries

/-! ## Totals -/

section Totals

/-- The total of a register of amounts. -/
def total (r : Register κ ℕ) : ℕ := r.values.sum

variable {r : Register κ ℕ} {n : ℕ}

/-- Setting one amount takes the one that was there from the total. -/
theorem total_set (r : Register κ ℕ) (k : κ) (n : ℕ) : (r.set k n).total + (r.get? k).getD 0 = r.total + n := by
  have hentries : ∀ entries : List (κ × ℕ), ((setEntry k n entries).map Prod.snd).sum +
      ((entries.find? fun entry => decide (entry.1 = k)).map Prod.snd).getD 0 =
        (entries.map Prod.snd).sum + n := by
    intro entries
    induction entries with
    | nil => simp [setEntry]
    | cons entry rest ih =>
      unfold setEntry
      by_cases hk : entry.1 = k
      · rw [if_pos hk, List.find?_cons_of_pos (by simpa using hk)]
        simp only [List.map_cons, List.sum_cons, Option.map_some, Option.getD_some]
        omega
      · rw [if_neg hk, List.find?_cons_of_neg (by simpa using hk)]
        simp only [List.map_cons, List.sum_cons]
        omega
  exact hentries r.entries

/-- Popping one amount takes it from the total. -/
theorem total_pop (r : Register κ ℕ) (k : κ) : (r.pop k).total + (r.get? k).getD 0 = r.total := by
  have hentries : ∀ entries : List (κ × ℕ), (entries.map Prod.fst).Nodup →
      ((entries.filter fun entry => decide (entry.1 ≠ k)).map Prod.snd).sum +
        ((entries.find? fun entry => decide (entry.1 = k)).map Prod.snd).getD 0 = (entries.map Prod.snd).sum := by
    intro entries hnodup
    induction entries with
    | nil => rfl
    | cons entry rest ih =>
      rw [List.map_cons, List.nodup_cons] at hnodup
      by_cases hk : entry.1 = k
      · have hrest : rest.filter (fun entry => decide (entry.1 ≠ k)) = rest := by
          rw [List.filter_eq_self]
          intro other hother
          refine decide_eq_true fun heq => hnodup.1 ?_
          rw [hk, ← heq]
          exact List.mem_map_of_mem hother
        rw [List.filter_cons_of_neg (by simpa using hk), hrest, List.find?_cons_of_pos (by simpa using hk)]
        simp only [List.map_cons, List.sum_cons, Option.map_some, Option.getD_some]
        omega
      · rw [List.filter_cons_of_pos (by simpa using hk), List.find?_cons_of_neg (by simpa using hk)]
        have := ih hnodup.2
        simp only [List.map_cons, List.sum_cons]
        omega
  exact hentries r.entries r.nodup

/-- An amount is no more than the total. -/
theorem le_total (h : r.get? k = some n) : n ≤ r.total := by
  have hpop := total_pop r k
  rw [h, Option.getD_some] at hpop
  omega

end Totals

end Register

end RickIntelligence.Lib
