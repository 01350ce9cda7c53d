import Mathlib

/-!
# Regular expressions with groups

What a match captures is decided by the order in which a backtracking matcher tries the ways to match.
`Pattern.ways` lists the ways in that order: a repetition takes as many characters as it can, and gives
them back one by one. `Pattern.finditer` scans a text from left to right and goes on behind each match; at
one place it takes the first way to match, and after an empty match the first one that is not empty.

The repetitions are of one class of characters. Two rules are for the proofs: of the ways to take a run of
characters, only one can go on if what follows refuses every character of the run
(`head?_ways_run`, `flatMap_lengths`), and a pattern that begins with `^` matches at most once (`finditer_bos`).
-/

namespace RickIntelligence.Lib

/-- A regular expression with the anchors `^` and `$`, repeated classes and groups. -/
inductive Pattern where
  | bos
  | eos
  | run (least : ℕ) (most : Option ℕ) (p : Char → Bool)
  | seq (a b : Pattern)
  | group (a : Pattern)

/-- A place in a text: whether it is the beginning, what follows, and what the groups have captured. -/
structure Spot where
  first : Bool
  rest : List Char
  groups : List (List Char)
  deriving DecidableEq, Repr

/-- The place after some characters. -/
def Spot.skip (s : Spot) (n : ℕ) : Spot := ⟨s.first && n == 0, s.rest.drop n, s.groups⟩

namespace Pattern

/-- The numbers of characters that a repetition tries, in their order. -/
def lengths (least : ℕ) (most : Option ℕ) (p : Char → Bool) (s : List Char) : List ℕ :=
  let longest := (s.takeWhile p).length
  ((List.range ((most.elim longest (min longest)) + 1)).filter fun n => decide (least ≤ n)).reverse

/-- The ways to match at a place, in the order in which they are tried. `$` is the end of the text, or the
place before a line break at its end. -/
def ways : Pattern → Spot → List Spot
  | bos, s => if s.first then [s] else []
  | eos, s => if s.rest = [] ∨ s.rest = ['\n'] then [s] else []
  | run least most p, s => (lengths least most p s.rest).map (Spot.skip s)
  | seq a b, s => (a.ways s).flatMap b.ways
  | group a, s => (a.ways s).map fun t =>
      { t with groups := t.groups ++ [s.rest.take (s.rest.length - t.rest.length)] }

/-- The matches at one place, and how many characters the search goes on. -/
def here (r : Pattern) (first : Bool) (s : List Char) : List Spot × ℕ :=
  let found := r.ways ⟨first, s, []⟩
  match found.head? with
  | none => ([], 1)
  | some t =>
    if t.rest.length < s.length then ([t], s.length - t.rest.length)
    else match found.find? fun u => decide (u.rest.length < s.length) with
      | none => ([t], 1)
      | some u => ([t, u], s.length - u.rest.length)

/-- The matches of a text, of which the first characters belong to a match before. -/
def scan (r : Pattern) : ℕ → Bool → List Char → List Spot
  | 0, first, [] => (r.here first []).1
  | _ + 1, _, [] => []
  | 0, first, c :: s => (r.here first (c :: s)).1 ++ scan r ((r.here first (c :: s)).2 - 1) false s
  | n + 1, _, _ :: s => scan r n false s

/-- `re.finditer`. -/
def finditer (r : Pattern) (s : List Char) : List Spot := r.scan 0 true s

/-! ## Patterns that begin with an anchor -/

/-- Behind the beginning a pattern with `^` does not match. -/
theorem scan_bos (a : Pattern) (n : ℕ) (s : List Char) : (seq bos a).scan n false s = [] := by
  induction s generalizing n with
  | nil => cases n <;> rfl
  | cons c s ih =>
    cases n with
    | zero => exact ih 0
    | succ n => exact ih n

/-- A pattern with `^` matches at the beginning or not at all. -/
theorem finditer_bos (a : Pattern) (s : List Char) :
    (seq bos a).finditer s = ((seq bos a).here true s).1 := by
  unfold finditer
  cases s with
  | nil => rfl
  | cons c s => rw [scan, scan_bos, List.append_nil]

/-- The ways to match after `^`, at the beginning. -/
@[simp]
theorem ways_bos (a : Pattern) (s : List Char) (groups : List (List Char)) :
    (seq bos a).ways ⟨true, s, groups⟩ = a.ways ⟨true, s, groups⟩ := by
  show ([⟨true, s, groups⟩] : List Spot).flatMap a.ways = _
  rw [List.flatMap_singleton]

/-! ## Runs of characters -/

section Runs

variable {least : ℕ} {most : Option ℕ} {p : Char → Bool} {s : List Char} {n : ℕ}

/-- The numbers that a repetition tries. -/
theorem mem_lengths :
    n ∈ lengths least most p s ↔ least ≤ n ∧ n ≤ (s.takeWhile p).length ∧ ∀ m ∈ most, n ≤ m := by
  unfold lengths
  cases most with
  | none =>
    simp only [List.mem_reverse, List.mem_filter, List.mem_range, decide_eq_true_eq, Option.elim_none,
      Option.not_mem_none, false_imp_iff, implies_true, and_true]
    omega
  | some m =>
    simp only [List.mem_reverse, List.mem_filter, List.mem_range, decide_eq_true_eq, Option.elim_some,
      Option.mem_some_iff, forall_eq']
    omega

/-- The longest run, and what is behind it. -/
theorem take_run (p : Char → Bool) (s : List Char) :
    s.take (s.takeWhile p).length = s.takeWhile p ∧ s.drop (s.takeWhile p).length = s.dropWhile p := by
  constructor
  · calc s.take (s.takeWhile p).length
        = (s.takeWhile p ++ s.dropWhile p).take (s.takeWhile p).length := by
          rw [List.takeWhile_append_dropWhile]
      _ = s.takeWhile p := List.take_left
  · calc s.drop (s.takeWhile p).length
        = (s.takeWhile p ++ s.dropWhile p).drop (s.takeWhile p).length := by
          rw [List.takeWhile_append_dropWhile]
      _ = s.dropWhile p := List.drop_left

/-- A repetition that is a group captures the characters that it takes. -/
theorem ways_group_run (b : Bool) (groups : List (List Char)) :
    (group (run least most p)).ways ⟨b, s, groups⟩ =
      (lengths least most p s).map fun n => ⟨b && n == 0, s.drop n, groups ++ [s.take n]⟩ := by
  have hle : (s.takeWhile p).length ≤ s.length := (List.takeWhile_prefix p).length_le
  show ((lengths least most p s).map (Spot.skip ⟨b, s, groups⟩)).map _ = _
  rw [List.map_map]
  apply List.map_congr_left
  intro n hn
  have hn' := (mem_lengths.mp hn).2.1
  have hlen : s.length - (s.drop n).length = n := by
    rw [List.length_drop]
    omega
  show (⟨b && n == 0, s.drop n, groups ++ [s.take (s.length - (s.drop n).length)]⟩ : Spot) = _
  rw [hlen]

/-- The character behind a shorter run than the longest is one of the class. -/
theorem drop_lt_run (h : n < (s.takeWhile p).length) : ∃ c t, s.drop n = c :: t ∧ p c = true := by
  have hsplit : s = s.takeWhile p ++ s.dropWhile p := (List.takeWhile_append_dropWhile).symm
  have hdrop : s.drop n = (s.takeWhile p).drop n ++ s.dropWhile p := by
    conv_lhs => rw [hsplit]
    rw [List.drop_append_of_le_length h.le]
  have hcons := List.drop_eq_getElem_cons h
  refine ⟨(s.takeWhile p)[n], (s.takeWhile p).drop (n + 1) ++ s.dropWhile p, ?_,
    List.mem_takeWhile_imp (List.getElem_mem h)⟩
  rw [hdrop, hcons, List.cons_append]

/-- If one number alone lets the rest of the pattern match, the ways to match are those behind it. -/
theorem flatMap_lengths {α : Type} {f : ℕ → List α}
    (hf : ∀ k ∈ lengths least most p s, k ≠ n → f k = []) :
    (lengths least most p s).flatMap f = if n ∈ lengths least most p s then f n else [] := by
  have hnodup : (lengths least most p s).Nodup :=
    List.nodup_reverse.mpr (List.nodup_range.filter _)
  generalize lengths least most p s = l at hnodup hf ⊢
  induction l with
  | nil => rfl
  | cons k l ih =>
    obtain ⟨hk, hl⟩ := List.nodup_cons.mp hnodup
    rw [List.flatMap_cons, ih hl (fun j hj => hf j (List.mem_cons_of_mem k hj))]
    by_cases hkn : k = n
    · subst hkn
      rw [if_neg hk, if_pos (List.mem_cons_self ..), List.append_nil]
    · rw [hf k (List.mem_cons_self ..) hkn, List.nil_append]
      simp [Ne.symm hkn]

/-- The whole run is tried first. If the rest of the pattern matches behind no shorter one when it does not
match behind the whole run, the first way to match is the first one behind the whole run. -/
theorem head?_flatMap_lengths {α : Type} {f : ℕ → List α}
    (hf : f (s.takeWhile p).length = [] → ∀ k < (s.takeWhile p).length, f k = []) :
    ((lengths least none p s).flatMap f).head? =
      if least ≤ (s.takeWhile p).length then (f (s.takeWhile p).length).head? else none := by
  unfold lengths
  generalize (s.takeWhile p).length = longest at hf ⊢
  simp only [Option.elim_none, List.range_succ, List.filter_append, List.reverse_append]
  by_cases h : least ≤ longest
  · rw [if_pos h, List.filter_cons_of_pos (by simpa using h), List.filter_nil, List.reverse_singleton,
      List.singleton_append, List.flatMap_cons]
    cases hlong : f longest with
    | cons x xs => rfl
    | nil =>
      rw [List.nil_append, List.head?_nil, List.head?_eq_none_iff, List.flatMap_eq_nil_iff]
      intro k hk
      simp only [List.mem_reverse, List.mem_filter, List.mem_range] at hk
      exact hf hlong k hk.1
  · have hnone : (List.range longest).filter (fun n => decide (least ≤ n)) = [] := by
      rw [List.filter_eq_nil_iff]
      intro k hk
      rw [List.mem_range] at hk
      simp only [decide_eq_true_eq]
      omega
    rw [if_neg h, List.filter_cons_of_neg (by simpa using h), hnone]
    rfl

end Runs

end Pattern

end RickIntelligence.Lib
