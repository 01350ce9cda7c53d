import RickIntelligence.Lib.Text

/-!
# Replacing from left to right

`re.findall` and `re.sub` go through a text from left to right: at each position they ask a matcher,
and after a match they go on behind it (`tokens`). The matches are not looked for again in what their
removal leaves, so a removal may put a new match together.

Two kinds of matchers are used. A `block` is an opener, a body, and the next closing character after
the opener. A `run` is a longest run of characters of a class. What a scan for blocks does is said
segment by segment, where a segment is the text up to a closing character (`tokens_block`): the
blocks of a segment are decided by the segment alone (`cut`).
-/

namespace RickIntelligence.Lib

/-! ## Scanning -/

section Scan

variable {γ : Type}

/-- What a match at the first character of a text captures, and the number of its characters. -/
abbrev Matcher (γ : Type) := List Char → Option (γ × ℕ)

/-- The characters and the matches of a text, of which the first ones belong to a match before. -/
def tokensFrom (m : Matcher γ) : ℕ → List Char → List (Char ⊕ γ)
  | _, [] => []
  | k + 1, _ :: s => tokensFrom m k s
  | 0, c :: s => match m (c :: s) with
    | some (g, n) => .inr g :: tokensFrom m (n - 1) s
    | none => .inl c :: tokensFrom m 0 s

/-- The characters that are in no match, and the matches, of a text. -/
def tokens (m : Matcher γ) (s : List Char) : List (Char ⊕ γ) := tokensFrom m 0 s

/-- `re.findall`. -/
def findall (m : Matcher γ) (s : List Char) : List γ := (tokens m s).filterMap Sum.getRight?

/-- `re.sub` with a fixed replacement. -/
def sub (m : Matcher γ) (repl s : List Char) : List Char :=
  (tokens m s).flatMap (Sum.elim (fun c => [c]) fun _ => repl)

/-- The characters of a match before are skipped. -/
theorem tokensFrom_eq (m : Matcher γ) (k : ℕ) (s : List Char) :
    tokensFrom m k s = tokens m (s.drop k) := by
  induction s generalizing k with
  | nil => simp [tokensFrom, tokens]
  | cons c s ih =>
    cases k with
    | zero => rfl
    | succ k => exact ih k

/-- A text that begins with a match. -/
theorem tokens_match {m : Matcher γ} {c : Char} {s : List Char} {g : γ} {n : ℕ}
    (h : m (c :: s) = some (g, n)) : tokens m (c :: s) = .inr g :: tokens m (s.drop (n - 1)) := by
  show tokensFrom m 0 (c :: s) = _
  simp only [tokensFrom, h]
  rw [tokensFrom_eq]

/-- A text that does not begin with a match. -/
theorem tokens_char {m : Matcher γ} {c : Char} {s : List Char} (h : m (c :: s) = none) :
    tokens m (c :: s) = .inl c :: tokens m s := by
  show tokensFrom m 0 (c :: s) = _
  simp only [tokensFrom, h]
  rfl

end Scan

/-! ## Segments -/

/-- A text is its segments one after the other: what holds of a text without a closing character, and
of a segment with more text, holds of every text. -/
theorem segment_induction {P : List Char → Prop} (close : Char)
    (last : ∀ s, close ∉ s → P s) (segment : ∀ s r, close ∉ s → P r → P (s ++ close :: r))
    (t : List Char) : P t := by
  by_cases hclose : close ∈ t
  · obtain ⟨s, r, rfl, hs⟩ := List.eq_append_cons_of_mem hclose
    exact segment s r hs (segment_induction close last segment r)
  · exact last t hclose
termination_by t.length

variable {close : Char} {s r : List Char}

/-- A text has one first segment. -/
theorem segment_unique {s' r' : List Char} (hs : close ∉ s) (hs' : close ∉ s')
    (h : s ++ close :: r = s' ++ close :: r') : s = s' ∧ r = r' := by
  rcases List.append_eq_append_iff.mp h with ⟨u, rfl, hu⟩ | ⟨u, rfl, hu⟩
  · cases u with
    | nil => simpa using hu
    | cons c u =>
      obtain ⟨rfl, -⟩ := List.cons_eq_cons.mp hu
      simp at hs'
  · cases u with
    | nil => simpa using hu.symm
    | cons c u =>
      obtain ⟨rfl, -⟩ := List.cons_eq_cons.mp hu
      simp at hs

/-- The parts of a text at a character are its segments. -/
theorem splitAt_segment (hs : close ∉ s) (r : List Char) :
    splitAt close (s ++ close :: r) = s :: splitAt close r := by
  induction s with
  | nil => simp [splitAt]
  | cons c s ih =>
    rw [List.mem_cons, not_or] at hs
    rw [List.cons_append, splitAt, if_neg (Ne.symm hs.1), ih hs.2]

/-- A text without a character is its only part. -/
theorem splitAt_last (hs : close ∉ s) : splitAt close s = [s] := by
  induction s with
  | nil => rfl
  | cons c s ih =>
    rw [List.mem_cons, not_or] at hs
    rw [splitAt, if_neg (Ne.symm hs.1), ih hs.2]

/-- A word without the closing character that begins before the end of a segment is in it. -/
theorem isPrefix_segment {o : List Char} (ho : close ∉ o) :
    o <+: s ++ close :: r ↔ o <+: s := by
  refine ⟨?_, fun h => h.trans (List.prefix_append _ _)⟩
  rintro ⟨t, ht⟩
  rcases List.append_eq_append_iff.mp ht with ⟨u, rfl, -⟩ | ⟨u, rfl, hu⟩
  · exact List.prefix_append _ _
  · cases u with
    | nil => simp
    | cons c u =>
      obtain ⟨rfl, -⟩ := List.cons_eq_cons.mp hu
      simp at ho

/-- A word and its closing character stand at the end of a segment, or in the text after it. -/
theorem infix_close_segment {v : List Char} (hv : close ∉ v) (hs : close ∉ s) :
    v ++ [close] <:+: s ++ close :: r ↔ v <:+ s ∨ v ++ [close] <:+: r := by
  constructor
  · rintro ⟨x, y, h⟩
    have hsplit : x ++ (v ++ close :: y) = s ++ close :: r := by simpa using h
    rcases List.append_eq_append_iff.mp hsplit with ⟨u, rfl, hu⟩ | ⟨u, rfl, hu⟩
    · -- The word begins in the segment, so it goes to its end.
      have hu' : close ∉ u := fun h => hs (List.mem_append_right _ h)
      obtain ⟨rfl, -⟩ := segment_unique hv hu' hu
      exact .inl (List.suffix_append _ _)
    · cases u with
      | nil =>
        obtain ⟨rfl, -⟩ := segment_unique hv List.not_mem_nil hu.symm
        exact .inl List.nil_suffix
      | cons c u =>
        obtain ⟨-, rfl⟩ := List.cons_eq_cons.mp hu
        exact .inr ⟨u, y, by simp⟩
  · rintro (⟨x, rfl⟩ | h)
    · exact ⟨x, r, by simp⟩
    · exact h.trans ⟨s ++ [close], [], by simp⟩

/-- The characters of a segment are not the closing one. -/
theorem ne_close (hs : close ∉ s) :
    ∀ c ∈ s, (c != close) = true := by
  intro c hc
  rw [bne_iff_ne]
  rintro rfl
  exact hs hc

/-! ## Blocks -/

/-- Blocks: an opener, a body that is accepted, and the first closing character after the opener. No
opener is empty, and none has the closing character. -/
structure Block where
  openers : List (List Char)
  close : Char
  ok : List Char → Bool
  plain : ∀ o ∈ openers, o ≠ [] ∧ close ∉ o

namespace Block

variable {b : Block} {s r t : List Char}

/-- The block with one of the openers at the first character of a text, which captures its body. -/
def blockAt (b : Block) (s o : List Char) : Option (List Char × ℕ) :=
  let rest := s.drop o.length
  let body := rest.takeWhile (· != b.close)
  if o <+: s ∧ b.ok body = true ∧ body.length < rest.length then
    some (body, o.length + body.length + 1)
  else none

/-- The block at the first character of a text. -/
def matcher (b : Block) : Matcher (List Char) := fun s => b.openers.findSome? (b.blockAt s)

/-- The body of the block with one of the openers that a whole segment is. -/
def wholeAt (b : Block) (s o : List Char) : Option (List Char) :=
  if o <+: s ∧ b.ok (s.drop o.length) = true then some (s.drop o.length) else none

/-- The body of the block that a whole segment is. -/
def body? (b : Block) (s : List Char) : Option (List Char) := b.openers.findSome? (b.wholeAt s)

/-- The first block of a segment, which goes to its end: what stands before it, and its body. -/
def cut (b : Block) : List Char → Option (List Char × List Char)
  | [] => none
  | c :: s => match b.body? (c :: s) with
    | some body => some ([], body)
    | none => (b.cut s).map fun p => (c :: p.1, p.2)

/-- What a matcher sees at the first character of a segment. -/
theorem matcher_segment (hs : b.close ∉ s) (r : List Char) :
    b.matcher (s ++ b.close :: r) = (b.body? s).map fun body => (body, s.length + 1) := by
  unfold matcher body?
  rw [List.map_findSome?]
  have hone : ∀ o ∈ b.openers, blockAt b (s ++ b.close :: r) o =
      (wholeAt b s o).map fun body => (body, s.length + 1) := by
    intro o ho
    unfold blockAt wholeAt
    have hpre : o <+: s ++ b.close :: r ↔ o <+: s := isPrefix_segment (b.plain o ho).2
    by_cases h : o <+: s
    · obtain ⟨x, rfl⟩ := h
      have hx : b.close ∉ x := fun hx => hs (List.mem_append_right _ hx)
      have htake : (x ++ b.close :: r).takeWhile (· != b.close) = x := by
        rw [List.takeWhile_append_of_pos (ne_close hx)]
        simp
      by_cases hok : b.ok x = true
      · simp [List.append_assoc, htake, hok]
      · simp [List.append_assoc, htake, hok]
    · simp [hpre, h]
  generalize b.openers = os at hone ⊢
  induction os with
  | nil => rfl
  | cons o os ih =>
    have ho := hone o List.mem_cons_self
    have hos := ih fun o' ho' => hone o' (List.mem_cons_of_mem _ ho')
    simp only [List.findSome?_cons, ho, hos, Function.comp_apply]

/-- Without a closing character there is no block. -/
theorem matcher_last (hs : b.close ∉ s) : b.matcher s = none := by
  unfold matcher
  rw [List.findSome?_eq_none_iff]
  intro o _
  have hdrop : b.close ∉ s.drop o.length := fun h => hs (List.mem_of_mem_drop h)
  have htake : (s.drop o.length).takeWhile (· != b.close) = s.drop o.length :=
    List.takeWhile_eq_self_iff.mpr (ne_close hdrop)
  simp [blockAt, htake]

/-- **The segments of a text are scanned one by one**: a block of a segment takes its closing
character, and what stands before the block is left, as is the whole of a segment without a block. -/
theorem tokens_segment (hs : b.close ∉ s) (r : List Char) :
    tokens b.matcher (s ++ b.close :: r) = match b.cut s with
      | some (pre, body) => pre.map .inl ++ .inr body :: tokens b.matcher r
      | none => s.map .inl ++ .inl b.close :: tokens b.matcher r := by
  induction s with
  | nil =>
    have hnone : b.matcher (b.close :: r) = none := by
      have h := matcher_segment (b := b) (s := []) (by simp) r
      have hbody : b.body? [] = none := by
        unfold body?
        rw [List.findSome?_eq_none_iff]
        intro o ho
        simp [wholeAt, (b.plain o ho).1]
      rw [hbody] at h
      exact h
    simpa [cut] using tokens_char hnone
  | cons c s ih =>
    have hmatch := matcher_segment hs r
    have hs' : b.close ∉ s := fun h => hs (List.mem_cons_of_mem _ h)
    cases hbody : b.body? (c :: s) with
    | some body =>
      rw [hbody, List.cons_append] at hmatch
      rw [List.cons_append, tokens_match hmatch]
      simp [cut, hbody]
    | none =>
      rw [hbody, List.cons_append] at hmatch
      rw [List.cons_append, tokens_char hmatch, ih hs']
      cases hcut : b.cut s with
      | some p => simp [cut, hbody, hcut]
      | none => simp [cut, hbody, hcut]

/-- A text without a closing character is left as it is. -/
theorem tokens_last (hs : b.close ∉ s) : tokens b.matcher s = s.map .inl := by
  induction s with
  | nil => rfl
  | cons c s ih =>
    rw [tokens_char (matcher_last hs), ih fun h => hs (List.mem_cons_of_mem _ h)]
    rfl

/-! ### What is cut -/

/-- A block that is cut from a segment is its opener and an accepted body, up to its end. -/
theorem cut_some {pre body : List Char} (h : b.cut s = some (pre, body)) :
    ∃ o ∈ b.openers, s = pre ++ o ++ body ∧ b.ok body = true := by
  induction s generalizing pre with
  | nil => cases h
  | cons c s ih =>
    unfold cut at h
    cases hbody : b.body? (c :: s) with
    | some x =>
      rw [hbody] at h
      obtain ⟨rfl, rfl⟩ : [] = pre ∧ x = body := by simpa using h
      obtain ⟨o, ho, hx⟩ := List.exists_of_findSome?_eq_some hbody
      unfold wholeAt at hx
      rw [Option.ite_none_right_eq_some, Option.some.injEq] at hx
      obtain ⟨⟨⟨y, hy⟩, hok⟩, rfl⟩ := hx
      refine ⟨o, ho, ?_, hok⟩
      rw [← hy]
      simp
    | none =>
      rw [hbody] at h
      obtain ⟨p, hp, hpre⟩ := Option.map_eq_some_iff.mp h
      obtain ⟨rfl, rfl⟩ : c :: p.1 = pre ∧ p.2 = body := by simpa using hpre
      obtain ⟨o, ho, rfl, hok⟩ := ih hp
      exact ⟨o, ho, by simp, hok⟩

/-- A segment that ends with a block has one that is cut. -/
theorem cut_isSome {pre o body : List Char} (ho : o ∈ b.openers) (hok : b.ok body = true) :
    (b.cut (pre ++ o ++ body)).isSome = true := by
  induction pre with
  | nil =>
    obtain ⟨c, o', rfl⟩ := List.exists_cons_of_ne_nil (b.plain o ho).1
    have hbody : (b.body? (c :: o' ++ body)).isSome = true := by
      unfold body?
      rw [List.findSome?_isSome_iff]
      exact ⟨c :: o', ho, by simp [wholeAt, hok]⟩
    obtain ⟨x, hx⟩ := Option.isSome_iff_exists.mp hbody
    rw [List.cons_append] at hx
    simp [cut, hx]
  | cons c pre ih =>
    simp only [List.cons_append, cut]
    split
    · rfl
    · simpa using ih

/-- When every body is accepted, a segment has a block from any of its openers on. -/
theorem cut_isSome_iff (hok : ∀ body, b.ok body = true) :
    (b.cut s).isSome = true ↔ ∃ o ∈ b.openers, o <:+: s := by
  constructor
  · intro h
    obtain ⟨⟨pre, body⟩, hp⟩ := Option.isSome_iff_exists.mp h
    obtain ⟨o, ho, rfl, -⟩ := cut_some hp
    exact ⟨o, ho, pre, body, rfl⟩
  · rintro ⟨o, ho, pre, body, rfl⟩
    exact cut_isSome ho (hok body)

/-! ### Findings and removals -/

/-- The bodies of the blocks of a text, segment by segment. -/
theorem findall_segment (hs : b.close ∉ s) (r : List Char) :
    findall b.matcher (s ++ b.close :: r) =
      ((b.cut s).map Prod.snd).toList ++ findall b.matcher r := by
  unfold findall
  rw [tokens_segment hs]
  cases hcut : b.cut s with
  | some p => simp [List.filterMap_append]
  | none => simp [List.filterMap_append, List.filterMap_cons]

/-- A text without a closing character has no block. -/
theorem findall_last (hs : b.close ∉ s) : findall b.matcher s = [] := by
  unfold findall
  rw [tokens_last hs]
  simp

/-- The characters of a text stay. -/
theorem flatMap_inl (s : List Char) (repl : List Char) :
    (s.map (Sum.inl (β := List Char))).flatMap (Sum.elim (fun c => [c]) fun _ => repl) = s := by
  induction s with
  | nil => rfl
  | cons c s ih => simpa using ih

/-- A text without its blocks, segment by segment. -/
theorem sub_segment (hs : b.close ∉ s) (r : List Char) :
    sub b.matcher [] (s ++ b.close :: r) = match b.cut s with
      | some (pre, _) => pre ++ sub b.matcher [] r
      | none => s ++ b.close :: sub b.matcher [] r := by
  unfold sub
  rw [tokens_segment hs]
  cases hcut : b.cut s with
  | some p => simp [List.flatMap_append, flatMap_inl]
  | none => simp [List.flatMap_append, flatMap_inl]

/-- A text without a closing character has no block to remove. -/
theorem sub_last (hs : b.close ∉ s) : sub b.matcher [] s = s := by
  unfold sub
  rw [tokens_last hs, flatMap_inl]

/-! ### Occurrences -/

/-- A block of any body occurs in a text. -/
def Occurs (b : Block) (t : List Char) : Prop :=
  ∃ o ∈ b.openers, ∃ w, b.close ∉ w ∧ o ++ w ++ [b.close] <:+: t

/-- A block occurs in a text from an opener of one of its segments on. -/
theorem occurs_segment (hs : b.close ∉ s) :
    b.Occurs (s ++ b.close :: r) ↔ (∃ o ∈ b.openers, o <:+: s) ∨ b.Occurs r := by
  constructor
  · rintro ⟨o, ho, w, hw, h⟩
    have how : b.close ∉ o ++ w := by
      rw [List.mem_append, not_or]
      exact ⟨(b.plain o ho).2, hw⟩
    rcases (infix_close_segment how hs).mp h with ⟨x, hx⟩ | h
    · exact .inl ⟨o, ho, x, w, by rw [List.append_assoc]; exact hx⟩
    · exact .inr ⟨o, ho, w, hw, h⟩
  · rintro (⟨o, ho, x, w, rfl⟩ | ⟨o, ho, w, hw, h⟩)
    · refine ⟨o, ho, w, fun h => hs (List.mem_append_right _ h), x, r, ?_⟩
      simp
    · exact ⟨o, ho, w, hw, h.trans ⟨s ++ [b.close], [], by simp⟩⟩

/-- Without a closing character no block occurs. -/
theorem not_occurs_last (hs : b.close ∉ s) : ¬ b.Occurs s := by
  rintro ⟨o, -, w, -, h⟩
  exact hs (h.subset (by simp))

end Block

/-! ## Runs -/

/-- A longest run of at least `n` characters of a class. -/
def run (p : Char → Bool) (n : ℕ) : Matcher Unit := fun s =>
  let k := (s.takeWhile p).length
  if n ≤ k then some ((), k) else none

/-- Each run of two or more characters of a class becomes one character. -/
def squeeze (p : Char → Bool) (c : Char) (s : List Char) : List Char := sub (run p 2) [c] s

section Runs

variable {p : Char → Bool} {c d : Char} {x y s w : List Char}

/-- A text is its runs one after the other: what holds of a run, and of a run, a character of another
class and more text, holds of every text. -/
theorem run_induction {P : List Char → Prop} (p : Char → Bool) (last : ∀ x, x.all p = true → P x)
    (more : ∀ x d y, x.all p = true → p d = false → P y → P (x ++ d :: y)) (t : List Char) : P t := by
  by_cases ht : t.all p = true
  · exact last t ht
  · have hne : t.dropWhile p ≠ [] := by
      rw [ne_eq, List.dropWhile_eq_nil_iff, ← List.all_eq_true]
      exact ht
    obtain ⟨d, y, hdrop⟩ := List.exists_cons_of_ne_nil hne
    have hd : p d = false := by
      have h := List.head_dropWhile_not p hne
      simpa [hdrop] using h
    have hsplit : t.takeWhile p ++ d :: y = t := by rw [← hdrop, List.takeWhile_append_dropWhile]
    have hall : (t.takeWhile p).all p = true := by
      rw [List.all_eq_true]
      exact fun e he => List.mem_takeWhile_imp he
    have hlt : y.length < t.length := by
      rw [← hsplit]
      simp
      omega
    rw [← hsplit]
    exact more _ d y hall hd (run_induction p last more y)
termination_by t.length

/-- A character of another class stays. -/
theorem squeeze_cons (hd : p d = false) : squeeze p c (d :: y) = d :: squeeze p c y := by
  have hnone : run p 2 (d :: y) = none := by simp [run, hd]
  unfold squeeze sub
  rw [tokens_char hnone]
  rfl

/-- A run at the beginning of a text becomes what it becomes alone. -/
theorem squeeze_append (hx : x.all p = true) (hd : p d = false) :
    squeeze p c (x ++ d :: y) = squeeze p c x ++ d :: squeeze p c y := by
  have hall : ∀ e ∈ x, p e = true := List.all_eq_true.mp hx
  cases x with
  | nil => exact squeeze_cons hd
  | cons e x =>
    have htake : ((e :: x) ++ d :: y).takeWhile p = e :: x := by
      rw [List.takeWhile_append_of_pos hall]
      simp [hd]
    have htake' : (e :: x).takeWhile p = e :: x := List.takeWhile_eq_self_iff.mpr hall
    rw [← squeeze_cons hd]
    cases x with
    | nil =>
      have hnone : run p 2 ([e] ++ d :: y) = none := by simp only [run, htake]; simp
      have hnone' : run p 2 [e] = none := by simp only [run, htake']; simp
      unfold squeeze sub
      rw [List.singleton_append] at hnone ⊢
      rw [tokens_char hnone, tokens_char hnone']
      rfl
    | cons e' x =>
      have hrun : run p 2 (e :: e' :: x ++ d :: y) = some ((), x.length + 2) := by
        simp only [run, htake]
        simp
      have hrun' : run p 2 (e :: e' :: x) = some ((), x.length + 2) := by
        simp only [run, htake']
        simp
      unfold squeeze sub
      rw [List.cons_append] at hrun ⊢
      rw [tokens_match hrun, tokens_match hrun']
      simp [tokens, tokensFrom]

/-- What a run alone becomes: nothing, its only character, or the replacement. -/
theorem squeeze_run (hx : x.all p = true) :
    squeeze p c x = x ∧ x.length ≤ 1 ∨ squeeze p c x = [c] ∧ 2 ≤ x.length := by
  have hall : ∀ e ∈ x, p e = true := List.all_eq_true.mp hx
  match x with
  | [] => exact .inl ⟨rfl, by simp⟩
  | [e] =>
    have hnone : run p 2 [e] = none := by
      simp only [run, List.takeWhile_eq_self_iff.mpr hall]
      simp
    refine .inl ⟨?_, by simp⟩
    unfold squeeze sub
    rw [tokens_char hnone]
    rfl
  | e :: e' :: x =>
    have hrun : run p 2 (e :: e' :: x) = some ((), x.length + 2) := by
      simp only [run, List.takeWhile_eq_self_iff.mpr hall]
      simp
    refine .inr ⟨?_, by simp⟩
    unfold squeeze sub
    rw [tokens_match hrun]
    simp [tokens, tokensFrom]

/-- The text gets no longer. -/
theorem length_squeeze_le (p : Char → Bool) (c : Char) (s : List Char) :
    (squeeze p c s).length ≤ s.length := by
  have hrun : ∀ x : List Char, x.all p = true → (squeeze p c x).length ≤ x.length := by
    intro x hx
    rcases squeeze_run (c := c) hx with ⟨h, -⟩ | ⟨h, hlen⟩
    · rw [h]
    · rw [h]
      simp
      omega
  induction s using run_induction p with
  | last x hx => exact hrun x hx
  | more x d y hx hd ih =>
    have := hrun x hx
    rw [squeeze_append hx hd]
    simp
    omega

/-- The characters of the text are those that it had, or the replacement. -/
theorem mem_squeeze {e : Char} (h : e ∈ squeeze p c s) : e ∈ s ∨ e = c := by
  have hrun : ∀ x : List Char, x.all p = true → e ∈ squeeze p c x → e ∈ x ∨ e = c := by
    intro x hx he
    rcases squeeze_run (c := c) hx with ⟨h, -⟩ | ⟨h, -⟩
    · rw [h] at he
      exact .inl he
    · rw [h] at he
      exact .inr (List.mem_singleton.mp he)
  induction s using run_induction p with
  | last x hx => exact hrun x hx h
  | more x d y hx hd ih =>
    rw [squeeze_append hx hd, List.mem_append, List.mem_cons] at h
    rw [List.mem_append, List.mem_cons]
    rcases h with h | rfl | h
    · rcases hrun x hx h with h | h
      · exact .inl (.inl h)
      · exact .inr h
    · exact .inl (.inr (.inl rfl))
    · rcases ih h with h | h
      · exact .inl (.inr (.inr h))
      · exact .inr h

/-- A character of another class parts the text. -/
theorem squeeze_parted (hd : p d = false) (s : List Char) :
    squeeze p c (s ++ d :: y) = squeeze p c s ++ d :: squeeze p c y := by
  induction s using run_induction p with
  | last x hx => exact squeeze_append hx hd
  | more x d' y' hx hd' ih =>
    rw [List.append_assoc, List.cons_append, squeeze_append hx hd', ih, squeeze_append hx hd']
    simp

/-- A run becomes a run. -/
theorem squeeze_all (hc : p c = true) (hx : x.all p = true) : (squeeze p c x).all p = true := by
  rw [List.all_eq_true] at hx ⊢
  intro e he
  rcases mem_squeeze he with he | rfl
  · exact hx e he
  · exact hc

/-! ### Words of the other class -/

/-- What begins with a character of the other class does not begin in a run. -/
theorem infix_run_append (hd : p d = false) (hx : x.all p = true) :
    d :: w <:+: x ++ y ↔ d :: w <:+: y := by
  induction x with
  | nil => rfl
  | cons e x ih =>
    rw [List.all_cons, Bool.and_eq_true] at hx
    rw [List.cons_append, List.infix_cons_iff, ih hx.2]
    refine ⟨?_, .inr⟩
    rintro (h | h)
    · obtain ⟨rfl, -⟩ := List.cons_prefix_cons.mp h
      rw [hd] at hx
      cases hx.1
    · exact h

/-- What ends with a character of the other class does not end in a run. -/
theorem infix_append_run (hd : p d = false) (hx : x.all p = true) :
    w ++ [d] <:+: y ++ x ↔ w ++ [d] <:+: y := by
  have hx' : x.reverse.all p = true := by simpa using hx
  have h := infix_run_append (w := w.reverse) (y := y.reverse) hd hx'
  have hrev : (w ++ [d]).reverse = d :: w.reverse := by simp
  rw [← List.reverse_append, ← hrev, List.reverse_infix, List.reverse_infix] at h
  exact h

/-- A word of the other class does not begin in a run. -/
theorem word_infix_append (hw : ∀ e ∈ w, p e = false) (hne : w ≠ []) (hx : x.all p = true) :
    w <:+: x ++ y ↔ w <:+: y := by
  obtain ⟨d, w', rfl⟩ := List.exists_cons_of_ne_nil hne
  exact infix_run_append (hw d List.mem_cons_self) hx

/-- A run begins with no word of the other class. -/
theorem word_prefix_append (hw : ∀ e ∈ w, p e = false) (hx : x.all p = true) (hne : x ≠ []) :
    w <+: x ++ y ↔ w = [] := by
  refine ⟨fun h => ?_, fun h => by simp [h]⟩
  obtain ⟨e, x', rfl⟩ := List.exists_cons_of_ne_nil hne
  cases w with
  | nil => rfl
  | cons a w =>
    obtain ⟨rfl, -⟩ := List.cons_prefix_cons.mp h
    simp [hw a List.mem_cons_self] at hx

/-- A run is not lost. -/
theorem squeeze_eq_nil (hx : x.all p = true) : squeeze p c x = [] ↔ x = [] := by
  rcases squeeze_run (c := c) hx with ⟨h, -⟩ | ⟨h, hlen⟩
  · rw [h]
  · rw [h]
    refine ⟨by simp, ?_⟩
    rintro rfl
    simp at hlen

/-- A text begins with the words of the other class that it began with. -/
theorem word_prefix_squeeze (hc : p c = true) (hw : ∀ e ∈ w, p e = false) :
    w <+: squeeze p c s ↔ w <+: s := by
  induction s using run_induction p generalizing w with
  | last x hx =>
    by_cases hnil : x = []
    · rw [(squeeze_eq_nil hx).mpr hnil, hnil]
    · have h := word_prefix_append (y := []) hw hx hnil
      have hs := word_prefix_append (y := []) hw (squeeze_all hc hx) (mt (squeeze_eq_nil hx).mp hnil)
      rw [List.append_nil] at h hs
      rw [h, hs]
  | more x d y hx hd ih =>
    rw [squeeze_append hx hd]
    by_cases hnil : x = []
    · rw [(squeeze_eq_nil hx).mpr hnil, hnil, List.nil_append, List.nil_append]
      cases w with
      | nil => simp
      | cons a w =>
        rw [List.cons_prefix_cons, List.cons_prefix_cons,
          ih fun e he => hw e (List.mem_cons_of_mem _ he)]
    · rw [word_prefix_append hw hx hnil,
        word_prefix_append hw (squeeze_all hc hx) (mt (squeeze_eq_nil hx).mp hnil)]

/-- A text has the words of the other class that it had. -/
theorem word_infix_squeeze (hc : p c = true) (hw : ∀ e ∈ w, p e = false) (hne : w ≠ []) :
    w <:+: squeeze p c s ↔ w <:+: s := by
  induction s using run_induction p with
  | last x hx =>
    have h := word_infix_append (y := []) hw hne hx
    have hs := word_infix_append (y := []) hw hne (squeeze_all hc hx)
    rw [List.append_nil] at h hs
    rw [h, hs]
  | more x d y hx hd ih =>
    rw [squeeze_append hx hd, word_infix_append hw hne hx,
      word_infix_append hw hne (squeeze_all hc hx), List.infix_cons_iff, List.infix_cons_iff, ih,
      ← squeeze_cons (y := y) hd, word_prefix_squeeze hc hw]

/-- A text has the blocks that it had, when the class is that of no character of a block. -/
theorem occurs_squeeze {b : Block} (hc : p c = true) (hclose : p b.close = false)
    (hopen : ∀ o ∈ b.openers, ∀ e ∈ o, p e = false) : b.Occurs (squeeze p c s) ↔ b.Occurs s := by
  have hfree : ∀ {s : List Char}, b.close ∉ s → b.close ∉ squeeze p c s := by
    intro s hs h
    rcases mem_squeeze h with h | rfl
    · exact hs h
    · rw [hc] at hclose
      cases hclose
  induction s using segment_induction b.close with
  | last s hs => exact iff_of_false (Block.not_occurs_last (hfree hs)) (Block.not_occurs_last hs)
  | segment s r hs ih =>
    rw [squeeze_parted hclose, Block.occurs_segment (hfree hs), Block.occurs_segment hs]
    refine or_congr (exists_congr fun o => and_congr_right fun ho => ?_) ih
    exact word_infix_squeeze hc (hopen o ho) (b.plain o ho).1

end Runs

/-! ## Spaces at the ends -/

section Spaces

variable {a s z : List Char}

/-- The spaces at the ends of a text stand outside what is left of it. -/
theorem exists_stripList (s : List Char) :
    ∃ a z, s = a ++ stripList s ++ z ∧ a.all isSpace = true ∧ z.all isSpace = true := by
  refine ⟨s.takeWhile isSpace, (s.dropWhile isSpace).rtakeWhile isSpace, ?_, ?_, ?_⟩
  · rw [stripList, List.append_assoc, List.rdropWhile_append_rtakeWhile,
      List.takeWhile_append_dropWhile]
  · rw [List.all_eq_true]
    exact fun e he => List.mem_takeWhile_imp he
  · rw [List.all_eq_true]
    exact fun e he => List.mem_rtakeWhile_imp he

/-- A text of spaces has nothing left. -/
theorem stripList_spaces (hs : s.all isSpace = true) : stripList s = [] := by
  rw [List.all_eq_true] at hs
  rw [stripList, List.dropWhile_eq_nil_iff.mpr hs, List.rdropWhile_nil]

/-- Spaces at the ends do not count. -/
theorem stripList_append (ha : a.all isSpace = true) (hz : z.all isSpace = true) :
    stripList (a ++ s ++ z) = stripList s := by
  have hz' : ∀ t : List Char, (t ++ z).rdropWhile isSpace = t.rdropWhile isSpace := by
    intro t
    rw [List.rdropWhile, List.rdropWhile, List.reverse_append, List.dropWhile_append_of_pos]
    simpa using hz
  rw [List.all_eq_true] at ha
  unfold stripList
  rw [List.append_assoc, List.dropWhile_append_of_pos ha]
  by_cases hs : ∀ c ∈ s, isSpace c = true
  · rw [List.dropWhile_append_of_pos hs, List.dropWhile_eq_nil_iff.mpr hs,
      List.dropWhile_eq_nil_iff.mpr (List.all_eq_true.mp hz)]
  · have hne : s.dropWhile isSpace ≠ [] := by rwa [ne_eq, List.dropWhile_eq_nil_iff]
    have hdrop : (s ++ z).dropWhile isSpace = s.dropWhile isSpace ++ z := by
      rw [List.dropWhile_append]
      simp [hne]
    rw [hdrop, hz']

/-- Stripping makes a text no longer. -/
theorem length_stripList_le (s : List Char) : (stripList s).length ≤ s.length := by
  obtain ⟨a, z, h, -, -⟩ := exists_stripList s
  have := congrArg List.length h
  simp at this
  omega

/-- The ends of what is left are no spaces. -/
theorem stripList_ends (hne : stripList s ≠ []) :
    (∃ e y, stripList s = e :: y ∧ isSpace e = false) ∧
      ∃ w d, stripList s = w ++ [d] ∧ isSpace d = false := by
  have hlast : isSpace ((stripList s).getLast hne) = false := by
    have h := List.rdropWhile_last_not isSpace (s.dropWhile isSpace) hne
    rw [Bool.not_eq_true] at h
    exact h
  refine ⟨?_, _, _, (List.dropLast_append_getLast hne).symm, hlast⟩
  have hidem : (stripList s).dropWhile isSpace = stripList s :=
    dropWhile_rdropWhile (List.dropWhile_idempotent _ s)
  obtain ⟨e, y, hy⟩ := List.exists_cons_of_ne_nil hne
  refine ⟨e, y, hy, ?_⟩
  rw [hy, List.dropWhile_eq_self_iff] at hidem
  have h := hidem (by simp)
  rw [Bool.not_eq_true, List.getElem_cons_zero] at h
  exact h

/-- Making runs of spaces one space leaves a text, without the spaces at its ends, no longer. -/
theorem length_stripList_squeeze_le {p : Char → Bool} {c : Char} (hp : ∀ e, p e = true → isSpace e = true)
    (hc : isSpace c = true) (s : List Char) :
    (stripList (squeeze p c s)).length ≤ (stripList s).length := by
  have hspaces : ∀ {x : List Char}, x.all isSpace = true → (squeeze p c x).all isSpace = true := by
    intro x hx
    rw [List.all_eq_true] at hx ⊢
    intro e he
    rcases mem_squeeze he with he | rfl
    · exact hx e he
    · exact hc
  have hother : ∀ {e : Char}, isSpace e = false → p e = false := by
    intro e he
    by_contra h
    rw [hp e (by simpa using h)] at he
    cases he
  obtain ⟨a, z, h, ha, hz⟩ := exists_stripList s
  by_cases hne : stripList s = []
  · have hall : s.all isSpace = true := by
      rw [h, hne, List.append_nil, List.all_append, ha, hz]
      rfl
    rw [stripList_spaces (hspaces hall)]
    simp
  · -- What is left begins and ends with other characters, which part the runs.
    obtain ⟨⟨e, y, hy, he⟩, w, d, hw, hd⟩ := stripList_ends hne
    have hback : squeeze p c (stripList s ++ z) = squeeze p c (stripList s) ++ squeeze p c z := by
      have hone := squeeze_parted (c := c) (y := []) (hother hd) w
      rw [hw, List.append_assoc, List.singleton_append, squeeze_parted (hother hd), hone]
      simp [squeeze, sub, tokens, tokensFrom]
    have hfront : squeeze p c s = squeeze p c a ++ squeeze p c (stripList s) ++ squeeze p c z := by
      have hsplit : s = a ++ e :: (y ++ z) := by
        rw [← List.cons_append, ← hy, ← List.append_assoc]
        exact h
      have hcons : e :: (y ++ z) = stripList s ++ z := by rw [hy, List.cons_append]
      calc squeeze p c s = squeeze p c (a ++ e :: (y ++ z)) := by rw [← hsplit]
        _ = squeeze p c a ++ e :: squeeze p c (y ++ z) := squeeze_parted (hother he) a
        _ = squeeze p c a ++ squeeze p c (stripList s ++ z) := by
          rw [← squeeze_cons (hother he), hcons]
        _ = squeeze p c a ++ squeeze p c (stripList s) ++ squeeze p c z := by
          rw [hback, List.append_assoc]
    rw [hfront, stripList_append (hspaces ha) (hspaces hz)]
    exact le_trans (length_stripList_le _) (length_squeeze_le p c _)

/-- Spaces at the ends of a text are in no block. -/
theorem Block.sub_append {b : Block} (hclose : isSpace b.close = false)
    (hopen : ∀ o ∈ b.openers, ∀ e ∈ o, isSpace e = false) (ha : a.all isSpace = true)
    (hz : z.all isSpace = true) :
    sub b.matcher [] (a ++ s ++ z) = a ++ sub b.matcher [] s ++ z := by
  have hfree : b.close ∉ z := by
    intro h
    rw [List.all_eq_true.mp hz _ h] at hclose
    cases hclose
  have hback : sub b.matcher [] (s ++ z) = sub b.matcher [] s ++ z := by
    induction s using segment_induction b.close with
    | last s hs =>
      rw [sub_last hs, sub_last]
      rw [List.mem_append, not_or]
      exact ⟨hs, hfree⟩
    | segment s r hs ih =>
      have ih' : sub b.matcher [] (r ++ z) = sub b.matcher [] r ++ z := ih
      rw [List.append_assoc, List.cons_append, sub_segment hs, sub_segment hs, ih']
      cases b.cut s with
      | some p => simp
      | none => simp
  rw [List.append_assoc, List.append_assoc, ← hback]
  generalize s ++ z = t
  induction a with
  | nil => rfl
  | cons e a ih =>
    rw [List.all_cons, Bool.and_eq_true] at ha
    have hnone : b.matcher (e :: (a ++ t)) = none := by
      unfold matcher
      rw [List.findSome?_eq_none_iff]
      intro o ho
      obtain ⟨f, o', rfl⟩ := List.exists_cons_of_ne_nil (b.plain o ho).1
      have hf := hopen _ ho f List.mem_cons_self
      have hfe : ¬ (f :: o' <+: e :: (a ++ t)) := by
        intro h
        obtain ⟨rfl, -⟩ := List.cons_prefix_cons.mp h
        rw [hf] at ha
        cases ha.1
      simp [blockAt, hfe]
    have hsub : sub b.matcher [] (e :: (a ++ t)) = e :: sub b.matcher [] (a ++ t) := by
      unfold sub
      rw [tokens_char hnone]
      rfl
    rw [List.cons_append, hsub, ih ha.2, List.cons_append]

/-- Removing the blocks and then the spaces at the ends is the same after the spaces at the ends are
removed. -/
theorem Block.stripList_sub {b : Block} (hclose : isSpace b.close = false)
    (hopen : ∀ o ∈ b.openers, ∀ e ∈ o, isSpace e = false) (s : List Char) :
    stripList (sub b.matcher [] s) = stripList (sub b.matcher [] (stripList s)) := by
  obtain ⟨a, z, h, ha, hz⟩ := exists_stripList s
  calc stripList (sub b.matcher [] s)
      = stripList (sub b.matcher [] (a ++ stripList s ++ z)) := by rw [← h]
    _ = stripList (a ++ sub b.matcher [] (stripList s) ++ z) := by
      rw [Block.sub_append hclose hopen ha hz]
    _ = stripList (sub b.matcher [] (stripList s)) := stripList_append ha hz

/-- Spaces at the ends of a text have no part in a block that occurs in it. -/
theorem Block.occurs_stripList {b : Block} (hclose : isSpace b.close = false)
    (hopen : ∀ o ∈ b.openers, ∀ e ∈ o, isSpace e = false) (s : List Char) :
    b.Occurs (stripList s) ↔ b.Occurs s := by
  obtain ⟨a, z, h, ha, hz⟩ := exists_stripList s
  unfold Block.Occurs
  refine exists_congr fun o => and_congr_right fun ho => exists_congr fun w => and_congr_right fun _ => ?_
  obtain ⟨f, o', rfl⟩ := List.exists_cons_of_ne_nil (b.plain o ho).1
  have hf : isSpace f = false := hopen _ ho f List.mem_cons_self
  calc f :: o' ++ w ++ [b.close] <:+: stripList s
      ↔ f :: o' ++ w ++ [b.close] <:+: a ++ stripList s := (infix_run_append hf ha).symm
    _ ↔ f :: o' ++ w ++ [b.close] <:+: a ++ stripList s ++ z := (infix_append_run hclose hz).symm
    _ ↔ f :: o' ++ w ++ [b.close] <:+: s := by rw [← h]

/-- Removing blocks makes a text no longer. -/
theorem Block.length_sub_le {b : Block} (s : List Char) : (sub b.matcher [] s).length ≤ s.length := by
  induction s using segment_induction b.close with
  | last s hs => rw [sub_last hs]
  | segment s r hs ih =>
    have ih' : (sub b.matcher [] r).length ≤ r.length := ih
    rw [sub_segment hs]
    cases hcut : b.cut s with
    | some p =>
      obtain ⟨o, -, rfl, -⟩ := cut_some hcut
      simp
      omega
    | none =>
      simp
      omega

end Spaces

end RickIntelligence.Lib
