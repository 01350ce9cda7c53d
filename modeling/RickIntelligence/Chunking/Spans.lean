import RickIntelligence.Lib.Scan

/-!
# Spans of a text

Where the paragraphs and the sentences of a text stand, as
`packages/ingestion/src/rick_ingestion/chunking.py` finds them. A text is a list of characters, and its
positions are those of the list. A paragraph is looked for with `str.find` after a split that loses its
position, and both are given by what is left when the whitespace at the ends goes.

`Spans` is what both are: parts in the order of the text, with no whitespace at their ends and some between
any two, outside of which there is nothing but whitespace. What is not whitespace is called ink.
-/

namespace RickIntelligence.Chunking

open Lib

/-! ## Ink -/

/-- A character that is not whitespace stands at the position. -/
def Ink (src : List Char) (i : ℕ) : Prop := ∃ c, src[i]? = some c ∧ isSpace c = false

/-- Nothing but whitespace stands between two positions. -/
def Blank (src : List Char) (lo hi : ℕ) : Prop := ∀ i, lo ≤ i → i < hi → ¬ Ink src i

/-- Parts of a text in its order, which begin and end with ink, with whitespace between any two, and
outside of which there is no ink. -/
structure Spans (src : List Char) (lo hi : ℕ) (spans : List (ℕ × ℕ)) : Prop where
  within : ∀ s ∈ spans, lo ≤ s.1 ∧ s.1 < s.2 ∧ s.2 ≤ hi
  ends : ∀ s ∈ spans, Ink src s.1 ∧ Ink src (s.2 - 1)
  before : ∀ s ∈ spans, lo < s.1 → ¬ Ink src (s.1 - 1)
  apart : spans.Pairwise fun s t => s.2 < t.1
  covers : ∀ i, lo ≤ i → i < hi → Ink src i → ∃ s ∈ spans, s.1 ≤ i ∧ i < s.2

/-- The characters from one position to another. -/
def slice (s : List Char) (start stop : ℕ) : List Char := (s.take stop).drop start

variable {src pre part post a m z : List Char} {lo mid hi i n : ℕ}

/-- Ink in a text between two others. -/
theorem ink_between (h : src = pre ++ part ++ post) (hlo : pre.length ≤ i)
    (hhi : i < pre.length + part.length) : Ink src i ↔ Ink part (i - pre.length) := by
  have hget : src[i]? = part[i - pre.length]? := by
    rw [h, List.append_assoc, List.getElem?_append_right hlo, List.getElem?_append_left (by omega)]
  unfold Ink
  rw [hget]

/-- Spaces have no ink. -/
theorem not_ink_of_all (h : z.all isSpace = true) : ¬ Ink z i := by
  rintro ⟨c, hc, hink⟩
  have hspace : isSpace c = true := List.all_eq_true.mp h c (List.mem_of_getElem? hc)
  rw [hspace] at hink
  cases hink

/-- Spaces between two texts. -/
theorem blank_between (h : src = pre ++ z ++ post) (hz : z.all isSpace = true) :
    Blank src pre.length (pre.length + z.length) := by
  intro i hlo hhi hink
  exact not_ink_of_all hz ((ink_between h hlo hhi).mp hink)

/-- Blanks one after the other. -/
theorem Blank.trans (h : Blank src lo mid) (h' : Blank src mid hi) : Blank src lo hi := by
  intro i hlo hhi
  by_cases hi' : i < mid
  · exact h i hlo hi'
  · exact h' i (by omega) hhi

/-- The slice between two texts. -/
theorem slice_between (h : src = pre ++ part ++ post) :
    slice src pre.length (pre.length + part.length) = part := by
  have hlength : (pre ++ part).length = pre.length + part.length := List.length_append
  unfold slice
  rw [h, ← hlength, List.take_left, List.drop_left]

/-- A text around one of its slices. -/
theorem slice_split (hlo : lo ≤ hi) (hhi : hi ≤ src.length) :
    src = src.take lo ++ slice src lo hi ++ src.drop hi ∧ (src.take lo).length = lo ∧
      (slice src lo hi).length = hi - lo := by
  have hlength : (src.take hi).length = hi := List.length_take_of_le hhi
  refine ⟨?_, List.length_take_of_le (by omega), ?_⟩
  · have htake : src.take lo ++ slice src lo hi = src.take hi := by
      have hlower : src.take lo = (src.take hi).take lo := by rw [List.take_take, min_eq_left hlo]
      unfold slice
      rw [hlower, List.take_append_drop]
    rw [htake, List.take_append_drop]
  · unfold slice
    rw [List.length_drop, hlength]

/-- Nothing between blanks. -/
theorem Spans.nil (h : Blank src lo hi) : Spans src lo hi [] where
  within _ hs := nomatch hs
  ends _ hs := nomatch hs
  before _ hs := nomatch hs
  apart := .nil
  covers i hlo hhi hink := absurd hink (h i hlo hhi)

variable {spans : List (ℕ × ℕ)} {parts : List (List Char)} {rest : List Char}

/-- Spans, whitespace, and more spans. -/
theorem Spans.append {spans' : List (ℕ × ℕ)} {mid' : ℕ} (h : Spans src lo mid spans) (hmid : mid < mid')
    (hblank : Blank src mid mid') (h' : Spans src mid' hi spans') (hlo : lo ≤ mid) (hhi : mid' ≤ hi) :
    Spans src lo hi (spans ++ spans') := by
  refine ⟨?_, ?_, ?_, ?_, ?_⟩
  · intro s hs
    rcases List.mem_append.mp hs with hs | hs
    · obtain ⟨h1, h2, h3⟩ := h.within s hs
      omega
    · obtain ⟨h1, h2, h3⟩ := h'.within s hs
      omega
  · intro s hs
    rcases List.mem_append.mp hs with hs | hs
    · exact h.ends s hs
    · exact h'.ends s hs
  · intro s hs hstart
    rcases List.mem_append.mp hs with hs | hs
    · exact h.before s hs hstart
    · obtain ⟨h1, h2, h3⟩ := h'.within s hs
      by_cases hfirst : mid' < s.1
      · exact h'.before s hs hfirst
      · exact hblank _ (by omega) (by omega)
  · rw [List.pairwise_append]
    refine ⟨h.apart, h'.apart, ?_⟩
    intro s hs t ht
    obtain ⟨-, -, hs3⟩ := h.within s hs
    obtain ⟨ht1, -, -⟩ := h'.within t ht
    omega
  · intro i hi1 hi2 hink
    by_cases hleft : i < mid
    · obtain ⟨s, hs, hs'⟩ := h.covers i hi1 hleft hink
      exact ⟨s, List.mem_append_left _ hs, hs'⟩
    · by_cases hright : mid' ≤ i
      · obtain ⟨s, hs, hs'⟩ := h'.covers i hright hi2 hink
        exact ⟨s, List.mem_append_right _ hs, hs'⟩
      · exact absurd hink (hblank i (by omega) (by omega))

/-- Before the first span there is no ink, and the others come after it. -/
theorem Spans.tail {s : ℕ × ℕ} (h : Spans src lo hi (s :: spans)) :
    Blank src lo s.1 ∧ Spans src s.2 hi spans ∧ ∀ t ∈ spans, s.2 < t.1 := by
  obtain ⟨hlo, hlt, hhi⟩ := h.within s List.mem_cons_self
  obtain ⟨happart, hrest⟩ := List.pairwise_cons.mp h.apart
  have hcovers : ∀ i, lo ≤ i → i < hi → Ink src i → (s.1 ≤ i ∧ i < s.2) ∨
      ∃ t ∈ spans, t.1 ≤ i ∧ i < t.2 := by
    intro i hi1 hi2 hink
    obtain ⟨t, ht, hit⟩ := h.covers i hi1 hi2 hink
    rcases List.mem_cons.mp ht with rfl | ht
    · exact .inl hit
    · exact .inr ⟨t, ht, hit⟩
  refine ⟨?_, ⟨?_, ?_, ?_, hrest, ?_⟩, happart⟩
  · intro i hi1 hi2 hink
    rcases hcovers i hi1 (by omega) hink with hit | ⟨t, ht, hit⟩
    · omega
    · have hafter := happart t ht
      omega
  · intro t ht
    obtain ⟨-, ht2, ht3⟩ := h.within t (List.mem_cons_of_mem s ht)
    have hafter := happart t ht
    omega
  · intro t ht
    exact h.ends t (List.mem_cons_of_mem s ht)
  · intro t ht hstart
    exact h.before t (List.mem_cons_of_mem s ht) (by omega)
  · intro i hi1 hi2 hink
    rcases hcovers i (by omega) hi2 hink with hit | hit
    · omega
    · exact hit

/-- The spans of a part are spans of the whole. -/
theorem Spans.shift (h : src = pre ++ part ++ post) (hspans : Spans part 0 part.length spans) :
    Spans src pre.length (pre.length + part.length)
      (spans.map fun s => (pre.length + s.1, pre.length + s.2)) := by
  have hink : ∀ i, i < part.length → (Ink src (pre.length + i) ↔ Ink part i) := by
    intro i hi
    rw [ink_between h (by omega) (by omega), Nat.add_sub_cancel_left]
  refine ⟨?_, ?_, ?_, ?_, ?_⟩
  · intro s hs
    obtain ⟨t, ht, rfl⟩ := List.mem_map.mp hs
    obtain ⟨h1, h2, h3⟩ := hspans.within t ht
    dsimp only
    omega
  · intro s hs
    obtain ⟨t, ht, rfl⟩ := List.mem_map.mp hs
    obtain ⟨h1, h2, h3⟩ := hspans.within t ht
    obtain ⟨hfirst, hlast⟩ := hspans.ends t ht
    have hpred : pre.length + t.2 - 1 = pre.length + (t.2 - 1) := by omega
    dsimp only
    rw [hpred, hink _ (by omega), hink _ (by omega)]
    exact ⟨hfirst, hlast⟩
  · intro s hs hstart
    obtain ⟨t, ht, rfl⟩ := List.mem_map.mp hs
    obtain ⟨h1, h2, h3⟩ := hspans.within t ht
    dsimp only at hstart ⊢
    have hpred : pre.length + t.1 - 1 = pre.length + (t.1 - 1) := by omega
    rw [hpred, hink _ (by omega)]
    exact hspans.before t ht (by omega)
  · rw [List.pairwise_map]
    exact hspans.apart.imp fun hst => by dsimp only; omega
  · intro i hi1 hi2 hi3
    have hsplit : i = pre.length + (i - pre.length) := by omega
    rw [hsplit, hink _ (by omega)] at hi3
    obtain ⟨t, ht, ht1, ht2⟩ := hspans.covers _ (Nat.zero_le _) (by omega) hi3
    refine ⟨_, List.mem_map_of_mem ht, ?_⟩
    dsimp only
    omega

/-! ## The ends of a text -/

/-- `str.lstrip`. -/
def lstrip (s : List Char) : List Char := s.dropWhile isSpace

/-- `str.rstrip`. -/
def rstrip (s : List Char) : List Char := s.rdropWhile isSpace

/-- `_trimmed_span`. -/
def trimmedSpan (start : ℕ) (value : List Char) : ℕ × ℕ :=
  (start + (value.length - (lstrip value).length), start + (rstrip value).length)

/-- A text with no whitespace at its ends. -/
def Trimmed (s : List Char) : Prop :=
  (∃ c t, s = c :: t ∧ isSpace c = false) ∧ ∃ t c, s = t ++ [c] ∧ isSpace c = false

/-- What is left of a text with ink has no whitespace at its ends. -/
theorem trimmed_stripList (h : stripList part ≠ []) : Trimmed (stripList part) := stripList_ends h

/-- The whitespace at the ends of a trimmed text. -/
theorem strips (ha : a.all isSpace = true) (hz : z.all isSpace = true) (hm : Trimmed m) :
    lstrip (a ++ m ++ z) = m ++ z ∧ rstrip (a ++ m ++ z) = a ++ m := by
  obtain ⟨⟨c, t, hc, hcs⟩, u, d, hd, hds⟩ := hm
  have ha' : ∀ x ∈ a, isSpace x = true := List.all_eq_true.mp ha
  have hz' : ∀ x ∈ z.reverse, isSpace x = true := by
    intro x hx
    exact List.all_eq_true.mp hz x (List.mem_reverse.mp hx)
  constructor
  · unfold lstrip
    rw [List.append_assoc, List.dropWhile_append_of_pos ha', hc, List.cons_append,
      List.dropWhile_cons_of_neg (by rw [hcs]; exact Bool.false_ne_true)]
  · unfold rstrip List.rdropWhile
    rw [List.reverse_append, List.dropWhile_append_of_pos hz', hd, List.reverse_append,
      List.reverse_append, List.reverse_singleton, List.singleton_append, List.cons_append,
      List.dropWhile_cons_of_neg (by rw [hds]; exact Bool.false_ne_true), List.reverse_cons,
      List.reverse_append, List.reverse_reverse, List.reverse_reverse, List.append_assoc]

/-- A trimmed text has nothing to strip. -/
theorem stripList_trimmed (h : Trimmed m) : stripList m = m := by
  obtain ⟨hleft, hright⟩ := strips (a := []) (z := []) rfl rfl h
  rw [List.nil_append, List.append_nil] at hleft hright
  unfold lstrip at hleft
  unfold rstrip at hright
  unfold stripList
  rw [hleft, hright]

/-- The trimmed span of a text with ink is that of what is left of it. -/
theorem trimmedSpan_eq (ha : a.all isSpace = true) (hz : z.all isSpace = true) (hm : Trimmed m) :
    trimmedSpan n (a ++ m ++ z) = (n + a.length, n + a.length + m.length) := by
  obtain ⟨hleft, hright⟩ := strips ha hz hm
  unfold trimmedSpan
  rw [hleft, hright]
  simp only [List.length_append, Prod.mk.injEq]
  omega

/-- The trimmed span of a text without ink is empty. -/
theorem trimmedSpan_blank (h : stripList part = []) : ¬ (trimmedSpan n part).1 < (trimmedSpan n part).2 := by
  have hall : ∀ c ∈ part, isSpace c = true := by
    obtain ⟨a, z, hsplit, ha, hz⟩ := exists_stripList part
    rw [h, List.append_nil] at hsplit
    intro c hc
    rw [hsplit] at hc
    rcases List.mem_append.mp hc with hc | hc
    · exact List.all_eq_true.mp ha c hc
    · exact List.all_eq_true.mp hz c hc
  have hright : rstrip part = [] := List.rdropWhile_eq_nil_iff.mpr hall
  unfold trimmedSpan
  rw [hright]
  simp

/-- The span of what is left of a part of a text is all of its ink. -/
theorem spans_part (h : src = pre ++ part ++ post) (hne : stripList part ≠ []) :
    Spans src pre.length (pre.length + part.length) [trimmedSpan pre.length part] ∧
      slice src (trimmedSpan pre.length part).1 (trimmedSpan pre.length part).2 = stripList part := by
  obtain ⟨a, z, hsplit, ha, hz⟩ := exists_stripList part
  have hm : Trimmed (stripList part) := trimmed_stripList hne
  have hspan : trimmedSpan pre.length part =
      (pre.length + a.length, pre.length + a.length + (stripList part).length) := by
    conv_lhs => rw [hsplit]
    exact trimmedSpan_eq ha hz hm
  have hlength : part.length = a.length + (stripList part).length + z.length := by
    have hlength := congrArg List.length hsplit
    rw [List.length_append, List.length_append] at hlength
    exact hlength
  have hsrc : src = (pre ++ a) ++ stripList part ++ (z ++ post) := by
    rw [h]
    conv_lhs => rw [hsplit]
    simp
  have hpos : (pre ++ a).length = pre.length + a.length := List.length_append
  obtain ⟨⟨c, t, hc, hcs⟩, u, d, hd, hds⟩ := hm
  have hlen : 0 < (stripList part).length := by
    rw [hc]
    simp
  have hblank : Blank src pre.length (pre.length + a.length) :=
    blank_between (show src = pre ++ a ++ (stripList part ++ (z ++ post)) by rw [hsrc]; simp) ha
  have hblank' : Blank src (pre.length + a.length + (stripList part).length)
      (pre.length + part.length) := by
    have hz' := blank_between (show src = pre ++ a ++ stripList part ++ z ++ post by
      rw [hsrc]; simp) hz
    intro i hlo hhi
    apply hz' i
    · simp only [List.length_append]
      omega
    · simp only [List.length_append]
      omega
  rw [hspan]
  refine ⟨⟨?_, ?_, ?_, List.pairwise_singleton _ _, ?_⟩, ?_⟩
  · intro s hs
    rw [List.mem_singleton.mp hs]
    dsimp only
    omega
  · intro s hs
    rw [List.mem_singleton.mp hs]
    dsimp only
    rw [ink_between hsrc (by omega) (by omega), ink_between hsrc (by omega) (by omega), hpos]
    constructor
    · refine ⟨c, ?_, hcs⟩
      rw [hc, Nat.sub_self]
      rfl
    · refine ⟨d, ?_, hds⟩
      have hlast : pre.length + a.length + (stripList part).length - 1 - (pre.length + a.length) =
          u.length := by
        have hu := congrArg List.length hd
        rw [List.length_append, List.length_singleton] at hu
        omega
      rw [hlast, hd]
      simp
  · intro s hs hstart
    rw [List.mem_singleton.mp hs] at hstart ⊢
    dsimp only at hstart ⊢
    exact hblank _ (by omega) (by omega)
  · intro i hlo hhi hink
    refine ⟨_, List.mem_singleton_self _, ?_⟩
    dsimp only
    by_contra hout
    rw [not_and_or, not_le, not_lt] at hout
    rcases hout with hout | hout
    · exact hblank i hlo hout hink
    · exact hblank' i hout hhi hink
  · dsimp only
    rw [← hpos]
    exact slice_between hsrc

/-! ## Paragraphs -/

/-- A character in front of the first part of a split. -/
def glue (c : Char) : List (List Char) → List (List Char)
  | [] => [[c]]
  | part :: parts => (c :: part) :: parts

/-- `re.split` at the runs of two or more newlines; with the flag, the start of the text still belongs to
such a run. -/
def splitBlank : Bool → List Char → List (List Char)
  | _, [] => [[]]
  | true, c :: rest => if c = '\n' then splitBlank true rest else glue c (splitBlank false rest)
  | false, c :: rest =>
    if c = '\n' ∧ rest.head? = some '\n' then [] :: splitBlank true rest
    else glue c (splitBlank false rest)

/-- `text.find(part, start)`. -/
def find (text part : List Char) (start : ℕ) : Option ℕ :=
  (List.range' start (text.length + 1 - start)).find? fun i => part.isPrefixOf (text.drop i)

/-- The loop of `_paragraphs_with_positions` over the parts. -/
def locate (text : List Char) (current_pos : ℕ) : List (List Char) → List (ℕ × List Char)
  | [] => []
  | part :: parts =>
    if stripList part = [] then locate text current_pos parts
    else
      match find text part current_pos with
      | some found => (found, part) :: locate text (found + part.length) parts
      | none => locate text current_pos parts

/-- `_paragraphs_with_positions`. -/
def paragraphs (text : List Char) : List (ℕ × List Char) :=
  if contains ['\n', '\n'] text then locate text 0 (splitBlank false text)
  else locate text 0 (splitAt '\n' text)

/-- The parts of a text between separators of whitespace. -/
inductive Parts : List (List Char) → List Char → Prop
  | last (part : List Char) : Parts [part] part
  | cons {parts : List (List Char)} {rest : List Char} (part sep : List Char) (hne : sep ≠ [])
      (hsep : sep.all isSpace = true) (h : Parts parts rest) : Parts (part :: parts) (part ++ sep ++ rest)

/-- A character in front of parts. -/
theorem Parts.glue (h : Parts parts rest) (c : Char) :
    Parts (glue c parts) (c :: rest) := by
  cases h with
  | last => exact .last (c :: rest)
  | cons part sep hne hsep h => exact .cons (c :: part) sep hne hsep h

/-- The split at runs of newlines is one at separators of whitespace. -/
theorem parts_splitBlank (s : List Char) : Parts (splitBlank false s) s ∧
    ∃ sep rest, s = sep ++ rest ∧ sep.all isSpace = true ∧ Parts (splitBlank true s) rest := by
  induction s with
  | nil => exact ⟨.last [], [], [], rfl, rfl, .last []⟩
  | cons c s ih =>
    obtain ⟨ihfalse, sep, rest, hs, hsep, ihtrue⟩ := ih
    have hlonger : ('\n' :: sep).all isSpace = true := by
      rw [List.all_cons, hsep]
      rfl
    constructor
    · unfold splitBlank
      split
      · next hnewlines =>
        obtain ⟨rfl, -⟩ := hnewlines
        have hcons : Parts ([] :: splitBlank true s) ([] ++ ('\n' :: sep) ++ rest) :=
          .cons [] ('\n' :: sep) (List.cons_ne_nil _ _) hlonger ihtrue
        rw [hs]
        rw [hs] at hcons
        exact hcons
      · exact ihfalse.glue c
    · unfold splitBlank
      split
      · next hnewline =>
        subst hnewline
        exact ⟨'\n' :: sep, rest, by rw [hs]; rfl, hlonger, ihtrue⟩
      · exact ⟨[], c :: s, rfl, rfl, ihfalse.glue c⟩

/-- The split at newlines is one at separators of whitespace. -/
theorem parts_splitAt (s : List Char) : Parts (splitAt '\n' s) s := by
  induction s with
  | nil => exact .last []
  | cons c s ih =>
    unfold splitAt
    split
    · next hnewline =>
      subst hnewline
      exact .cons [] ['\n'] (List.cons_ne_nil _ _) rfl ih
    · exact ih.glue c

/-- A part with ink is found where it stands, if only whitespace stands before it. -/
theorem find_part (h : src = pre ++ part ++ post) (hne : stripList part ≠ []) (hlo : lo ≤ pre.length)
    (hblank : Blank src lo pre.length) : find src part lo = some pre.length := by
  have hlength : src.length = pre.length + part.length + post.length := by
    rw [h, List.length_append, List.length_append]
  unfold find
  rw [List.find?_range'_eq_some]
  refine ⟨?_, ?_, ?_⟩
  · rw [List.isPrefixOf_iff_prefix, h, List.append_assoc, List.drop_left]
    exact List.prefix_append part post
  · rw [List.mem_range'_1]
    omega
  · -- Further to the left the first ink of the part would stand in whitespace.
    intro j hj hlt
    rw [Bool.not_eq_true', ← Bool.not_eq_true, List.isPrefixOf_iff_prefix]
    rintro ⟨rest, hrest⟩
    obtain ⟨hspans, -⟩ := spans_part h hne
    obtain ⟨hstart, hspan, hend⟩ := hspans.within _ (List.mem_singleton_self _)
    obtain ⟨hink, -⟩ := hspans.ends _ (List.mem_singleton_self _)
    generalize hspanstart : (trimmedSpan pre.length part).1 = k at hstart hspan hink
    have hk : k < pre.length + part.length := by omega
    have hsplit : src = src.take j ++ part ++ rest := by
      rw [List.append_assoc, hrest, List.take_append_drop]
    have hj' : (src.take j).length = j := List.length_take_of_le (by omega)
    have hink' : Ink part (k - pre.length) := (ink_between h hstart hk).mp hink
    have hmoved : Ink src (j + (k - pre.length)) := by
      rw [ink_between hsplit (by omega) (by omega), hj', Nat.add_sub_cancel_left]
      exact hink'
    by_cases hbefore : j + (k - pre.length) < pre.length
    · exact hblank _ (by omega) hbefore hmoved
    · -- Between the start of the part and its first ink there is none.
      obtain ⟨s, hs, hs1, -⟩ := hspans.covers (j + (k - pre.length)) (by omega) (by omega) hmoved
      rw [List.mem_singleton.mp hs, hspanstart] at hs1
      omega

/-- A trimmed span lies within the text that it is of. -/
theorem trimmedSpan_within (n : ℕ) (part : List Char) :
    n ≤ (trimmedSpan n part).1 ∧ (trimmedSpan n part).2 ≤ n + part.length := by
  have hright : (rstrip part).length ≤ part.length := List.IsPrefix.length_le (List.rdropWhile_prefix _ _)
  unfold trimmedSpan
  dsimp only
  omega

/-- The paragraph that is located at a position: it has ink, and what is left of it stands at its span. -/
def Located (src : List Char) (p : ℕ × List Char) : Prop :=
  stripList p.2 ≠ [] ∧ slice src (trimmedSpan p.1 p.2).1 (trimmedSpan p.1 p.2).2 = stripList p.2

/-- The parts that are located are all those with ink, each where it stands. -/
theorem locate_spans (hparts : Parts parts rest) (h : src = pre ++ rest) (hlo : lo ≤ pre.length)
    (hblank : Blank src lo pre.length) :
    Spans src pre.length src.length ((locate src lo parts).map fun p => trimmedSpan p.1 p.2) ∧
      ∀ p ∈ locate src lo parts, Located src p := by
  induction hparts generalizing pre lo with
  | last part =>
    have hsrc : src = pre ++ part ++ [] := by rw [h, List.append_nil]
    have hend : src.length = pre.length + part.length := by rw [h, List.length_append]
    by_cases hink : stripList part = []
    · have hpart : part.all isSpace = true := by
        obtain ⟨a, z, hsplit, ha, hz⟩ := exists_stripList part
        rw [hsplit, hink, List.append_nil, List.all_append, ha, hz]
        rfl
      unfold locate
      rw [if_pos hink, hend]
      exact ⟨.nil (blank_between hsrc hpart), nofun⟩
    · obtain ⟨hspans, hslice⟩ := spans_part hsrc hink
      unfold locate
      rw [if_neg hink, find_part hsrc hink hlo hblank, hend]
      refine ⟨hspans, ?_⟩
      intro p hp
      cases List.mem_singleton.mp hp
      exact ⟨hink, hslice⟩
  | @cons parts rest part sep hne hsep hparts ih =>
    have hsrc : src = pre ++ part ++ (sep ++ rest) := by
      rw [h]
      simp only [List.append_assoc]
    have hnext : src = (pre ++ part ++ sep) ++ rest := by
      rw [h]
      simp only [List.append_assoc]
    have hpre : (pre ++ part ++ sep).length = pre.length + part.length + sep.length := by
      rw [List.length_append, List.length_append]
    have hseplen : 0 < sep.length := List.length_pos_iff.mpr hne
    have hend : (pre ++ part ++ sep).length ≤ src.length := by
      have hlength := congrArg List.length hnext
      rw [List.length_append] at hlength
      omega
    have hpp : (pre ++ part).length = pre.length + part.length := List.length_append
    have hsepblank : Blank src (pre.length + part.length) (pre ++ part ++ sep).length := by
      have hb := blank_between (show src = (pre ++ part) ++ sep ++ rest from hnext) hsep
      rw [hpp] at hb
      rw [hpre]
      exact hb
    by_cases hink : stripList part = []
    · have hpart : part.all isSpace = true := by
        obtain ⟨a, z, hsplit, ha, hz⟩ := exists_stripList part
        rw [hsplit, hink, List.append_nil, List.all_append, ha, hz]
        rfl
      have hgap : Blank src pre.length (pre ++ part ++ sep).length :=
        (blank_between hsrc hpart).trans hsepblank
      obtain ⟨hspans, hlocated⟩ := ih hnext (by omega) (hblank.trans hgap)
      unfold locate
      rw [if_pos hink]
      refine ⟨?_, hlocated⟩
      have hnil : Spans src pre.length pre.length [] := .nil fun i hi hi' => absurd hi' (by omega)
      exact hnil.append (by omega) hgap hspans (le_refl _) hend
    · obtain ⟨hspans, hslice⟩ := spans_part hsrc hink
      obtain ⟨hspans', hlocated⟩ := ih hnext (by omega) hsepblank
      unfold locate
      rw [if_neg hink, find_part hsrc hink hlo hblank]
      dsimp only
      refine ⟨?_, ?_⟩
      · rw [List.map_cons]
        exact hspans.append (by omega) hsepblank hspans' (by omega) hend
      · intro p hp
        rcases List.mem_cons.mp hp with rfl | hp
        · exact ⟨hink, hslice⟩
        · exact hlocated p hp

/-- The paragraphs of a text are all of its ink. -/
theorem paragraphs_spans (src : List Char) :
    Spans src 0 src.length ((paragraphs src).map fun p => trimmedSpan p.1 p.2) ∧
      ∀ p ∈ paragraphs src, Located src p := by
  have hall : ∀ parts, Parts parts src →
      Spans src 0 src.length ((locate src 0 parts).map fun p => trimmedSpan p.1 p.2) ∧
        ∀ p ∈ locate src 0 parts, Located src p := by
    intro parts hparts
    exact locate_spans hparts (show src = [] ++ src from rfl) (le_refl _) fun i _ hi => absurd hi (Nat.not_lt_zero i)
  unfold paragraphs
  split
  · exact hall _ (parts_splitBlank src).1
  · exact hall _ (parts_splitAt src)

/-! ## Sentences -/

/-- `[.!?]`. -/
def sentenceEnding (c : Char) : Bool := c == '.' || c == '!' || c == '?'

/-- `_SENTENCE_ENDINGS.finditer`: where the runs of whitespace after the end of a sentence begin and end.
The flag says that such an end stands before the text. A run is matched whole, and no character in it ends
a sentence, so that the next match begins after it. -/
def sentenceEndings (after : Bool) (i : ℕ) : List Char → List (ℕ × ℕ)
  | [] => []
  | c :: rest =>
    if after && isSpace c then
      (i, i + ((c :: rest).takeWhile isSpace).length) :: sentenceEndings false (i + 1) rest
    else sentenceEndings (sentenceEnding c) (i + 1) rest

/-- The sentence of a segment, and its span. -/
def sentenceOf (text : List Char) (text_start segment_start segment_end : ℕ) :
    List (List Char × ℕ × ℕ) :=
  let (start, stop) := trimmedSpan segment_start (slice text segment_start segment_end)
  if start < stop then [(slice text start stop, text_start + start, text_start + stop)] else []

/-- The loop of `_sentence_spans` over the matches. -/
def segments (text : List Char) (text_start segment_start : ℕ) :
    List (ℕ × ℕ) → List (List Char × ℕ × ℕ)
  | [] => sentenceOf text text_start segment_start text.length
  | (start, stop) :: matched =>
    sentenceOf text text_start segment_start start ++ segments text text_start stop matched

/-- `_sentence_spans`. -/
def sentenceSpans (text : List Char) (text_start : ℕ) : List (List Char × ℕ × ℕ) :=
  segments text text_start 0 (sentenceEndings false 0 text)

/-- A sentence stands at its span in a text that starts at a position. -/
def Sentence (text : List Char) (text_start : ℕ) (s : List Char × ℕ × ℕ) : Prop :=
  text_start ≤ s.2.1 ∧ s.1 = slice text (s.2.1 - text_start) (s.2.2 - text_start)

/-- The spans of sentences in the text itself. -/
def sentenceRanges (text_start : ℕ) (sentences : List (List Char × ℕ × ℕ)) : List (ℕ × ℕ) :=
  sentences.map fun s => (s.2.1 - text_start, s.2.2 - text_start)

/-- The sentence of a segment is all of its ink. -/
theorem sentenceOf_spans (text_start : ℕ) (hlo : lo ≤ hi) (hhi : hi ≤ src.length) :
    Spans src lo hi (sentenceRanges text_start (sentenceOf src text_start lo hi)) ∧
      ∀ s ∈ sentenceOf src text_start lo hi, Sentence src text_start s := by
  obtain ⟨hsplit, hpre, hlength⟩ := slice_split hlo hhi
  by_cases hink : stripList (slice src lo hi) = []
  · have hall : (slice src lo hi).all isSpace = true := by
      obtain ⟨a, z, hs, ha, hz⟩ := exists_stripList (slice src lo hi)
      rw [hs, hink, List.append_nil, List.all_append, ha, hz]
      rfl
    have hblank := blank_between hsplit hall
    rw [hpre, hlength, Nat.add_sub_cancel' hlo] at hblank
    unfold sentenceOf
    dsimp only
    rw [if_neg (trimmedSpan_blank hink)]
    exact ⟨.nil hblank, nofun⟩
  · obtain ⟨hspans, -⟩ := spans_part hsplit hink
    rw [hpre, hlength, Nat.add_sub_cancel' hlo] at hspans
    obtain ⟨-, hlt, -⟩ := hspans.within _ (List.mem_singleton_self _)
    unfold sentenceOf
    dsimp only
    rw [if_pos hlt]
    constructor
    · unfold sentenceRanges
      rw [List.map_singleton, Nat.add_sub_cancel_left, Nat.add_sub_cancel_left]
      exact hspans
    · intro s hs
      rw [List.mem_singleton.mp hs]
      refine ⟨Nat.le_add_right _ _, ?_⟩
      dsimp only
      rw [Nat.add_sub_cancel_left, Nat.add_sub_cancel_left]

/-- The sentences of a text from a segment on, where the matches from a later position on are known. Up to
the start of the segment the position may still be in the whitespace that was matched. -/
theorem segments_spans (text_start : ℕ) (after : Bool) (h : src = pre ++ rest) (hlo : lo ≤ src.length)
    (hpos : lo ≤ pre.length ∨ after = false ∧ lo ≤ pre.length + (rest.takeWhile isSpace).length) :
    Spans src lo src.length
        (sentenceRanges text_start (segments src text_start lo (sentenceEndings after pre.length rest))) ∧
      ∀ s ∈ segments src text_start lo (sentenceEndings after pre.length rest),
        Sentence src text_start s := by
  induction rest generalizing pre lo after with
  | nil =>
    unfold sentenceEndings segments
    exact sentenceOf_spans text_start hlo (le_refl _)
  | cons c rest ih =>
    have hnext : src = (pre ++ [c]) ++ rest := by
      rw [h, List.append_assoc]
      rfl
    have hpre : (pre ++ [c]).length = pre.length + 1 := by
      rw [List.length_append, List.length_singleton]
    have hlength : src.length = pre.length + (rest.length + 1) := by
      rw [h, List.length_append, List.length_cons]
    unfold sentenceEndings
    split
    · next hmatch =>
      -- The run of whitespace is matched, so the segment ends here.
      rw [Bool.and_eq_true] at hmatch
      obtain ⟨rfl, hc⟩ := hmatch
      have hlo' : lo ≤ pre.length := hpos.resolve_right fun hfalse => nomatch hfalse.1
      have hrun : ((c :: rest).takeWhile isSpace).length = (rest.takeWhile isSpace).length + 1 := by
        rw [List.takeWhile_cons_of_pos hc, List.length_cons]
      have hle : (rest.takeWhile isSpace).length ≤ rest.length :=
        (List.takeWhile_prefix _).length_le
      have hblank : Blank src pre.length (pre.length + ((c :: rest).takeWhile isSpace).length) := by
        have hsplit : src = pre ++ (c :: rest).takeWhile isSpace ++ (c :: rest).dropWhile isSpace := by
          rw [h, List.append_assoc, List.takeWhile_append_dropWhile]
        apply blank_between hsplit
        rw [List.all_eq_true]
        exact fun x hx => List.mem_takeWhile_imp hx
      have hend : pre.length + ((c :: rest).takeWhile isSpace).length ≤ src.length := by omega
      obtain ⟨hspans, hsentences⟩ := ih false hnext hend
        (.inr ⟨rfl, by rw [hpre]; omega⟩)
      rw [hpre] at hspans hsentences
      obtain ⟨hfirst, hsentence⟩ := sentenceOf_spans text_start hlo'
        (show pre.length ≤ src.length by omega)
      unfold segments
      constructor
      · unfold sentenceRanges at hfirst hspans ⊢
        rw [List.map_append]
        exact hfirst.append (by omega) hblank hspans hlo' (by omega)
      · intro s hs
        rcases List.mem_append.mp hs with hs | hs
        · exact hsentence s hs
        · exact hsentences s hs
    · next hno =>
      rw [← hpre]
      apply ih (sentenceEnding c) hnext hlo
      rw [hpre]
      rcases hpos with hpos | ⟨rfl, hpos⟩
      · exact .inl (by omega)
      · -- In the whitespace of a match no character ends a sentence.
        by_cases hc : isSpace c = true
        · rw [List.takeWhile_cons_of_pos hc, List.length_cons] at hpos
          right
          refine ⟨?_, by omega⟩
          unfold sentenceEnding
          rw [Bool.eq_false_iff]
          intro hending
          rw [Bool.or_eq_true, Bool.or_eq_true, beq_iff_eq, beq_iff_eq, beq_iff_eq] at hending
          rcases hending with (rfl | rfl) | rfl <;> exact absurd hc (by decide)
        · rw [List.takeWhile_cons_of_neg hc, List.length_nil] at hpos
          exact .inl (by omega)

/-- The sentences of a text are all of its ink. -/
theorem sentenceSpans_spans (text : List Char) (text_start : ℕ) :
    Spans text 0 text.length (sentenceRanges text_start (sentenceSpans text text_start)) ∧
      ∀ s ∈ sentenceSpans text text_start, Sentence text text_start s :=
  segments_spans text_start false (show text = [] ++ text from rfl) (Nat.zero_le _) (.inl (le_refl _))

end RickIntelligence.Chunking
