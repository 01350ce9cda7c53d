import RickIntelligence.Chunking.Strategy

/-!
# Provenance and coverage of chunks

Each character of a chunk is carried with the position that it has in the source, and the positions go up
(`Traced`); a newline or a space that joins two parts stands for whitespace of the source. What the loop
keeps is an invariant of its variables up to a position (`Inv`): the plans are traced, in the order of the
source, and all ink before the position is in a plan or in the current text, unless it is in a separator.
-/

namespace RickIntelligence.Chunking

open Lib

/-! ## Traces -/

/-- A character of a chunk stands at a position of the source, or joins two parts where the source has
whitespace. -/
def Placed (src : List Char) (c : Char) (i : ℕ) : Prop :=
  src[i]? = some c ∨ (c = '\n' ∨ c = ' ') ∧ ∃ d, src[i]? = some d ∧ isSpace d = true

/-- The characters of a text stand at increasing positions of the source. -/
structure Traced (src text : List Char) (positions : List ℕ) : Prop where
  placed : List.Forall₂ (Placed src) text positions
  increasing : positions.Pairwise (· < ·)

variable {src text text' : List Char} {positions positions' : List ℕ} {lo hi a e i n : ℕ} {c : Char}

/-- A relation between two lists, along a part of the first. -/
theorem forall₂_split {α β : Type} {R : α → β → Prop} {l₁ l₂ : List α} {l : List β}
    (h : List.Forall₂ R (l₁ ++ l₂) l) :
    ∃ l₁' l₂', l = l₁' ++ l₂' ∧ List.Forall₂ R l₁ l₁' ∧ List.Forall₂ R l₂ l₂' := by
  induction l₁ generalizing l with
  | nil => exact ⟨[], l, rfl, .nil, h⟩
  | cons x l₁ ih =>
    cases h with
    | cons hx h =>
      obtain ⟨l₁', l₂', rfl, h₁, h₂⟩ := ih h
      exact ⟨_ :: l₁', l₂', rfl, .cons hx h₁, h₂⟩

/-- What is related to a member of the second list. -/
theorem forall₂_mem_right {α β : Type} {R : α → β → Prop} {l : List α} {l' : List β}
    (h : List.Forall₂ R l l') : ∀ y ∈ l', ∃ x ∈ l, R x y := by
  induction h with
  | nil => exact fun y hy => nomatch hy
  | cons hxy h ih =>
    intro y hy
    rcases List.mem_cons.mp hy with rfl | hy
    · exact ⟨_, List.mem_cons_self, hxy⟩
    · obtain ⟨x, hx, hR⟩ := ih y hy
      exact ⟨x, List.mem_cons_of_mem _ hx, hR⟩

/-- A character that is no whitespace stands at its position. -/
theorem Placed.ink (h : Placed src c i) (hc : isSpace c = false) : Ink src i := by
  rcases h with h | ⟨hjoin, -⟩
  · exact ⟨c, h, hc⟩
  · rcases hjoin with rfl | rfl <;> cases hc

/-- At the position of whitespace there is no ink. -/
theorem Placed.not_ink (h : Placed src c i) (hc : isSpace c = true) : ¬ Ink src i := by
  rintro ⟨d, hd, hink⟩
  rcases h with h | ⟨-, d', hd', hspace⟩
  · cases h.symm.trans hd
    rw [hc] at hink
    cases hink
  · cases hd'.symm.trans hd
    rw [hspace] at hink
    cases hink

/-- Nothing is traced. -/
theorem Traced.nil (src : List Char) : Traced src [] [] := ⟨.nil, .nil⟩

/-- A slice of the source is traced by its positions. -/
theorem traced_slice (hle : a ≤ e) (he : e ≤ src.length) :
    Traced src (slice src a e) (List.range' a (e - a)) := by
  refine ⟨?_, List.pairwise_lt_range'⟩
  obtain ⟨-, -, hlength⟩ := slice_split hle he
  rw [List.forall₂_iff_get]
  refine ⟨by rw [hlength, List.length_range'], ?_⟩
  intro j hj hj'
  left
  have hlt : j < e - a := by rwa [hlength] at hj
  have hget : (slice src a e)[j]? = src[a + j]? := by
    unfold slice
    rw [List.getElem?_drop, List.getElem?_take_of_lt (by omega)]
  simp only [List.get_eq_getElem, List.getElem_range', Nat.one_mul]
  rw [← hget, List.getElem?_eq_getElem hj]

/-- Two traced texts are joined at a position between them that holds whitespace. -/
theorem Traced.join (h : Traced src text positions) (h' : Traced src text' positions')
    (hc : c = '\n' ∨ c = ' ') (hi : ∃ d, src[i]? = some d ∧ isSpace d = true)
    (hbefore : ∀ p ∈ positions, p < i) (hafter : ∀ p ∈ positions', i < p) :
    Traced src (text ++ c :: text') (positions ++ i :: positions') := by
  refine ⟨List.rel_append h.placed (.cons (.inr ⟨hc, hi⟩) h'.placed), ?_⟩
  rw [List.pairwise_append, List.pairwise_cons]
  refine ⟨h.increasing, ⟨hafter, h'.increasing⟩, ?_⟩
  intro p hp q hq
  rcases List.mem_cons.mp hq with rfl | hq
  · exact hbefore p hp
  · exact (hbefore p hp).trans (hafter q hq)

/-- The end of a traced text. -/
theorem Traced.drop (h : Traced src text positions) (n : ℕ) :
    Traced src (text.drop n) (positions.drop n) :=
  ⟨List.forall₂_drop n h.placed, h.increasing.sublist (List.drop_sublist n positions)⟩

/-- A traced text has as many positions as characters. -/
theorem Traced.length_eq (h : Traced src text positions) : text.length = positions.length :=
  h.placed.length_eq

/-- A trace that begins and ends with ink. -/
structure Clean (src : List Char) (positions : List ℕ) : Prop where
  head : ∃ p, positions.head? = some p ∧ Ink src p
  last : ∃ p, positions.getLast? = some p ∧ Ink src p

/-- A trimmed text that is traced begins and ends with ink. -/
theorem Traced.clean (h : Traced src text positions) (htrimmed : Trimmed text) : Clean src positions := by
  obtain ⟨⟨c, t, rfl, hc⟩, u, d, hu, hd⟩ := htrimmed
  constructor
  · cases h.placed with
    | cons hp _ => exact ⟨_, rfl, hp.ink hc⟩
  · have hplaced := h.placed
    rw [hu] at hplaced
    obtain ⟨front, tail, rfl, -, htail⟩ := forall₂_split hplaced
    cases htail with
    | cons hp hnil =>
      cases hnil
      exact ⟨_, List.getLast?_concat, hp.ink hd⟩

/-- What `append_plan` makes of a traced text with ink: the positions of what is left are traced, are some
of the positions, and have all of their ink. -/
theorem Traced.strip (h : Traced src text positions) (hne : stripList text ≠ []) :
    Traced src (stripList text) (cleanPositions text positions) ∧
      Clean src (cleanPositions text positions) ∧ (cleanPositions text positions).Sublist positions ∧
      ∀ p ∈ positions, Ink src p → p ∈ cleanPositions text positions := by
  have htrimmed := trimmed_stripList hne
  obtain ⟨a, z, hsplit, ha, hz⟩ := exists_stripList text
  generalize stripList text = m at hne htrimmed hsplit ⊢
  subst hsplit
  obtain ⟨hleft, hright⟩ := strips ha hz htrimmed
  obtain ⟨front, Z, rfl, hfront, hZ⟩ := forall₂_split h.placed
  obtain ⟨A, M, rfl, hA, hM⟩ := forall₂_split hfront
  have hlengthA : a.length = A.length := hA.length_eq
  have hlengthM : m.length = M.length := hM.length_eq
  have hlengthZ : z.length = Z.length := hZ.length_eq
  have hclean : cleanPositions (a ++ m ++ z) (A ++ M ++ Z) = M := by
    have hl : (a ++ m ++ z).length - (lstrip (a ++ m ++ z)).length = A.length := by
      rw [hleft, List.length_append, List.length_append, List.length_append]
      omega
    have hr : (A ++ M ++ Z).length - ((a ++ m ++ z).length - (rstrip (a ++ m ++ z)).length) =
        (A ++ M).length := by
      rw [hright]
      simp only [List.length_append]
      omega
    unfold cleanPositions
    dsimp only
    rw [hl, hr, List.take_left, List.drop_left]
  have hsublist : M.Sublist (A ++ M ++ Z) :=
    (List.sublist_append_right A M).trans (List.sublist_append_left (A ++ M) Z)
  have htraced : Traced src m M := ⟨hM, h.increasing.sublist hsublist⟩
  rw [hclean]
  refine ⟨htraced, htraced.clean htrimmed, hsublist, ?_⟩
  intro p hp hink
  rcases List.mem_append.mp hp with hp | hp
  · rcases List.mem_append.mp hp with hp | hp
    · obtain ⟨x, hx, hplaced⟩ := forall₂_mem_right hA p hp
      exact absurd hink (hplaced.not_ink (List.all_eq_true.mp ha x hx))
    · exact hp
  · obtain ⟨x, hx, hplaced⟩ := forall₂_mem_right hZ p hp
    exact absurd hink (hplaced.not_ink (List.all_eq_true.mp hz x hx))

/-- A traced text with ink is not blank. -/
theorem Traced.strip_ne (h : Traced src text positions) (hink : ∃ p ∈ positions, Ink src p) :
    stripList text ≠ [] := by
  intro hblank
  obtain ⟨p, hp, hink⟩ := hink
  obtain ⟨x, hx, hplaced⟩ := forall₂_mem_right h.placed p hp
  obtain ⟨a, z, hsplit, ha, hz⟩ := exists_stripList text
  rw [hblank, List.append_nil] at hsplit
  rw [hsplit] at hx
  have hspace : isSpace x = true := by
    rcases List.mem_append.mp hx with hx | hx
    · exact List.all_eq_true.mp ha x hx
    · exact List.all_eq_true.mp hz x hx
  exact hplaced.not_ink hspace hink

/-- The pages of increasing positions are those of the first and of the last. -/
theorem pageSpan_eq {first last : ℕ} (boundaries : List (ℕ × ℤ)) (h : positions.Pairwise (· < ·))
    (hfirst : positions.head? = some first) (hlast : positions.getLast? = some last) :
    pageSpan positions boundaries = (pageHint first boundaries, pageHint last boundaries) := by
  have hmin : positions.min? = some first := by
    rw [List.min?_eq_head? (h.imp fun hab => min_eq_left hab.le), hfirst]
  have hmax : positions.max? = some last := by
    rw [List.max?_eq_some_iff]
    refine ⟨List.mem_of_getLast? hlast, ?_⟩
    intro p hp
    obtain ⟨front, rfl⟩ := List.getLast?_eq_some_iff.mp hlast
    rcases List.mem_append.mp hp with hp | hp
    · exact ((List.pairwise_append.mp h).2.2 p hp last (List.mem_singleton_self last)).le
    · exact (List.mem_singleton.mp hp).le
  unfold pageSpan
  rw [hmin, hmax]

/-! ## What the loop keeps -/

section Loop

variable (o : Options) (pages : List PageText)

/-- The position is in a paragraph that separates others. -/
def InSeparator (i : ℕ) : Prop :=
  ∃ p ∈ paragraphs (allText pages), isSeparator (stripList p.2) = true ∧ p.1 ≤ i ∧ i < p.1 + p.2.length

/-- A chunk is short, or one sentence of a paragraph that is too long. -/
def SizeOk (chunk_text : List Char) : Prop :=
  chunk_text.length ≤ o.chunk_size + o.overlap + 1 ∨
    ∃ p ∈ paragraphs (allText pages), o.chunk_size < (stripList p.2).length ∧
      ∃ s ∈ sentenceSpans (stripList p.2) (trimmedSpan p.1 p.2).1, chunk_text = s.1

/-- A plan with the trace of its text. -/
structure PlanOk (plan : ChunkPlan) (trace : List ℕ) : Prop where
  traced : Traced (allText pages) plan.text trace
  clean : Clean (allText pages) trace
  first_page : ∀ p ∈ trace.head?, plan.page_start = pageHint p (boundariesFrom 0 pages)
  last_page : ∀ p ∈ trace.getLast?, plan.page_end = pageHint p (boundariesFrom 0 pages)
  size : SizeOk o pages plan.text

/-- A trace begins before all ink of other positions, and ends before some of it. -/
def Before (src : List Char) (trace positions : List ℕ) : Prop :=
  (∀ a ∈ trace.head?, ∀ p ∈ positions, Ink src p → a ≤ p) ∧
    ∀ q ∈ trace, ∃ p ∈ positions, Ink src p ∧ q < p

/-- The plans with their traces, which are below a position. -/
structure Laid (lo : ℕ) (plans : List ChunkPlan) (traces : List (List ℕ)) : Prop where
  made : List.Forall₂ (PlanOk o pages) plans traces
  index : plans.map ChunkPlan.chunk_index = List.range plans.length
  ordered : traces.Pairwise (Before (allText pages))
  below : ∀ t ∈ traces, ∀ p ∈ t, p < lo

/-- What the loop keeps of its variables up to a position. -/
structure Inv (lo : ℕ) (b : Buffer) (traces : List (List ℕ)) : Prop where
  laid : Laid o pages lo b.plans traces
  current : Traced (allText pages) b.current_text b.current_positions
  below : ∀ p ∈ b.current_positions, p < lo
  headed : ∀ t ∈ traces, ∀ a ∈ t.head?, ∀ p ∈ b.current_positions, Ink (allText pages) p → a ≤ p
  covered : ∀ i < lo, Ink (allText pages) i → ¬ InSeparator pages i →
    i ∈ b.current_positions ∨ ∃ t ∈ traces, i ∈ t

/-- What holds of the current text between two paragraphs: it is not too long, and ends with ink that no
chunk has. -/
structure Settled (b : Buffer) (traces : List (List ℕ)) : Prop where
  short : b.current_text.length ≤ o.chunk_size + o.overlap + 1
  ink : b.current_text ≠ [] → ∃ p ∈ b.current_positions, Ink (allText pages) p
  after : b.current_text ≠ [] → ∀ t ∈ traces, ∀ q ∈ t,
    ∃ p ∈ b.current_positions, Ink (allText pages) p ∧ q < p

variable {o pages} {b : Buffer} {plans : List ChunkPlan} {traces : List (List ℕ)}

/-- A plan that is appended, with the trace of its text. -/
theorem Laid.append (h : Laid o pages lo plans traces) (htraced : Traced (allText pages) text positions)
    (hne : stripList text ≠ []) (hsize : SizeOk o pages (stripList text)) (hle : lo ≤ hi)
    (hbefore : ∀ t ∈ traces, Before (allText pages) t positions) (hbelow : ∀ p ∈ positions, p < hi) :
    Laid o pages hi
      (appendPlan o.content_checksum (boundariesFrom 0 pages) plans text positions)
      (traces ++ [cleanPositions text positions]) := by
  obtain ⟨hstripped, hclean, hsublist, hink⟩ := htraced.strip hne
  obtain ⟨first, hfirst, -⟩ := hclean.head
  obtain ⟨last, hlast, -⟩ := hclean.last
  have hspan := pageSpan_eq (boundariesFrom 0 pages) hstripped.increasing hfirst hlast
  unfold appendPlan
  rw [if_neg hne, hspan]
  refine ⟨?_, ?_, ?_, ?_⟩
  · refine List.rel_append h.made (.cons ⟨hstripped, hclean, ?_, ?_, hsize⟩ .nil)
    · intro p hp
      cases hfirst.symm.trans hp
      rfl
    · intro p hp
      cases hlast.symm.trans hp
      rfl
  · rw [List.map_append, h.index, List.length_append, List.length_singleton, List.range_succ]
    rfl
  · rw [List.pairwise_append]
    refine ⟨h.ordered, List.pairwise_singleton _ _, ?_⟩
    intro t ht u hu
    rw [List.mem_singleton.mp hu]
    obtain ⟨hheaded, hafter⟩ := hbefore t ht
    constructor
    · intro a ha p hp
      exact hheaded a ha p (hsublist.subset hp)
    · intro q hq
      obtain ⟨p, hp, hpink, hlt⟩ := hafter q hq
      exact ⟨p, hink p hp hpink, hpink, hlt⟩
  · intro t ht p hp
    rcases List.mem_append.mp ht with ht | ht
    · exact (h.below t ht p hp).trans_le hle
    · rw [List.mem_singleton.mp ht] at hp
      exact hbelow p (hsublist.subset hp)

/-- The current text becomes a plan when it is flushed. -/
theorem Inv.flush (h : Inv o pages lo b traces) (hs : Settled o pages b traces) (hne : b.current_text ≠ []) :
    Inv o pages lo (b.flush o.content_checksum (boundariesFrom 0 pages))
        (traces ++ [cleanPositions b.current_text b.current_positions]) ∧
      (b.flush o.content_checksum (boundariesFrom 0 pages)).current_text = [] ∧
      ∀ t ∈ traces ++ [cleanPositions b.current_text b.current_positions], ∀ a ∈ t.head?,
        ∀ p ∈ b.current_positions, Ink (allText pages) p → a ≤ p := by
  have hstrip : stripList b.current_text ≠ [] := h.current.strip_ne (hs.ink hne)
  obtain ⟨hstripped, hclean, hsublist, hink⟩ := h.current.strip hstrip
  have hsize : SizeOk o pages (stripList b.current_text) :=
    .inl ((length_stripList_le b.current_text).trans hs.short)
  have hlaid := h.laid.append h.current hstrip hsize (le_refl lo)
    (fun t ht => ⟨h.headed t ht, hs.after hne t ht⟩) h.below
  unfold Buffer.flush
  rw [if_neg hstrip]
  refine ⟨⟨hlaid, .nil _, nofun, fun _ _ _ _ _ hp => (nomatch hp), ?_⟩, rfl, ?_⟩
  · intro i hi hi' hseparator
    right
    rcases h.covered i hi hi' hseparator with hcurrent | ⟨t, ht, hit⟩
    · exact ⟨_, List.mem_append_right _ (List.mem_singleton_self _), hink i hcurrent hi'⟩
    · exact ⟨t, List.mem_append_left _ ht, hit⟩
  · intro t ht a ha p hp hpink
    rcases List.mem_append.mp ht with ht | ht
    · exact h.headed t ht a ha p hp hpink
    · -- The trace of the current text goes up, so it begins before all of its ink.
      rw [List.mem_singleton.mp ht] at ha
      have hmem := hink p hp hpink
      have hincreasing := hstripped.increasing
      obtain ⟨rest, hrest⟩ := List.head?_eq_some_iff.mp ha
      rw [hrest] at hmem hincreasing
      rcases List.mem_cons.mp hmem with rfl | hmem
      · exact le_refl _
      · exact ((List.pairwise_cons.mp hincreasing).1 p hmem).le

/-- The end of the last text is kept. -/
theorem Inv.overlap (h : Inv o pages lo b traces) (hempty : b.current_text = [])
    (htraced : Traced (allText pages) text positions) (hbelow : ∀ p ∈ positions, p < lo)
    (hheaded : ∀ t ∈ traces, ∀ a ∈ t.head?, ∀ p ∈ positions, Ink (allText pages) p → a ≤ p) :
    Inv o pages lo (b.startWithOverlap o.overlap text positions) traces ∧
      (b.startWithOverlap o.overlap text positions).current_text.length ≤ o.overlap := by
  have hpositions : b.current_positions = [] := by
    have hlength := h.current.length_eq
    rw [hempty] at hlength
    exact List.eq_nil_of_length_eq_zero hlength.symm
  have hcount : positions.length - (text.drop (text.length - o.overlap)).length =
      text.length - o.overlap := by
    rw [List.length_drop, ← htraced.length_eq]
    omega
  unfold Buffer.startWithOverlap
  dsimp only
  rw [hcount]
  have hsubset : ∀ p ∈ positions.drop (text.length - o.overlap), p ∈ positions :=
    fun p hp => List.mem_of_mem_drop hp
  refine ⟨⟨h.laid, htraced.drop _, ?_, ?_, ?_⟩, ?_⟩
  · intro p hp
    exact hbelow p (hsubset p hp)
  · intro t ht a ha p hp
    exact hheaded t ht a ha p (hsubset p hp)
  · intro i hi hi' hseparator
    rcases h.covered i hi hi' hseparator with hcurrent | htrace
    · rw [hpositions] at hcurrent
      cases hcurrent
    · exact .inr htrace
  · rw [List.length_drop]
    omega

/-- The character before a paragraph that is not the first ink of the text is whitespace. -/
theorem space_before (hlo : lo < a) (ha : a ≤ src.length) (h : ¬ Ink src (a - 1)) :
    ∃ d, src[a - 1]? = some d ∧ isSpace d = true := by
  have hlt : a - 1 < src.length := by omega
  refine ⟨src[a - 1], List.getElem?_eq_getElem hlt, ?_⟩
  rw [← Bool.not_eq_false]
  intro hink
  exact h ⟨src[a - 1], List.getElem?_eq_getElem hlt, hink⟩

/-- A paragraph is put after the current text. -/
theorem Inv.join (h : Inv o pages lo b traces) (hlo : lo ≤ a) (hae : a < e)
    (he : e ≤ (allText pages).length) (hgap : b.current_text ≠ [] → lo < a)
    (hbefore : lo < a → ¬ Ink (allText pages) (a - 1)) (hblank : Blank (allText pages) lo a)
    (hlast : Ink (allText pages) (e - 1))
    (hshort : b.current_text.length + (e - a) ≤ o.chunk_size + o.overlap) :
    Inv o pages e (b.join a e (slice (allText pages) a e)) traces ∧
      Settled o pages (b.join a e (slice (allText pages) a e)) traces := by
  have hpara : Traced (allText pages) (slice (allText pages) a e) (List.range' a (e - a)) :=
    traced_slice hae.le he
  have hlength : (slice (allText pages) a e).length = e - a := (slice_split hae.le he).2.2
  have hmem : e - 1 ∈ List.range' a (e - a) := by
    rw [List.mem_range'_1]
    omega
  have hold : ∀ t ∈ traces, ∀ q ∈ t, q < a := fun t ht q hq => (h.laid.below t ht q hq).trans_le hlo
  have hlaid : Laid o pages e b.plans traces :=
    ⟨h.laid.made, h.laid.index, h.laid.ordered, fun t ht q hq => (hold t ht q hq).trans hae⟩
  -- Where the new text is, whatever stands before it.
  have hrest : ∀ text positions, Traced (allText pages) text positions →
      (∀ p ∈ positions, p ∈ b.current_positions ∨ a ≤ p + 1 ∧ p < e) →
      (∀ p ∈ List.range' a (e - a), p ∈ positions) → (∀ p ∈ b.current_positions, p ∈ positions) →
      text.length ≤ o.chunk_size + o.overlap + 1 →
      (∀ p ∈ positions, p ∉ b.current_positions → Ink (allText pages) p → a ≤ p) →
      Inv o pages e { b with current_text := text, current_positions := positions } traces ∧
        Settled o pages { b with current_text := text, current_positions := positions } traces := by
    intro text positions htraced hsplit hnew hkept hsize hink
    refine ⟨⟨hlaid, htraced, ?_, ?_, ?_⟩, ⟨hsize, ?_, ?_⟩⟩
    · intro p hp
      rcases hsplit p hp with hp | hp
      · exact (h.below p hp).trans_le (hlo.trans hae.le)
      · exact hp.2
    · intro t ht q hq p hp hpink
      by_cases hcurrent : p ∈ b.current_positions
      · exact h.headed t ht q hq p hcurrent hpink
      · exact (hold t ht q (List.mem_of_mem_head? hq)).le.trans (hink p hp hcurrent hpink)
    · intro i hi hi' hseparator
      by_cases hbelow : i < lo
      · rcases h.covered i hbelow hi' hseparator with hcurrent | htrace
        · exact .inl (hkept i hcurrent)
        · exact .inr htrace
      · by_cases hgap' : i < a
        · exact absurd hi' (hblank i (by omega) hgap')
        · left
          apply hnew
          rw [List.mem_range'_1]
          omega
    · exact fun _ => ⟨e - 1, hnew _ hmem, hlast⟩
    · intro _ t ht q hq
      have hqa := hold t ht q hq
      exact ⟨e - 1, hnew _ hmem, hlast, by omega⟩
  unfold Buffer.join
  dsimp only
  by_cases hempty : b.current_text = []
  · have hpositions : b.current_positions = [] := by
      have hcount := h.current.length_eq
      rw [hempty] at hcount
      exact List.eq_nil_of_length_eq_zero hcount.symm
    rw [if_pos hempty]
    apply hrest _ _ hpara
    · intro p hp
      rw [List.mem_range'_1] at hp
      right
      omega
    · exact fun p hp => hp
    · rw [hpositions]
      exact fun p hp => nomatch hp
    · rw [hlength]
      omega
    · intro p hp _ _
      rw [List.mem_range'_1] at hp
      exact hp.1
  · rw [if_neg hempty]
    have hstrict := hgap hempty
    have hspace := space_before hstrict (hae.le.trans he) (hbefore hstrict)
    have hbelow : ∀ p ∈ b.current_positions, p < a - 1 := by
      intro p hp
      have hlt := h.below p hp
      omega
    have hafter : ∀ p ∈ List.range' a (e - a), a - 1 < p := by
      intro p hp
      rw [List.mem_range'_1] at hp
      omega
    apply hrest _ _ (h.current.join hpara (.inl rfl) hspace hbelow hafter)
    · intro p hp
      rcases List.mem_append.mp hp with hp | hp
      · exact .inl hp
      · rcases List.mem_cons.mp hp with rfl | hp
        · right
          omega
        · rw [List.mem_range'_1] at hp
          right
          omega
    · intro p hp
      exact List.mem_append_right _ (List.mem_cons_of_mem _ hp)
    · exact fun p hp => List.mem_append_left _ hp
    · rw [List.length_append, List.length_cons, hlength]
      omega
    · intro p hp hnew hpink
      rcases List.mem_append.mp hp with hp | hp
      · exact absurd hp hnew
      · rcases List.mem_cons.mp hp with rfl | hp
        · exact absurd hpink (hbefore hstrict)
        · rw [List.mem_range'_1] at hp
          exact hp.1

/-! ## Sentences -/

/-- A group of sentences with its positions, which are between two bounds: it is short, or one sentence. -/
structure Piece (src : List Char) (chunk_size : ℕ) (sentences : List (List Char)) (lo hi : ℕ)
    (x : List Char × List ℕ) : Prop where
  traced : Traced src x.1 x.2
  trimmed : Trimmed x.1
  size : x.1.length ≤ chunk_size ∨ x.1 ∈ sentences
  within : ∀ p ∈ x.2, lo ≤ p ∧ p < hi

/-- Two trimmed texts with a space between them. -/
theorem trimmed_join (h : Trimmed text) (h' : Trimmed text') (c : Char) : Trimmed (text ++ c :: text') := by
  obtain ⟨⟨d, t, ht, hd⟩, -⟩ := h
  obtain ⟨-, u, d', hu, hd'⟩ := h'
  refine ⟨⟨d, t ++ c :: text', by rw [ht]; rfl, hd⟩, text ++ c :: u, d', by rw [hu]; simp, hd'⟩

/-- A slice of the source that begins and ends with ink is trimmed. -/
theorem trimmed_slice (hlt : a < e) (he : e ≤ src.length) (hfirst : Ink src a) (hlast : Ink src (e - 1)) :
    Trimmed (slice src a e) := by
  obtain ⟨hsplit, hpre, hlength⟩ := slice_split hlt.le he
  have hink : ∀ i, a ≤ i → i < e → Ink src i → Ink (slice src a e) (i - a) := by
    intro i hi hi' h
    have hiff := ink_between hsplit (i := i) (by omega) (by omega)
    rw [hpre] at hiff
    exact hiff.mp h
  obtain ⟨c, hc, hcs⟩ := hink a (le_refl a) hlt hfirst
  obtain ⟨d, hd, hds⟩ := hink (e - 1) (by omega) (by omega) hlast
  generalize slice src a e = m at hc hd hlength
  constructor
  · rw [Nat.sub_self, ← List.head?_eq_getElem?] at hc
    obtain ⟨t, ht⟩ := List.head?_eq_some_iff.mp hc
    exact ⟨c, t, ht, hcs⟩
  · have hpred : e - 1 - a = m.length - 1 := by omega
    rw [hpred, ← List.getLast?_eq_getElem?] at hd
    obtain ⟨t, ht⟩ := List.getLast?_eq_some_iff.mp hd
    exact ⟨t, d, ht, hds⟩

variable {chunk_size low : ℕ} {all : List (List Char)} {p : ℕ × List Char}

/-- The bounds of a group can be wider. -/
theorem Piece.mono {x : List Char × List ℕ} (h : Piece src chunk_size all low lo x) (hle : lo ≤ hi) :
    Piece src chunk_size all low hi x :=
  ⟨h.traced, h.trimmed, h.size, fun p hp => ⟨(h.within p hp).1, (h.within p hp).2.trans_le hle⟩⟩

/-- Groups of sentences between two bounds: they are in order, and have all ink of the source from a
position on, and some given positions. -/
structure Grouped (src : List Char) (chunk_size : ℕ) (all : List (List Char)) (low lo hi : ℕ)
    (positions : List ℕ) (pieces : List (List Char × List ℕ)) : Prop where
  piece : ∀ x ∈ pieces, Piece src chunk_size all low hi x
  ordered : pieces.Pairwise fun x y => ∀ p ∈ x.2, ∀ q ∈ y.2, p < q
  kept : ∀ p ∈ positions, ∃ x ∈ pieces, p ∈ x.2
  covered : ∀ i, lo ≤ i → i < hi → Ink src i → ∃ x ∈ pieces, i ∈ x.2

/-- What the groups of sentences are: the current one, and those after it. The current group is below a
position after which the sentences stand. -/
theorem packSentences_grouped {sentences : List (List Char × ℕ × ℕ)} {current : List Char}
    (hspans : Spans src lo hi (sentences.map Prod.snd)) (hle : lo ≤ hi) (hhi : hi ≤ src.length)
    (hslices : ∀ s ∈ sentences, s.1 = slice src s.2.1 s.2.2) (hall : ∀ s ∈ sentences, s.1 ∈ all) (hlow : low ≤ lo)
    (hcurrent : current = [] ∧ positions = [] ∨ Piece src chunk_size all low lo (current, positions))
    (hgap : current ≠ [] → ∀ s ∈ sentences, lo < s.2.1) :
    Grouped src chunk_size all low lo hi positions
      (packSentences chunk_size current positions sentences) := by
  induction sentences generalizing current positions lo low with
  | nil =>
    have hblank : ∀ i, lo ≤ i → i < hi → ¬ Ink src i := by
      intro i hi1 hi2 hink
      obtain ⟨s, hs, -⟩ := hspans.covers i hi1 hi2 hink
      cases hs
    unfold packSentences
    rcases hcurrent with ⟨rfl, rfl⟩ | hpiece
    · exact ⟨nofun, .nil, nofun, fun i hi1 hi2 hink => absurd hink (hblank i hi1 hi2)⟩
    · have htrimmed : Trimmed current := hpiece.trimmed
      have hstrip : stripList current = current := stripList_trimmed htrimmed
      have hne : current ≠ [] := by
        obtain ⟨⟨c, t, rfl, -⟩, -⟩ := htrimmed
        exact List.cons_ne_nil c t
      rw [hstrip, if_neg hne]
      refine ⟨?_, List.pairwise_singleton _ _, ?_, fun i hi1 hi2 hink => absurd hink (hblank i hi1 hi2)⟩
      · intro x hx
        rw [List.mem_singleton.mp hx]
        exact hpiece.mono hle
      · exact fun p hp => ⟨_, List.mem_singleton_self _, hp⟩
  | cons s sentences ih =>
    obtain ⟨sentence, start, stop⟩ := s
    rw [List.map_cons] at hspans
    obtain ⟨hstart, hlt, hstop⟩ := hspans.within _ List.mem_cons_self
    obtain ⟨hfirst, hlast⟩ := hspans.ends _ List.mem_cons_self
    have hbefore := hspans.before _ List.mem_cons_self
    obtain ⟨hblank, htail, happart⟩ := hspans.tail
    dsimp only at hstart hlt hstop hfirst hlast hbefore hblank htail happart
    have hsentence : sentence = slice src start stop := hslices _ List.mem_cons_self
    have htraced : Traced src sentence (List.range' start (stop - start)) := by
      rw [hsentence]
      exact traced_slice hlt.le (hstop.trans hhi)
    have htrimmed : Trimmed sentence := by
      rw [hsentence]
      exact trimmed_slice hlt (hstop.trans hhi) hfirst hlast
    have hrange : ∀ p, p ∈ List.range' start (stop - start) ↔ start ≤ p ∧ p < stop := by
      intro p
      rw [List.mem_range'_1]
      omega
    have hnew : Piece src chunk_size all start stop (sentence, List.range' start (stop - start)) :=
      ⟨htraced, htrimmed, .inr (hall _ List.mem_cons_self), fun p hp => (hrange p).mp hp⟩
    -- The groups after the current one, once it has the sentence.
    have hnext : ∀ low' current' positions', low' ≤ stop →
        Piece src chunk_size all low' stop (current', positions') →
        Grouped src chunk_size all low' stop hi positions'
          (packSentences chunk_size current' positions' sentences) := by
      intro low' current' positions' hlow' hpiece
      apply ih htail hstop (fun t ht => hslices t (List.mem_cons_of_mem _ ht))
        (fun t ht => hall t (List.mem_cons_of_mem _ ht)) hlow' (.inr hpiece)
      intro _ t ht
      exact happart t.2 (List.mem_map_of_mem ht)
    -- A group that has the sentence covers what stands before the next one.
    have hwider : ∀ low' positions' pieces, Grouped src chunk_size all low' stop hi positions' pieces →
        (∀ p ∈ List.range' start (stop - start), p ∈ positions') →
        ∀ i, lo ≤ i → i < hi → Ink src i → ∃ x ∈ pieces, i ∈ x.2 := by
      intro low' positions' pieces hgrouped hmem i hi1 hi2 hink
      by_cases hbelow : i < start
      · exact absurd hink (hblank i hi1 hbelow)
      · by_cases hinside : i < stop
        · exact hgrouped.kept i (hmem i ((hrange i).mpr ⟨by omega, hinside⟩))
        · exact hgrouped.covered i (by omega) hi2 hink
    unfold packSentences
    dsimp only
    rcases hcurrent with ⟨rfl, rfl⟩ | hpiece
    · -- Nothing is put together yet.
      have hsingle : Piece src chunk_size all low stop
          (sentence, List.range' start (stop - start)) :=
        ⟨htraced, htrimmed, hnew.size, fun p hp => by
          have hp' := (hrange p).mp hp
          omega⟩
      have hgrouped := hnext low sentence _ (by omega) hsingle
      rw [List.nil_append]
      have hgoal : Grouped src chunk_size all low lo hi []
          (packSentences chunk_size sentence (List.range' start (stop - start)) sentences) :=
        ⟨hgrouped.piece, hgrouped.ordered, nofun, hwider low _ _ hgrouped fun p hp => hp⟩
      rw [if_pos rfl, if_pos rfl]
      split
      · exact hgoal
      · exact hgoal
    · have hctrimmed : Trimmed current := hpiece.trimmed
      have hne : current ≠ [] := by
        obtain ⟨⟨c, t, rfl, -⟩, -⟩ := hctrimmed
        exact List.cons_ne_nil c t
      have hstrict : lo < start := hgap hne _ List.mem_cons_self
      have hwithin : ∀ p ∈ positions, low ≤ p ∧ p < lo := hpiece.within
      rw [if_neg hne, if_neg hne]
      split
      · next hfits =>
        have hspace := space_before hstrict (hlt.le.trans (hstop.trans hhi)) (hbefore hstrict)
        have hjoined : Traced src (current ++ ' ' :: sentence)
            (positions ++ (start - 1) :: List.range' start (stop - start)) := by
          apply Traced.join hpiece.traced htraced (.inr rfl) hspace
          · intro p hp
            have hp' := hwithin p hp
            omega
          · intro p hp
            have hp' := (hrange p).mp hp
            omega
        have hjoinedPiece : Piece src chunk_size all low stop
            (current ++ ' ' :: sentence, positions ++ (start - 1) :: List.range' start (stop - start)) := by
          refine ⟨hjoined, trimmed_join hctrimmed htrimmed ' ', .inl ?_, ?_⟩
          · rw [List.length_append, List.length_cons]
            omega
          · intro p hp
            rcases List.mem_append.mp hp with hp | hp
            · have hp' := hwithin p hp
              omega
            · rcases List.mem_cons.mp hp with rfl | hp
              · omega
              · have hp' := (hrange p).mp hp
                omega
        have hgrouped := hnext low _ _ (by omega) hjoinedPiece
        refine ⟨hgrouped.piece, hgrouped.ordered, ?_, hwider low _ _ hgrouped ?_⟩
        · exact fun p hp => hgrouped.kept p (List.mem_append_left _ hp)
        · exact fun p hp => List.mem_append_right _ (List.mem_cons_of_mem _ hp)
      · have hgrouped := hnext start sentence _ hlt.le hnew
        refine ⟨?_, ?_, ?_, ?_⟩
        · intro x hx
          rcases List.mem_cons.mp hx with rfl | hx
          · exact hpiece.mono hle
          · have hx' := hgrouped.piece x hx
            exact ⟨hx'.traced, hx'.trimmed, hx'.size, fun p hp => by
              have hp' := hx'.within p hp
              omega⟩
        · refine List.pairwise_cons.mpr ⟨?_, hgrouped.ordered⟩
          intro x hx p hp q hq
          have hq' := (hgrouped.piece x hx).within q hq
          have hp' := hwithin p hp
          omega
        · exact fun p hp => ⟨_, List.mem_cons_self, hp⟩
        · intro i hi1 hi2 hink
          obtain ⟨x, hx, hix⟩ := hwider start _ _ hgrouped (fun p hp => hp) i hi1 hi2 hink
          exact ⟨x, List.mem_cons_of_mem _ hx, hix⟩

/-- The groups of a paragraph that is located in the source. -/
theorem splitSentences_grouped (chunk_size : ℕ) (hp : Located src p)
    (hle : (trimmedSpan p.1 p.2).1 < (trimmedSpan p.1 p.2).2) (hhi : (trimmedSpan p.1 p.2).2 ≤ src.length) :
    Grouped src chunk_size
      ((sentenceSpans (stripList p.2) (trimmedSpan p.1 p.2).1).map Prod.fst)
      (trimmedSpan p.1 p.2).1 (trimmedSpan p.1 p.2).1 (trimmedSpan p.1 p.2).2 []
      (splitSentences (stripList p.2) (trimmedSpan p.1 p.2).1 chunk_size) := by
  obtain ⟨-, hslice⟩ := hp
  generalize (trimmedSpan p.1 p.2).1 = a at hle hslice ⊢
  generalize (trimmedSpan p.1 p.2).2 = e at hle hhi hslice ⊢
  generalize stripList p.2 = para at hslice ⊢
  obtain ⟨hsplit, hpre, hlength⟩ := slice_split hle.le hhi
  rw [hslice] at hsplit hlength
  have hend : a + para.length = e := by omega
  obtain ⟨hspans, hsentences⟩ := sentenceSpans_spans para a
  have hshift := hspans.shift hsplit
  rw [hpre, hend] at hshift
  have hranges : (sentenceRanges a (sentenceSpans para a)).map (fun s => (a + s.1, a + s.2)) =
      (sentenceSpans para a).map Prod.snd := by
    unfold sentenceRanges
    rw [List.map_map]
    apply List.map_congr_left
    intro s hs
    obtain ⟨hstart, -⟩ := hsentences s hs
    have hrange : (s.2.1 - a, s.2.2 - a) ∈ sentenceRanges a (sentenceSpans para a) :=
      List.mem_map_of_mem (f := fun s : List Char × ℕ × ℕ => (s.2.1 - a, s.2.2 - a)) hs
    obtain ⟨-, hlt, -⟩ := hspans.within _ hrange
    dsimp only [Function.comp] at hlt ⊢
    ext
    · dsimp only
      omega
    · dsimp only
      omega
  rw [hranges] at hshift
  refine packSentences_grouped hshift hle.le hhi ?_ ?_ (le_refl a) (.inl ⟨rfl, rfl⟩) (absurd rfl)
  · intro s hs
    obtain ⟨hstart, htext⟩ := hsentences s hs
    obtain ⟨-, hlt, hstop⟩ := hshift.within s.2 (List.mem_map_of_mem hs)
    rw [htext]
    unfold slice at hslice ⊢
    rw [← hslice, List.take_drop, List.drop_drop, List.take_take]
    congr 2
    · omega
    · omega
  · exact fun s hs => List.mem_map_of_mem hs

/-- The groups of a paragraph become plans. -/
theorem Laid.appendAll {pieces : List (List Char × List ℕ)} (h : Laid o pages hi plans traces)
    (hpieces : ∀ x ∈ pieces, Piece (allText pages) chunk_size all low hi x)
    (hordered : pieces.Pairwise fun x y => ∀ p ∈ x.2, ∀ q ∈ y.2, p < q) (hsize : ∀ x ∈ pieces, SizeOk o pages x.1)
    (hafter : ∀ t ∈ traces, ∀ q ∈ t, ∀ x ∈ pieces, ∀ p ∈ x.2, q < p) :
    ∃ traces', Laid o pages hi
        (pieces.foldl (fun plans piece =>
          appendPlan o.content_checksum (boundariesFrom 0 pages) plans piece.1 piece.2) plans)
        (traces ++ traces') ∧
      ∀ x ∈ pieces, ∀ p ∈ x.2, Ink (allText pages) p → ∃ t ∈ traces', p ∈ t := by
  induction pieces generalizing plans traces with
  | nil => exact ⟨[], by rw [List.append_nil]; exact h, nofun⟩
  | cons x pieces ih =>
    obtain ⟨hfirst, hordered⟩ := List.pairwise_cons.mp hordered
    have hx := hpieces x List.mem_cons_self
    have hstrip : stripList x.1 = x.1 := stripList_trimmed hx.trimmed
    have hne : stripList x.1 ≠ [] := by
      obtain ⟨⟨c, t, hc, -⟩, -⟩ := hx.trimmed
      rw [hstrip, hc]
      exact List.cons_ne_nil c t
    obtain ⟨p, hp, hpink⟩ := (hx.traced.clean hx.trimmed).head
    have hmem : p ∈ x.2 := List.mem_of_mem_head? hp
    obtain ⟨-, -, hsublist, hink⟩ := hx.traced.strip hne
    have hbefore : ∀ t ∈ traces, Before (allText pages) t x.2 := by
      intro t ht
      constructor
      · intro a ha q hq _
        exact (hafter t ht a (List.mem_of_mem_head? ha) x List.mem_cons_self q hq).le
      · intro q hq
        exact ⟨p, hmem, hpink, hafter t ht q hq x List.mem_cons_self p hmem⟩
    have hlaid := h.append hx.traced hne (by rw [hstrip]; exact hsize x List.mem_cons_self) (le_refl hi)
      hbefore fun q hq => (hx.within q hq).2
    obtain ⟨traces', hlaid', hcovered⟩ := ih hlaid (fun y hy => hpieces y (List.mem_cons_of_mem x hy))
      hordered (fun y hy => hsize y (List.mem_cons_of_mem x hy)) (by
        intro t ht q hq y hy r hr
        rcases List.mem_append.mp ht with ht | ht
        · exact hafter t ht q hq y (List.mem_cons_of_mem x hy) r hr
        · rw [List.mem_singleton.mp ht] at hq
          exact hfirst y hy q (hsublist.subset hq) r hr)
    refine ⟨cleanPositions x.1 x.2 :: traces', ?_, ?_⟩
    · rw [List.foldl_cons]
      rw [List.append_assoc, List.singleton_append] at hlaid'
      exact hlaid'
    · intro y hy q hq hqink
      rcases List.mem_cons.mp hy with rfl | hy
      · exact ⟨_, List.mem_cons_self, hink q hq hqink⟩
      · obtain ⟨t, ht, hqt⟩ := hcovered y hy q hq hqink
        exact ⟨t, List.mem_cons_of_mem _ ht, hqt⟩

/-! ## The loop -/

/-- The invariant up to a later position, between which there is no ink that counts. -/
theorem Inv.advance (h : Inv o pages lo b traces) (hle : lo ≤ hi)
    (hno : ∀ i, lo ≤ i → i < hi → Ink (allText pages) i → InSeparator pages i) :
    Inv o pages hi b traces := by
  refine ⟨⟨h.laid.made, h.laid.index, h.laid.ordered, ?_⟩, h.current, ?_, h.headed, ?_⟩
  · exact fun t ht p hp => (h.laid.below t ht p hp).trans_le hle
  · exact fun p hp => (h.below p hp).trans_le hle
  · intro i hi hi' hseparator
    by_cases hbelow : i < lo
    · exact h.covered i hbelow hi' hseparator
    · exact absurd (hno i (by omega) hi hi') hseparator

/-- The current text, if there is any, is flushed. -/
theorem Inv.flushed (h : Inv o pages lo b traces) (hs : Settled o pages b traces) (hne : b.current_text ≠ []) :
    ∃ traces', Inv o pages lo ((b.flush o.content_checksum (boundariesFrom 0 pages)).startWithOverlap
      o.overlap b.current_text b.current_positions).clear traces' := by
  obtain ⟨hflush, hempty, hheaded⟩ := h.flush hs hne
  have hpositions : (b.flush o.content_checksum (boundariesFrom 0 pages)).current_positions = [] := by
    have hlength := hflush.current.length_eq
    rw [hempty] at hlength
    exact List.eq_nil_of_length_eq_zero hlength.symm
  refine ⟨_, ⟨hflush.laid, .nil _, nofun, fun _ _ _ _ _ hp => (nomatch hp), ?_⟩⟩
  intro i hi hi' hseparator
  rcases hflush.covered i hi hi' hseparator with hcurrent | htrace
  · rw [hpositions] at hcurrent
    cases hcurrent
  · exact .inr htrace

/-- An empty text is settled. -/
theorem settled_of_empty (h : b.current_text = []) : Settled o pages b traces := by
  refine ⟨?_, fun hne => absurd h hne, fun hne => absurd h hne⟩
  rw [h]
  exact Nat.zero_le _

/-- A paragraph that is too long becomes plans of its sentences. -/
theorem Inv.addLong (h : Inv o pages lo b traces) (hs : Settled o pages b traces)
    (hmem : p ∈ paragraphs (allText pages)) (hlocated : Located (allText pages) p)
    (hlo : lo ≤ (trimmedSpan p.1 p.2).1) (hle : (trimmedSpan p.1 p.2).1 < (trimmedSpan p.1 p.2).2)
    (hhi : (trimmedSpan p.1 p.2).2 ≤ (allText pages).length)
    (hblank : Blank (allText pages) lo (trimmedSpan p.1 p.2).1) (hlong : o.chunk_size < (stripList p.2).length) :
    ∃ traces', Inv o pages (trimmedSpan p.1 p.2).2
        (addLong o (boundariesFrom 0 pages) b (trimmedSpan p.1 p.2).1 (stripList p.2)) traces' ∧
      Settled o pages
        (addLong o (boundariesFrom 0 pages) b (trimmedSpan p.1 p.2).1 (stripList p.2)) traces' := by
  have hgrouped := splitSentences_grouped o.chunk_size hlocated hle hhi
  -- The buffer with its current text flushed.
  have hflushed : ∃ traces', Inv o pages lo
      (if b.current_text = [] then b
        else ((b.flush o.content_checksum (boundariesFrom 0 pages)).startWithOverlap o.overlap
          b.current_text b.current_positions).clear) traces' ∧
      (if b.current_text = [] then b
        else ((b.flush o.content_checksum (boundariesFrom 0 pages)).startWithOverlap o.overlap
          b.current_text b.current_positions).clear).current_text = [] := by
    by_cases hempty : b.current_text = []
    · rw [if_pos hempty]
      exact ⟨traces, h, hempty⟩
    · rw [if_neg hempty]
      obtain ⟨traces', hinv⟩ := h.flushed hs hempty
      exact ⟨traces', hinv, rfl⟩
  unfold Chunking.addLong
  dsimp only
  obtain ⟨traces', hinv, hcurrent⟩ := hflushed
  generalize (if b.current_text = [] then b
    else ((b.flush o.content_checksum (boundariesFrom 0 pages)).startWithOverlap o.overlap
      b.current_text b.current_positions).clear) = flushed at hinv hcurrent ⊢
  have hlaid : Laid o pages (trimmedSpan p.1 p.2).2 flushed.plans traces' :=
    ⟨hinv.laid.made, hinv.laid.index, hinv.laid.ordered, fun t ht q hq => by
      have hq' := hinv.laid.below t ht q hq
      omega⟩
  have hsize : ∀ x ∈ splitSentences (stripList p.2) (trimmedSpan p.1 p.2).1 o.chunk_size,
      SizeOk o pages x.1 := by
    intro x hx
    rcases (hgrouped.piece x hx).size with hshort | hsentence
    · exact .inl (by omega)
    · obtain ⟨s, hs, hsx⟩ := List.mem_map.mp hsentence
      exact .inr ⟨p, hmem, hlong, s, hs, hsx.symm⟩
  have hafter : ∀ t ∈ traces', ∀ q ∈ t,
      ∀ x ∈ splitSentences (stripList p.2) (trimmedSpan p.1 p.2).1 o.chunk_size, ∀ r ∈ x.2, q < r := by
    intro t ht q hq x hx r hr
    have hq' := hinv.laid.below t ht q hq
    have hr' := (hgrouped.piece x hx).within r hr
    omega
  obtain ⟨traces'', hlaid', hcovered⟩ := hlaid.appendAll hgrouped.piece hgrouped.ordered hsize hafter
  have hpositions : flushed.current_positions = [] := by
    have hlength := hinv.current.length_eq
    rw [hcurrent] at hlength
    exact List.eq_nil_of_length_eq_zero hlength.symm
  refine ⟨traces' ++ traces'', ⟨hlaid', hinv.current, ?_, ?_, ?_⟩, settled_of_empty hcurrent⟩
  · rw [hpositions]
    exact nofun
  · rw [hpositions]
    exact fun _ _ _ _ _ hq => nomatch hq
  · intro i hi hi' hseparator
    right
    by_cases hbelow : i < lo
    · rcases hinv.covered i hbelow hi' hseparator with hold | ⟨t, ht, hit⟩
      · rw [hpositions] at hold
        cases hold
      · exact ⟨t, List.mem_append_left _ ht, hit⟩
    · by_cases hbefore : i < (trimmedSpan p.1 p.2).1
      · exact absurd hi' (hblank i (by omega) hbefore)
      · obtain ⟨x, hx, hix⟩ := hgrouped.covered i (by omega) hi hi'
        obtain ⟨t, ht, hit⟩ := hcovered x hx i hix hi'
        exact ⟨t, List.mem_append_right _ ht, hit⟩

/-- A paragraph that is short enough is put after the current text, or after its end. -/
theorem Inv.addShort (h : Inv o pages lo b traces) (hs : Settled o pages b traces)
    (hlocated : Located (allText pages) p) (hlo : lo ≤ (trimmedSpan p.1 p.2).1)
    (hle : (trimmedSpan p.1 p.2).1 < (trimmedSpan p.1 p.2).2)
    (hhi : (trimmedSpan p.1 p.2).2 ≤ (allText pages).length)
    (hblank : Blank (allText pages) lo (trimmedSpan p.1 p.2).1)
    (hgap : b.current_text ≠ [] → lo < (trimmedSpan p.1 p.2).1)
    (hbefore : lo < (trimmedSpan p.1 p.2).1 → ¬ Ink (allText pages) ((trimmedSpan p.1 p.2).1 - 1))
    (hlast : Ink (allText pages) ((trimmedSpan p.1 p.2).2 - 1)) (hshort : (stripList p.2).length ≤ o.chunk_size) :
    ∃ traces', Inv o pages (trimmedSpan p.1 p.2).2
        (addShort o (boundariesFrom 0 pages) b (trimmedSpan p.1 p.2).1 (trimmedSpan p.1 p.2).2
          (stripList p.2)) traces' ∧
      Settled o pages
        (addShort o (boundariesFrom 0 pages) b (trimmedSpan p.1 p.2).1 (trimmedSpan p.1 p.2).2
          (stripList p.2)) traces' := by
  obtain ⟨-, hslice⟩ := hlocated
  have hlength : (stripList p.2).length = (trimmedSpan p.1 p.2).2 - (trimmedSpan p.1 p.2).1 := by
    rw [← hslice]
    exact (slice_split hle.le hhi).2.2
  unfold Chunking.addShort
  dsimp only
  rw [← hslice] at hshort hlength ⊢
  split
  · next hfull =>
    obtain ⟨-, hne⟩ := hfull
    obtain ⟨hflush, hempty, hheaded⟩ := h.flush hs hne
    obtain ⟨hoverlap, hkept⟩ := hflush.overlap hempty h.current h.below hheaded
    exact ⟨_, hoverlap.join hlo hle hhi (fun _ => hgap hne) hbefore hblank hlast (by omega)⟩
  · next hfits =>
    refine ⟨traces, h.join hlo hle hhi hgap hbefore hblank hlast ?_⟩
    by_cases hempty : b.current_text = []
    · rw [hempty, List.length_nil]
      omega
    · have hroom : ¬ o.chunk_size < b.current_text.length +
          (slice (allText pages) (trimmedSpan p.1 p.2).1 (trimmedSpan p.1 p.2).2).length + 1 :=
        fun hlt => hfits ⟨hlt, hempty⟩
      omega

/-- One round of the loop keeps the invariant up to the end of the paragraph. -/
theorem Inv.step {rest : List (ℕ × List Char)} (h : Inv o pages lo b traces) (hs : Settled o pages b traces)
    (hspans : Spans (allText pages) lo (allText pages).length ((p :: rest).map fun p => trimmedSpan p.1 p.2))
    (hgap : b.current_text ≠ [] → ∀ q ∈ p :: rest, lo < (trimmedSpan q.1 q.2).1)
    (hmem : p ∈ paragraphs (allText pages)) (hlocated : Located (allText pages) p) :
    ∃ traces', Inv o pages (trimmedSpan p.1 p.2).2 (addParagraph o (boundariesFrom 0 pages) b p) traces' ∧
      Settled o pages (addParagraph o (boundariesFrom 0 pages) b p) traces' := by
  rw [List.map_cons] at hspans
  obtain ⟨hlo, hle, hhi⟩ := hspans.within _ List.mem_cons_self
  obtain ⟨-, hlast⟩ := hspans.ends _ List.mem_cons_self
  have hbefore := hspans.before _ List.mem_cons_self
  obtain ⟨hblank, -, -⟩ := hspans.tail
  unfold addParagraph
  dsimp only
  rw [if_neg hlocated.1]
  split
  · next hseparator =>
    have hno : ∀ i, lo ≤ i → i < (trimmedSpan p.1 p.2).2 → Ink (allText pages) i → InSeparator pages i := by
      intro i hi1 hi2 hink
      have hinside : (trimmedSpan p.1 p.2).1 ≤ i := by
        by_contra hout
        exact hblank i hi1 (by omega) hink
      obtain ⟨hstart, hstop⟩ := trimmedSpan_within p.1 p.2
      exact ⟨p, hmem, hseparator, by omega, by omega⟩
    by_cases hempty : b.current_text = []
    · have hstrip : stripList b.current_text = [] := by
        rw [hempty]
        rfl
      rw [if_pos hstrip]
      exact ⟨traces, h.advance (by omega) hno, hs⟩
    · rw [if_neg (h.current.strip_ne (hs.ink hempty))]
      obtain ⟨traces', hinv⟩ := h.flushed hs hempty
      exact ⟨traces', hinv.advance (by omega) hno, settled_of_empty rfl⟩
  · split
    · next hlong => exact h.addLong hs hmem hlocated hlo hle hhi hblank hlong
    · next hshort =>
      exact h.addShort hs hlocated hlo hle hhi hblank (fun hne => hgap hne p List.mem_cons_self) hbefore
        hlast (by omega)

/-- The loop over the paragraphs keeps the invariant up to the end of the text. -/
theorem Inv.run {paras : List (ℕ × List Char)} (h : Inv o pages lo b traces) (hs : Settled o pages b traces)
    (hspans : Spans (allText pages) lo (allText pages).length
      (paras.map fun p => trimmedSpan p.1 p.2))
    (hgap : b.current_text ≠ [] → ∀ q ∈ paras, lo < (trimmedSpan q.1 q.2).1)
    (hmem : ∀ p ∈ paras, p ∈ paragraphs (allText pages) ∧ Located (allText pages) p)
    (hlo : lo ≤ (allText pages).length) :
    ∃ traces', Inv o pages (allText pages).length
        (paras.foldl (addParagraph o (boundariesFrom 0 pages)) b) traces' ∧
      Settled o pages (paras.foldl (addParagraph o (boundariesFrom 0 pages)) b) traces' := by
  induction paras generalizing lo b traces with
  | nil =>
    refine ⟨traces, h.advance hlo ?_, hs⟩
    intro i hi1 hi2 hink
    obtain ⟨s, hs, -⟩ := hspans.covers i hi1 hi2 hink
    cases hs
  | cons p rest ih =>
    obtain ⟨hp, hlocated⟩ := hmem p List.mem_cons_self
    obtain ⟨traces', hinv, hsettled⟩ := h.step hs hspans hgap hp hlocated
    rw [List.map_cons] at hspans
    obtain ⟨-, -, hhi⟩ := hspans.within _ List.mem_cons_self
    obtain ⟨-, htail, happart⟩ := hspans.tail
    apply ih hinv hsettled htail
    · intro _ q hq
      exact happart _ (List.mem_map_of_mem (f := fun p : ℕ × List Char => trimmedSpan p.1 p.2) hq)
    · exact fun q hq => hmem q (List.mem_cons_of_mem p hq)
    · exact hhi

/-- The plans of `chunk` with the traces of their texts, which have all ink outside of separators. -/
theorem chunk_laid (o : Options) (pages : List PageText) :
    ∃ traces, Laid o pages (allText pages).length (chunk o pages) traces ∧
      ∀ i, Ink (allText pages) i → ¬ InSeparator pages i → ∃ t ∈ traces, i ∈ t := by
  obtain ⟨hspans, hlocated⟩ := paragraphs_spans (allText pages)
  have hstart : Inv o pages 0 ⟨[], [], []⟩ [] :=
    ⟨⟨.nil, rfl, .nil, nofun⟩, .nil _, nofun, nofun, fun i hi => absurd hi (Nat.not_lt_zero i)⟩
  obtain ⟨traces, hinv, hsettled⟩ := hstart.run (settled_of_empty rfl) hspans (absurd rfl)
    (fun p hp => ⟨hp, hlocated p hp⟩) (Nat.zero_le _)
  have hbound : ∀ i, Ink (allText pages) i → i < (allText pages).length := by
    rintro i ⟨c, hc, -⟩
    exact (List.getElem?_eq_some_iff.mp hc).1
  unfold chunk
  dsimp only
  generalize (paragraphs (allText pages)).foldl (addParagraph o (boundariesFrom 0 pages)) ⟨[], [], []⟩ = b
    at hinv hsettled ⊢
  by_cases hempty : b.current_text = []
  · have hpositions : b.current_positions = [] := by
      have hlength := hinv.current.length_eq
      rw [hempty] at hlength
      exact List.eq_nil_of_length_eq_zero hlength.symm
    have hstrip : stripList b.current_text = [] := by
      rw [hempty]
      rfl
    rw [if_pos hstrip]
    refine ⟨traces, hinv.laid, ?_⟩
    intro i hink hseparator
    rcases hinv.covered i (hbound i hink) hink hseparator with hcurrent | htrace
    · rw [hpositions] at hcurrent
      cases hcurrent
    · exact htrace
  · rw [if_neg (hinv.current.strip_ne (hsettled.ink hempty))]
    obtain ⟨hflush, hnone, -⟩ := hinv.flush hsettled hempty
    have hpositions : (b.flush o.content_checksum (boundariesFrom 0 pages)).current_positions = [] := by
      have hlength := hflush.current.length_eq
      rw [hnone] at hlength
      exact List.eq_nil_of_length_eq_zero hlength.symm
    refine ⟨_, hflush.laid, ?_⟩
    intro i hink hseparator
    rcases hflush.covered i (hbound i hink) hink hseparator with hcurrent | htrace
    · rw [hpositions] at hcurrent
      cases hcurrent
    · exact htrace

end Loop

/-! ## Provenance -/

/-- The chunks of pages have the traces: each character of a chunk stands at its position; the chunks begin
in the order of the source, and end strictly in it; and every character that is no whitespace and in no
separator is in a chunk. -/
structure Sourced (pages : List PageText) (chunks : List ChunkPlan) (traces : List (List ℕ)) : Prop where
  traced : List.Forall₂ (fun plan trace => Traced (allText pages) plan.text trace) chunks traces
  ordered : traces.Pairwise fun t u => ∃ first last first' last', t.head? = some first ∧
    t.getLast? = some last ∧ u.head? = some first' ∧ u.getLast? = some last' ∧ first ≤ first' ∧ last < last'
  covered : ∀ i c, (allText pages)[i]? = some c → isSpace c = false → ¬ InSeparator pages i →
    ∃ x ∈ chunks.zip traces, (c, i) ∈ x.1.text.zip x.2

/-- A position of a trace with ink has its own character in the text. -/
theorem Traced.mem_zip (h : Traced src text positions) (hi : i ∈ positions) (hc : src[i]? = some c)
    (hink : isSpace c = false) : (c, i) ∈ text.zip positions := by
  obtain ⟨hlength, hplaced⟩ := List.forall₂_iff_zip.mp h.placed
  obtain ⟨j, hj, rfl⟩ := List.getElem_of_mem hi
  have hj' : j < text.length := by omega
  have hmem : (text[j], positions[j]) ∈ text.zip positions := by
    rw [List.mem_iff_getElem]
    exact ⟨j, by rw [List.length_zip]; omega, by rw [List.getElem_zip]⟩
  rcases hplaced hmem with hsame | ⟨-, d, hd, hspace⟩
  · have hcc : text[j] = c := Option.some.inj (hsame.symm.trans hc)
    rw [hcc] at hmem
    exact hmem
  · cases hd.symm.trans hc
    rw [hink] at hspace
    cases hspace

/-- Laid plans are sourced by their traces. -/
theorem Laid.sourced {o : Options} {pages : List PageText} {plans : List ChunkPlan}
    {traces : List (List ℕ)} (h : Laid o pages hi plans traces)
    (hcovered : ∀ i, Ink (allText pages) i → ¬ InSeparator pages i → ∃ t ∈ traces, i ∈ t) :
    Sourced pages plans traces := by
  have hclean : ∀ t ∈ traces, Clean (allText pages) t := by
    intro t ht
    obtain ⟨plan, -, hplan⟩ := forall₂_mem_right h.made t ht
    exact hplan.clean
  refine ⟨h.made.imp fun _ _ hplan => hplan.traced, ?_, ?_⟩
  · refine h.ordered.imp_of_mem ?_
    rintro t u ht hu ⟨hheaded, hafter⟩
    obtain ⟨first, hfirst, -⟩ := (hclean t ht).head
    obtain ⟨last, hlast, -⟩ := (hclean t ht).last
    obtain ⟨first', hfirst', hink⟩ := (hclean u hu).head
    obtain ⟨last', hlast', -⟩ := (hclean u hu).last
    refine ⟨first, last, first', last', hfirst, hlast, hfirst', hlast', ?_, ?_⟩
    · exact hheaded first hfirst first' (List.mem_of_mem_head? hfirst') hink
    · obtain ⟨p, hp, -, hlt⟩ := hafter last (List.mem_of_getLast? hlast)
      -- The positions of a trace go up, so its last is not before `p`.
      obtain ⟨plan, -, hplan⟩ := forall₂_mem_right h.made u hu
      have hincreasing := hplan.traced.increasing
      obtain ⟨front, rfl⟩ := List.getLast?_eq_some_iff.mp hlast'
      rcases List.mem_append.mp hp with hp | hp
      · exact hlt.trans ((List.pairwise_append.mp hincreasing).2.2 p hp last' (List.mem_singleton_self _))
      · rw [← List.mem_singleton.mp hp]
        exact hlt
  · intro i c hc hink hseparator
    obtain ⟨t, ht, hit⟩ := hcovered i ⟨c, hc, hink⟩ hseparator
    obtain ⟨j, hj, rfl⟩ := List.getElem_of_mem ht
    have hlength := h.made.length_eq
    have hj' : j < plans.length := by omega
    have hmem : (plans[j], traces[j]) ∈ plans.zip traces := by
      rw [List.mem_iff_getElem]
      exact ⟨j, by rw [List.length_zip]; omega, by rw [List.getElem_zip]⟩
    have hplan : PlanOk o pages plans[j] traces[j] := (List.forall₂_iff_zip.mp h.made).2 hmem
    exact ⟨_, hmem, hplan.traced.mem_zip hit hc hink⟩

/-- Every chunk has its provenance, and the chunks cover the source. -/
theorem chunk_provenance (o : Options) (pages : List PageText) :
    ∃ traces, Sourced pages (chunk o pages) traces := by
  obtain ⟨traces, hlaid, hcovered⟩ := chunk_laid o pages
  exact ⟨traces, hlaid.sourced hcovered⟩

end RickIntelligence.Chunking
