import RickIntelligence.Chunking.Provenance

/-!
# Size and pages of chunks

A chunk is not longer than the chunk size, the overlap and a newline, unless it is one sentence of a
paragraph that is too long; the chunks are numbered in order; and their pages are those on which their first
and their last characters stand, the newline after a page text being on its page.
-/

namespace RickIntelligence.Chunking

open Lib

/-- The position is on the page with the number. -/
def OnPage (pages : List PageText) (i : ℕ) (n : ℤ) : Prop :=
  ∃ k text, pages[k]? = some (n, text) ∧ (allText (pages.take k)).length ≤ i ∧
    i < (allText (pages.take (k + 1))).length

/-- The bounds of chunks with their traces. -/
structure Bounded (o : Options) (pages : List PageText) (chunks : List ChunkPlan)
    (traces : List (List ℕ)) : Prop where
  size : ∀ plan ∈ chunks, SizeOk o pages plan.text
  index : chunks.map ChunkPlan.chunk_index = List.range chunks.length
  on_page : List.Forall₂ (fun plan trace => ∃ first last start stop, trace.head? = some first ∧
    trace.getLast? = some last ∧ plan.page_start = some start ∧ plan.page_end = some stop ∧
      OnPage pages first start ∧ OnPage pages last stop) chunks traces
  forward : (pages.map Prod.fst).Pairwise (· < ·) → ∀ plan ∈ chunks, ∃ start stop,
    plan.page_start = some start ∧ plan.page_end = some stop ∧ start ≤ stop
  ascending : (pages.map Prod.fst).Pairwise (· < ·) → chunks.Pairwise fun plan plan' =>
    ∃ start start', plan.page_start = some start ∧ plan'.page_start = some start' ∧ start ≤ start'

variable {pages : List PageText} {i j : ℕ} {n m : ℤ}

/-- The text of one more page. -/
theorem allText_cons (page : PageText) (pages : List PageText) :
    (allText (page :: pages)).length = page.2.length + 1 + (allText pages).length := by
  unfold allText
  rw [List.flatMap_cons, List.length_append, List.length_append, List.length_singleton]

/-- The texts of more pages are longer. -/
theorem allText_take_le {k k' : ℕ} (h : k ≤ k') :
    (allText (pages.take k)).length ≤ (allText (pages.take k')).length := by
  have hprefix : pages.take k <+: pages.take k' := List.take_prefix_take_left h
  obtain ⟨rest, hrest⟩ := hprefix
  unfold allText
  rw [← hrest, List.flatMap_append, List.length_append]
  exact Nat.le_add_right _ _

/-- The page of a position is found by its boundaries. -/
theorem pageHint_onPage (char_pos : ℕ) (h : i < (allText pages).length) :
    ∃ n, pageHint (char_pos + i) (boundariesFrom char_pos pages) = some n ∧ OnPage pages i n := by
  induction pages generalizing char_pos i with
  | nil => cases h
  | cons page rest ih =>
    obtain ⟨number, text⟩ := page
    have hfirst : i < text.length + 1 → OnPage ((number, text) :: rest) i number := by
      intro hi
      refine ⟨0, text, rfl, Nat.zero_le _, ?_⟩
      rw [List.take_succ_cons, List.take_zero, allText_cons]
      exact Nat.lt_of_lt_of_le hi (Nat.le_add_right _ _)
    rw [allText_cons] at h
    dsimp only at h
    cases rest with
    | nil =>
      have hi : i < text.length + 1 := h
      exact ⟨number, rfl, hfirst hi⟩
    | cons next rest =>
      obtain ⟨number', text'⟩ := next
      unfold boundariesFrom boundariesFrom pageHint
      by_cases hi : i < text.length + 1
      · rw [if_pos (by omega)]
        exact ⟨number, rfl, hfirst hi⟩
      · rw [if_neg (by omega)]
        obtain ⟨n, hn, k, t, hk, hlo, hhi⟩ := ih (char_pos + (text.length + 1)) (i := i - (text.length + 1))
          (by omega)
        have hpos : char_pos + (text.length + 1) + (i - (text.length + 1)) = char_pos + i := by omega
        rw [hpos] at hn
        refine ⟨n, hn, k + 1, t, hk, ?_, ?_⟩
        · rw [List.take_succ_cons, allText_cons]
          dsimp only
          omega
        · rw [List.take_succ_cons, allText_cons]
          dsimp only
          omega

/-- A later position is on the same page or a later one. -/
theorem OnPage.mono (h : OnPage pages i n) (h' : OnPage pages j m) (hij : i ≤ j)
    (hpages : (pages.map Prod.fst).Pairwise (· < ·)) : n ≤ m := by
  obtain ⟨k, text, hk, hlo, -⟩ := h
  obtain ⟨k', text', hk', -, hhi'⟩ := h'
  have hle : k ≤ k' := by
    by_contra hlt
    have htake : (allText (pages.take (k' + 1))).length ≤ (allText (pages.take k)).length :=
      allText_take_le (by omega)
    omega
  rcases Nat.lt_or_eq_of_le hle with hlt | rfl
  · obtain ⟨hbound, hget⟩ := List.getElem?_eq_some_iff.mp hk
    obtain ⟨hbound', hget'⟩ := List.getElem?_eq_some_iff.mp hk'
    have hpair := List.pairwise_iff_getElem.mp hpages k k' (by rw [List.length_map]; exact hbound)
      (by rw [List.length_map]; exact hbound') hlt
    rw [List.getElem_map, List.getElem_map, hget, hget'] at hpair
    exact hpair.le
  · cases hk.symm.trans hk'
    exact le_refl n

/-- The page of a position below the end. -/
theorem pageHint_some (h : i < (allText pages).length) :
    ∃ n, pageHint i (boundariesFrom 0 pages) = some n ∧ OnPage pages i n := by
  obtain ⟨n, hn, hpage⟩ := pageHint_onPage 0 h
  rw [Nat.zero_add] at hn
  exact ⟨n, hn, hpage⟩

/-- The pages of a plan and of its trace. -/
theorem PlanOk.on_pages {o : Options} {plan : ChunkPlan} {trace : List ℕ} (h : PlanOk o pages plan trace)
    (hbelow : ∀ p ∈ trace, p < (allText pages).length) : ∃ first last start stop,
      trace.head? = some first ∧ trace.getLast? = some last ∧ plan.page_start = some start ∧
        plan.page_end = some stop ∧ OnPage pages first start ∧ OnPage pages last stop := by
  obtain ⟨first, hfirst, -⟩ := h.clean.head
  obtain ⟨last, hlast, -⟩ := h.clean.last
  obtain ⟨start, hstart, honstart⟩ := pageHint_some (hbelow first (List.mem_of_mem_head? hfirst))
  obtain ⟨stop, hstop, honstop⟩ := pageHint_some (hbelow last (List.mem_of_getLast? hlast))
  exact ⟨first, last, start, stop, hfirst, hlast, (h.first_page first hfirst).trans hstart,
    (h.last_page last hlast).trans hstop, honstart, honstop⟩

/-- The first position of a trace is not after its last. -/
theorem first_le_last {trace : List ℕ} {first last : ℕ} (h : trace.Pairwise (· < ·))
    (hfirst : trace.head? = some first) (hlast : trace.getLast? = some last) : first ≤ last := by
  obtain ⟨rest, rfl⟩ := List.head?_eq_some_iff.mp hfirst
  rcases List.mem_cons.mp (List.mem_of_getLast? hlast) with rfl | hmem
  · exact le_refl _
  · exact ((List.pairwise_cons.mp h).1 last hmem).le

/-- A relation between neighbours of two lists that belong together. -/
theorem pairwise_of_forall₂ {α β : Type} {R : α → β → Prop} {S : β → β → Prop} {T : α → α → Prop}
    {l : List α} {l' : List β} (h : List.Forall₂ R l l') (hS : l'.Pairwise S)
    (hT : ∀ a a' b b', a ∈ l → a' ∈ l → b ∈ l' → b' ∈ l' → R a b → R a' b' → S b b' → T a a') :
    l.Pairwise T := by
  induction h with
  | nil => exact .nil
  | @cons a b l l' hab h ih =>
    obtain ⟨hfirst, hS⟩ := List.pairwise_cons.mp hS
    refine List.pairwise_cons.mpr ⟨?_, ?_⟩
    · intro a' ha'
      obtain ⟨b', hb', hab'⟩ := forall₂_mem_right h.flip a' ha'
      exact hT a a' b b' List.mem_cons_self (List.mem_cons_of_mem _ ha') List.mem_cons_self
        (List.mem_cons_of_mem _ hb') hab hab' (hfirst b' hb')
    · apply ih hS
      intro x x' y y' hx hx' hy hy'
      exact hT x x' y y' (List.mem_cons_of_mem _ hx) (List.mem_cons_of_mem _ hx')
        (List.mem_cons_of_mem _ hy) (List.mem_cons_of_mem _ hy')

/-- Laid plans are bounded. -/
theorem Laid.bounded {o : Options} {plans : List ChunkPlan} {traces : List (List ℕ)}
    (h : Laid o pages (allText pages).length plans traces) : Bounded o pages plans traces := by
  have hpages : ∀ plan trace, trace ∈ traces → PlanOk o pages plan trace → ∃ first last start stop,
      trace.head? = some first ∧ trace.getLast? = some last ∧ plan.page_start = some start ∧
        plan.page_end = some stop ∧ OnPage pages first start ∧ OnPage pages last stop :=
    fun plan trace ht hplan => hplan.on_pages (h.below trace ht)
  refine ⟨?_, h.index, ?_, ?_, ?_⟩
  · intro plan hplan
    obtain ⟨trace, -, hok⟩ := forall₂_mem_right h.made.flip plan hplan
    exact hok.size
  · rw [List.forall₂_iff_zip]
    obtain ⟨hlength, hzip⟩ := List.forall₂_iff_zip.mp h.made
    refine ⟨hlength, ?_⟩
    intro plan trace hmem
    exact hpages plan trace (List.of_mem_zip hmem).2 (hzip hmem)
  · intro hnumbers plan hplan
    obtain ⟨trace, ht, hok⟩ := forall₂_mem_right h.made.flip plan hplan
    obtain ⟨first, last, start, stop, hfirst, hlast, hstart, hstop, honstart, honstop⟩ :=
      hpages plan trace ht hok
    have hle := first_le_last hok.traced.increasing hfirst hlast
    exact ⟨start, stop, hstart, hstop, honstart.mono honstop hle hnumbers⟩
  · intro hnumbers
    apply pairwise_of_forall₂ h.made h.ordered
    intro plan plan' t t' _ _ ht ht' hok hok' hbefore
    obtain ⟨first, -, start, -, hfirst, -, hstart, -, honstart, -⟩ := hpages plan t ht hok
    obtain ⟨first', -, start', -, hfirst', -, hstart', -, honstart', -⟩ := hpages plan' t' ht' hok'
    obtain ⟨p, hp, hink⟩ := hok'.clean.head
    cases hfirst'.symm.trans hp
    have hle : first ≤ first' := hbefore.1 first hfirst first' (List.mem_of_mem_head? hfirst') hink
    exact ⟨start, start', hstart, hstart', honstart.mono honstart' hle hnumbers⟩

/-- The chunks are bounded, with traces that give their provenance. -/
theorem chunk_bounded (o : Options) (pages : List PageText) :
    ∃ traces, Sourced pages (chunk o pages) traces ∧ Bounded o pages (chunk o pages) traces := by
  obtain ⟨traces, hlaid, hcovered⟩ := chunk_laid o pages
  exact ⟨traces, hlaid.sourced hcovered, hlaid.bounded⟩

end RickIntelligence.Chunking
