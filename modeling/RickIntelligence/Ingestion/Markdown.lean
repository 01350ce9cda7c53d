import RickIntelligence.Ingestion.Limits
import RickIntelligence.Lib.Captures
import RickIntelligence.Lib.Scan
import RickIntelligence.Lib.Validated

/-!
# Headings of a Markdown document

`MarkdownParser.parse` of `rick_ingestion/parsers.py`, from the text that was read on. `headings` is what
the sections are meant to be: one entry for each line that is a heading. The pattern has `^` and `$`
without `re.MULTILINE`, so it matches at most once, at the beginning of the text, and `\s+` goes over line
breaks (`finditer_heading`). `sections_iff` says for which texts the two agree.
-/

namespace RickIntelligence.Ingestion

open Lib

/-! ## The parser -/

namespace Markdown

/-- An entry of `sections`. -/
structure Section where
  heading : List Char
  level : ℕ
  deriving DecidableEq, Repr

/-- `ParsedDocument`, of which the pages are the text. -/
structure ParsedDocument where
  text : List Char
  sections : List Section
  deriving DecidableEq, Repr

/-- `_HEADING`. -/
def heading : Pattern :=
  .seq .bos (.seq (.group (.run 1 (some 6) (· == '#'))) (.seq (.run 1 none isSpace)
    (.seq (.group (.run 0 none (· != '\n'))) .eos)))

/-- The entry of a match. -/
def entry (m : Spot) : Section :=
  ⟨stripList (m.groups.getD 1 []), (m.groups.getD 0 []).length⟩

/-- The loop over the matches, with the readings of the clock: whether the deadline has passed. -/
def collect (limits : ParserLimits) (expired : ℕ → Bool) :
    List Spot → List Section → Except ParseError (List Section)
  | [], sections => .ok sections
  | m :: matched, sections =>
    if expired sections.length then .error ParseError.parserTimeout
    else if limits.max_sections ≤ sections.length then
      .error ⟨"request_too_large", "Document contains too many sections."⟩
    else collect limits expired matched (sections ++ [entry m])

/-- `MarkdownParser.parse`, after the file was validated and its text was read. -/
def parse (limits : ParserLimits) (expired : ℕ → Bool) (text : List Char) :
    Except ParseError ParsedDocument :=
  if stripList text = [] then .error ⟨"validation_error", "Document is empty."⟩
  else do
    let sections ← collect limits expired (heading.finditer text) []
    return ⟨text, sections⟩

/-! ## The headings of a text -/

/-- The number of `#` that a text begins with. -/
def hashes (s : List Char) : ℕ := (s.takeWhile (· == '#')).length

/-- What a line says as a heading: one to six `#`, a space or a tab, and the text. -/
def headingLine (line : List Char) : Option Section :=
  match line.drop (hashes line) with
  | c :: t =>
    if 1 ≤ hashes line ∧ hashes line ≤ 6 ∧ (c = ' ' ∨ c = '\t') then
      some ⟨stripList (c :: t), hashes line⟩
    else none
  | [] => none

/-- The headings of a text, line by line. -/
def headings (text : List Char) : List Section := (splitAt '\n' text).filterMap headingLine

/-! ## The one match -/

/-- The text behind the `#` and the whitespace that follows them. -/
def afterBlank (s : List Char) : List Char := (s.drop (hashes s)).dropWhile isSpace

/-- From its first line break on, a text has at most one character. -/
def lastLine (s : List Char) : Prop := (s.dropWhile (· != '\n')).length ≤ 1

/-- The text begins with one to six `#` and whitespace, and the first line behind them that has more than
whitespace is the last one. -/
def Opens (s : List Char) : Prop :=
  (1 ≤ hashes s ∧ hashes s ≤ 6) ∧ (s.drop (hashes s)).takeWhile isSpace ≠ [] ∧ lastLine (afterBlank s)

instance (s : List Char) : Decidable (lastLine s) := inferInstanceAs (Decidable (_ ≤ _))

instance (s : List Char) : Decidable (Opens s) := inferInstanceAs (Decidable (_ ∧ _ ∧ _))

/-- What is left of a text from its first line break on is nothing or one line break, if it is at most one
character. -/
theorem lastLine_iff (u : List Char) :
    lastLine u ↔ u.dropWhile (· != '\n') = [] ∨ u.dropWhile (· != '\n') = ['\n'] := by
  unfold lastLine
  cases hrest : u.dropWhile (· != '\n') with
  | nil => simp
  | cons c t =>
    have hc : c = '\n' := by
      have hhead := List.head?_dropWhile_not (· != '\n') u
      rw [hrest] at hhead
      simpa using hhead
    subst hc
    simp

/-- The end of the pattern takes the line, and asks that it is the last one. -/
theorem ways_line (u : List Char) (groups : List (List Char)) :
    (Pattern.seq (.group (.run 0 none (· != '\n'))) .eos).ways ⟨false, u, groups⟩ =
      if lastLine u then
        [⟨false, u.dropWhile (· != '\n'), groups ++ [u.takeWhile (· != '\n')]⟩] else [] := by
  obtain ⟨htake, hdrop⟩ := Pattern.take_run (· != '\n') u
  have hforced : ∀ n ∈ Pattern.lengths 0 none (· != '\n') u, n ≠ (u.takeWhile (· != '\n')).length →
      Pattern.eos.ways ⟨false && n == 0, u.drop n, groups ++ [u.take n]⟩ = [] := by
    intro n hn hne
    obtain ⟨-, hle, -⟩ := Pattern.mem_lengths.mp hn
    obtain ⟨c, t, hcons, hc⟩ := Pattern.drop_lt_run (lt_of_le_of_ne hle hne)
    -- The next character is not a line break, so the line does not end here.
    have hc' : c ≠ '\n' := by simpa using hc
    rw [hcons]
    simp [Pattern.ways, hc']
  show ((Pattern.group (.run 0 none (· != '\n'))).ways ⟨false, u, groups⟩).flatMap Pattern.eos.ways = _
  rw [Pattern.ways_group_run, List.flatMap_map, Pattern.flatMap_lengths hforced,
    if_pos (Pattern.mem_lengths.mpr ⟨Nat.zero_le _, le_refl _, fun m hm => absurd hm (Option.not_mem_none m)⟩), htake, hdrop]
  simp only [Bool.false_and, Pattern.ways, lastLine_iff]

variable {s text line : List Char} {limits : ParserLimits} {expired : ℕ → Bool} {h : Section}

/-- If the rest of a text is on its last line, so is less of it. -/
theorem lastLine_drop (h : lastLine s) (n : ℕ) : lastLine (s.drop n) := by
  have hle : ((s.drop n).dropWhile (· != '\n')).length ≤ (s.dropWhile (· != '\n')).length := by
    conv_rhs => rw [← List.take_append_drop n s, List.dropWhile_append]
    split
    · exact le_refl _
    · have hdrop := (List.dropWhile_suffix (· != '\n') (l := s.drop n)).length_le
      rw [List.length_append]
      omega
  exact hle.trans h

/-- Whitespace, and behind it the last line: the first way to match takes all the whitespace. -/
theorem ways_blank (t : List Char) (groups : List (List Char)) :
    ((Pattern.seq (.run 1 none isSpace) (.seq (.group (.run 0 none (· != '\n'))) .eos)).ways
      ⟨false, t, groups⟩).head? =
      if t.takeWhile isSpace ≠ [] ∧ lastLine (t.dropWhile isSpace) then
        some ⟨false, (t.dropWhile isSpace).dropWhile (· != '\n'),
          groups ++ [(t.dropWhile isSpace).takeWhile (· != '\n')]⟩ else none := by
  have hway : ∀ n, (Pattern.seq (.group (.run 0 none (· != '\n'))) .eos).ways
      (Spot.skip ⟨false, t, groups⟩ n) = if lastLine (t.drop n) then
        [⟨false, (t.drop n).dropWhile (· != '\n'), groups ++ [(t.drop n).takeWhile (· != '\n')]⟩]
        else [] := fun n => ways_line (t.drop n) groups
  have hdrop := (Pattern.take_run isSpace t).2
  show (((Pattern.lengths 1 none isSpace t).map (Spot.skip ⟨false, t, groups⟩)).flatMap _).head? = _
  rw [List.flatMap_map, Pattern.head?_flatMap_lengths]
  · rw [hway, hdrop]
    by_cases hblank : t.takeWhile isSpace = []
    · simp [hblank]
    · have hpos : 1 ≤ (t.takeWhile isSpace).length := List.length_pos_iff.mpr hblank
      rw [if_pos hpos]
      by_cases hline : lastLine (t.dropWhile isSpace)
      · rw [if_pos hline, if_pos ⟨hblank, hline⟩]
        rfl
      · rw [if_neg hline, if_neg fun h => hline h.2]
        rfl
  · -- Behind less whitespace there is more of the text, which then is not on one line either.
    intro hwhole k hk
    rw [hway] at hwhole ⊢
    apply if_neg
    intro hline
    have hmore := lastLine_drop hline ((t.takeWhile isSpace).length - k)
    rw [List.drop_drop, Nat.add_sub_cancel' hk.le] at hmore
    rw [if_pos hmore] at hwhole
    cases hwhole

/-- What is left behind one `#` or more is shorter than the text. -/
theorem length_afterBlank_lt (h : 1 ≤ hashes s) : (afterBlank s).length < s.length := by
  have hle : hashes s ≤ s.length := (List.takeWhile_prefix (· == '#')).length_le
  have hdrop := (List.dropWhile_suffix isSpace (l := s.drop (hashes s))).length_le
  rw [List.length_drop] at hdrop
  unfold afterBlank
  omega

/-- All the `#` are taken, if there are at most six: a shorter run is followed by another one. -/
theorem head?_ways_heading (s : List Char) :
    (heading.ways ⟨true, s, []⟩).head? =
      if Opens s then some ⟨false, (afterBlank s).dropWhile (· != '\n'),
        [s.takeWhile (· == '#'), (afterBlank s).takeWhile (· != '\n')]⟩ else none := by
  obtain ⟨htake, -⟩ := Pattern.take_run (· == '#') s
  unfold heading
  rw [Pattern.ways_bos]
  generalize hrest : Pattern.seq (.run 1 none isSpace)
    (.seq (.group (.run 0 none (· != '\n'))) .eos) = rest
  have hforced : ∀ n ∈ Pattern.lengths 1 (some 6) (· == '#') s, n ≠ hashes s →
      rest.ways ⟨true && n == 0, s.drop n, [] ++ [s.take n]⟩ = [] := by
    intro n hn hne
    obtain ⟨hpos, hle, -⟩ := Pattern.mem_lengths.mp hn
    obtain ⟨c, t, hcons, hc⟩ := Pattern.drop_lt_run (lt_of_le_of_ne hle hne)
    have hzero : (true && n == 0) = false := by simp; omega
    have hblank : (c :: t).takeWhile isSpace = [] := by
      rw [beq_iff_eq.mp hc]
      rfl
    rw [hzero, hcons, ← hrest, ← List.head?_eq_none_iff, ways_blank, if_neg fun h => h.1 hblank]
  show (((Pattern.group (.run 1 (some 6) (· == '#'))).ways ⟨true, s, []⟩).flatMap rest.ways).head? = _
  rw [Pattern.ways_group_run, List.flatMap_map, Pattern.flatMap_lengths hforced]
  have hmem : hashes s ∈ Pattern.lengths 1 (some 6) (· == '#') s ↔ 1 ≤ hashes s ∧ hashes s ≤ 6 := by
    rw [Pattern.mem_lengths]
    simp [hashes]
  by_cases hcount : 1 ≤ hashes s ∧ hashes s ≤ 6
  · have hzero : (true && hashes s == 0) = false := by simp; omega
    have htake' : s.take (hashes s) = s.takeWhile (· == '#') := htake
    have hafter : (s.drop (hashes s)).dropWhile isSpace = afterBlank s := rfl
    rw [if_pos (hmem.mpr hcount), hzero, ← hrest, ways_blank, htake', hafter]
    by_cases hopens : Opens s
    · rw [if_pos hopens, if_pos hopens.2]
      rfl
    · rw [if_neg hopens, if_neg fun h => hopens ⟨hcount, h⟩]
  · rw [if_neg fun h => hcount (hmem.mp h), if_neg fun h : Opens s => hcount h.1]
    rfl

/-- The pattern matches at most once: at the beginning, and as far as the last line. -/
theorem finditer_heading (s : List Char) :
    heading.finditer s =
      if Opens s then [⟨false, (afterBlank s).dropWhile (· != '\n'),
        [s.takeWhile (· == '#'), (afterBlank s).takeWhile (· != '\n')]⟩] else [] := by
  have hways := head?_ways_heading s
  unfold heading at hways ⊢
  rw [Pattern.finditer_bos]
  unfold Pattern.here
  simp only [hways]
  by_cases hopens : Opens s
  · have hshort : ((afterBlank s).dropWhile (· != '\n')).length < s.length :=
      lt_of_le_of_lt (List.dropWhile_suffix (· != '\n')).length_le (length_afterBlank_lt hopens.1.1)
    simp only [if_pos hopens, if_pos hshort]
  · simp only [if_neg hopens]

/-- The loop adds the entry of each match, if no deadline passes and there are few enough. -/
theorem collect_eq {matched : List Spot} {sections result : List Section}
    (h : collect limits expired matched sections = .ok result) :
    result = sections ++ matched.map entry := by
  induction matched generalizing sections with
  | nil =>
    cases h
    simp
  | cons m matched ih =>
    unfold collect at h
    split at h
    · cases h
    · split at h
      · cases h
      · rw [ih h]
        simp

/-- The sections of a document that was parsed: one, or none. -/
theorem sections_eq {doc : ParsedDocument} (h : parse limits expired text = .ok doc) :
    doc.text = text ∧ doc.sections = if Opens text then
      [⟨stripList ((afterBlank text).takeWhile (· != '\n')), hashes text⟩] else [] := by
  unfold parse at h
  split at h
  · cases h
  · obtain ⟨sections, hcollect, h⟩ := except_bind_ok.mp h
    cases h
    refine ⟨rfl, ?_⟩
    show sections = _
    rw [collect_eq hcollect, finditer_heading]
    by_cases hopens : Opens text
    · simp only [if_pos hopens]
      rfl
    · simp only [if_neg hopens]
      rfl

/-- The deadline apart, every text that is not blank is parsed: there are never too many sections. -/
theorem parse_ok (limits : ParserLimits) (h : stripList text ≠ []) :
    ∃ doc, parse limits (fun _ => false) text = .ok doc := by
  have hpos := limits.sections_range.1
  unfold parse
  rw [if_neg h, finditer_heading]
  by_cases hopens : Opens text
  · rw [if_pos hopens]
    unfold collect
    rw [if_neg (by decide), if_neg (by simp; omega)]
    exact ⟨_, rfl⟩
  · rw [if_neg hopens]
    exact ⟨_, rfl⟩

/-! ## The characters that are not whitespace -/

/-- The number of characters that are not whitespace. -/
def ink (s : List Char) : ℕ := s.countP fun c => !isSpace c

/-- Whitespace has no ink. -/
theorem ink_eq_zero : ink s = 0 ↔ s.all isSpace = true := by
  unfold ink
  rw [List.countP_eq_zero, List.all_eq_true]
  simp

/-- The ink of a text that is put together. -/
theorem ink_append (s t : List Char) : ink (s ++ t) = ink s + ink t := List.countP_append

/-- Stripping keeps the ink. -/
theorem ink_stripList (s : List Char) : ink (stripList s) = ink s := by
  obtain ⟨a, z, heq, ha, hz⟩ := exists_stripList s
  conv_rhs => rw [heq]
  rw [ink_append, ink_append, ink_eq_zero.mpr ha, ink_eq_zero.mpr hz]
  omega

/-- The `#` at the beginning are ink. -/
theorem ink_hashes (s : List Char) : ink s = hashes s + ink (s.drop (hashes s)) := by
  obtain ⟨htake, hdrop⟩ := Pattern.take_run (· == '#') s
  have hall : ink (s.takeWhile (· == '#')) = hashes s := by
    unfold ink hashes
    rw [List.countP_eq_length]
    intro c hc
    have hc' : c = '#' := by simpa using List.mem_takeWhile_imp hc
    rw [hc']
    rfl
  unfold hashes at hall ⊢
  rw [hdrop, ← hall, ← ink_append, List.takeWhile_append_dropWhile]

/-- Whitespace at the beginning has no ink. -/
theorem ink_dropWhile (s : List Char) : ink (s.dropWhile isSpace) = ink s := by
  have hblank : ink (s.takeWhile isSpace) = 0 :=
    ink_eq_zero.mpr (List.all_eq_true.mpr fun c hc => List.mem_takeWhile_imp hc)
  conv_rhs => rw [← List.takeWhile_append_dropWhile (l := s) (p := isSpace)]
  rw [ink_append, hblank, Nat.zero_add]

/-- A line break has no ink. -/
theorem ink_lastLine {u : List Char} (h : lastLine u) : ink (u.takeWhile (· != '\n')) = ink u := by
  have hrest : ink (u.dropWhile (· != '\n')) = 0 := by
    rcases (lastLine_iff u).mp h with hnil | hbreak
    · rw [hnil]
      rfl
    · rw [hbreak]
      rfl
  have hsum := ink_append (u.takeWhile (· != '\n')) (u.dropWhile (· != '\n'))
  rw [List.takeWhile_append_dropWhile, hrest] at hsum
  exact hsum.symm

/-- The lines of a text have its ink. -/
theorem ink_lines (s : List Char) : ((splitAt '\n' s).map ink).sum = ink s := by
  induction s using segment_induction '\n' with
  | last s hs => simp [splitAt_eq_self hs]
  | segment s r hs ih =>
    have hbreak : ink ('\n' :: r) = ink r := List.countP_cons_of_neg (by decide)
    rw [splitAt_append hs, List.map_cons, List.sum_cons, ih, ink_append, hbreak]

/-- What a heading line says. -/
theorem headingLine_eq (hline : headingLine line = some h) :
    (1 ≤ hashes line ∧ hashes line ≤ 6) ∧
      (∃ c t, line.drop (hashes line) = c :: t ∧ (c = ' ' ∨ c = '\t')) ∧
      h = ⟨stripList (line.drop (hashes line)), hashes line⟩ := by
  unfold headingLine at hline
  split at hline
  · next c t hdrop =>
    split at hline
    · next hcond =>
      cases hline
      exact ⟨⟨hcond.1, hcond.2.1⟩, ⟨c, t, hdrop, hcond.2.2⟩, by rw [hdrop]⟩
    · cases hline
  · cases hline

/-- The ink of a heading line is its level and the ink of its heading. -/
theorem ink_headingLine (hline : headingLine line = some h) :
    ink line = h.level + ink h.heading := by
  obtain ⟨-, -, rfl⟩ := headingLine_eq hline
  rw [ink_stripList]
  exact ink_hashes line

/-- A blank line is no heading. -/
theorem headingLine_blank (h : line.all isSpace = true) : headingLine line = none := by
  cases hline : headingLine line with
  | none => rfl
  | some entry =>
    have hink := ink_headingLine hline
    obtain ⟨⟨hpos, -⟩, -, rfl⟩ := headingLine_eq hline
    rw [ink_eq_zero.mpr h] at hink
    simp only at hink
    omega

/-! ## The first line -/

section FirstLine

variable {first tail : List Char}

/-- The `#` of a text are on its first line. -/
theorem hashes_line (first tail : List Char) : hashes (first ++ '\n' :: tail) = hashes first := by
  unfold hashes
  rw [List.takeWhile_append]
  split
  · next hall => simp [hall]
  · rfl

/-- The text behind the `#` is that of the first line, and what follows it. -/
theorem drop_hashes_line (first tail : List Char) :
    (first ++ '\n' :: tail).drop (hashes first) = first.drop (hashes first) ++ '\n' :: tail := by
  have hle : hashes first ≤ first.length := (List.takeWhile_prefix (· == '#')).length_le
  rw [List.drop_append_of_le_length hle]

/-- A text with its last line alone. -/
theorem takeWhile_line (h : '\n' ∉ first) : first.takeWhile (· != '\n') = first := by
  rw [List.takeWhile_eq_self_iff]
  intro c hc
  have hne : c ≠ '\n' := fun heq => h (heq ▸ hc)
  simpa using hne

/-- A text without a line break is on its last line. -/
theorem lastLine_line (h : '\n' ∉ first) : lastLine first := by
  have hnil : first.dropWhile (· != '\n') = [] := by
    have hsplit := List.takeWhile_append_dropWhile (l := first) (p := (· != '\n'))
    rw [takeWhile_line h] at hsplit
    exact List.append_right_eq_self.mp hsplit
  exact (lastLine_iff first).mpr (.inl hnil)

/-- What follows the first line break. -/
theorem dropWhile_break (h : '\n' ∉ first) (tail : List Char) :
    (first ++ '\n' :: tail).takeWhile (· != '\n') = first ∧
      (first ++ '\n' :: tail).dropWhile (· != '\n') = '\n' :: tail := by
  have hall : ∀ c ∈ first, (c != '\n') = true := by
    intro c hc
    have hne : c ≠ '\n' := fun heq => h (heq ▸ hc)
    simpa using hne
  constructor
  · rw [List.takeWhile_append_of_pos hall, List.takeWhile_cons_of_neg (by decide), List.append_nil]
  · rw [List.dropWhile_append_of_pos hall, List.dropWhile_cons_of_neg (by decide)]

/-- The text behind whitespace, when the first part has ink. -/
theorem dropWhile_isSpace_append (h : ink first ≠ 0) (tail : List Char) :
    (first ++ tail).dropWhile isSpace = first.dropWhile isSpace ++ tail := by
  have hne : first.dropWhile isSpace ≠ [] := by
    intro hnil
    apply h
    rw [← ink_dropWhile, hnil]
    rfl
  rw [List.dropWhile_append]
  simp [hne]

/-- The lines of a text of whitespace are blank, and a text of blank lines is whitespace. -/
theorem blank_lines (s : List Char) : (∀ l ∈ splitAt '\n' s, l.all isSpace = true) ↔ s.all isSpace = true := by
  have hsum := ink_lines s
  constructor
  · intro hlines
    rw [← ink_eq_zero, ← hsum, List.sum_eq_zero_iff]
    intro n hn
    obtain ⟨l, hl, rfl⟩ := List.mem_map.mp hn
    exact ink_eq_zero.mpr (hlines l hl)
  · intro hs l hl
    rw [ink_eq_zero.mpr hs, List.sum_eq_zero_iff] at hsum
    exact ink_eq_zero.mp (hsum (ink l) (List.mem_map_of_mem hl))

/-- A text is one empty line only if it is empty. -/
theorem splitAt_eq_nil {s : List Char} (h : splitAt '\n' s = [[]]) : s = [] := by
  cases s with
  | nil => rfl
  | cons c s =>
    unfold splitAt at h
    split at h
    · exact absurd (List.cons.inj h).2 (splitAt_ne_nil '\n' s)
    · split at h
      · cases h
      · cases h

end FirstLine

/-! ## When the sections are the headings -/

/-- The text is one heading line, with nothing behind it but its line break, or whitespace if the heading
is empty. -/
def OneHeading (text : List Char) : Prop :=
  ∃ first others h, splitAt '\n' text = first :: others ∧ headingLine first = some h ∧
    (others = [] ∨ others = [[]] ∨ (h.heading = [] ∧ ∀ l ∈ others, l.all isSpace = true))

/-- The section of a text that the pattern matches. -/
def only (text : List Char) : Section :=
  ⟨stripList ((afterBlank text).takeWhile (· != '\n')), hashes text⟩

variable {text first : List Char}

/-- The one section has all the ink of the text. -/
theorem ink_only (h : Opens text) :
    ink text = (only text).level + ink (only text).heading := by
  have hafter : ink (afterBlank text) = ink (text.drop (hashes text)) := ink_dropWhile _
  have hink := ink_hashes text
  show ink text = hashes text + ink (stripList ((afterBlank text).takeWhile (· != '\n')))
  rw [ink_stripList, ink_lastLine h.2.2, hafter]
  exact hink

/-- If the headings are the one section, the first line is its line, and the others are blank: that line has
all the ink of the text, of which some is on the first line. -/
theorem first_of_headings (hopens : Opens text) {others : List (List Char)}
    (hlines : splitAt '\n' text = first :: others) (hfirst : hashes text = hashes first)
    (hheadings : headings text = [only text]) :
    headingLine first = some (only text) ∧ ∀ l ∈ others, l.all isSpace = true := by
  have hsum := ink_lines text
  have hink := ink_only hopens
  have hpos := hopens.1.1
  have hhashes := ink_hashes first
  rw [hlines, List.map_cons, List.sum_cons] at hsum
  unfold headings at hheadings
  rw [hlines, List.filterMap_cons] at hheadings
  cases hline : headingLine first with
  | none =>
    rw [hline] at hheadings
    have hothers : others.filterMap headingLine = [only text] := hheadings
    have hmem : only text ∈ others.filterMap headingLine := by
      rw [hothers]
      exact List.mem_singleton_self _
    obtain ⟨l, hl, hentry⟩ := List.mem_filterMap.mp hmem
    have hle : ink l ≤ (others.map ink).sum := List.single_le_sum (by simp) _ (List.mem_map_of_mem hl)
    have hown := ink_headingLine hentry
    omega
  | some h =>
    rw [hline] at hheadings
    obtain ⟨rfl, -⟩ := List.cons.inj hheadings
    have hown := ink_headingLine hline
    have hrest : (others.map ink).sum = 0 := by omega
    refine ⟨rfl, ?_⟩
    intro l hl
    rw [List.sum_eq_zero_iff] at hrest
    exact ink_eq_zero.mp (hrest (ink l) (List.mem_map_of_mem hl))

/-- If the headings are the one section, the text is one heading. -/
theorem oneHeading_of_headings (hopens : Opens text) (hheadings : headings text = [only text]) : OneHeading text := by
  by_cases hbreak : '\n' ∈ text
  · obtain ⟨first, tail, rfl, hfirst⟩ := List.eq_append_cons_of_mem hbreak
    have hlines := splitAt_append hfirst tail
    obtain ⟨hline, hblank⟩ := first_of_headings hopens hlines (hashes_line first tail) hheadings
    refine ⟨first, splitAt '\n' tail, _, hlines, hline, ?_⟩
    by_cases hempty : (only (first ++ '\n' :: tail)).heading = []
    · exact .inr (.inr ⟨hempty, hblank⟩)
    · -- The heading has ink on the first line, so the last line begins there, and ends the text.
      refine .inr (.inl ?_)
      obtain ⟨-, -, hentry⟩ := headingLine_eq hline
      have hink : ink (first.drop (hashes first)) ≠ 0 := by
        intro hzero
        rw [hentry] at hempty
        exact hempty (stripList_spaces (ink_eq_zero.mp hzero))
      have hlast := hopens.2.2
      have hnobreak : '\n' ∉ (first.drop (hashes first)).dropWhile isSpace := fun hmem =>
        hfirst (List.mem_of_mem_drop ((List.dropWhile_sublist _).mem hmem))
      unfold afterBlank lastLine at hlast
      rw [hashes_line, drop_hashes_line, dropWhile_isSpace_append hink, (dropWhile_break hnobreak tail).2]
        at hlast
      have htail : tail = [] := by
        simp only [List.length_cons] at hlast
        exact List.length_eq_zero_iff.mp (by omega)
      rw [htail]
      rfl
  · obtain ⟨hline, -⟩ := first_of_headings hopens (splitAt_eq_self hbreak) rfl hheadings
    exact ⟨text, [], _, splitAt_eq_self hbreak, hline, .inl rfl⟩

/-- Stripping takes the whitespace at the beginning. -/
theorem stripList_dropWhile (s : List Char) : stripList (s.dropWhile isSpace) = stripList s := by
  unfold stripList
  rw [List.dropWhile_idempotent]

/-- A heading line in front of nothing but whitespace, which is one line break or the heading is empty. -/
theorem opens_of_line {rest : List Char} {h : Section} (hline : headingLine first = some h) (hfirst : '\n' ∉ first)
    (hhashes : hashes (first ++ rest) = hashes first)
    (hrest : rest = [] ∨ rest = ['\n'] ∨ (h.heading = [] ∧ rest.all isSpace = true)) :
    Opens (first ++ rest) ∧ only (first ++ rest) = h := by
  obtain ⟨hcount, ⟨c, t, hdrop, hc⟩, hentry⟩ := headingLine_eq hline
  have hle : hashes first ≤ first.length := (List.takeWhile_prefix (· == '#')).length_le
  have hbehind : (first ++ rest).drop (hashes (first ++ rest)) = first.drop (hashes first) ++ rest := by
    rw [hhashes, List.drop_append_of_le_length hle]
  have hspace : isSpace c = true := by rcases hc with rfl | rfl <;> rfl
  have hblank : ((first ++ rest).drop (hashes (first ++ rest))).takeWhile isSpace ≠ [] := by
    rw [hbehind, hdrop, List.cons_append, List.takeWhile_cons_of_pos hspace]
    exact List.cons_ne_nil _ _
  have hnobreak : '\n' ∉ (first.drop (hashes first)).dropWhile isSpace := fun hmem =>
    hfirst (List.mem_of_mem_drop ((List.dropWhile_sublist _).mem hmem))
  suffices hafter : lastLine (afterBlank (first ++ rest)) ∧
      stripList ((afterBlank (first ++ rest)).takeWhile (· != '\n')) = h.heading by
    refine ⟨⟨hhashes ▸ hcount, hblank, hafter.1⟩, ?_⟩
    unfold only
    rw [hafter.2, hhashes, hentry]
  have hheading : h.heading = stripList (first.drop (hashes first)) := by rw [hentry]
  have hafter : afterBlank (first ++ rest) = (first.drop (hashes first) ++ rest).dropWhile isSpace := by
    unfold afterBlank
    rw [hbehind]
  rw [hafter]
  by_cases hink : ink (first.drop (hashes first)) = 0
  · -- The heading is empty, and there is nothing but whitespace behind the `#`.
    have hblank' : (first.drop (hashes first)).all isSpace = true := ink_eq_zero.mp hink
    have hrest' : rest.all isSpace = true := by
      rcases hrest with rfl | rfl | ⟨-, hall⟩
      · rfl
      · rfl
      · exact hall
    have hnil : (first.drop (hashes first) ++ rest).dropWhile isSpace = [] := by
      rw [List.dropWhile_eq_nil_iff, ← List.all_eq_true, List.all_append, hblank', hrest']
      rfl
    rw [hnil, hheading, stripList_spaces hblank']
    exact ⟨by decide, rfl⟩
  · have hne : h.heading ≠ [] := by
      intro hnil
      rw [hheading] at hnil
      rw [← ink_stripList, hnil] at hink
      exact hink rfl
    rw [dropWhile_isSpace_append hink, hheading]
    rcases hrest with rfl | rfl | ⟨hnil, -⟩
    · rw [List.append_nil, takeWhile_line hnobreak, stripList_dropWhile]
      exact ⟨lastLine_line hnobreak, rfl⟩
    · obtain ⟨htake, hdropped⟩ := dropWhile_break hnobreak []
      rw [htake, stripList_dropWhile]
      refine ⟨?_, rfl⟩
      unfold lastLine
      rw [hdropped]
      exact le_refl _
    · exact absurd hnil hne

/-- A text that is one heading has it as its one section. -/
theorem headings_of_oneHeading (h : OneHeading text) :
    Opens text ∧ headings text = [only text] := by
  obtain ⟨first, others, entry, hlines, hline, hothers⟩ := h
  by_cases hbreak : '\n' ∈ text
  · obtain ⟨first', tail, rfl, hfirst⟩ := List.eq_append_cons_of_mem hbreak
    rw [splitAt_append hfirst] at hlines
    obtain ⟨rfl, rfl⟩ := List.cons.inj hlines
    have htail : tail = [] ∨ (entry.heading = [] ∧ tail.all isSpace = true) := by
      rcases hothers with hnil | hnil | ⟨hempty, hblank⟩
      · exact absurd hnil (splitAt_ne_nil '\n' tail)
      · exact .inl (splitAt_eq_nil hnil)
      · exact .inr ⟨hempty, (blank_lines tail).mp hblank⟩
    have hrest : '\n' :: tail = [] ∨ '\n' :: tail = ['\n'] ∨
        (entry.heading = [] ∧ ('\n' :: tail).all isSpace = true) := by
      rcases htail with rfl | ⟨hempty, hblank⟩
      · exact .inr (.inl rfl)
      · exact .inr (.inr ⟨hempty, by rw [List.all_cons, hblank]; rfl⟩)
    obtain ⟨hopens, honly⟩ := opens_of_line hline hfirst (hashes_line first' tail) hrest
    have hothers' : (splitAt '\n' tail).filterMap headingLine = [] := by
      rw [List.filterMap_eq_nil_iff]
      intro l hl
      refine headingLine_blank ((blank_lines tail).mpr ?_ l hl)
      rcases htail with rfl | ⟨-, hblank⟩
      · rfl
      · exact hblank
    refine ⟨hopens, ?_⟩
    unfold headings
    rw [splitAt_append hfirst, List.filterMap_cons, hline, hothers', honly]
  · rw [splitAt_eq_self hbreak] at hlines
    obtain ⟨rfl, rfl⟩ := List.cons.inj hlines
    have hsame : hashes (text ++ []) = hashes text := by rw [List.append_nil]
    obtain ⟨hopens, honly⟩ := opens_of_line hline hbreak hsame (.inl rfl)
    rw [List.append_nil] at hopens honly
    refine ⟨hopens, ?_⟩
    unfold headings
    rw [splitAt_eq_self hbreak, List.filterMap_cons, hline, honly]
    rfl

/-- The sections are the headings exactly of a text without headings that the pattern does not match, and
of a text that is one heading. -/
theorem sections_iff :
    (if Opens text then [only text] else []) = headings text ↔
      (headings text = [] ∧ ¬ Opens text) ∨ OneHeading text := by
  by_cases hopens : Opens text
  · rw [if_pos hopens]
    constructor
    · intro h
      exact .inr (oneHeading_of_headings hopens h.symm)
    · rintro (⟨-, hnot⟩ | hone)
      · exact absurd hopens hnot
      · exact (headings_of_oneHeading hone).2.symm
  · rw [if_neg hopens]
    constructor
    · intro h
      exact .inl ⟨h.symm, hopens⟩
    · rintro (⟨hnone, -⟩ | hone)
      · exact hnone.symm
      · exact absurd (headings_of_oneHeading hone).1 hopens

/-- Every text that is not blank is parsed, unless the deadline passes. The sections of the document are
the headings of its text, as long as there are not too many of these, exactly when no line is a heading and
the pattern does not match, or the text is one heading. -/
theorem markdown_sections (limits : ParserLimits) (text : List Char) (h : stripList text ≠ []) :
    (∃ doc, parse limits (fun _ => false) text = .ok doc) ∧
    ∀ expired doc, parse limits expired text = .ok doc →
      (((headings text).length ≤ limits.max_sections → doc.sections = headings text) ↔
        limits.max_sections < (headings text).length ∨ (headings text = [] ∧ ¬ Opens text) ∨
          OneHeading text) := by
  refine ⟨parse_ok limits h, ?_⟩
  intro expired doc hdoc
  have hsections : doc.sections = if Opens text then [only text] else [] := (sections_eq hdoc).2
  rw [hsections, sections_iff]
  by_cases hfew : (headings text).length ≤ limits.max_sections
  · have hnot : ¬ limits.max_sections < (headings text).length := Nat.not_lt.mpr hfew
    simp only [hfew, forall_const, hnot, false_or]
  · simp only [hfew, false_imp_iff, Nat.not_le.mp hfew, true_or]

/-- A document that is one heading. -/
theorem markdown_sections_title :
    stripList "## A b \n".toList ≠ [] ∧
    ∀ expired doc, parse defaultParserLimits expired "## A b \n".toList = .ok doc →
      doc.sections = [⟨"A b".toList, 2⟩] := by
  have hne : stripList "## A b \n".toList ≠ [] := by decide
  refine ⟨hne, ?_⟩
  intro expired doc hdoc
  have hheadings : headings "## A b \n".toList = [⟨"A b".toList, 2⟩] := by decide
  have hone : OneHeading "## A b \n".toList := ⟨"## A b ".toList, [[]], ⟨"A b".toList, 2⟩, by decide⟩
  have hiff := (markdown_sections defaultParserLimits "## A b \n".toList hne).2 expired doc hdoc
  rw [← hheadings]
  exact hiff.mpr (.inr (.inr hone)) (by rw [hheadings]; decide)

/-- A document of two headings has no section. -/
theorem two_headings_missed :
    parse defaultParserLimits (fun _ => false) "# A\n# B\n".toList = .ok ⟨"# A\n# B\n".toList, []⟩ ∧
    headings "# A\n# B\n".toList = [⟨['A'], 1⟩, ⟨['B'], 1⟩] := by
  refine ⟨rfl, by decide⟩

end Markdown

end RickIntelligence.Ingestion
