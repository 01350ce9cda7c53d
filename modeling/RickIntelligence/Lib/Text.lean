import Mathlib

/-!
# Text as Python computes on it

A Python string is its list of code points. `strip` removes the characters of `str.isspace` from
both ends, `lower` is `str.lower`, and `splitOn` is `str.split` at a one-character separator.

`str.lower` is given on the characters that an ASCII pattern can tell apart: the capital letters,
and the Kelvin sign, which is the only character outside ASCII with an ASCII lower case. Every other
character keeps a lower case outside ASCII, so that a pattern over ASCII classes refuses it before
and after.
-/

namespace RickIntelligence.Lib

/-! ## Stripping -/

/-- The characters that `str.strip` removes, by code point. -/
def isSpace (c : Char) : Bool :=
  let n := c.toNat
  (9 ≤ n && n ≤ 13) || (28 ≤ n && n ≤ 32) || n == 0x85 || n == 0xa0 || n == 0x1680 ||
    (0x2000 ≤ n && n ≤ 0x200a) || n == 0x2028 || n == 0x2029 || n == 0x202f || n == 0x205f ||
    n == 0x3000

/-- The list of characters without the spaces at its ends. -/
def stripList (l : List Char) : List Char := (l.dropWhile isSpace).rdropWhile isSpace

/-- `str.strip`. -/
def strip (s : String) : String := String.ofList (stripList s.toList)

/-- A list whose first character is not a space keeps it when the spaces at its end go. -/
theorem dropWhile_rdropWhile {p : Char → Bool} {l : List Char} (h : l.dropWhile p = l) :
    (l.rdropWhile p).dropWhile p = l.rdropWhile p := by
  rw [List.dropWhile_eq_self_iff] at h ⊢
  intro hl
  obtain ⟨t, ht⟩ := List.rdropWhile_prefix p (l := l)
  have hpos : 0 < l.length := lt_of_lt_of_le hl (List.IsPrefix.length_le ⟨t, ht⟩)
  have hhead : (l.rdropWhile p)[0] = l[0] := List.IsPrefix.getElem ⟨t, ht⟩ hl
  rw [hhead]
  exact h hpos

/-- Stripping twice is stripping once. -/
theorem stripList_stripList (l : List Char) : stripList (stripList l) = stripList l := by
  unfold stripList
  rw [dropWhile_rdropWhile (List.dropWhile_idempotent _ l), List.rdropWhile_idempotent]

/-- Stripping twice is stripping once. -/
@[simp]
theorem strip_strip (s : String) : strip (strip s) = strip s := by
  simp [strip, stripList_stripList]

variable {s : String} {head tail : Char → Bool} {max : ℕ} {sep : Char}

/-- Text with no space in it is not changed by stripping. -/
theorem strip_eq_self (h : ∀ c ∈ s.toList, isSpace c = false) : strip s = s := by
  have h1 : s.toList.dropWhile isSpace = s.toList := by
    rw [List.dropWhile_eq_self_iff]
    intro hl
    simp [h _ (List.getElem_mem hl)]
  have h2 : s.toList.rdropWhile isSpace = s.toList := by
    rw [List.rdropWhile_eq_self_iff]
    intro hl
    simp [h _ (List.getLast_mem hl)]
  rw [strip, stripList, h1, h2, String.ofList_toList]

/-! ## Lower case -/

/-- The lower case of one character. -/
def lowerChar (c : Char) : Char := if c.toNat = 0x212a then 'k' else c.toLower

/-- `str.lower`. -/
def lower (s : String) : String := String.ofList (s.toList.map lowerChar)

/-- Text of characters that are their own lower case is its own lower case. -/
theorem lower_eq_self (h : ∀ c ∈ s.toList, lowerChar c = c) : lower s = s := by
  rw [lower, List.map_congr_left h, List.map_id', String.ofList_toList]

/-! ## Characters of a pattern -/

/-- `[a-z]`. -/
def isLowerAscii (c : Char) : Bool := 'a' ≤ c && c ≤ 'z'

/-- `[A-Z]`. -/
def isUpperAscii (c : Char) : Bool := 'A' ≤ c && c ≤ 'Z'

/-- `[0-9]`. -/
def isDigitAscii (c : Char) : Bool := '0' ≤ c && c ≤ '9'

/-- `[A-Za-z0-9]`. -/
def isAlnumAscii (c : Char) : Bool := isLowerAscii c || isUpperAscii c || isDigitAscii c

/-- `^[head][tail]{0,max}$` on the whole text: one character of the first class, then at most `max`
of the second. -/
def matchesRun (head tail : Char → Bool) (max : ℕ) (s : String) : Bool :=
  match s.toList with
  | [] => false
  | c :: cs => head c && cs.all tail && decide (cs.length ≤ max)

/-- Every character of a matched text is of one of the two classes. -/
theorem matchesRun_chars (h : matchesRun head tail max s = true) :
    ∀ c ∈ s.toList, head c = true ∨ tail c = true := by
  unfold matchesRun at h
  intro c hc
  split at h
  · simp at h
  · next c0 cs hs =>
    simp only [Bool.and_eq_true, List.all_eq_true] at h
    rw [hs] at hc
    rcases List.mem_cons.mp hc with rfl | hc
    · exact .inl h.1.1
    · exact .inr (h.1.2 c hc)

/-- A matched text has between one and `max + 1` characters. -/
theorem matchesRun_length (h : matchesRun head tail max s = true) :
    1 ≤ s.toList.length ∧ s.toList.length ≤ max + 1 := by
  unfold matchesRun at h
  split at h
  · simp at h
  · next c0 cs hs =>
    simp only [Bool.and_eq_true, decide_eq_true_eq] at h
    simp [hs, h.2]

/-! ## Substrings and parts -/

/-- `w in s`. -/
def contains (w s : List Char) : Bool := decide (w <:+: s)

/-- `str.split` at one character. -/
def splitAt (sep : Char) : List Char → List (List Char)
  | [] => [[]]
  | c :: cs =>
    if c = sep then [] :: splitAt sep cs
    else match splitAt sep cs with
      | [] => [[c]]
      | part :: parts => (c :: part) :: parts

/-- A split has a first part. -/
theorem splitAt_ne_nil (sep : Char) (s : List Char) : splitAt sep s ≠ [] := by
  cases s with
  | nil => simp [splitAt]
  | cons c cs =>
    unfold splitAt
    split
    · simp
    · split <;> simp

/-- A text without the separator is one part. -/
theorem splitAt_eq_self {s : List Char} (h : sep ∉ s) : splitAt sep s = [s] := by
  induction s with
  | nil => rfl
  | cons c cs ih =>
    simp only [List.mem_cons, not_or] at h
    rw [splitAt, if_neg (Ne.symm h.1), ih h.2]

/-- A text without the separator is the first part of a text that goes on after it. -/
theorem splitAt_append {s : List Char} (h : sep ∉ s) (t : List Char) :
    splitAt sep (s ++ sep :: t) = s :: splitAt sep t := by
  induction s with
  | nil => rw [List.nil_append, splitAt, if_pos rfl]
  | cons c cs ih =>
    simp only [List.mem_cons, not_or] at h
    rw [List.cons_append, splitAt, if_neg (Ne.symm h.1), ih h.2]

end RickIntelligence.Lib
