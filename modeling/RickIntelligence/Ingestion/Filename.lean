import RickIntelligence.Ingestion.Limits
import RickIntelligence.Lib.Percent
import RickIntelligence.Lib.Validated

/-!
# Names of files

`normalize_filename` and `validate_filename` of `rick_ingestion/parsers.py`. A name is folded by NFKC and
decoded at most twice; then its last component is taken, characters are removed, its ends are trimmed, and
it is cut. What Python's Unicode tables say is a parameter (`Unicode`), with the facts about them that are
used.

`normalize_filename_iff` says of which results the function makes itself, and `validate_again` that a name
that was accepted is accepted again. Behind both stands that a text that is part of what it is folded and
decoded to is changed by neither (`stable_of_sublist`): folding keeps what the weight of a text counts, and
decoding only lowers it.
-/

namespace RickIntelligence.Ingestion

open Lib Lib.Percent

/-! ## Unicode -/

/-- The characters that `str.strip` removes. -/
def isSpacePoint (c : ℕ) : Bool :=
  (9 ≤ c && c ≤ 13) || (28 ≤ c && c ≤ 32) || c == 0x85 || c == 0xa0 || c == 0x1680 ||
    (0x2000 ≤ c && c ≤ 0x200a) || c == 0x2028 || c == 0x2029 || c == 0x202f || c == 0x205f ||
    c == 0x3000

/-- The functions of `unicodedata` and `str` that depend on the Unicode tables: NFKC, the full compatibility
decomposition of a code point, its general category, and the upper case of a text. NFKC composes what the
decomposition of a text leaves, so it keeps the decomposition but for the order of marks. -/
structure Unicode where
  nfkc : Points → Points
  decomposition : ℕ → Points
  category : ℕ → Char × Char
  upper : Points → Points
  nfkc_nfkc : ∀ s, nfkc (nfkc s) = nfkc s
  nfkc_ascii : ∀ s, (∀ c ∈ s, c < 0x80) → nfkc s = s
  nfkc_decomposition : ∀ s, ((nfkc s).flatMap decomposition).Perm (s.flatMap decomposition)
  decomposition_ne_nil : ∀ c, decomposition c ≠ []
  decomposition_ascii : ∀ c < 0x80, decomposition c = [c]
  decomposition_percent : ∀ c, (decomposition c).count percent ≤ 1
  decomposition_replacement : decomposition Utf8.replacement = [Utf8.replacement]
  category_space : ∀ c, isSpacePoint c = true → c ≠ 0x20 → (category c).1 = 'C' ∨ (category c).1 = 'Z'
  category_graphic : ∀ c, 0x21 ≤ c → c ≤ 0x7e → (category c).1 ≠ 'C' ∧ (category c).1 ≠ 'Z'

/-- `str.isprintable` of one character: no character of the groups Other and Separator, except the
space. -/
def Unicode.printable (u : Unicode) (c : ℕ) : Bool :=
  (u.category c).1 != 'C' && ((u.category c).1 != 'Z' || c == 0x20)

/-- The weight of a text is that of its decomposition. -/
def Unicode.weight (u : Unicode) : Weight where
  signs c := (u.decomposition c).count percent
  size c := (u.decomposition c).length
  signs_le := u.decomposition_percent
  signs_percent := by
    rw [u.decomposition_ascii percent (by decide)]
    rfl
  signs_replacement := by
    rw [u.decomposition_replacement]
    rfl
  size_pos c := List.length_pos_iff.mpr (u.decomposition_ne_nil c)
  size_ascii c hc := by
    rw [u.decomposition_ascii c hc]
    rfl

namespace Filename

/-! ## The functions -/

/-- `MAX_FILENAME_CHARS`. -/
def maxFilenameChars : ℕ := 256

/-- `MAX_RAW_FILENAME_CHARS`. -/
def maxRawFilenameChars : ℕ := 4096

/-- `/`. -/
def slash : ℕ := 0x2f

/-- `\`. -/
def backslash : ℕ := 0x5c

/-- `:`. -/
def colon : ℕ := 0x3a

/-- A text of ASCII characters as its code points. -/
def points (s : String) : Points := s.toList.map Char.toNat

/-- The two rounds of decoding. -/
def decodeTwice (s : Points) : Points := if unquote s = s then s else unquote (unquote s)

/-- `text.replace("\\", "/")`. -/
def toSlashes (s : Points) : Points := s.map fun c => if c = backslash then slash else c

section Functions

variable (u : Unicode)

/-- `_decoded_filename`. -/
def decodedFilename (name : Points) : Except ParseError Points :=
  if maxRawFilenameChars < name.length then .error .filename
  else .ok (toSlashes (decodeTwice (u.nfkc name)))

/-- `name.rsplit("/", 1)[-1]`. -/
def baseName (s : Points) : Points := s.rtakeWhile fun c => c != slash

/-- A character that is kept. -/
def keeps (c : ℕ) : Bool := (u.category c).1 != 'C' && u.printable c

/-- The space and the dot. -/
def isTail (c : ℕ) : Bool := c == 0x20 || c == 0x2e

/-- `base.strip().rstrip(" .")`. -/
def trim (s : Points) : Points := ((s.dropWhile isSpacePoint).rdropWhile isSpacePoint).rdropWhile isTail

/-- The name that is left of a decoded one, before it is cut. -/
def core (decoded : Points) : Points := trim ((baseName decoded).filter (keeps u))

/-- The name of a document whose name has nothing that is left. -/
def document : Points := points "document"

/-- `normalize_filename`. -/
def normalizeFilename (name : Points) : Except ParseError Points := do
  let decoded ← decodedFilename u name
  return (if core u decoded = [] then document else core u decoded).take maxFilenameChars

/-- `re.match(r"^[A-Za-z]:($|/)", name)`. -/
def isDriveRoot : Points → Bool
  | c :: d :: rest =>
    ((0x41 ≤ c && c ≤ 0x5a) || (0x61 ≤ c && c ≤ 0x7a)) && d == colon &&
      (rest == [] || rest == [0x0a] || rest.head? == some slash)
  | _ => false

/-- `.` and `..`. -/
def isDots (s : Points) : Bool := s == points "." || s == points ".."

/-- `_WINDOWS_RESERVED_NAMES`. -/
def reservedNames : List Points :=
  ["CON", "PRN", "AUX", "NUL", "COM1", "COM2", "COM3", "COM4", "COM5", "COM6", "COM7", "COM8", "COM9",
    "LPT1", "LPT2", "LPT3", "LPT4", "LPT5", "LPT6", "LPT7", "LPT8", "LPT9"].map points

/-- `safe.upper().split(".", 1)[0] in _WINDOWS_RESERVED_NAMES`. -/
def isReserved (s : Points) : Bool := reservedNames.contains ((u.upper s).takeWhile fun c => c != 0x2e)

/-- `validate_filename`. -/
def validateFilename (name : Points) : Except ParseError Points :=
  if name = [] ∨ maxRawFilenameChars < name.length then .error .filename
  else do
    let normalized ← decodedFilename u name
    if normalized.head? = some slash ∨ isDriveRoot normalized ∨ slash ∈ normalized ∨ isDots normalized ∨
        colon ∈ normalized then .error .filename
    else do
      let safe ← normalizeFilename u normalized
      if safe ≠ normalized ∨ isReserved u safe then .error .filename
      else if safe = [] ∨ isDots safe then .error .filename
      else return safe

end Functions

/-! ## What folding and decoding keep -/

section Stable

variable (u : Unicode)

/-- A text that is decoded twice. -/
theorem decodeTwice_eq (s : Points) : decodeTwice s = unquote (unquote s) := by
  unfold decodeTwice
  split
  · next h => rw [h, h]
  · rfl

/-- Folding keeps the percent signs and the size of a text. -/
theorem weight_nfkc (s : Points) :
    u.weight.signsOf (u.nfkc s) = u.weight.signsOf s ∧ u.weight.sizeOf (u.nfkc s) = u.weight.sizeOf s := by
  have hsigns : ∀ t, u.weight.signsOf t = (t.flatMap u.decomposition).count percent := by
    intro t
    rw [List.count_flatMap]
    rfl
  have hsize : ∀ t, u.weight.sizeOf t = (t.flatMap u.decomposition).length := by
    intro t
    rw [List.length_flatMap]
    rfl
  rw [hsigns, hsigns, hsize, hsize]
  exact ⟨(u.nfkc_decomposition s).count_eq percent, (u.nfkc_decomposition s).length_eq⟩

/-- A text that is part of what it is folded and decoded to is changed neither by folding nor by
decoding. -/
theorem stable_of_sublist {s : Points} (h : s.Sublist (decodeTwice (u.nfkc s))) :
    u.nfkc s = s ∧ unquote s = s := by
  rw [decodeTwice_eq] at h
  have honce := unquote_shrinks u.weight (u.nfkc s)
  have hrest : u.weight.Shrinks s (unquote (u.nfkc s)) :=
    (Weight.Shrinks.of_sublist h).trans (unquote_shrinks u.weight _)
  obtain ⟨hsigns, hsize⟩ := weight_nfkc u s
  have hfold : s = u.nfkc s := ((hrest.trans honce).2 hsigns.symm).2 hsize.symm
  rw [← hfold] at honce hrest
  exact ⟨hfold.symm, honce.antisymm hrest⟩

end Stable

/-! ## The name that is left -/

section Core

variable (u : Unicode)

/-- Trimming leaves a part of a text. -/
theorem trim_sublist (s : Points) : (trim s).Sublist s := by
  have hleft : (s.dropWhile isSpacePoint).Sublist s := List.dropWhile_sublist _
  have hright := (List.rdropWhile_prefix isSpacePoint (s.dropWhile isSpacePoint)).sublist
  exact ((List.rdropWhile_prefix isTail _).sublist.trans hright).trans hleft

/-- A text without backslashes. -/
theorem toSlashes_eq {s : Points} (h : backslash ∉ s) : toSlashes s = s := by
  unfold toSlashes
  refine (List.map_congr_left ?_).trans (List.map_id _)
  intro c hc
  have hne : c ≠ backslash := fun heq => h (heq ▸ hc)
  exact if_neg hne

/-- The last component is behind the last slash or backslash. -/
theorem baseName_toSlashes (s : Points) :
    baseName (toSlashes s) = s.rtakeWhile fun c => c != slash && c != backslash := by
  have hcomp : ((fun c => c != slash) ∘ fun c => if c = backslash then slash else c) =
      fun c => c != slash && c != backslash := by
    funext c
    by_cases hc : c = backslash
    · simp [hc]
    · simp [hc]
  unfold baseName toSlashes List.rtakeWhile
  rw [← List.map_reverse, List.takeWhile_map, hcomp, ← List.map_reverse]
  refine (List.map_congr_left ?_).trans (List.map_id _)
  intro c hc
  have hmem := List.mem_takeWhile_imp (List.mem_reverse.mp hc)
  have hne : c ≠ backslash := by simpa using (Bool.and_eq_true_iff.mp hmem).2
  exact if_neg hne

/-- What is left of a decoded name is a part of it. -/
theorem core_sublist (s : Points) : (core u (toSlashes s)).Sublist s := by
  unfold core
  rw [baseName_toSlashes]
  refine ((trim_sublist _).trans List.filter_sublist).trans ?_
  exact (List.rtakeWhile_suffix _ _).sublist

/-- A name that is fit to be shown: it is not empty or too long, it has no slash, backslash or character
that is removed, and no space at its beginning. -/
structure Fit (s : Points) : Prop where
  ne_nil : s ≠ []
  length_le : s.length ≤ maxFilenameChars
  no_slash : slash ∉ s
  no_backslash : backslash ∉ s
  kept : ∀ c ∈ s, keeps u c = true
  head : ∀ c, s.head? = some c → isSpacePoint c = false

/-- The name of a document without a name is fit. -/
theorem fit_document : Fit u document where
  ne_nil := by decide
  length_le := by decide
  no_slash := by decide
  no_backslash := by decide
  kept := by
    have hrange : ∀ c ∈ document, 0x21 ≤ c ∧ c ≤ 0x7e := by decide
    intro c hc
    obtain ⟨hother, hseparator⟩ := u.category_graphic c (hrange c hc).1 (hrange c hc).2
    simp [keeps, Unicode.printable, hother, hseparator]
  head := by decide

/-- The first character of a prefix that is not empty. -/
theorem head?_of_start {s t : Points} (h : s <+: t) (hne : s ≠ []) : s.head? = t.head? := by
  obtain ⟨r, rfl⟩ := h
  exact (List.head?_append_of_ne_nil _ hne).symm

/-- What is left of a decoded name is fit, when it is cut. -/
theorem fit_core {s : Points} (hne : core u (toSlashes s) ≠ []) :
    Fit u ((core u (toSlashes s)).take maxFilenameChars) := by
  have hmem : ∀ c ∈ (core u (toSlashes s)).take maxFilenameChars,
      (c ≠ slash ∧ c ≠ backslash) ∧ keeps u c = true := by
    intro c hc
    have hbase := (trim_sublist _).mem ((List.take_sublist _ _).mem hc)
    obtain ⟨hbase, hkept⟩ := List.mem_filter.mp hbase
    rw [baseName_toSlashes] at hbase
    have hsegment := List.mem_rtakeWhile_imp hbase
    exact ⟨by simpa using hsegment, hkept⟩
  have hpos : 0 < maxFilenameChars := by decide
  have htaken : (core u (toSlashes s)).take maxFilenameChars ≠ [] := by
    rw [ne_eq, List.take_eq_nil_iff, not_or]
    exact ⟨hpos.ne', hne⟩
  refine ⟨htaken, List.length_take_le _ _, ?_, ?_, ?_, ?_⟩
  · exact fun h => (hmem slash h).1.1 rfl
  · exact fun h => (hmem backslash h).1.2 rfl
  · exact fun c hc => (hmem c hc).2
  · intro c hc
    have hstart : (core u (toSlashes s)).take maxFilenameChars <+:
        ((baseName (toSlashes s)).filter (keeps u)).dropWhile isSpacePoint :=
      ((List.take_prefix _ _).trans (List.rdropWhile_prefix isTail _)).trans
        (List.rdropWhile_prefix isSpacePoint _)
    rw [head?_of_start hstart htaken] at hc
    have hhead := List.head?_dropWhile_not isSpacePoint ((baseName (toSlashes s)).filter (keeps u))
    rw [hc] at hhead
    simpa using hhead

/-- A text that ends in a space or a dot. -/
def EndsInTail (s : Points) : Prop := ∃ c, s.getLast? = some c ∧ isTail c = true

/-- What is left of a decoded name does not end in a space or a dot. -/
theorem core_last (s : Points) : ¬ EndsInTail (core u s) := by
  rintro ⟨c, hc, htail⟩
  unfold core trim at hc
  have hne : (((((baseName s).filter (keeps u)).dropWhile isSpacePoint).rdropWhile isSpacePoint).rdropWhile
      isTail) ≠ [] := by
    intro hnil
    rw [hnil] at hc
    cases hc
  have hlast := List.rdropWhile_last_not isTail _ hne
  rw [List.getLast?_eq_some_getLast hne, Option.some.injEq] at hc
  rw [hc] at hlast
  exact hlast htail

/-- A fit name that does not end in a space or a dot is all that is left of it. -/
theorem core_fit {s : Points} (hfit : Fit u s) (hlast : ¬ EndsInTail s) : core u (toSlashes s) = s := by
  have hslashes : toSlashes s = s := toSlashes_eq hfit.no_backslash
  have hbase : baseName s = s := by
    unfold baseName
    rw [List.rtakeWhile_eq_self_iff]
    intro c hc
    have hne : c ≠ slash := fun heq => hfit.no_slash (heq ▸ hc)
    simpa using hne
  have hfilter : s.filter (keeps u) = s := List.filter_eq_self.mpr hfit.kept
  have hleft : s.dropWhile isSpacePoint = s := by
    rw [List.dropWhile_eq_self_iff]
    intro hpos
    have hhead := hfit.head s[0] (List.head?_eq_getElem?.trans (List.getElem?_eq_getElem hpos))
    rw [hhead]
    exact Bool.false_ne_true
  have hend : ∀ hne : s ≠ [], isTail (s.getLast hne) = false := by
    intro hne
    by_contra htail
    exact hlast ⟨_, List.getLast?_eq_some_getLast hne, by simpa using htail⟩
  -- The only space that is kept is the one that is trimmed with the dots.
  have hright : s.rdropWhile isSpacePoint = s := by
    rw [List.rdropWhile_eq_self_iff]
    intro hne hspace
    have hkept := hfit.kept _ (List.getLast_mem hne)
    have hnotail := hend hne
    generalize s.getLast hne = c at hspace hkept hnotail
    have hc : c ≠ 0x20 := by
      intro heq
      rw [heq] at hnotail
      cases hnotail
    rcases u.category_space c hspace hc with hother | hseparator
    · simp [keeps, hother] at hkept
    · simp [keeps, Unicode.printable, hseparator, hc] at hkept
  have htails : s.rdropWhile isTail = s := by
    rw [List.rdropWhile_eq_self_iff]
    intro hne htail
    rw [hend hne] at htail
    cases htail
  unfold core trim
  rw [hslashes, hbase, hfilter, hleft, hright, htails]

end Core

/-! ## The results -/

section Results

variable (u : Unicode) {name s : Points}

/-- What a name is normalised to. -/
theorem normalizeFilename_eq (h : name.length ≤ maxRawFilenameChars) :
    normalizeFilename u name = .ok ((if core u (toSlashes (decodeTwice (u.nfkc name))) = [] then document
      else core u (toSlashes (decodeTwice (u.nfkc name)))).take maxFilenameChars) := by
  unfold normalizeFilename decodedFilename
  rw [if_neg (Nat.not_lt.mpr h)]
  rfl

/-- The name of a document is not cut. -/
theorem take_document : document.take maxFilenameChars = document := by decide

/-- The name of a document is what it is normalised to. -/
theorem document_stable : u.nfkc document = document ∧ unquote document = document ∧ ¬ EndsInTail document := by
  refine ⟨u.nfkc_ascii document (by decide), if_pos (by decide), ?_⟩
  rintro ⟨c, hc, htail⟩
  have hlast : document.getLast? = some 0x74 := by decide
  rw [hlast, Option.some.injEq] at hc
  rw [← hc] at htail
  cases htail

/-- A result is fit, and does not end in a space or a dot unless it may have been cut. -/
theorem normalizeFilename_fit (h : name.length ≤ maxRawFilenameChars)
    (hs : normalizeFilename u name = .ok s) :
    Fit u s ∧ (s.length < maxFilenameChars → ¬ EndsInTail s) := by
  rw [normalizeFilename_eq u h, Except.ok.injEq] at hs
  by_cases hempty : core u (toSlashes (decodeTwice (u.nfkc name))) = []
  · rw [if_pos hempty, take_document] at hs
    rw [← hs]
    exact ⟨fit_document u, fun _ => (document_stable u).2.2⟩
  · rw [if_neg hempty] at hs
    refine ⟨hs ▸ fit_core u hempty, fun hlength => ?_⟩
    have hwhole : s = core u (toSlashes (decodeTwice (u.nfkc name))) := by
      rw [← hs, List.length_take] at hlength
      rw [← hs]
      exact List.take_of_length_le (by omega)
    rw [hwhole]
    exact core_last u _

/-- A fit name is normalised to itself exactly when it is folded and decoded to itself and does not end in
a space or a dot. -/
theorem normalizeFilename_iff (hfit : Fit u s) :
    normalizeFilename u s = .ok s ↔ u.nfkc s = s ∧ unquote s = s ∧ ¬ EndsInTail s := by
  have hmax : maxFilenameChars ≤ maxRawFilenameChars := by decide
  rw [normalizeFilename_eq u (hfit.length_le.trans hmax), Except.ok.injEq]
  constructor
  · intro hs
    by_cases hempty : core u (toSlashes (decodeTwice (u.nfkc s))) = []
    · rw [if_pos hempty, take_document] at hs
      rw [← hs]
      exact document_stable u
    · rw [if_neg hempty] at hs
      have hpart : (core u (toSlashes (decodeTwice (u.nfkc s)))).Sublist (decodeTwice (u.nfkc s)) :=
        core_sublist u _
      have hsublist : s.Sublist (decodeTwice (u.nfkc s)) := by
        conv_lhs => rw [← hs]
        exact (List.take_sublist _ _).trans hpart
      obtain ⟨hfold, hdecode⟩ := stable_of_sublist u hsublist
      have htwice : decodeTwice (u.nfkc s) = s := by
        rw [hfold, decodeTwice_eq, hdecode, hdecode]
      -- What is left is no longer than the name itself, so it has not been cut.
      rw [htwice] at hs hpart
      have hwhole : core u (toSlashes s) = s := by
        rw [List.take_of_length_le (hpart.length_le.trans hfit.length_le)] at hs
        exact hs
      refine ⟨hfold, hdecode, ?_⟩
      rw [← hwhole]
      exact core_last u _
  · rintro ⟨hfold, hdecode, hlast⟩
    have htwice : decodeTwice (u.nfkc s) = s := by
      rw [hfold, decodeTwice_eq, hdecode, hdecode]
    rw [htwice, core_fit u hfit hlast, if_neg hfit.ne_nil]
    exact List.take_of_length_le hfit.length_le

/-- A name that was accepted is accepted again, as it is; it is one component, and not reserved. -/
theorem validateFilename_again (h : validateFilename u name = .ok s) :
    validateFilename u s = .ok s ∧ Fit u s ∧ isDots s = false ∧ isReserved u s = false := by
  unfold validateFilename at h
  split at h
  · cases h
  · obtain ⟨normalized, hdecoded, h⟩ := except_bind_ok.mp h
    split at h
    · cases h
    · next hsegment =>
      obtain ⟨safe, hsafe, h⟩ := except_bind_ok.mp h
      split at h
      · cases h
      · next hsame =>
        split at h
        · cases h
        · next hdots =>
          cases h
          rw [not_or, not_not, Bool.not_eq_true] at hsame
          obtain ⟨rfl, hreserved⟩ := hsame
          have hlength : s.length ≤ maxRawFilenameChars := by
            by_contra hlong
            unfold normalizeFilename decodedFilename at hsafe
            rw [if_pos (Nat.lt_of_not_le hlong)] at hsafe
            cases hsafe
          have hfit := (normalizeFilename_fit u hlength hsafe).1
          obtain ⟨hfold, hdecode, -⟩ := (normalizeFilename_iff u hfit).mp hsafe
          have htwice : decodeTwice (u.nfkc s) = s := by
            rw [hfold, decodeTwice_eq, hdecode, hdecode]
          have hslashes : toSlashes s = s := toSlashes_eq hfit.no_backslash
          have hagain : decodedFilename u s = .ok s := by
            unfold decodedFilename
            rw [if_neg (Nat.not_lt.mpr hlength), htwice, hslashes]
          have hfirst : ¬ (s = [] ∨ maxRawFilenameChars < s.length) :=
            not_or.mpr ⟨hfit.ne_nil, Nat.not_lt.mpr hlength⟩
          refine ⟨?_, hfit, ?_, hreserved⟩
          · unfold validateFilename
            rw [if_neg hfirst, hagain]
            show (if _ then _ else _) = _
            rw [if_neg hsegment, hsafe]
            show (if _ then _ else _) = _
            rw [if_neg (not_or.mpr ⟨not_not_intro rfl, by simp [hreserved]⟩), if_neg hdots]
            rfl
          · rw [not_or] at hdots
            simpa using hdots.2

end Results

/-- The result of `normalize_filename` has between one and 256 characters, and no slash, backslash or
control character; it does not end in a space or a dot, unless it has been cut; and it is what it is
normalised to exactly when it is folded and decoded to itself and does not end so. A name that
`validate_filename` returned is returned again; it is one component, and not a reserved name. -/
theorem filename_canonical (u : Unicode) (name : Points) :
    (name.length ≤ maxRawFilenameChars → ∃ s, normalizeFilename u name = .ok s ∧
      (1 ≤ s.length ∧ s.length ≤ maxFilenameChars) ∧ (slash ∉ s ∧ backslash ∉ s) ∧
      (∀ c ∈ s, (u.category c).1 ≠ 'C') ∧ (s.length < maxFilenameChars → ¬ EndsInTail s) ∧
      (normalizeFilename u s = .ok s ↔ u.nfkc s = s ∧ unquote s = s ∧ ¬ EndsInTail s)) ∧
    ∀ s, validateFilename u name = .ok s →
      validateFilename u s = .ok s ∧ (s ≠ [] ∧ slash ∉ s ∧ backslash ∉ s ∧ isDots s = false) ∧
        isReserved u s = false := by
  constructor
  · intro hname
    have hs := normalizeFilename_eq u hname
    obtain ⟨hfit, hlast⟩ := normalizeFilename_fit u hname hs
    refine ⟨_, hs, ⟨List.length_pos_iff.mpr hfit.ne_nil, hfit.length_le⟩,
      ⟨hfit.no_slash, hfit.no_backslash⟩, ?_, hlast, normalizeFilename_iff u hfit⟩
    intro c hc
    have hkept := hfit.kept c hc
    unfold keeps at hkept
    simpa using (Bool.and_eq_true_iff.mp hkept).1
  · intro s hs
    obtain ⟨hagain, hfit, hdots, hreserved⟩ := validateFilename_again u hs
    exact ⟨hagain, ⟨hfit.ne_nil, hfit.no_slash, hfit.no_backslash, hdots⟩, hreserved⟩

/-- The tables as far as ASCII goes. -/
def ascii : Unicode where
  nfkc s := s
  decomposition c := [c]
  category c :=
    if c < 0x20 ∨ c = 0x7f ∨ c = 0x85 then ('C', 'c')
    else if isSpacePoint c then ('Z', 's')
    else if 0x30 ≤ c ∧ c ≤ 0x39 then ('N', 'd')
    else if 0x41 ≤ c ∧ c ≤ 0x5a then ('L', 'u')
    else if 0x61 ≤ c ∧ c ≤ 0x7a then ('L', 'l')
    else ('P', 'o')
  upper s := s.map fun c => if 0x61 ≤ c ∧ c ≤ 0x7a then c - 0x20 else c
  nfkc_nfkc _ := rfl
  nfkc_ascii _ _ := rfl
  nfkc_decomposition _ := .refl _
  decomposition_ne_nil c := List.cons_ne_nil c []
  decomposition_ascii _ _ := rfl
  decomposition_percent c := by
    rw [List.count_singleton]
    split <;> omega
  decomposition_replacement := rfl
  category_space c hspace hc := by
    split_ifs <;> simp
  category_graphic c hlow hhigh := by
    have hspace : isSpacePoint c = false := by
      simp only [isSpacePoint, Bool.or_eq_false_iff, Bool.and_eq_false_iff, decide_eq_false_iff_not,
        beq_eq_false_iff_ne]
      omega
    rw [if_neg (by omega), hspace]
    split_ifs <;> simp_all

/-- A name that is accepted, and again. -/
theorem filename_canonical_space :
    validateFilename ascii (points "a%20b.txt") = .ok (points "a b.txt") ∧
    validateFilename ascii (points "a b.txt") = .ok (points "a b.txt") := by
  have haccepted : validateFilename ascii (points "a%20b.txt") = .ok (points "a b.txt") := by decide +kernel
  exact ⟨haccepted, ((filename_canonical ascii (points "a%20b.txt")).2 _ haccepted).1⟩

/-- A name that is encoded three times is decoded twice, and then once more; and a cut may leave a dot at
the end. -/
theorem normalised_again_differs :
    normalizeFilename ascii (points "%252541") = .ok (points "%41") ∧
    normalizeFilename ascii (points "%41") = .ok (points "A") ∧
    normalizeFilename ascii (List.replicate 255 0x61 ++ points ".b") =
      .ok (List.replicate 255 0x61 ++ points ".") := by
  refine ⟨rfl, rfl, ?_⟩
  decide +kernel

end Filename

end RickIntelligence.Ingestion
