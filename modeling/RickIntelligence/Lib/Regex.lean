import RickIntelligence.Lib.Text

/-!
# Regular expressions with anchors

`Regex.ends r b s` lists what can be left of the text `s` after a match of `r` that begins at its
first character; `b` says whether that is the beginning of the whole text, which `^` asks for. A
search tries every position (`search`).
-/

namespace RickIntelligence.Lib

/-- A regular expression over character classes, with the anchors `^` and `$`. -/
inductive Regex where
  | eps
  | bos
  | eos
  | cls (p : Char → Bool)
  | seq (a b : Regex)
  | alt (a b : Regex)
  | star (a : Regex)

namespace Regex

/-- What is left of a text, and whether its beginning is still that of the whole text. -/
abbrev Rest := Bool × List Char

/-- The rests after any number of rounds of `f`, of which every one consumes a character. -/
def starEnds (f : Bool → List Char → List Rest) : ℕ → Bool → List Char → List Rest
  | 0, b, s => [(b, s)]
  | n + 1, b, s =>
    (b, s) :: ((f b s).filter fun q => decide (q.2.length < s.length)).flatMap fun q =>
      starEnds f n q.1 q.2

/-- The rests of a text after a match that begins at its first character. -/
def ends : Regex → Bool → List Char → List Rest
  | eps, b, s => [(b, s)]
  | bos, b, s => if b then [(b, s)] else []
  | eos, b, s => if s.isEmpty then [(b, s)] else []
  | cls _, _, [] => []
  | cls p, _, c :: s => if p c then [(false, s)] else []
  | seq r t, b, s => (ends r b s).flatMap fun q => ends t q.1 q.2
  | alt r t, b, s => ends r b s ++ ends t b s
  | star r, b, s => starEnds (fun b s => ends r b s) s.length b s

/-- A match at some position of a text. -/
def searchFrom (r : Regex) : Bool → List Char → Bool
  | b, [] => !(ends r b []).isEmpty
  | b, c :: s => !(ends r b (c :: s)).isEmpty || searchFrom r false s

/-- `re.search`. -/
def search (r : Regex) (s : List Char) : Bool := searchFrom r true s

/-! ## Building expressions -/

/-- One of the characters of a string. -/
def oneOf (s : String) : Regex := cls fun c => s.toList.contains c

/-- One character, in either case. -/
def charI (c : Char) : Regex := cls fun x => lowerChar x == lowerChar c

/-- A word, in either case. -/
def wordI (s : String) : Regex := s.toList.foldr (fun c r => seq (charI c) r) eps

/-- `r?`. -/
def opt (r : Regex) : Regex := alt r eps

/-- `r+`. -/
def plus (r : Regex) : Regex := seq r (star r)

/-- Alternatives. -/
def altAll (r : Regex) (rs : List Regex) : Regex := rs.foldl alt r

/-- The expressions one after the other. -/
def seqAll (rs : List Regex) : Regex := rs.foldr seq eps

/-- `r{n,}`. -/
def atLeast (n : ℕ) (r : Regex) : Regex := seq (seqAll (List.replicate n r)) (star r)

end Regex

end RickIntelligence.Lib
