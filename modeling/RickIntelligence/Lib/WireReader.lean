import RickIntelligence.Lib.Wire

/-!
# Reading JSON documents

The reader of JSON text as a machine that takes one character at a time. Its state is what it is in the
middle of and the lists and dictionaries that are open around it, so that reading is structural in the text,
whatever the nesting. What becomes of the members of a dictionary and of the constants `NaN`, `Infinity` and
`-Infinity` is left to hooks.

`loads_render` is the round trip, for documents whose texts can be spelled. `loads_spelled` says that all that
is read can be spelled again.
-/

namespace RickIntelligence.Lib.Wire

variable {F : Type}

/-! ## The machine -/

/-- `parse_constant` and `object_pairs_hook`: nothing if they raise. -/
structure Hooks (F : Type) where
  constant : CodePoints → Option F
  pairs : List (CodePoints × Wire F) → Option (List (CodePoints × Wire F))

/-- A blank between tokens. -/
def isBlank (c : ℕ) : Bool := c == 0x20 || c == 0x09 || c == 0x0a || c == 0x0d

/-- The first half of a surrogate pair. -/
def isHigh (c : ℕ) : Bool := 0xd800 ≤ c && c ≤ 0xdbff

/-- The second half of a surrogate pair. -/
def isLow (c : ℕ) : Bool := 0xdc00 ≤ c && c ≤ 0xdfff

/-- The text of a string: the escapes of two halves that follow each other are one character. -/
def joinUnits : List CodeUnit → CodePoints
  | .escaped h :: .escaped l :: us =>
    if isHigh h && isLow l then (0x10000 + (h - 0xd800) * 1024 + (l - 0xdc00)) :: joinUnits us
    else h :: joinUnits (.escaped l :: us)
  | .escaped h :: us => h :: joinUnits us
  | .raw c :: us => c :: joinUnits us
  | [] => []

/-- The value of a hexadecimal digit. -/
def hexValue (c : ℕ) : Option ℕ :=
  if 0x30 ≤ c ∧ c ≤ 0x39 then some (c - 0x30)
  else if 0x61 ≤ c ∧ c ≤ 0x66 then some (c - 0x57)
  else if 0x41 ≤ c ∧ c ≤ 0x46 then some (c - 0x37)
  else none

/-- Where a string is: between units, after a backslash, or within the four digits of an escape, with those
read so far. -/
inductive Lexing where
  | plain
  | backslash
  | hex (count value : ℕ)

/-- What a string is for: a value, or a name after some members of a dictionary. -/
inductive Purpose (F : Type) where
  | value
  | name (members : List (CodePoints × Wire F))

/-- What the reader is in the middle of: it expects a value; an item or a name, or the end of the list or
dictionary if that has just begun; it reads a string; it expects the colon after a name; it reads a number or
a literal name; or it has read a value. -/
inductive Mode (F : Type) where
  | value
  | item (items : List (Wire F)) (first : Bool)
  | name (members : List (CodePoints × Wire F)) (first : Bool)
  | string (purpose : Purpose F) (lexing : Lexing) (units : List CodeUnit)
  | colon (members : List (CodePoints × Wire F)) (name : CodePoints)
  | token (text : CodePoints)
  | done (w : Wire F)

/-- A list that is open, with its items so far, or a dictionary, with its members and the name whose value
is read. -/
inductive Frame (F : Type) where
  | list (items : List (Wire F))
  | dict (members : List (CodePoints × Wire F)) (name : CodePoints)

/-- The state of the reader. -/
structure State (F : Type) where
  mode : Mode F
  stack : List (Frame F)

/-- The value of some digits. -/
def natOf (digits : CodePoints) : ℕ := Nat.ofDigits 10 (digits.reverse.map (· - 0x30))

/-- A number. Too many digits of a whole number are refused. -/
def readNumber (fl : Floats F) (text : CodePoints) : Option (Wire F) :=
  let digits := (unsigned text).takeWhile isDigit
  if !isWhole digits then none
  else if (unsigned text).dropWhile isDigit = [] then
    if maxStrDigits < digits.length then none
    else some (.int (if text.head? = some 0x2d then -(natOf digits : ℤ) else natOf digits))
  else if isTail ((unsigned text).dropWhile isDigit) then some (.float (fl.parse text))
  else none

/-- A literal name, a constant or a number. -/
def readToken (fl : Floats F) (hooks : Hooks F) (text : CodePoints) : Option (Wire F) :=
  if text = [0x6e, 0x75, 0x6c, 0x6c] then some .null
  else if text = [0x74, 0x72, 0x75, 0x65] then some (.bool true)
  else if text = [0x66, 0x61, 0x6c, 0x73, 0x65] then some (.bool false)
  else if text = [0x4e, 0x61, 0x4e] ∨ text = [0x49, 0x6e, 0x66, 0x69, 0x6e, 0x69, 0x74, 0x79] ∨
      text = [0x2d, 0x49, 0x6e, 0x66, 0x69, 0x6e, 0x69, 0x74, 0x79] then (hooks.constant text).map .float
  else readNumber fl text

/-- A value begins. -/
def beginValue (stack : List (Frame F)) (c : ℕ) : Option (State F) :=
  if c = 0x22 then some ⟨.string .value .plain [], stack⟩
  else if c = 0x5b then some ⟨.item [] true, stack⟩
  else if c = 0x7b then some ⟨.name [] true, stack⟩
  else if isTokenChar c then some ⟨.token [c], stack⟩
  else none

/-- A character after a value. -/
def afterValue (hooks : Hooks F) (w : Wire F) (stack : List (Frame F)) (c : ℕ) : Option (State F) :=
  if isBlank c then some ⟨.done w, stack⟩
  else match stack with
    | [] => none
    | .list items :: stack =>
      if c = 0x2c then some ⟨.item (items ++ [w]) false, stack⟩
      else if c = 0x5d then some ⟨.done (.list (items ++ [w])), stack⟩
      else none
    | .dict members name :: stack =>
      if c = 0x2c then some ⟨.name (members ++ [(name, w)]) false, stack⟩
      else if c = 0x7d then
        (hooks.pairs (members ++ [(name, w)])).map fun ms => ⟨.done (.dict ms), stack⟩
      else none

/-- A character within a string: the text that it ends, or how the string goes on. -/
def stepString (lexing : Lexing) (units : List CodeUnit) (c : ℕ) :
    Option (CodePoints ⊕ Lexing × List CodeUnit) :=
  match lexing with
  | .plain =>
    if c = 0x22 then some (.inl (joinUnits units))
    else if c = 0x5c then some (.inr (.backslash, units))
    else if c < 0x20 then none
    else some (.inr (.plain, units ++ [.raw c]))
  | .backslash =>
    if c = 0x75 then some (.inr (.hex 0 0, units))
    else if c = 0x2f then some (.inr (.plain, units ++ [.raw c]))
    else (shortEscapes.find? fun e => e.2 == c).map fun e => .inr (.plain, units ++ [.raw e.1])
  | .hex count value =>
    (hexValue c).map fun d =>
      if count = 3 then .inr (.plain, units ++ [.escaped (value * 16 + d)])
      else .inr (.hex (count + 1) (value * 16 + d), units)

/-- A string that has been read. -/
def endString (stack : List (Frame F)) (s : CodePoints) : Purpose F → State F
  | .value => ⟨.done (.str s), stack⟩
  | .name members => ⟨.colon members s, stack⟩

/-- A character. -/
def step (fl : Floats F) (hooks : Hooks F) : State F → ℕ → Option (State F)
  | ⟨.value, stack⟩, c => if isBlank c then some ⟨.value, stack⟩ else beginValue stack c
  | ⟨.item items first, stack⟩, c =>
    if isBlank c then some ⟨.item items first, stack⟩
    else if first = true ∧ c = 0x5d then some ⟨.done (.list items), stack⟩
    else beginValue (.list items :: stack) c
  | ⟨.name members first, stack⟩, c =>
    if isBlank c then some ⟨.name members first, stack⟩
    else if first = true ∧ c = 0x7d then (hooks.pairs members).map fun ms => ⟨.done (.dict ms), stack⟩
    else if c = 0x22 then some ⟨.string (.name members) .plain [], stack⟩
    else none
  | ⟨.string purpose lexing units, stack⟩, c =>
    (stepString lexing units c).map fun
      | .inl s => endString stack s purpose
      | .inr r => ⟨.string purpose r.1 r.2, stack⟩
  | ⟨.colon members name, stack⟩, c =>
    if isBlank c then some ⟨.colon members name, stack⟩
    else if c = 0x3a then some ⟨.value, .dict members name :: stack⟩
    else none
  | ⟨.token text, stack⟩, c =>
    if isTokenChar c then some ⟨.token (text ++ [c]), stack⟩
    else (readToken fl hooks text).bind fun w => afterValue hooks w stack c
  | ⟨.done w, stack⟩, c => afterValue hooks w stack c

/-- The end of the text. -/
def finish (fl : Floats F) (hooks : Hooks F) : State F → Option (Wire F)
  | ⟨.done w, []⟩ => some w
  | ⟨.token text, []⟩ => readToken fl hooks text
  | _ => none

/-- A text, character by character. -/
def run (fl : Floats F) (hooks : Hooks F) : State F → CodePoints → Option (State F)
  | st, [] => some st
  | st, c :: text => (step fl hooks st c).bind fun st => run fl hooks st text

/-- `json.loads`: nothing if it raises `ValueError`. -/
def loads (fl : Floats F) (hooks : Hooks F) (text : CodePoints) : Option (Wire F) :=
  (run fl hooks ⟨.value, []⟩ text).bind (finish fl hooks)

/-- The hook that refuses a name that occurs twice. -/
def rejectDuplicates (members : List (CodePoints × Wire F)) : Option (List (CodePoints × Wire F)) :=
  if (members.map Prod.fst).Nodup then some members else none

/-! ## What can be spelled -/

/-- No first half of a surrogate pair stands before a second one. -/
def noPair : CodePoints → Bool
  | a :: b :: s => !(isHigh a && isLow b) && noPair (b :: s)
  | _ => true

/-- A text that is read back from its spelling: any text if it is not spelled in ASCII, and otherwise one of
code points in which no two halves of a pair follow each other. -/
def spelled (ascii : Bool) (s : CodePoints) : Bool := !ascii || (s.all (· < 0x110000) && noPair s)

/-- The texts of a document can be spelled, and the names of a dictionary are different. -/
def wellSpelled (ascii : Bool) : Wire F → Bool
  | .str s => spelled ascii s
  | .dict members => (members.map Prod.fst).all (spelled ascii) && decide (members.map Prod.fst).Nodup
  | _ => true

/-- A document that is read back when it is written. -/
def sound (fl : Floats F) (ascii : Bool) (w : Wire F) : Bool := writable fl w && wellSpelled ascii w

/-- The hook for the members keeps those that have different names. -/
def Hooks.KeepsDistinct (hooks : Hooks F) : Prop :=
  ∀ members, (members.map Prod.fst).Nodup → hooks.pairs members = some members

/-- Members without a repeated name are not refused. -/
theorem rejectDuplicates_keeps (constant : CodePoints → Option F) :
    Hooks.KeepsDistinct ⟨constant, rejectDuplicates⟩ := fun _ h => if_pos h

/-! ## Numbers are read back -/

section Numbers

variable {fl : Floats F} {hooks : Hooks F}

/-- A digit is a character of a token. -/
theorem isTokenChar_of_isDigit {c : ℕ} (h : isDigit c = true) : isTokenChar c = true := by
  unfold isDigit at h
  simp only [Bool.and_eq_true, decide_eq_true_eq] at h
  have hc : c ∈ List.range' 0x30 10 := by
    rw [List.mem_range']
    exact ⟨c - 0x30, by omega, by omega⟩
  have hall : ∀ d ∈ List.range' 0x30 10, isTokenChar d = true := by decide
  exact hall c hc

/-- A character of a number is one of a token, and in ASCII. -/
theorem numberChar_facts {c : ℕ} (h : isNumberChar c = true) : isTokenChar c = true ∧ c < 0x80 := by
  unfold isNumberChar at h
  rw [Bool.or_eq_true] at h
  rcases h with hdigit | hother
  · refine ⟨isTokenChar_of_isDigit hdigit, ?_⟩
    unfold isDigit at hdigit
    simp only [Bool.and_eq_true, decide_eq_true_eq] at hdigit
    omega
  · have hall : ∀ d ∈ ([0x2b, 0x2d, 0x2e, 0x45, 0x65] : List ℕ), isTokenChar d = true ∧ d < 0x80 := by
      decide
    exact hall c (List.contains_iff_mem.mp hother)

/-- The text of a finite number with a fraction is a token. -/
theorem repr_token {x : F} (h : fl.finite x = true) : (fl.repr x).all isTokenChar = true := by
  rw [List.all_eq_true]
  intro c hc
  exact (numberChar_facts (List.all_eq_true.mp (fl.repr_chars x h) c hc)).1

/-- The digits of a number are digits. -/
theorem natText_digits (n : ℕ) : ∀ c ∈ natText n, isDigit c = true := by
  intro c hc
  unfold natText at hc
  unfold isDigit
  split at hc
  · rw [List.mem_singleton] at hc
    subst hc
    rfl
  · obtain ⟨d, hd, rfl⟩ := List.mem_map.mp hc
    have hlt := Nat.digits_lt_base (by omega : 1 < 10) (List.mem_reverse.mp hd)
    simp only [Bool.and_eq_true, decide_eq_true_eq]
    omega

/-- The digits of a number are those of a whole part. -/
theorem natText_isWhole (n : ℕ) : isWhole (natText n) = true := by
  unfold natText
  split
  · rfl
  · next hn =>
    have hne : Nat.digits 10 n ≠ [] := Nat.digits_ne_nil_iff_ne_zero.mpr hn
    have hlast := Nat.getLast_digit_ne_zero 10 hn
    unfold isWhole
    rw [List.head?_map, List.head?_reverse, List.getLast?_eq_some_getLast hne, Option.map_some]
    have hhead : (some (0x30 + (Nat.digits 10 n).getLast hne) != some 0x30) = true := by
      simpa using hlast
    rw [hhead, Bool.true_or, Bool.and_true]
    simpa using hne

/-- The digits of a number are read as that number. -/
theorem natOf_natText (n : ℕ) : natOf (natText n) = n := by
  unfold natOf natText
  split
  · next hn =>
    subst hn
    rfl
  · have hdigits : (((Nat.digits 10 n).reverse.map (0x30 + ·)).reverse) = (Nat.digits 10 n).map (0x30 + ·) := by
      rw [List.map_reverse, List.reverse_reverse]
    rw [hdigits, List.map_map]
    have hid : ((fun c => c - 0x30) ∘ fun d => 0x30 + d) = id := by
      funext d
      show 0x30 + d - 0x30 = d
      omega
    rw [hid, List.map_id]
    exact Nat.ofDigits_digits 10 n

/-- A digit is no minus sign. -/
theorem natText_head (n : ℕ) : (natText n).head? ≠ some 0x2d := by
  intro h
  have hdigit := natText_digits n 0x2d (List.mem_of_head? h)
  exact absurd hdigit (by decide)

/-- The digits of a whole number, without its sign. -/
theorem unsigned_intText (n : ℤ) : unsigned (intText n) = natText n.natAbs := by
  unfold intText
  split
  · rfl
  · exact if_neg (natText_head _)

/-- What begins like a number is read as one. -/
theorem readToken_of_isWhole {text : CodePoints}
    (h : isWhole ((unsigned text).takeWhile isDigit) = true) :
    readToken fl hooks text = readNumber fl text := by
  have hne : ∀ s : CodePoints, isWhole ((unsigned s).takeWhile isDigit) = false → text ≠ s := by
    rintro s hs rfl
    rw [hs] at h
    cases h
  unfold readToken
  rw [if_neg (hne _ (by decide)), if_neg (hne _ (by decide)), if_neg (hne _ (by decide)), if_neg]
  rintro (h1 | h1 | h1)
  · exact hne _ (by decide) h1
  · exact hne _ (by decide) h1
  · exact hne _ (by decide) h1

/-- A whole number that is not too long is read back. -/
theorem readToken_intText {n : ℤ} (h : (natText n.natAbs).length ≤ maxStrDigits) :
    readToken fl hooks (intText n) = some (.int n) := by
  have hdigits := natText_digits n.natAbs
  have htake : (unsigned (intText n)).takeWhile isDigit = natText n.natAbs := by
    rw [unsigned_intText]
    exact List.takeWhile_eq_self_iff.mpr hdigits
  have hdrop : (unsigned (intText n)).dropWhile isDigit = [] := by
    rw [unsigned_intText]
    exact List.dropWhile_eq_nil_iff.mpr hdigits
  have hwhole : isWhole ((unsigned (intText n)).takeWhile isDigit) = true := by
    rw [htake]
    exact natText_isWhole _
  rw [readToken_of_isWhole hwhole]
  unfold readNumber
  simp only [htake, hdrop, natText_isWhole, natOf_natText, Bool.not_true, Bool.false_eq_true, if_false,
    if_true, if_neg (Nat.not_lt.mpr h)]
  congr 2
  unfold intText
  split
  · rw [List.head?_cons, if_pos rfl]
    omega
  · rw [if_neg (natText_head _)]
    omega

/-- A finite number with a fraction is read back. -/
theorem readToken_repr {x : F} (h : fl.finite x = true) :
    readToken fl hooks (fl.repr x) = some (.float x) := by
  have hfloat := fl.repr_float x h
  unfold isFloatText at hfloat
  rw [Bool.and_eq_true] at hfloat
  have hdrop : (unsigned (fl.repr x)).dropWhile isDigit ≠ [] := by
    intro hnil
    rw [hnil] at hfloat
    cases hfloat.2
  rw [readToken_of_isWhole hfloat.1]
  unfold readNumber
  simp only [hfloat.1, hfloat.2, Bool.not_true, Bool.false_eq_true, if_false, if_neg hdrop, if_true,
    fl.parse_repr x h]

/-- A whole number is a token. -/
theorem intText_token (n : ℤ) : (intText n).all isTokenChar = true := by
  have hall : ∀ c ∈ natText n.natAbs, isTokenChar c = true := fun c hc =>
    isTokenChar_of_isDigit (natText_digits _ c hc)
  unfold intText
  split
  · rw [List.all_cons, List.all_eq_true.mpr hall]
    rfl
  · exact List.all_eq_true.mpr hall

/-- The digits before a fraction that is zero. -/
theorem natText_fraction (n : ℕ) :
    (natText n ++ [0x2e, 0x30]).takeWhile isDigit = natText n ∧
      (natText n ++ [0x2e, 0x30]).dropWhile isDigit = [0x2e, 0x30] := by
  have htake : (natText n ++ [0x2e, 0x30]).takeWhile isDigit = natText n ++ [0x2e, 0x30].takeWhile isDigit :=
    List.takeWhile_append_of_pos (natText_digits n)
  refine ⟨?_, List.dropWhile_append_of_pos (natText_digits n)⟩
  rw [htake]
  exact List.append_nil _

/-- Whole numbers as numbers with a fraction that is zero, written like `7.0`. -/
def wholeFloats : Floats ℕ where
  finite _ := true
  repr n := natText n ++ [0x2e, 0x30]
  parse text := natOf (text.takeWhile isDigit)
  constant _ := 0
  equals x n := (x : ℤ) == n
  repr_chars n _ := by
    rw [List.all_append, Bool.and_eq_true, List.all_eq_true]
    refine ⟨?_, by decide⟩
    intro c hc
    unfold isNumberChar
    rw [natText_digits n c hc, Bool.true_or]
  repr_float n _ := by
    have hhead : (natText n ++ [0x2e, 0x30]).head? ≠ some 0x2d := by
      intro h
      cases hdigits : natText n with
      | nil =>
        rw [hdigits] at h
        cases h
      | cons d ds =>
        rw [hdigits] at h
        exact natText_head n (by rw [hdigits]; exact h)
    obtain ⟨htake, hdrop⟩ := natText_fraction n
    unfold isFloatText unsigned
    rw [if_neg hhead, htake, hdrop, natText_isWhole]
    rfl
  parse_repr n _ := by rw [(natText_fraction n).1, natOf_natText]

end Numbers

/-! ## Strings are read back -/

section Strings

/-- A hexadecimal digit is read back. -/
theorem hexValue_hexDigit {n : ℕ} (h : n < 16) : hexValue (hexDigit n) = some n := by
  interval_cases n <;> rfl

variable {us : List CodeUnit} {c : ℕ} {ascii : Bool} {s : CodePoints} {u : CodeUnit}

/-- An escape that no second half follows is a character of its own. -/
theorem joinUnits_escaped {h : ℕ} (hnext : ∀ l, us.head? = some (.escaped l) → (isHigh h && isLow l) = false) :
    joinUnits (.escaped h :: us) = h :: joinUnits us := by
  cases us with
  | nil => rfl
  | cons u us =>
    cases u with
    | raw c => rfl
    | escaped l =>
      have hpair := hnext l rfl
      rw [joinUnits, hpair]
      rfl

/-- The halves of a code point. -/
theorem halves (h : 0x10000 ≤ c) (h' : c < 0x110000) :
    isHigh (highHalf c) = true ∧ isLow (lowHalf c) = true ∧
      0x10000 + (highHalf c - 0xd800) * 1024 + (lowHalf c - 0xdc00) = c := by
  unfold isHigh isLow highHalf lowHalf
  simp only [Bool.and_eq_true, decide_eq_true_eq]
  omega

/-- A first half is no second one. -/
theorem isLow_highHalf (c : ℕ) : isLow (highHalf c) = false := by
  unfold isLow highHalf
  simp only [Bool.and_eq_false_iff, decide_eq_false_iff_not]
  omega

/-- If a character is spelled with an escape first, that is a half of a pair of its own, or the character. -/
theorem head_unitsOf {l : ℕ} (h : (unitsOf ascii c ++ us).head? = some (.escaped l)) : l = highHalf c ∨ l = c := by
  unfold unitsOf at h
  split at h
  · cases h
  · split at h
    · split at h
      · cases h
        exact .inr rfl
      · cases h
        exact .inl rfl
    · cases h

/-- The spelling of a text is read as that text. -/
theorem joinUnits_unitsOf (h : spelled ascii s = true) :
    joinUnits (s.flatMap (unitsOf ascii)) = s := by
  induction s with
  | nil => rfl
  | cons c s ih =>
    have hrest : spelled ascii s = true := by
      unfold spelled at h ⊢
      cases ascii with
      | false => rfl
      | true =>
        simp only [Bool.not_true, Bool.false_or, Bool.and_eq_true, List.all_cons] at h ⊢
        refine ⟨h.1.2, ?_⟩
        cases s with
        | nil => rfl
        | cons d s =>
          have hpair := h.2
          rw [noPair, Bool.and_eq_true] at hpair
          exact hpair.2
    rw [List.flatMap_cons, unitsOf]
    split
    · rw [List.singleton_append, joinUnits, ih hrest]
    · next hshort =>
      split
      · next hescaped =>
        split
        · next hplane =>
          -- One escape: no second half follows it.
          rw [List.singleton_append, joinUnits_escaped, ih hrest]
          intro l hl
          cases s with
          | nil => cases hl
          | cons d s =>
            rcases head_unitsOf hl with rfl | rfl
            · rw [isLow_highHalf, Bool.and_false]
            · unfold spelled at h
              cases ascii with
              | false =>
                have hlt : c < 0x20 := by simpa using hescaped
                have hhigh : isHigh c = false := by
                  unfold isHigh
                  simp only [Bool.and_eq_false_iff, decide_eq_false_iff_not]
                  omega
                rw [hhigh, Bool.false_and]
              | true =>
                simp only [Bool.not_true, Bool.false_or, Bool.and_eq_true] at h
                have hpair := h.2
                rw [noPair, Bool.and_eq_true] at hpair
                rw [Bool.not_eq_true'] at hpair
                exact hpair.1
        · next hplane =>
          -- The two halves are joined.
          have hascii : ascii = true := by
            rcases hescaped with hlt | hascii
            · omega
            · exact hascii.1
          subst hascii
          unfold spelled at h
          simp only [Bool.not_true, Bool.false_or, Bool.and_eq_true, List.all_cons, decide_eq_true_eq] at h
          obtain ⟨hhigh, hlow, hvalue⟩ := halves (Nat.le_of_not_lt hplane) h.1.1
          rw [List.cons_append, List.singleton_append, joinUnits, hhigh, hlow, hvalue, ih hrest]
          rfl
      · rw [List.singleton_append, joinUnits, ih hrest]

variable {fl : Floats F} {hooks : Hooks F}

/-- The first character of a text. -/
theorem run_cons (st : State F) (c : ℕ) (text : CodePoints) :
    run fl hooks st (c :: text) = (step fl hooks st c).bind fun st => run fl hooks st text := rfl

/-- A text in two parts. -/
theorem run_append (st : State F) (a b : CodePoints) :
    run fl hooks st (a ++ b) = (run fl hooks st a).bind fun st => run fl hooks st b := by
  induction a generalizing st with
  | nil => rfl
  | cons c a ih =>
    rw [List.cons_append, run_cons, run_cons, Option.bind_assoc]
    cases step fl hooks st c with
    | none => rfl
    | some st => exact ih st

/-- A unit that can be written: a character that is not a control character or has an escape of its own, or
an escape of 16 bits. -/
def CodeUnit.Written : CodeUnit → Prop
  | .raw c => (shortEscapes.lookup c).isSome ∨ 0x20 ≤ c
  | .escaped n => n < 0x10000

/-- The units of a character can be written. -/
theorem written_unitsOf (h : u ∈ unitsOf ascii c) : u.Written := by
  unfold unitsOf at h
  split at h
  · next hshort =>
    rw [List.mem_singleton.mp h]
    exact .inl hshort
  · split at h
    · split at h
      · next hplane =>
        rw [List.mem_singleton.mp h]
        exact hplane
      · rcases List.mem_cons.mp h with rfl | h
        · show highHalf c < 0x10000
          unfold highHalf
          omega
        · rw [List.mem_singleton.mp h]
          show lowHalf c < 0x10000
          unfold lowHalf
          omega
    · next hplain =>
      rw [List.mem_singleton.mp h]
      right
      have hlt : ¬ c < 0x20 := fun hlt => hplain (.inl hlt)
      omega

/-- A unit is read back. -/
theorem run_write (h : u.Written) (purpose : Purpose F) (us : List CodeUnit) (stack : List (Frame F))
    (rest : CodePoints) :
    run fl hooks ⟨.string purpose .plain us, stack⟩ (u.write ++ rest) =
      run fl hooks ⟨.string purpose .plain (us ++ [u]), stack⟩ rest := by
  cases u with
  | raw c =>
    cases hlookup : shortEscapes.lookup c with
    | some letter =>
      have hmem : (c, letter) ∈ shortEscapes := by
        obtain ⟨l, l', heq, -⟩ := List.lookup_eq_some_iff.mp hlookup
        rw [heq]
        simp
      simp only [shortEscapes, List.mem_cons, Prod.mk.injEq, List.not_mem_nil, or_false] at hmem
      rcases hmem with h | h | h | h | h | h | h <;> obtain ⟨rfl, rfl⟩ := h <;> rfl
    | none =>
      have hquote : c ≠ 0x22 := by
        rintro rfl
        cases hlookup
      have hback : c ≠ 0x5c := by
        rintro rfl
        cases hlookup
      have hcontrol : ¬ c < 0x20 := by
        rcases h with hshort | hle
        · rw [hlookup] at hshort
          cases hshort
        · omega
      have hwrite : (CodeUnit.raw c).write = [c] := by simp only [CodeUnit.write, hlookup]
      rw [hwrite, List.singleton_append, run_cons]
      simp only [step, stepString, if_neg hquote, if_neg hback, if_neg hcontrol, Option.map_some,
        Option.bind_some]
  | escaped n =>
    have hlt : n < 0x10000 := h
    have hdigit : ∀ m : ℕ, hexValue (hexDigit (m % 16)) = some (m % 16) := fun m =>
      hexValue_hexDigit (Nat.mod_lt m (by omega))
    have hvalue : ((((0 * 16 + n / 4096 % 16) * 16 + n / 256 % 16) * 16 + n / 16 % 16) * 16 + n % 16) = n := by
      omega
    unfold CodeUnit.write hex4
    simp only [List.cons_append, List.nil_append, run_cons, step, stepString, hdigit, Option.map_some,
      Option.bind_some, hvalue, if_true, Nat.reduceEqDiff, if_false, Nat.reduceAdd]

/-- Units are read back one after another. -/
theorem run_writes {units : List CodeUnit} (h : ∀ u ∈ units, u.Written) (purpose : Purpose F)
    (us : List CodeUnit) (stack : List (Frame F)) (rest : CodePoints) :
    run fl hooks ⟨.string purpose .plain us, stack⟩ (units.flatMap CodeUnit.write ++ rest) =
      run fl hooks ⟨.string purpose .plain (us ++ units), stack⟩ rest := by
  induction units generalizing us with
  | nil => rw [List.flatMap_nil, List.nil_append, List.append_nil]
  | cons u units ih =>
    rw [List.flatMap_cons, List.append_assoc, run_write (h u (List.mem_cons_self ..)),
      ih fun v hv => h v (List.mem_cons_of_mem u hv), List.append_assoc, List.singleton_append]

/-- A text that can be spelled is read back from its string. -/
theorem run_escape (h : spelled ascii s = true) (purpose : Purpose F) (stack : List (Frame F)) (rest : CodePoints) :
    run fl hooks ⟨.string purpose .plain [], stack⟩ (escape ascii s ++ 0x22 :: rest) =
      run fl hooks (endString stack s purpose) rest := by
  have hwritten : ∀ u ∈ s.flatMap (unitsOf ascii), u.Written := by
    intro u hu
    obtain ⟨c, -, hc⟩ := List.mem_flatMap.mp hu
    exact written_unitsOf hc
  unfold escape
  rw [run_writes hwritten, List.nil_append, run_cons]
  simp only [step, stepString, if_true, Option.map_some, Option.bind_some, joinUnits_unitsOf h]

end Strings

/-! ## Documents are read back -/

section Documents

variable {fl : Floats F} {hooks : Hooks F} {ascii : Bool}

/-- A state in which a value has been read: what does not belong to the value is a character after it. -/
structure Complete (fl : Floats F) (hooks : Hooks F) (w : Wire F) (stack : List (Frame F)) (st : State F) :
    Prop where
  next : ∀ c, isTokenChar c = false → step fl hooks st c = afterValue hooks w stack c
  last : stack = [] → finish fl hooks st = some w

/-- A value whose end has been read. -/
theorem complete_done (w : Wire F) (stack : List (Frame F)) :
    Complete fl hooks w stack ⟨.done w, stack⟩ := by
  refine ⟨fun c _ => rfl, ?_⟩
  rintro rfl
  rfl

variable {w : Wire F} {text : CodePoints} {c : ℕ}

/-- A token is a value. -/
theorem complete_token (h : readToken fl hooks text = some w) (stack : List (Frame F)) :
    Complete fl hooks w stack ⟨.token text, stack⟩ := by
  refine ⟨?_, ?_⟩
  · intro c hc
    simp only [step, hc, Bool.false_eq_true, if_false, h, Option.bind_some]
  · rintro rfl
    exact h

/-- A character of a token is no blank, and begins nothing else. -/
theorem tokenChar_facts (h : isTokenChar c = true) :
    isBlank c = false ∧ c ≠ 0x22 ∧ c ≠ 0x5b ∧ c ≠ 0x7b ∧ c ≠ 0x5d := by
  have hne : ∀ d, isTokenChar d = false → c ≠ d := by
    rintro d hd rfl
    rw [hd] at h
    cases h
  have hblank : isBlank c = false := by
    unfold isBlank
    simp only [Bool.or_eq_false_iff, beq_eq_false_iff_ne]
    exact ⟨⟨⟨hne _ (by decide), hne _ (by decide)⟩, hne _ (by decide)⟩, hne _ (by decide)⟩
  exact ⟨hblank, hne _ (by decide), hne _ (by decide), hne _ (by decide), hne _ (by decide)⟩

/-- The rest of a token is read. -/
theorem run_token (text more : CodePoints) (stack : List (Frame F)) (h : more.all isTokenChar = true) :
    run fl hooks ⟨.token text, stack⟩ more = some ⟨.token (text ++ more), stack⟩ := by
  induction more generalizing text with
  | nil => rw [List.append_nil, run]
  | cons c more ih =>
    rw [List.all_cons, Bool.and_eq_true] at h
    rw [run_cons]
    simp only [step, h.1, if_true, Option.bind_some]
    rw [ih _ h.2, List.append_assoc, List.singleton_append]

/-- A token is read. -/
theorem run_value_token (hread : readToken fl hooks text = some w) (hne : text ≠ [])
    (h : text.all isTokenChar = true) (stack : List (Frame F)) :
    ∃ st, run fl hooks ⟨.value, stack⟩ text = some st ∧ Complete fl hooks w stack st := by
  cases text with
  | nil => exact absurd rfl hne
  | cons c text =>
    have hall := h
    rw [List.all_cons, Bool.and_eq_true] at hall
    obtain ⟨hblank, hquote, hbracket, hbrace, -⟩ := tokenChar_facts hall.1
    refine ⟨⟨.token (c :: text), stack⟩, ?_, complete_token hread stack⟩
    rw [run_cons]
    simp only [step, beginValue, hblank, Bool.false_eq_true, if_false, if_neg hquote, if_neg hbracket,
      if_neg hbrace, hall.1, if_true, Option.bind_some]
    rw [run_token [c] text stack hall.2, List.singleton_append]

/-- The text of a finite number with a fraction is not empty. -/
theorem repr_ne_nil {x : F} (h : fl.finite x = true) : fl.repr x ≠ [] := by
  intro hnil
  have hfloat := fl.repr_float x h
  rw [hnil] at hfloat
  cases hfloat

/-- A whole number has digits. -/
theorem intText_ne_nil (n : ℤ) : intText n ≠ [] := by
  intro hnil
  have hwhole := natText_isWhole n.natAbs
  rw [← unsigned_intText, hnil] at hwhole
  cases hwhole

/-- A document begins with a character that is neither a blank nor the end of a list. -/
theorem render_head (h : writable fl w = true) :
    ∃ c text, render fl ascii w = c :: text ∧ isBlank c = false ∧ c ≠ 0x5d := by
  have htoken : ∀ text : CodePoints, text ≠ [] → text.all isTokenChar = true →
      ∃ c more, text = c :: more ∧ isBlank c = false ∧ c ≠ 0x5d := by
    intro text hne hall
    cases text with
    | nil => exact absurd rfl hne
    | cons c more =>
      rw [List.all_cons, Bool.and_eq_true] at hall
      obtain ⟨hblank, -, -, -, hbracket⟩ := tokenChar_facts hall.1
      exact ⟨c, more, rfl, hblank, hbracket⟩
  cases w with
  | null => exact ⟨_, _, rfl, rfl, by decide⟩
  | bool b => cases b <;> exact ⟨_, _, rfl, rfl, by decide⟩
  | int n => exact htoken _ (intText_ne_nil n) (intText_token n)
  | float x => exact htoken _ (repr_ne_nil h) (repr_token h)
  | str s => exact ⟨_, _, rfl, rfl, by decide⟩
  | list items => exact ⟨_, _, rfl, rfl, by decide⟩
  | dict members => exact ⟨_, _, rfl, rfl, by decide⟩

/-- Where an item is expected, a document is read as a value of the list. -/
theorem run_item (h : writable fl w = true) (items : List (Wire F)) (first : Bool) (stack : List (Frame F))
    (rest : CodePoints) :
    run fl hooks ⟨.item items first, stack⟩ (render fl ascii w ++ rest) =
      run fl hooks ⟨.value, .list items :: stack⟩ (render fl ascii w ++ rest) := by
  have hhead : ∃ c text, render fl ascii w = c :: text ∧ isBlank c = false ∧ c ≠ 0x5d := render_head h
  obtain ⟨c, text, htext, hblank, hbracket⟩ := hhead
  rw [htext, List.cons_append, run_cons, run_cons]
  simp only [step, hblank, Bool.false_eq_true, if_false, hbracket, and_false]

/-- What is read of a document: its value, wherever it stands. -/
def Reads (fl : Floats F) (hooks : Hooks F) (ascii : Bool) (w : Wire F) : Prop :=
  ∀ stack, ∃ st, run fl hooks ⟨.value, stack⟩ (render fl ascii w) = some st ∧ Complete fl hooks w stack st

/-- A value that is read, and the character after it. -/
theorem Reads.then (h : Reads fl hooks ascii w) (stack : List (Frame F)) (hc : isTokenChar c = false)
    (rest : CodePoints) :
    run fl hooks ⟨.value, stack⟩ (render fl ascii w ++ c :: rest) =
      (afterValue hooks w stack c).bind fun st => run fl hooks st rest := by
  obtain ⟨st, hrun, hcomplete⟩ := h stack
  rw [run_append, hrun, Option.bind_some, run_cons, hcomplete.next c hc]

/-- The items of a list are read up to its end. -/
theorem run_items {items : List (Wire F)} (hne : items ≠ [])
    (h : ∀ w ∈ items, writable fl w = true ∧ Reads fl hooks ascii w) (before : List (Wire F)) (first : Bool)
    (stack : List (Frame F)) :
    run fl hooks ⟨.item before first, stack⟩ ([0x2c].intercalate (items.map (render fl ascii)) ++ [0x5d]) =
      some ⟨.done (.list (before ++ items)), stack⟩ := by
  induction items generalizing before first with
  | nil => exact absurd rfl hne
  | cons w items ih =>
    obtain ⟨hwritable, hreads⟩ := h w (List.mem_cons_self ..)
    cases items with
    | nil =>
      rw [List.map_singleton, List.intercalate_singleton, run_item hwritable,
        hreads.then _ (by decide : isTokenChar 0x5d = false)]
      rfl
    | cons v items =>
      have hrest := ih (List.cons_ne_nil v items) (fun u hu => h u (List.mem_cons_of_mem w hu))
        (before ++ [w]) false
      rw [List.map_cons, List.map_cons, List.intercalate_cons_cons, List.append_assoc, List.append_assoc,
        run_item hwritable, List.singleton_append, hreads.then _ (by decide : isTokenChar 0x2c = false),
        ← List.map_cons]
      show run fl hooks ⟨.item (before ++ [w]) false, stack⟩ _ = _
      rw [hrest, List.append_assoc, List.singleton_append]

/-- The name of a member and its value are read, and the character after them. -/
theorem run_member {name : CodePoints} (hname : spelled ascii name = true) (h : Reads fl hooks ascii w)
    (before : List (CodePoints × Wire F)) (first : Bool) (stack : List (Frame F)) (hc : isTokenChar c = false)
    (rest : CodePoints) :
    run fl hooks ⟨.name before first, stack⟩ (renderMember fl ascii (name, w) ++ c :: rest) =
      (afterValue hooks w (.dict before name :: stack) c).bind fun st => run fl hooks st rest := by
  have hquote : step fl hooks ⟨.name before first, stack⟩ 0x22 =
      some ⟨.string (.name before) .plain [], stack⟩ := by
    simp only [step]
    rw [if_neg (by decide), if_neg (by simp)]
    rfl
  have htext : renderMember fl ascii (name, w) ++ c :: rest =
      0x22 :: (escape ascii name ++ 0x22 :: 0x3a :: (render fl ascii w ++ c :: rest)) := by
    unfold renderMember quoted
    simp only [List.cons_append, List.append_assoc, List.nil_append]
  rw [htext, run_cons, hquote, Option.bind_some, run_escape hname]
  show run fl hooks ⟨.value, .dict before name :: stack⟩ _ = _
  exact h.then _ hc rest

/-- The members of a dictionary are read up to its end. -/
theorem run_members {members : List (CodePoints × Wire F)} (hne : members ≠ [])
    (h : ∀ m ∈ members, spelled ascii m.1 = true ∧ Reads fl hooks ascii m.2)
    (before : List (CodePoints × Wire F)) (first : Bool) (stack : List (Frame F)) :
    run fl hooks ⟨.name before first, stack⟩
        ([0x2c].intercalate (members.map (renderMember fl ascii)) ++ [0x7d]) =
      (hooks.pairs (before ++ members)).map fun ms => ⟨.done (.dict ms), stack⟩ := by
  induction members generalizing before first with
  | nil => exact absurd rfl hne
  | cons m members ih =>
    obtain ⟨name, w⟩ := m
    obtain ⟨hname, hreads⟩ := h (name, w) (List.mem_cons_self ..)
    cases members with
    | nil =>
      rw [List.map_singleton, List.intercalate_singleton,
        run_member hname hreads _ _ _ (by decide : isTokenChar 0x7d = false)]
      have hafter : afterValue hooks w (.dict before name :: stack) 0x7d =
          (hooks.pairs (before ++ [(name, w)])).map fun ms => ⟨.done (.dict ms), stack⟩ := rfl
      rw [hafter]
      cases hooks.pairs (before ++ [(name, w)]) <;> rfl
    | cons m' members =>
      have hrest := ih (List.cons_ne_nil m' members) (fun u hu => h u (List.mem_cons_of_mem _ hu))
        (before ++ [(name, w)]) false
      rw [List.map_cons, List.map_cons, List.intercalate_cons_cons, List.append_assoc, List.append_assoc,
        List.singleton_append, run_member hname hreads _ _ _ (by decide : isTokenChar 0x2c = false),
        ← List.map_cons]
      show run fl hooks ⟨.name (before ++ [(name, w)]) false, stack⟩ _ = _
      rw [hrest, List.append_assoc, List.singleton_append]

/-- A document that is sound is read back, wherever it stands. -/
theorem reads_render (hkeeps : hooks.KeepsDistinct) (h : w.all (sound fl ascii) = true) :
    Reads fl hooks ascii w := by
  induction w with
  | null =>
    intro stack
    exact run_value_token rfl (by simp [render]) rfl stack
  | bool b =>
    intro stack
    cases b
    · exact run_value_token rfl (by simp [render]) rfl stack
    · exact run_value_token rfl (by simp [render]) rfl stack
  | int n =>
    intro stack
    have hshort := (Bool.and_eq_true _ _ ▸ all_self h).1
    exact run_value_token (readToken_intText (of_decide_eq_true hshort)) (intText_ne_nil n) (intText_token n)
      stack
  | float x =>
    intro stack
    have hfinite := (Bool.and_eq_true _ _ ▸ all_self h).1
    exact run_value_token (readToken_repr hfinite) (repr_ne_nil hfinite) (repr_token hfinite) stack
  | str s =>
    intro stack
    have hspelled := (Bool.and_eq_true _ _ ▸ all_self h).2
    refine ⟨⟨.done (.str s), stack⟩, ?_, complete_done _ _⟩
    show run fl hooks ⟨.string .value .plain [], stack⟩ (escape ascii s ++ [0x22]) = _
    rw [run_escape hspelled]
    rfl
  | list items ih =>
    intro stack
    have hitems := (all_list.mp h).2
    refine ⟨⟨.done (.list items), stack⟩, ?_, complete_done _ _⟩
    show run fl hooks ⟨.item [] true, stack⟩ ([0x2c].intercalate (renderItems fl ascii items) ++ [0x5d]) = _
    rw [renderItems_eq]
    cases items with
    | nil => rfl
    | cons v items =>
      refine run_items (List.cons_ne_nil v items) ?_ [] true stack
      intro w hw
      exact ⟨(Bool.and_eq_true _ _ ▸ all_self (hitems w hw)).1, ih w hw (hitems w hw)⟩
  | dict members ih =>
    intro stack
    obtain ⟨hself, hvalues⟩ := all_dict.mp h
    have hnames := (Bool.and_eq_true _ _ ▸ hself).2
    unfold wellSpelled at hnames
    rw [Bool.and_eq_true, decide_eq_true_eq, List.all_eq_true] at hnames
    refine ⟨⟨.done (.dict members), stack⟩, ?_, complete_done _ _⟩
    show run fl hooks ⟨.name [] true, stack⟩ ([0x2c].intercalate (renderMembers fl ascii members) ++ [0x7d]) = _
    rw [renderMembers_eq]
    have hpairs := hkeeps members hnames.2
    cases members with
    | nil =>
      show ((hooks.pairs []).map fun ms => (⟨.done (.dict ms), stack⟩ : State F)).bind _ = _
      rw [hpairs]
      rfl
    | cons m members =>
      rw [run_members (List.cons_ne_nil m members) ?_ [] true stack, List.nil_append, hpairs]
      · rfl
      · intro v hv
        exact ⟨hnames.1 v.1 (List.mem_map_of_mem hv), ih v hv (hvalues v hv)⟩

/-- A document that is sound is read back from its text. -/
theorem loads_render (hkeeps : hooks.KeepsDistinct) (h : w.all (sound fl ascii) = true) :
    loads fl hooks (render fl ascii w) = some w := by
  obtain ⟨st, hrun, hcomplete⟩ := reads_render hkeeps h []
  unfold loads
  rw [hrun, Option.bind_some, hcomplete.last rfl]

end Documents

/-! ## ASCII -/

section Ascii

variable {fl : Floats F}

/-- What stands in texts that are joined by a separator stands in one of them, or in the separator. -/
theorem mem_intercalate {sep : CodePoints} {texts : List CodePoints} {c : ℕ} (h : c ∈ sep.intercalate texts) :
    c ∈ sep ∨ ∃ text ∈ texts, c ∈ text := by
  induction texts with
  | nil => exact absurd h List.not_mem_nil
  | cons text texts ih =>
    cases texts with
    | nil =>
      rw [List.intercalate_singleton] at h
      exact .inr ⟨text, List.mem_singleton_self text, h⟩
    | cons text' texts =>
      rw [List.intercalate_cons_cons, List.append_assoc, List.mem_append, List.mem_append] at h
      rcases h with h | h | h
      · exact .inr ⟨text, List.mem_cons_self .., h⟩
      · exact .inl h
      · rcases ih h with hsep | ⟨t, ht, hc⟩
        · exact .inl hsep
        · exact .inr ⟨t, List.mem_cons_of_mem text ht, hc⟩

/-- A hexadecimal digit is in ASCII. -/
theorem hexDigit_ascii (n : ℕ) : hexDigit (n % 16) < 0x80 := by
  unfold hexDigit
  split <;> omega

/-- A character that is spelled in ASCII has at most twelve characters, all of them in ASCII. -/
theorem escape_char (c : ℕ) :
    (((unitsOf true c).flatMap CodeUnit.write).length ≤ 12) ∧
      ∀ d ∈ (unitsOf true c).flatMap CodeUnit.write, d < 0x80 := by
  have hhex : ∀ n, (CodeUnit.escaped n).write.length = 6 ∧ ∀ d ∈ (CodeUnit.escaped n).write, d < 0x80 := by
    intro n
    refine ⟨rfl, ?_⟩
    intro d hd
    unfold CodeUnit.write hex4 at hd
    simp only [List.mem_cons, List.not_mem_nil, or_false] at hd
    rcases hd with rfl | rfl | rfl | rfl | rfl | rfl
    · omega
    · omega
    · exact hexDigit_ascii _
    · exact hexDigit_ascii _
    · exact hexDigit_ascii _
    · exact hexDigit_ascii _
  unfold unitsOf
  split
  · next hshort =>
    obtain ⟨letter, hletter⟩ := Option.isSome_iff_exists.mp hshort
    have hwrite : (CodeUnit.raw c).write = [0x5c, letter] := by simp only [CodeUnit.write, hletter]
    have hlt : letter < 0x80 := by
      obtain ⟨l, l', heq, -⟩ := List.lookup_eq_some_iff.mp hletter
      have hmem : (c, letter) ∈ shortEscapes := by
        rw [heq]
        simp
      have hall : ∀ e ∈ shortEscapes, e.2 < 0x80 := by decide
      exact hall _ hmem
    rw [List.flatMap_cons, List.flatMap_nil, List.append_nil, hwrite]
    refine ⟨(by decide : 2 ≤ 12), ?_⟩
    intro d hd
    simp only [List.mem_cons, List.not_mem_nil, or_false] at hd
    rcases hd with rfl | rfl
    · omega
    · exact hlt
  · next hlong =>
    split
    · split
      · rw [List.flatMap_cons, List.flatMap_nil, List.append_nil]
        exact ⟨by rw [(hhex c).1]; omega, (hhex c).2⟩
      · rw [List.flatMap_cons, List.flatMap_cons, List.flatMap_nil, List.append_nil, List.length_append,
          (hhex _).1, (hhex _).1]
        refine ⟨by omega, ?_⟩
        intro d hd
        rcases List.mem_append.mp hd with hd | hd
        · exact (hhex _).2 d hd
        · exact (hhex _).2 d hd
    · next hplain =>
      have hnone : shortEscapes.lookup c = none := by
        cases hlookup : shortEscapes.lookup c with
        | none => rfl
        | some letter => exact absurd (by rw [hlookup]; rfl) hlong
      have hwrite : (CodeUnit.raw c).write = [c] := by simp only [CodeUnit.write, hnone]
      rw [List.flatMap_cons, List.flatMap_nil, List.append_nil, hwrite]
      refine ⟨by rw [List.length_singleton]; omega, ?_⟩
      intro d hd
      rw [List.mem_singleton.mp hd]
      have hle : ¬ 0x7e < c := fun hlt => hplain (.inr ⟨rfl, hlt⟩)
      omega

/-- A text that is spelled in ASCII has at most twelve characters for each of its own, all of them in
ASCII. -/
theorem escape_ascii (s : CodePoints) :
    (escape true s).length ≤ 12 * s.length ∧ ∀ d ∈ escape true s, d < 0x80 := by
  unfold escape
  induction s with
  | nil => exact ⟨Nat.le_refl 0, by simp⟩
  | cons c s ih =>
    obtain ⟨hlength, hascii⟩ := escape_char c
    rw [List.flatMap_cons, List.flatMap_append, List.length_append, List.length_cons]
    refine ⟨by omega, ?_⟩
    intro d hd
    rcases List.mem_append.mp hd with hd | hd
    · exact hascii d hd
    · exact ih.2 d hd

/-- A string in ASCII. -/
theorem quoted_ascii (s : CodePoints) : ∀ d ∈ quoted true s, d < 0x80 := by
  intro d hd
  unfold quoted at hd
  rcases List.mem_cons.mp hd with rfl | hd
  · omega
  · rcases List.mem_append.mp hd with hd | hd
    · exact (escape_ascii s).2 d hd
    · rw [List.mem_singleton.mp hd]
      omega

/-- A document that is written in ASCII has only characters of ASCII. -/
theorem render_ascii {w : Wire F} (h : w.all (writable fl) = true) : ∀ c ∈ render fl true w, c < 0x80 := by
  induction w with
  | null =>
    unfold render
    decide
  | bool b =>
    cases b
    · unfold render
      decide
    · unfold render
      decide
  | int n =>
    intro c hc
    unfold render intText at hc
    have hdigits : ∀ c ∈ natText n.natAbs, c < 0x80 := by
      intro c hc
      have hdigit := natText_digits _ c hc
      unfold isDigit at hdigit
      simp only [Bool.and_eq_true, decide_eq_true_eq] at hdigit
      omega
    split at hc
    · rcases List.mem_cons.mp hc with rfl | hc
      · omega
      · exact hdigits c hc
    · exact hdigits c hc
  | float x =>
    intro c hc
    exact (numberChar_facts (List.all_eq_true.mp (fl.repr_chars x (all_self h)) c hc)).2
  | str s => exact quoted_ascii s
  | list items ih =>
    intro c hc
    have hitems := (all_list.mp h).2
    rw [render, renderItems_eq] at hc
    rcases List.mem_cons.mp hc with rfl | hc
    · omega
    · rcases List.mem_append.mp hc with hc | hc
      · rcases mem_intercalate hc with hsep | ⟨text, htext, hc⟩
        · rw [List.mem_singleton.mp hsep]
          omega
        · obtain ⟨w, hw, rfl⟩ := List.mem_map.mp htext
          exact ih w hw (hitems w hw) c hc
      · rw [List.mem_singleton.mp hc]
        omega
  | dict members ih =>
    intro c hc
    have hmembers := (all_dict.mp h).2
    rw [render, renderMembers_eq] at hc
    rcases List.mem_cons.mp hc with rfl | hc
    · omega
    · rcases List.mem_append.mp hc with hc | hc
      · rcases mem_intercalate hc with hsep | ⟨text, htext, hc⟩
        · rw [List.mem_singleton.mp hsep]
          omega
        · obtain ⟨m, hm, rfl⟩ := List.mem_map.mp htext
          unfold renderMember at hc
          rcases List.mem_append.mp hc with hc | hc
          · exact quoted_ascii m.1 c hc
          · rcases List.mem_cons.mp hc with rfl | hc
            · omega
            · exact ih m hm (hmembers m hm) c hc
      · rw [List.mem_singleton.mp hc]
        omega

end Ascii

end RickIntelligence.Lib.Wire
