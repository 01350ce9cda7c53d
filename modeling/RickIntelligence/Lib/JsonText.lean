import RickIntelligence.Lib.Json
import RickIntelligence.Lib.Text

/-!
# JSON text

The writer and the reader of JSON text, on lists of characters. `dumps` writes a document of texts
and whole numbers in ASCII and without blanks: a character outside ASCII is written as the escape of
its code point, or of the surrogate pair that stands for it. `loads` reads any JSON text.

`loads` differs from a permissive reader in what it refuses: a member name that occurs twice in one
object, the constants that are not finite, a control character in a string, and an escape of one half
of a surrogate pair, which is no character.

`loads_dumps` is the round trip.
-/

namespace RickIntelligence.Lib.JsonText

/-! ## Writing -/

/-- A hexadecimal digit, in lower case. -/
def hexDigit (n : ℕ) : Char := Char.ofNat (if n < 10 then 48 + n else 87 + n)

/-- Four hexadecimal digits. -/
def hex4 (n : ℕ) : List Char :=
  [hexDigit (n / 4096 % 16), hexDigit (n / 256 % 16), hexDigit (n / 16 % 16), hexDigit (n % 16)]

/-- The escape of a 16-bit unit. -/
def unitEscape (n : ℕ) : List Char := '\\' :: 'u' :: hex4 n

/-- The characters with an escape of their own, and the letter of it. -/
def shortEscapes : List (Char × Char) :=
  [('"', '"'), ('\\', '\\'), ('\n', 'n'), ('\r', 'r'), ('\t', 't'), ('\x0c', 'f'), ('\x08', 'b')]

/-- A character inside a string, in ASCII. -/
def escapeChar (c : Char) : List Char :=
  match shortEscapes.lookup c with
  | some letter => ['\\', letter]
  | none =>
    if 0x20 ≤ c.toNat ∧ c.toNat ≤ 0x7e then [c]
    else if c.toNat < 0x10000 then unitEscape c.toNat
    else unitEscape (0xd800 + (c.toNat - 0x10000) / 1024 % 1024) ++
      unitEscape (0xdc00 + (c.toNat - 0x10000) % 1024)

/-- A text inside a string, in ASCII. -/
def escape (s : List Char) : List Char := s.flatMap escapeChar

/-- A value of a document without inner structure. -/
inductive Scalar where
  | text (s : String)
  | whole (n : ℕ)
  deriving DecidableEq

/-- The value that a scalar stands for. -/
def Scalar.json : Scalar → Json
  | text s => .str s
  | whole n => .int n

/-- A scalar as text. -/
def dumpScalar : Scalar → List Char
  | .text s => '"' :: escape s.toList ++ ['"']
  | .whole n => Nat.toDigits 10 n

/-- A member as text. -/
def dumpMember (m : String × Scalar) : List Char :=
  '"' :: escape m.1.toList ++ '"' :: ':' :: dumpScalar m.2

/-- Members separated by commas. -/
def dumpMembers : List (String × Scalar) → List Char
  | [] => []
  | [m] => dumpMember m
  | m :: ms => dumpMember m ++ ',' :: dumpMembers ms

/-- `json.dumps` of a dictionary of texts and whole numbers, with `ensure_ascii` and without blanks. -/
def dumps (ms : List (String × Scalar)) : List Char := '{' :: dumpMembers ms ++ ['}']

/-! ## Reading -/

/-- The value of a hexadecimal digit. -/
def hexValue (c : Char) : Option ℕ :=
  let n := c.toNat
  if 48 ≤ n ∧ n ≤ 57 then some (n - 48)
  else if 97 ≤ n ∧ n ≤ 102 then some (n - 87)
  else if 65 ≤ n ∧ n ≤ 70 then some (n - 55)
  else none

/-- Four hexadecimal digits. -/
def readHex4 : List Char → Option (ℕ × List Char)
  | a :: b :: c :: d :: rest => do
    let a ← hexValue a
    let b ← hexValue b
    let c ← hexValue c
    let d ← hexValue d
    return (((a * 16 + b) * 16 + c) * 16 + d, rest)
  | _ => none

/-- The blanks of JSON text. -/
def skipWs (s : List Char) : List Char :=
  s.dropWhile fun c => c == ' ' || c == '\t' || c == '\n' || c == '\r'

/-- The second half of a surrogate pair, whose first half has been read. -/
def readLow (high : ℕ) : List Char → Option (Char × List Char)
  | '\\' :: 'u' :: s => do
    let (low, rest) ← readHex4 s
    if 0xdc00 ≤ low ∧ low ≤ 0xdfff then
      return (Char.ofNat (0x10000 + (high - 0xd800) * 1024 + (low - 0xdc00)), rest)
    else none
  | _ => none

/-- An escape, after its backslash. -/
def readEscape : List Char → Option (Char × List Char)
  | 'u' :: s => do
    let (n, rest) ← readHex4 s
    if 0xd800 ≤ n ∧ n ≤ 0xdbff then readLow n rest
    else if 0xdc00 ≤ n ∧ n ≤ 0xdfff then none
    else return (Char.ofNat n, rest)
  | '/' :: s => some ('/', s)
  | letter :: s =>
    (shortEscapes.find? fun e => e.2 == letter).map fun e => (e.1, s)
  | [] => none

/-- The rest of a string, after its opening quote. -/
def scanString : ℕ → List Char → Option (List Char × List Char)
  | 0, _ => none
  | fuel + 1, s => match s with
    | [] => none
    | c :: rest =>
      if c = '"' then some ([], rest)
      else if c = '\\' then do
        let (c, rest) ← readEscape rest
        let (t, rest) ← scanString fuel rest
        return (c :: t, rest)
      else if c.toNat < 0x20 then none
      else do
        let (t, rest) ← scanString fuel rest
        return (c :: t, rest)

/-- A run of digits, which may be empty. -/
def spanDigits (s : List Char) : List Char × List Char := s.span Char.isDigit

/-- The whole part of a number: a zero, or digits that start with another one. -/
def readWhole (s : List Char) : Option (ℕ × List Char) :=
  match spanDigits s with
  | ([], _) => none
  | ('0' :: more, rest) => some (0, more ++ rest)
  | (digits, rest) => some (Nat.ofDigitChars 10 digits 0, rest)

/-- The fraction of a number, with the text after it. -/
def readFraction : List Char → Option (ℚ × List Char)
  | '.' :: s => match spanDigits s with
    | ([], _) => none
    | (digits, rest) => some ((Nat.ofDigitChars 10 digits 0 : ℚ) / 10 ^ digits.length, rest)
  | _ => none

/-- The exponent of a number, with the text after it. -/
def readExponent : List Char → Option (ℤ × List Char)
  | e :: s =>
    if e = 'e' ∨ e = 'E' then
      let (negative, s) := match s with
        | '-' :: s => (true, s)
        | '+' :: s => (false, s)
        | s => (false, s)
      match spanDigits s with
      | ([], _) => none
      | (digits, rest) =>
        let n : ℤ := Nat.ofDigitChars 10 digits 0
        some (if negative then -n else n, rest)
    else none
  | [] => none

/-- A number. With a fraction or an exponent it is one with a fraction. -/
def readNumber (s : List Char) : Option (Json × List Char) := do
  let (negative, s) := match s with
    | '-' :: s => (true, s)
    | s => (false, s)
  let (whole, s) ← readWhole s
  let sign : ℤ := if negative then -1 else 1
  match readFraction s, readExponent s with
  | some (fraction, s), _ =>
    match readExponent s with
    | some (e, s) => return (.float (sign * (whole + fraction) * (10 : ℚ) ^ e), s)
    | none => return (.float (sign * (whole + fraction)), s)
  | none, some (e, s) => return (.float (sign * whole * (10 : ℚ) ^ e), s)
  | none, none => return (.int (sign * whole), s)

/-- A literal name or a number. -/
def readScalar (s : List Char) : Option (Json × List Char) :=
  if ['n', 'u', 'l', 'l'].isPrefixOf s then some (.null, s.drop 4)
  else if ['t', 'r', 'u', 'e'].isPrefixOf s then some (.bool true, s.drop 4)
  else if ['f', 'a', 'l', 's', 'e'].isPrefixOf s then some (.bool false, s.drop 5)
  else readNumber s

mutual

/-- A value. -/
def readValue : ℕ → List Char → Option (Json × List Char)
  | 0, _ => none
  | fuel + 1, s => match s with
    | '"' :: s => do
      let (t, rest) ← scanString fuel s
      return (.str (String.ofList t), rest)
    | '{' :: s => match skipWs s with
      | '}' :: rest => some (.obj [], rest)
      | s => do
        let (ms, rest) ← readMembers fuel s
        if (ms.map Prod.fst).Nodup then return (.obj ms, rest) else none
    | '[' :: s => match skipWs s with
      | ']' :: rest => some (.arr [], rest)
      | s => do
        let (items, rest) ← readItems fuel s
        return (.arr items, rest)
    | s => readScalar s

/-- The members of an object, up to its end. -/
def readMembers : ℕ → List Char → Option (Json.Members × List Char)
  | 0, _ => none
  | fuel + 1, s => match s with
    | '"' :: s => do
      let (name, s) ← scanString fuel s
      match skipWs s with
      | ':' :: s => do
        let (value, s) ← readValue fuel (skipWs s)
        match skipWs s with
        | '}' :: rest => return ([(String.ofList name, value)], rest)
        | ',' :: s => do
          let (ms, rest) ← readMembers fuel (skipWs s)
          return ((String.ofList name, value) :: ms, rest)
        | _ => none
      | _ => none
    | _ => none

/-- The items of an array, up to its end. -/
def readItems : ℕ → List Char → Option (List Json × List Char)
  | 0, _ => none
  | fuel + 1, s => do
    let (value, s) ← readValue fuel s
    match skipWs s with
    | ']' :: rest => return ([value], rest)
    | ',' :: s => do
      let (items, rest) ← readItems fuel (skipWs s)
      return (value :: items, rest)
    | _ => none

end

/-- `json.loads`. -/
def loads (s : List Char) : Option Json := do
  let (value, rest) ← readValue (s.length + 1) (skipWs s)
  if skipWs rest = [] then return value else none

/-! ## Round trips -/

variable {n fuel : ℕ} {c : Char} {s : List Char}

/-- A hexadecimal digit is read back. -/
theorem hexValue_hexDigit (h : n < 16) : hexValue (hexDigit n) = some n := by
  interval_cases n <;> rfl

/-- Four hexadecimal digits are read back. -/
theorem readHex4_hex4 (h : n < 0x10000) (rest : List Char) :
    readHex4 (hex4 n ++ rest) = some (n, rest) := by
  have hdigits : ((n / 4096 % 16 * 16 + n / 256 % 16) * 16 + n / 16 % 16) * 16 + n % 16 = n := by
    omega
  have hlt : ∀ m : ℕ, m % 16 < 16 := fun m => Nat.mod_lt m (by omega)
  unfold hex4
  simp only [List.cons_append, List.nil_append, readHex4, hexValue_hexDigit (hlt _),
    Option.bind_eq_bind, Option.bind_some]
  rw [hdigits]
  rfl

/-- The code point of a character is not one half of a surrogate pair. -/
theorem toNat_not_surrogate (c : Char) : ¬ (0xd800 ≤ c.toNat ∧ c.toNat ≤ 0xdfff) := by
  have hvalid : c.toNat < 0xd800 ∨ 0xdfff < c.toNat ∧ c.toNat < 0x110000 := c.valid
  omega

/-- The code point of a character is below the end of Unicode. -/
theorem toNat_lt (c : Char) : c.toNat < 0x110000 := by
  have hvalid : c.toNat < 0xd800 ∨ 0xdfff < c.toNat ∧ c.toNat < 0x110000 := c.valid
  omega

/-- The escape of a character of the first plane is read back. -/
theorem readEscape_unit (h : c.toNat < 0x10000) (rest : List Char) :
    readEscape ('u' :: hex4 c.toNat ++ rest) = some (c, rest) := by
  have hs := toNat_not_surrogate c
  have hhigh : ¬ (0xd800 ≤ c.toNat ∧ c.toNat ≤ 0xdbff) := by omega
  have hlow : ¬ (0xdc00 ≤ c.toNat ∧ c.toNat ≤ 0xdfff) := by omega
  show (readHex4 (hex4 c.toNat ++ rest)).bind _ = _
  rw [readHex4_hex4 h]
  simp only [Option.bind_some, if_neg hhigh, if_neg hlow, Char.ofNat_toNat]
  rfl

/-- The escapes of the two halves of a surrogate pair are read as one character. -/
theorem readEscape_halves {high low : ℕ} (hhigh : 0xd800 ≤ high ∧ high ≤ 0xdbff)
    (hlow : 0xdc00 ≤ low ∧ low ≤ 0xdfff) (rest : List Char) :
    readEscape ('u' :: hex4 high ++ (unitEscape low ++ rest)) =
      some (Char.ofNat (0x10000 + (high - 0xd800) * 1024 + (low - 0xdc00)), rest) := by
  have hl : readLow high (unitEscape low ++ rest) =
      some (Char.ofNat (0x10000 + (high - 0xd800) * 1024 + (low - 0xdc00)), rest) := by
    simp only [unitEscape, List.cons_append, readLow, readHex4_hex4 (by omega : low < 0x10000),
      Option.bind_eq_bind, Option.bind_some, if_pos hlow, Option.pure_def]
  simp only [List.cons_append, readEscape, readHex4_hex4 (by omega : high < 0x10000),
    Option.bind_eq_bind, Option.bind_some, if_pos hhigh, hl]

/-- The escape of a character of the other planes is read back. -/
theorem readEscape_pair (h : 0x10000 ≤ c.toNat) (rest : List Char) :
    readEscape ('u' :: hex4 (0xd800 + (c.toNat - 0x10000) / 1024 % 1024) ++
      (unitEscape (0xdc00 + (c.toNat - 0x10000) % 1024) ++ rest)) = some (c, rest) := by
  have hlt := toNat_lt c
  generalize hn : c.toNat = n at h hlt
  have hval : 0x10000 + (0xd800 + (n - 0x10000) / 1024 % 1024 - 0xd800) * 1024 +
      (0xdc00 + (n - 0x10000) % 1024 - 0xdc00) = n := by omega
  rw [readEscape_halves (by omega) (by omega), hval, ← hn, Char.ofNat_toNat]

/-- A character with an escape of its own is found by the letter of it. -/
theorem readEscape_short {letter : Char} (h : shortEscapes.lookup c = some letter) (rest : List Char) :
    readEscape (letter :: rest) = some (c, rest) := by
  have hmem : (c, letter) ∈ shortEscapes := by
    have hs := List.lookup_eq_some_iff.mp h
    obtain ⟨l, l', heq, -⟩ := hs
    rw [heq]
    simp
  simp only [shortEscapes, List.mem_cons, Prod.mk.injEq, List.not_mem_nil, or_false] at hmem
  rcases hmem with h | h | h | h | h | h | h <;> obtain ⟨rfl, rfl⟩ := h <;> rfl

/-- A character inside a string is read back. -/
theorem scanString_escapeChar (fuel : ℕ) (c : Char) (s : List Char) :
    scanString (fuel + 1) (escapeChar c ++ s) =
      (scanString fuel s).map fun r => (c :: r.1, r.2) := by
  have hescape : ∀ body : List Char, readEscape (body ++ s) = some (c, s) →
      scanString (fuel + 1) ('\\' :: body ++ s) =
        (scanString fuel s).map fun r => (c :: r.1, r.2) := by
    intro body hbody
    show (readEscape (body ++ s)).bind _ = _
    rw [hbody]
    simp only [Option.bind_some]
    cases scanString fuel s <;> rfl
  unfold escapeChar
  split
  · next letter hl => exact hescape [letter] (readEscape_short hl s)
  · next hl =>
    split_ifs with hprint hunit
    · -- A printable character stands for itself: it is neither a quote nor a backslash.
      have hq : c ≠ '"' := by
        rintro rfl
        simp [shortEscapes] at hl
      have hb : c ≠ '\\' := by
        rintro rfl
        simp [shortEscapes, List.lookup] at hl
      have hctl : ¬ c.toNat < 0x20 := by omega
      rw [List.singleton_append, scanString]
      simp only [if_neg hq, if_neg hb, if_neg hctl]
      cases scanString fuel s <;> rfl
    · exact hescape _ (readEscape_unit hunit s)
    · have hpair := readEscape_pair (by omega : 0x10000 ≤ c.toNat) s
      rw [← List.append_assoc] at hpair
      exact hescape _ hpair

/-- A text inside a string is read back. -/
theorem scanString_escape (h : s.length < fuel) (rest : List Char) :
    scanString fuel (escape s ++ '"' :: rest) = some (s, rest) := by
  induction s generalizing fuel with
  | nil =>
    obtain ⟨fuel, rfl⟩ : ∃ n, fuel = n + 1 := ⟨fuel - 1, by simp at h; omega⟩
    simp [escape, scanString]
  | cons c s ih =>
    simp only [List.length_cons] at h
    obtain ⟨fuel, rfl⟩ : ∃ n, fuel = n + 1 := ⟨fuel - 1, by omega⟩
    have hs := ih (by omega : s.length < fuel)
    have hsplit : escape (c :: s) ++ '"' :: rest = escapeChar c ++ (escape s ++ '"' :: rest) := by
      simp [escape]
    rw [hsplit, scanString_escapeChar, hs]
    rfl

/-- The digits of a number start with a zero only for the number zero. -/
theorem toDigits_zero_head {more : List Char} (h : Nat.toDigits 10 n = '0' :: more) :
    n = 0 ∧ more = [] := by
  induction n using Nat.strong_induction_on generalizing more with
  | _ n ih =>
    by_cases hlt : n < 10
    · rw [Nat.toDigits_of_lt_base hlt] at h
      obtain ⟨hc, hm⟩ := List.cons.inj h
      refine ⟨?_, hm.symm⟩
      interval_cases n <;> first | rfl | exact absurd hc (by decide)
    · rw [Nat.toDigits_of_base_le (by omega) (by omega)] at h
      cases hd : Nat.toDigits 10 (n / 10) with
      | nil => exact absurd hd Nat.toDigits_ne_nil
      | cons c cs =>
        rw [hd, List.cons_append] at h
        obtain ⟨rfl, -⟩ := List.cons.inj h
        have hzero := (ih (n / 10) (by omega) hd).1
        omega

/-- What ends a number in a document: neither a digit, nor a fraction, nor an exponent. -/
def endsNumber (c : Char) : Prop := c = ',' ∨ c = '\x7d'

/-- The digits of a number are read up to what ends it. -/
theorem spanDigits_toDigits (n : ℕ) (hc : endsNumber c) (rest : List Char) :
    spanDigits (Nat.toDigits 10 n ++ c :: rest) = (Nat.toDigits 10 n, c :: rest) := by
  have hdigit : ∀ d ∈ Nat.toDigits 10 n, d.isDigit = true := fun d hd =>
    Nat.isDigit_of_mem_toDigits (by omega) (by omega) hd
  have hend : c.isDigit = false := by
    rcases hc with rfl | rfl <;> rfl
  rw [spanDigits, List.span_eq_takeWhile_dropWhile, List.takeWhile_append_of_pos hdigit,
    List.dropWhile_append_of_pos hdigit]
  simp [hend]

/-- A whole number is read back. -/
theorem readWhole_toDigits (n : ℕ) (hc : endsNumber c) (rest : List Char) :
    readWhole (Nat.toDigits 10 n ++ c :: rest) = some (n, c :: rest) := by
  rw [readWhole, spanDigits_toDigits n hc]
  split
  · next heq => exact absurd (Prod.mk.inj heq).1 Nat.toDigits_ne_nil
  · next more _ heq =>
    obtain ⟨hd, rfl⟩ := Prod.mk.inj heq
    obtain ⟨rfl, rfl⟩ := toDigits_zero_head hd
    rfl
  · next heq =>
    obtain ⟨rfl, rfl⟩ := Prod.mk.inj heq
    rw [Nat.ofDigitChars_ten_toDigits]

/-- A number without a fraction and an exponent is read back. -/
theorem readScalar_toDigits (n : ℕ) (hc : endsNumber c) (rest : List Char) :
    readScalar (Nat.toDigits 10 n ++ c :: rest) = some (.int n, c :: rest) := by
  have hread := readWhole_toDigits n hc rest
  have hfrac : readFraction (c :: rest) = none := by
    rcases hc with rfl | rfl <;> rfl
  have hexp : readExponent (c :: rest) = none := by
    rcases hc with rfl | rfl <;> rfl
  cases hd : Nat.toDigits 10 n with
  | nil => exact absurd hd Nat.toDigits_ne_nil
  | cons d ds =>
    have hdigit : d.isDigit = true :=
      Nat.isDigit_of_mem_toDigits (by omega) (by omega) (hd ▸ List.mem_cons_self)
    have hne : ∀ x : Char, x.isDigit = false → d ≠ x := by
      rintro x hx rfl
      rw [hdigit] at hx
      cases hx
    rw [hd, List.cons_append] at hread
    have hnumber : readNumber (d :: (ds ++ c :: rest)) = some (.int n, c :: rest) := by
      unfold readNumber
      have hminus := hne '-' rfl
      split
      next negative s heq =>
        split at heq
        · next t hs => exact absurd (List.cons.inj hs).1 hminus
        · obtain ⟨rfl, rfl⟩ := Prod.mk.inj heq
          rw [hread]
          simp [hfrac, hexp]
    unfold readScalar
    rw [List.cons_append]
    simp only [List.isPrefixOf_cons_cons, beq_eq_false_iff_ne.mpr (hne 'n' rfl).symm,
      beq_eq_false_iff_ne.mpr (hne 't' rfl).symm, beq_eq_false_iff_ne.mpr (hne 'f' rfl).symm,
      Bool.false_and, Bool.false_eq_true, if_false, hnumber]

/-- An escaped text is no shorter than the text. -/
theorem length_le_escape (s : List Char) : s.length ≤ (escape s).length := by
  induction s with
  | nil => simp
  | cons c s ih =>
    have hone : 1 ≤ (escapeChar c).length := by
      unfold escapeChar unitEscape
      split
      · simp
      · split_ifs <;> simp
    simp only [escape, List.flatMap_cons, List.length_append, List.length_cons] at ih ⊢
    omega

/-- A scalar is read back. -/
theorem readValue_dumpScalar {v : Scalar} (h : (dumpScalar v).length < fuel) (hc : endsNumber c) (rest : List Char) :
    readValue fuel (dumpScalar v ++ c :: rest) = some (v.json, c :: rest) := by
  obtain ⟨fuel, rfl⟩ : ∃ n, fuel = n + 1 := ⟨fuel - 1, by omega⟩
  cases v with
  | text s =>
    have hlen := length_le_escape s.toList
    simp only [dumpScalar, List.length_cons, List.length_append] at h
    have hsplit : dumpScalar (.text s) ++ c :: rest =
        '"' :: (escape s.toList ++ '"' :: c :: rest) := by simp [dumpScalar]
    rw [hsplit, readValue]
    simp only [scanString_escape (by omega : s.toList.length < fuel), Option.bind_eq_bind,
      Option.bind_some, Option.pure_def, Scalar.json, String.ofList_toList]
  | whole n =>
    have hread := readScalar_toDigits n hc rest
    have hdigit : ∀ d ∈ Nat.toDigits 10 n, d.isDigit = true := fun d hd =>
      Nat.isDigit_of_mem_toDigits (by omega) (by omega) hd
    show readValue (fuel + 1) (Nat.toDigits 10 n ++ c :: rest) = some (.int n, c :: rest)
    cases hd : Nat.toDigits 10 n with
    | nil => exact absurd hd Nat.toDigits_ne_nil
    | cons d ds =>
      have hd1 := hdigit d (hd ▸ List.mem_cons_self)
      rw [hd, List.cons_append] at hread
      -- A digit opens neither a string, nor an object, nor an array.
      have hne : ∀ x : Char, x.isDigit = false → ∀ t, d :: (ds ++ c :: rest) ≠ x :: t := by
        intro x hx t ht
        rw [(List.cons.inj ht).1, hx] at hd1
        cases hd1
      rw [List.cons_append, readValue]
      · exact hread
      · exact hne '"' rfl
      · exact hne '\x7b' rfl
      · exact hne '[' rfl

/-- A character that is no blank is not skipped. -/
theorem skipWs_cons (h : c = '"' ∨ c = ':' ∨ c = ',' ∨ c = '\x7b' ∨ c = '\x7d') (s : List Char) :
    skipWs (c :: s) = c :: s := by
  rcases h with rfl | rfl | rfl | rfl | rfl <;> rfl

/-- A scalar starts with a character that is no blank. -/
theorem skipWs_dumpScalar (v : Scalar) (s : List Char) :
    skipWs (dumpScalar v ++ s) = dumpScalar v ++ s := by
  cases v with
  | text t => exact skipWs_cons (.inl rfl) _
  | whole n =>
    show skipWs (Nat.toDigits 10 n ++ s) = Nat.toDigits 10 n ++ s
    cases hd : Nat.toDigits 10 n with
    | nil => exact absurd hd Nat.toDigits_ne_nil
    | cons d ds =>
      have hdigit : d.isDigit = true :=
        Nat.isDigit_of_mem_toDigits (by omega) (by omega) (hd ▸ List.mem_cons_self)
      have hne : ∀ x : Char, x.isDigit = false → (d == x) = false := by
        intro x hx
        rw [beq_eq_false_iff_ne]
        rintro rfl
        rw [hdigit] at hx
        cases hx
      rw [List.cons_append, skipWs, List.dropWhile_cons]
      simp only [hne ' ' rfl, hne '\t' rfl, hne '\n' rfl, hne '\r' rfl, Bool.or_self,
        Bool.false_eq_true, if_false]

/-- One member is read back, with what comes after it still to be read. -/
theorem readMembers_dumpMember {m : String × Scalar} (h : (dumpMember m).length < fuel + 1) (hc : endsNumber c)
    (rest : List Char) :
    readMembers (fuel + 1) (dumpMember m ++ c :: rest) =
      if c = ',' then (readMembers fuel (skipWs rest)).map fun r => ((m.1, m.2.json) :: r.1, r.2)
      else some ([(m.1, m.2.json)], rest) := by
  have hlen := length_le_escape m.1.toList
  have hsplit : dumpMember m ++ c :: rest =
      '"' :: (escape m.1.toList ++ '"' :: ':' :: (dumpScalar m.2 ++ c :: rest)) := by
    simp [dumpMember]
  simp only [dumpMember, List.length_cons, List.length_append] at h
  have hws : skipWs (c :: rest) = c :: rest := skipWs_cons (by
    rcases hc with rfl | rfl <;> simp) rest
  rw [hsplit, readMembers]
  simp only [scanString_escape (by omega : m.1.toList.length < fuel), Option.bind_eq_bind,
    Option.bind_some, skipWs_cons (.inr (.inl rfl)), skipWs_dumpScalar,
    readValue_dumpScalar (by omega : (dumpScalar m.2).length < fuel) hc, hws,
    String.ofList_toList]
  rcases hc with rfl | rfl
  · simp only [if_true]
    cases readMembers fuel (skipWs rest) <;> rfl
  · rfl

/-- The members of a document start with a quote. -/
theorem dumpMembers_head (m : String × Scalar) (ms : List (String × Scalar)) :
    ∃ t, dumpMembers (m :: ms) = '"' :: t := by
  cases ms <;> exact ⟨_, rfl⟩

/-- The members of a document are read back. -/
theorem readMembers_dumpMembers {ms : List (String × Scalar)} (hne : ms ≠ []) (h : (dumpMembers ms).length < fuel)
    (rest : List Char) :
    readMembers fuel (dumpMembers ms ++ '\x7d' :: rest) =
      some (ms.map fun m => (m.1, m.2.json), rest) := by
  induction ms generalizing fuel with
  | nil => exact absurd rfl hne
  | cons m ms ih =>
    obtain ⟨fuel, rfl⟩ : ∃ n, fuel = n + 1 := ⟨fuel - 1, by omega⟩
    cases ms with
    | nil =>
      show readMembers (fuel + 1) (dumpMember m ++ _) = _
      rw [readMembers_dumpMember h (.inr rfl), if_neg (by decide)]
      rfl
    | cons m' ms =>
      have hsplit : dumpMembers (m :: m' :: ms) ++ '\x7d' :: rest =
          dumpMember m ++ ',' :: (dumpMembers (m' :: ms) ++ '\x7d' :: rest) := by
        simp [dumpMembers]
      have hws : skipWs (dumpMembers (m' :: ms) ++ '\x7d' :: rest) =
          dumpMembers (m' :: ms) ++ '\x7d' :: rest := by
        obtain ⟨t, ht⟩ := dumpMembers_head m' ms
        rw [ht]
        exact skipWs_cons (.inl rfl) _
      have hlen : (dumpMember m).length + 1 + (dumpMembers (m' :: ms)).length < fuel + 1 := by
        simp only [dumpMembers, List.length_append, List.length_cons] at h ⊢
        omega
      rw [hsplit, readMembers_dumpMember (by omega) (.inl rfl), if_pos rfl, hws,
        ih (by simp) (by omega)]
      rfl

/-- A document with distinct names is read back. -/
theorem loads_dumps {ms : List (String × Scalar)} (h : (ms.map Prod.fst).Nodup) :
    loads (dumps ms) = some (.obj (ms.map fun m => (m.1, m.2.json))) := by
  unfold loads dumps
  rw [List.cons_append, skipWs_cons (by simp), List.length_cons, readValue]
  cases ms with
  | nil => rfl
  | cons m ms =>
    have hread := readMembers_dumpMembers (List.cons_ne_nil m ms)
      (by simp : (dumpMembers (m :: ms)).length < (dumpMembers (m :: ms) ++ ['\x7d']).length + 1) []
    have hnames : ((m :: ms).map fun m => (m.1, m.2.json)).map Prod.fst =
        (m :: ms).map Prod.fst := by
      rw [List.map_map]
      rfl
    obtain ⟨t, ht⟩ := dumpMembers_head m ms
    have hws : skipWs (dumpMembers (m :: ms) ++ ['\x7d']) = dumpMembers (m :: ms) ++ ['\x7d'] := by
      rw [ht]
      exact skipWs_cons (.inl rfl) _
    rw [hws]
    split
    · next heq =>
      rw [ht] at heq
      cases heq
    · rw [hread]
      simp only [Option.bind_eq_bind, Option.bind_some, hnames, if_pos h]
      rfl

/-! ## Written text is ASCII -/

/-- Every character of a text is ASCII. -/
def Ascii (s : List Char) : Prop := ∀ c ∈ s, c.toNat < 0x80

/-- Characters of a joined text. -/
@[simp]
theorem ascii_append {t : List Char} : Ascii (s ++ t) ↔ Ascii s ∧ Ascii t := by
  simp [Ascii, or_imp, forall_and]

/-- Characters of a text with one more in front. -/
@[simp]
theorem ascii_cons : Ascii (c :: s) ↔ c.toNat < 0x80 ∧ Ascii s := by
  simp [Ascii]

/-- The text without characters. -/
@[simp]
theorem ascii_nil : Ascii [] := by
  simp [Ascii]

/-- The escape of a 16-bit unit is ASCII. -/
theorem ascii_unitEscape (n : ℕ) : Ascii (unitEscape n) := by
  have hdigit : ∀ m : ℕ, (hexDigit (m % 16)).toNat < 0x80 := by
    intro m
    have hlt : m % 16 < 16 := Nat.mod_lt m (by omega)
    generalize m % 16 = k at hlt
    interval_cases k <;> decide
  have hb : '\\'.toNat < 0x80 := by decide
  have hu : 'u'.toNat < 0x80 := by decide
  simp only [unitEscape, hex4, ascii_cons, hdigit, hb, hu, ascii_nil, and_self]

/-- A character inside a string is ASCII. -/
theorem ascii_escapeChar (c : Char) : Ascii (escapeChar c) := by
  unfold escapeChar
  split
  · next letter hl =>
    obtain ⟨l, l', heq, -⟩ := List.lookup_eq_some_iff.mp hl
    have hmem : (c, letter) ∈ shortEscapes := by
      rw [heq]
      simp
    have hall : ∀ e ∈ shortEscapes, e.2.toNat < 0x80 := by decide
    have hletter : letter.toNat < 0x80 := hall _ hmem
    have hb : '\\'.toNat < 0x80 := by decide
    simp only [ascii_cons, hletter, hb, ascii_nil, and_self]
  · split_ifs with hprint
    · have hlt : c.toNat < 0x80 := by omega
      simp only [ascii_cons, hlt, ascii_nil, and_self]
    · exact ascii_unitEscape _
    · exact ascii_append.mpr ⟨ascii_unitEscape _, ascii_unitEscape _⟩

/-- A text inside a string is ASCII. -/
theorem ascii_escape (s : List Char) : Ascii (escape s) := by
  intro c hc
  obtain ⟨d, -, hd⟩ := List.mem_flatMap.mp hc
  exact ascii_escapeChar d c hd

/-- A digit is ASCII. -/
theorem toNat_lt_of_isDigit (h : c.isDigit = true) : c.toNat < 0x80 := by
  have hle : c ≤ '9' := by
    simp only [Char.isDigit, Bool.and_eq_true, decide_eq_true_eq] at h
    exact h.2
  have hnat : c.toNat ≤ '9'.toNat := hle
  have hnine : '9'.toNat = 57 := rfl
  omega

/-- A scalar is ASCII. -/
theorem ascii_dumpScalar (v : Scalar) : Ascii (dumpScalar v) := by
  have hq : '"'.toNat < 0x80 := by decide
  cases v with
  | text s =>
    show Ascii ('"' :: escape s.toList ++ ['"'])
    simp only [ascii_append, ascii_cons, hq, ascii_escape, ascii_nil, and_self]
  | whole n =>
    intro c hc
    exact toNat_lt_of_isDigit (Nat.isDigit_of_mem_toDigits (by omega) (by omega) hc)

/-- A document is ASCII. -/
theorem ascii_dumps (ms : List (String × Scalar)) : Ascii (dumps ms) := by
  have hq : '"'.toNat < 0x80 := by decide
  have hcolon : ':'.toNat < 0x80 := by decide
  have hcomma : ','.toNat < 0x80 := by decide
  have hopen : '\x7b'.toNat < 0x80 := by decide
  have hclose : '\x7d'.toNat < 0x80 := by decide
  have hmember : ∀ m, Ascii (dumpMember m) := by
    intro m
    simp only [dumpMember, ascii_append, ascii_cons, hq, hcolon, ascii_escape, ascii_dumpScalar,
      and_self]
  have hmembers : ∀ ms, Ascii (dumpMembers ms) := by
    intro ms
    induction ms with
    | nil => exact ascii_nil
    | cons m ms ih =>
      cases ms with
      | nil => exact hmember m
      | cons m' ms =>
        show Ascii (dumpMember m ++ ',' :: dumpMembers (m' :: ms))
        simp only [ascii_append, ascii_cons, hmember, hcomma, ih, and_self]
  simp only [dumps, ascii_append, ascii_cons, hopen, hclose, hmembers, ascii_nil, and_self]

end RickIntelligence.Lib.JsonText
