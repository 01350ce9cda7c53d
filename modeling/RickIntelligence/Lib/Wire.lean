import Mathlib

/-!
# JSON documents over code points

A JSON document as a program passes it to a writer: texts are lists of code points, in which a half of a
surrogate pair may stand alone, whole numbers are unbounded, and the numbers with a fraction are of a type
whose reading and writing are given.

`render` is the text of a document without blanks, in ASCII or not. `dumps` refuses the numbers that are not
finite and the whole numbers that are too long.
-/

namespace RickIntelligence.Lib

/-- A text as its code points. -/
abbrev CodePoints := List ℕ

/-- The code points of a text without halves of surrogate pairs. -/
def codePoints (s : String) : CodePoints := s.toList.map Char.toNat

/-- A JSON document whose numbers with a fraction are of type `F`. -/
inductive Wire (F : Type) where
  | null
  | bool (b : Bool)
  | int (n : ℤ)
  | float (x : F)
  | str (s : CodePoints)
  | list (items : List (Wire F))
  | dict (members : List (CodePoints × Wire F))

namespace Wire

/-- Whether a name is among some names can be decided. -/
scoped instance decidableMemNames (name : CodePoints) (names : List CodePoints) : Decidable (name ∈ names) :=
  decidable_of_iff (names.contains name = true) List.contains_iff_mem

/-- Induction on documents: a list has the property if its items have, a dictionary if its values have. -/
@[induction_eliminator]
theorem induct {F : Type} {P : Wire F → Prop} (null : P .null) (bool : ∀ b, P (.bool b))
    (int : ∀ n, P (.int n)) (float : ∀ x, P (.float x)) (str : ∀ s, P (.str s))
    (list : ∀ items, (∀ w ∈ items, P w) → P (.list items))
    (dict : ∀ members, (∀ m ∈ members, P m.2) → P (.dict members)) : ∀ w, P w
  | .null => null
  | .bool b => bool b
  | .int n => int n
  | .float x => float x
  | .str s => str s
  | .list items => list items fun w _ => induct null bool int float str list dict w
  | .dict members => dict members fun m hm =>
    have : sizeOf m.2 < 1 + sizeOf members := by
      have hmem := List.sizeOf_lt_of_mem hm
      have hpair : sizeOf m = 1 + sizeOf m.1 + sizeOf m.2 := by cases m; rfl
      omega
    induct null bool int float str list dict m.2
termination_by w => sizeOf w

variable {F : Type}

/-! ## What holds everywhere in a document -/

mutual

/-- Every document within a document passes a check. -/
def all (p : Wire F → Bool) : Wire F → Bool
  | .null => p .null
  | .bool b => p (.bool b)
  | .int n => p (.int n)
  | .float x => p (.float x)
  | .str s => p (.str s)
  | .list items => p (.list items) && allItems p items
  | .dict members => p (.dict members) && allMembers p members

/-- Every document within the items passes a check. -/
def allItems (p : Wire F → Bool) : List (Wire F) → Bool
  | [] => true
  | w :: ws => all p w && allItems p ws

/-- Every document within the values passes a check. -/
def allMembers (p : Wire F → Bool) : List (CodePoints × Wire F) → Bool
  | [] => true
  | (_, w) :: ms => all p w && allMembers p ms

end

variable {p q : Wire F → Bool} {w : Wire F}

/-- A list passes a check everywhere if it does itself and its items do. -/
theorem all_list {items : List (Wire F)} :
    (Wire.list items).all p = true ↔ p (.list items) = true ∧ ∀ w ∈ items, w.all p = true := by
  have hitems : allItems p items = true ↔ ∀ w ∈ items, w.all p = true := by
    induction items with
    | nil => simp [allItems]
    | cons w ws ih => rw [allItems, Bool.and_eq_true, ih, List.forall_mem_cons]
  rw [all, Bool.and_eq_true, hitems]

/-- A dictionary passes a check everywhere if it does itself and its values do. -/
theorem all_dict {members : List (CodePoints × Wire F)} :
    (Wire.dict members).all p = true ↔ p (.dict members) = true ∧ ∀ m ∈ members, m.2.all p = true := by
  have hmembers : allMembers p members = true ↔ ∀ m ∈ members, m.2.all p = true := by
    induction members with
    | nil => simp [allMembers]
    | cons m ms ih =>
      obtain ⟨name, w⟩ := m
      rw [allMembers, Bool.and_eq_true, ih, List.forall_mem_cons]
  rw [all, Bool.and_eq_true, hmembers]

/-- A document that passes a check everywhere passes it itself. -/
theorem all_self (h : w.all p = true) : p w = true := by
  cases w with
  | list items => exact (all_list.mp h).1
  | dict members => exact (all_dict.mp h).1
  | _ => exact h

/-- A weaker check is passed wherever a stronger one is. -/
theorem all_imp (hpq : ∀ w, p w = true → q w = true) (h : w.all p = true) : w.all q = true := by
  induction w with
  | list items ih =>
    obtain ⟨hself, hitems⟩ := all_list.mp h
    exact all_list.mpr ⟨hpq _ hself, fun w hw => ih w hw (hitems w hw)⟩
  | dict members ih =>
    obtain ⟨hself, hmembers⟩ := all_dict.mp h
    exact all_dict.mpr ⟨hpq _ hself, fun m hm => ih m hm (hmembers m hm)⟩
  | _ => exact hpq _ h

/-- Two checks are passed everywhere if both are. -/
theorem all_and (hp : w.all p = true) (hq : w.all q = true) :
    (w.all fun w => p w && q w) = true := by
  induction w with
  | list items ih =>
    obtain ⟨hself, hitems⟩ := all_list.mp hp
    obtain ⟨hself', hitems'⟩ := all_list.mp hq
    exact all_list.mpr ⟨by rw [hself, hself']; rfl, fun w hw => ih w hw (hitems w hw) (hitems' w hw)⟩
  | dict members ih =>
    obtain ⟨hself, hmembers⟩ := all_dict.mp hp
    obtain ⟨hself', hmembers'⟩ := all_dict.mp hq
    exact all_dict.mpr
      ⟨by rw [hself, hself']; rfl, fun m hm => ih m hm (hmembers m hm) (hmembers' m hm)⟩
  | _ =>
    simp only [all] at hp hq ⊢
    rw [hp, hq]
    rfl

/-! ## Numbers -/

/-- A decimal digit. -/
def isDigit (c : ℕ) : Bool := 0x30 ≤ c && c ≤ 0x39

/-- The digits of a whole part: a zero alone, or digits that start with another one. -/
def isWhole (digits : CodePoints) : Bool :=
  !digits.isEmpty && (digits.head? != some 0x30 || digits.length == 1)

/-- An exponent: `[eE][-+]?[0-9]+`. -/
def isExponent : CodePoints → Bool
  | [] => false
  | e :: s =>
    let digits := match s with
      | [] => []
      | c :: t => if c = 0x2b ∨ c = 0x2d then t else s
    (e == 0x65 || e == 0x45) && !digits.isEmpty && digits.all isDigit

/-- What makes a number one with a fraction: `\.[0-9]+`, an exponent, or both. -/
def isTail : CodePoints → Bool
  | [] => false
  | c :: s =>
    if c = 0x2e then
      !(s.takeWhile isDigit).isEmpty && ((s.dropWhile isDigit).isEmpty || isExponent (s.dropWhile isDigit))
    else isExponent (c :: s)

/-- A number without its sign. -/
def unsigned (s : CodePoints) : CodePoints := if s.head? = some 0x2d then s.tail else s

/-- The text of a number with a fraction or an exponent. -/
def isFloatText (s : CodePoints) : Bool :=
  isWhole ((unsigned s).takeWhile isDigit) && isTail ((unsigned s).dropWhile isDigit)

/-- A character of a number or of a literal name: neither a blank nor one that structures a text. -/
def isTokenChar (c : ℕ) : Bool :=
  !([0x20, 0x09, 0x0a, 0x0d, 0x22, 0x2c, 0x3a, 0x5b, 0x5d, 0x7b, 0x7d] : List ℕ).contains c

/-- A character of a number: a digit, a sign, a point or the letter of an exponent. -/
def isNumberChar (c : ℕ) : Bool := isDigit c || ([0x2b, 0x2d, 0x2e, 0x45, 0x65] : List ℕ).contains c

/-- The numbers with a fraction: which of them are finite, how they are written, what a number or one of the
constants `NaN`, `Infinity` and `-Infinity` is read as, and which are equal to a whole number. A finite number is
written as the text of a number with a fraction, and read back. -/
structure Floats (F : Type) where
  finite : F → Bool
  repr : F → CodePoints
  parse : CodePoints → F
  constant : CodePoints → F
  equals : F → ℤ → Bool
  repr_chars : ∀ x, finite x = true → (repr x).all isNumberChar = true
  repr_float : ∀ x, finite x = true → isFloatText (repr x) = true
  parse_repr : ∀ x, finite x = true → parse (repr x) = x

/-- The digits of a number. -/
def natText (n : ℕ) : CodePoints := if n = 0 then [0x30] else (Nat.digits 10 n).reverse.map (0x30 + ·)

/-- `int.__repr__`. -/
def intText (n : ℤ) : CodePoints := if n < 0 then 0x2d :: natText n.natAbs else natText n.natAbs

/-- The greatest number of digits of a whole number that is written or read. -/
def maxStrDigits : ℕ := 4300

/-! ## Writing -/

/-- A character of a string that stands for itself, or the escape of a 16-bit unit. -/
inductive CodeUnit where
  | raw (c : ℕ)
  | escaped (n : ℕ)
  deriving DecidableEq, Repr

/-- The characters with an escape of their own, and the letter of it. -/
def shortEscapes : List (ℕ × ℕ) :=
  [(0x22, 0x22), (0x5c, 0x5c), (0x0a, 0x6e), (0x0d, 0x72), (0x09, 0x74), (0x0c, 0x66), (0x08, 0x62)]

/-- The first half of the surrogate pair of a code point. -/
def highHalf (c : ℕ) : ℕ := 0xd800 + (c - 0x10000) / 1024 % 1024

/-- The second half of the surrogate pair of a code point. -/
def lowHalf (c : ℕ) : ℕ := 0xdc00 + (c - 0x10000) % 1024

/-- How a character is spelled in a string, in ASCII or not. -/
def unitsOf (ascii : Bool) (c : ℕ) : List CodeUnit :=
  if (shortEscapes.lookup c).isSome then [.raw c]
  else if c < 0x20 ∨ (ascii = true ∧ 0x7e < c) then
    if c < 0x10000 then [.escaped c] else [.escaped (highHalf c), .escaped (lowHalf c)]
  else [.raw c]

/-- A hexadecimal digit, in lower case. -/
def hexDigit (n : ℕ) : ℕ := if n < 10 then 0x30 + n else 0x57 + n

/-- Four hexadecimal digits. -/
def hex4 (n : ℕ) : CodePoints :=
  [hexDigit (n / 4096 % 16), hexDigit (n / 256 % 16), hexDigit (n / 16 % 16), hexDigit (n % 16)]

/-- A unit as text. -/
def CodeUnit.write : CodeUnit → CodePoints
  | .raw c => match shortEscapes.lookup c with
    | some letter => [0x5c, letter]
    | none => [c]
  | .escaped n => 0x5c :: 0x75 :: hex4 n

/-- A text inside a string. -/
def escape (ascii : Bool) (s : CodePoints) : CodePoints := (s.flatMap (unitsOf ascii)).flatMap CodeUnit.write

/-- A string, with its quotes. -/
def quoted (ascii : Bool) (s : CodePoints) : CodePoints := 0x22 :: escape ascii s ++ [0x22]

mutual

/-- A document as text, without blanks. -/
def render (fl : Floats F) (ascii : Bool) : Wire F → CodePoints
  | .null => [0x6e, 0x75, 0x6c, 0x6c]
  | .bool true => [0x74, 0x72, 0x75, 0x65]
  | .bool false => [0x66, 0x61, 0x6c, 0x73, 0x65]
  | .int n => intText n
  | .float x => fl.repr x
  | .str s => quoted ascii s
  | .list items => 0x5b :: [0x2c].intercalate (renderItems fl ascii items) ++ [0x5d]
  | .dict members => 0x7b :: [0x2c].intercalate (renderMembers fl ascii members) ++ [0x7d]

/-- The items of a list as texts. -/
def renderItems (fl : Floats F) (ascii : Bool) : List (Wire F) → List CodePoints
  | [] => []
  | w :: ws => render fl ascii w :: renderItems fl ascii ws

/-- The members of a dictionary as texts. -/
def renderMembers (fl : Floats F) (ascii : Bool) : List (CodePoints × Wire F) → List CodePoints
  | [] => []
  | (name, w) :: ms => (quoted ascii name ++ 0x3a :: render fl ascii w) :: renderMembers fl ascii ms

end

/-- Whether a writer accepts a number. -/
def writable (fl : Floats F) : Wire F → Bool
  | .int n => (natText n.natAbs).length ≤ maxStrDigits
  | .float x => fl.finite x
  | _ => true

/-- `json.dumps` without blanks: nothing if it raises `ValueError`. -/
def dumps (fl : Floats F) (ascii : Bool) (w : Wire F) : Option CodePoints :=
  if w.all (writable fl) then some (render fl ascii w) else none

/-- The items are written one by one. -/
theorem renderItems_eq (fl : Floats F) (ascii : Bool) (items : List (Wire F)) :
    renderItems fl ascii items = items.map (render fl ascii) := by
  induction items with
  | nil => rfl
  | cons w ws ih => rw [renderItems, ih, List.map_cons]

/-- The text of a member. -/
def renderMember (fl : Floats F) (ascii : Bool) (m : CodePoints × Wire F) : CodePoints :=
  quoted ascii m.1 ++ 0x3a :: render fl ascii m.2

/-- The members are written one by one. -/
theorem renderMembers_eq (fl : Floats F) (ascii : Bool) (members : List (CodePoints × Wire F)) :
    renderMembers fl ascii members = members.map (renderMember fl ascii) := by
  induction members with
  | nil => rfl
  | cons m ms ih =>
    obtain ⟨name, w⟩ := m
    rw [renderMembers, ih, List.map_cons]
    rfl

/-- A document that is written. -/
theorem dumps_eq_some {fl : Floats F} {ascii : Bool} {w : Wire F} {text : CodePoints} :
    dumps fl ascii w = some text ↔ w.all (writable fl) = true ∧ render fl ascii w = text := by
  unfold dumps
  split
  · next h => rw [Option.some.injEq, and_iff_right h]
  · next h => simp [h]

end Wire

end RickIntelligence.Lib
