import Mathlib

/-!
# JSON values

A JSON value as a program reads it from a document column. Whole numbers and numbers with a
fraction are different values to the reader, so they are different here; the latter are exact. An
object is the list of its members, whose names are distinct in a stored document.
-/

namespace RickIntelligence.Lib

/-- A JSON value. -/
inductive Json where
  | null
  | bool (b : Bool)
  | int (n : ℤ)
  | float (q : ℚ)
  | str (s : String)
  | arr (items : List Json)
  | obj (members : List (String × Json))

namespace Json

/-- The members of an object. -/
abbrev Members := List (String × Json)

/-- `value[name]` of an object. -/
def member? (name : String) (ms : Members) : Option Json := ms.lookup name

/-- A text value. -/
def text? : Json → Option String
  | str s => some s
  | _ => none

/-- A truth value. -/
def bool? : Json → Option Bool
  | bool b => some b
  | _ => none

/-- A whole number that is not negative. -/
def nat? : Json → Option ℕ
  | int n => if 0 ≤ n then some n.toNat else none
  | _ => none

/-- A number. -/
def number? : Json → Option ℚ
  | int n => some n
  | float q => some q
  | _ => none

/-- An optional text as a value. -/
def ofOptionalText : Option String → Json
  | none => null
  | some s => str s

/-- A mapping from text to text as an object. -/
def ofMapping (m : List (String × String)) : Json := obj (m.map fun item => (item.1, str item.2))

/-- The members of an object whose values are text. -/
def mapping? : Members → Option (List (String × String))
  | [] => some []
  | (name, value) :: rest => do
    let s ← value.text?
    let items ← mapping? rest
    return (name, s) :: items

/-- A mapping is read back. -/
@[simp]
theorem mapping?_ofMapping (m : List (String × String)) :
    mapping? (m.map fun item => (item.1, str item.2)) = some m := by
  induction m with
  | nil => rfl
  | cons item m ih => simp [mapping?, text?, ih]

end Json

end RickIntelligence.Lib
