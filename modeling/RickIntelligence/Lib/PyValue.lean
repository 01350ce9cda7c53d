import RickIntelligence.Lib.Wire

/-!
# Values that are written as JSON

The values that a program hands to `json.dumps`, with the differences that the writer does not keep: tuples
are written as lists, and the keys of a dictionary as texts. `jsonForm` is the document that is written.
-/

namespace RickIntelligence.Lib

open Wire (Floats intText natText maxStrDigits)

/-- The right one of two lists whose elements are related. -/
theorem related_right {α β : Type} {R : α → β → Prop} {as : List α} {bs : List β} (h : List.Forall₂ R as bs)
    {b : β} (hb : b ∈ bs) : ∃ a ∈ as, R a b := by
  induction h with
  | nil => exact absurd hb List.not_mem_nil
  | cons hab _ ih =>
    rcases List.mem_cons.mp hb with rfl | hb
    · exact ⟨_, List.mem_cons_self .., hab⟩
    · obtain ⟨a, ha, hR⟩ := ih hb
      exact ⟨a, List.mem_cons_of_mem _ ha, hR⟩

/-- A key of a mapping. -/
inductive Key (F : Type) where
  | null
  | bool (b : Bool)
  | int (n : ℤ)
  | float (x : F)
  | str (s : CodePoints)
  | other

/-- A value: a list or a tuple, a dictionary or another mapping, or something that is neither these nor a
scalar. -/
inductive Value (F : Type) where
  | null
  | bool (b : Bool)
  | int (n : ℤ)
  | float (x : F)
  | str (s : CodePoints)
  | sequence (isTuple : Bool) (items : List (Value F))
  | mapping (isDict : Bool) (items : List (Key F × Value F))
  | other

namespace Value

/-- Induction on values: a sequence has the property if its items have, a mapping if its values have. -/
@[induction_eliminator]
theorem induct {F : Type} {P : Value F → Prop} (null : P .null) (bool : ∀ b, P (.bool b))
    (int : ∀ n, P (.int n)) (float : ∀ x, P (.float x)) (str : ∀ s, P (.str s))
    (sequence : ∀ isTuple items, (∀ v ∈ items, P v) → P (.sequence isTuple items))
    (mapping : ∀ isDict items, (∀ m ∈ items, P m.2) → P (.mapping isDict items)) (other : P .other) :
    ∀ v, P v
  | .null => null
  | .bool b => bool b
  | .int n => int n
  | .float x => float x
  | .str s => str s
  | .sequence isTuple items =>
    sequence isTuple items fun v _ => induct null bool int float str sequence mapping other v
  | .mapping isDict items => mapping isDict items fun m hm =>
    have : sizeOf m.2 < 2 + sizeOf items := by
      have hmem := List.sizeOf_lt_of_mem hm
      have hpair : sizeOf m = 1 + sizeOf m.1 + sizeOf m.2 := by cases m; rfl
      omega
    induct null bool int float str sequence mapping other m.2
  | .other => other
termination_by v => sizeOf v

variable {F : Type}

/-! ## What a reader gives -/

mutual

/-- A document as the value that a reader gives. -/
def ofWire : Wire F → Value F
  | .null => .null
  | .bool b => .bool b
  | .int n => .int n
  | .float x => .float x
  | .str s => .str s
  | .list items => .sequence false (ofItems items)
  | .dict members => .mapping true (ofMembers members)

/-- The items of a list as values. -/
def ofItems : List (Wire F) → List (Value F)
  | [] => []
  | w :: ws => ofWire w :: ofItems ws

/-- The members of a dictionary as values. -/
def ofMembers : List (CodePoints × Wire F) → List (Key F × Value F)
  | [] => []
  | (name, w) :: ms => (.str name, ofWire w) :: ofMembers ms

end

/-- The items are read one by one. -/
theorem ofItems_eq (items : List (Wire F)) : ofItems items = items.map ofWire := by
  induction items with
  | nil => rfl
  | cons w ws ih => rw [ofItems, ih, List.map_cons]

/-- The members are read one by one. -/
theorem ofMembers_eq (members : List (CodePoints × Wire F)) :
    ofMembers members = members.map fun m => (.str m.1, ofWire m.2) := by
  induction members with
  | nil => rfl
  | cons m ms ih =>
    obtain ⟨name, w⟩ := m
    rw [ofMembers, ih, List.map_cons]

mutual

/-- A value with its tuples as lists and its mappings as dictionaries. -/
def asRead : Value F → Value F
  | .sequence _ items => .sequence false (itemsAsRead items)
  | .mapping _ items => .mapping true (fieldsAsRead items)
  | .null => .null
  | .bool b => .bool b
  | .int n => .int n
  | .float x => .float x
  | .str s => .str s
  | .other => .other

/-- The items of a sequence. -/
def itemsAsRead : List (Value F) → List (Value F)
  | [] => []
  | v :: vs => asRead v :: itemsAsRead vs

/-- The items of a mapping. -/
def fieldsAsRead : List (Key F × Value F) → List (Key F × Value F)
  | [] => []
  | (key, v) :: items => (key, asRead v) :: fieldsAsRead items

end

/-- The items of a sequence one by one. -/
theorem itemsAsRead_eq (items : List (Value F)) : itemsAsRead items = items.map asRead := by
  induction items with
  | nil => rfl
  | cons v vs ih => rw [itemsAsRead, ih, List.map_cons]

/-- The items of a mapping one by one. -/
theorem fieldsAsRead_eq (items : List (Key F × Value F)) :
    fieldsAsRead items = items.map fun m => (m.1, asRead m.2) := by
  induction items with
  | nil => rfl
  | cons m items ih =>
    obtain ⟨key, v⟩ := m
    rw [fieldsAsRead, ih, List.map_cons]

mutual

/-- Every text of a value, those of its keys included, passes a check. -/
def allTexts (p : CodePoints → Bool) : Value F → Bool
  | .sequence _ items => itemsTexts p items
  | .mapping _ items => fieldsTexts p items
  | .str s => p s
  | _ => true

/-- Every text of some items passes a check. -/
def itemsTexts (p : CodePoints → Bool) : List (Value F) → Bool
  | [] => true
  | v :: vs => allTexts p v && itemsTexts p vs

/-- Every text of some fields passes a check. -/
def fieldsTexts (p : CodePoints → Bool) : List (Key F × Value F) → Bool
  | [] => true
  | (.str key, v) :: items => p key && (allTexts p v && fieldsTexts p items)
  | (_, v) :: items => allTexts p v && fieldsTexts p items

end

/-- The texts of a sequence are those of its items. -/
theorem itemsTexts_eq_true {p : CodePoints → Bool} {items : List (Value F)} :
    itemsTexts p items = true ↔ ∀ v ∈ items, v.allTexts p = true := by
  induction items with
  | nil => simp [itemsTexts]
  | cons v vs ih => rw [itemsTexts, Bool.and_eq_true, ih, List.forall_mem_cons]

/-- The texts of a mapping are those of its keys and values. -/
theorem fieldsTexts_eq_true {p : CodePoints → Bool} {items : List (Key F × Value F)} :
    fieldsTexts p items = true ↔
      ∀ m ∈ items, (∀ key, m.1 = .str key → p key = true) ∧ m.2.allTexts p = true := by
  induction items with
  | nil => simp [fieldsTexts]
  | cons m items ih =>
    obtain ⟨key, v⟩ := m
    rw [List.forall_mem_cons, ← ih]
    cases key with
    | str key =>
      rw [fieldsTexts, Bool.and_eq_true, Bool.and_eq_true, ← and_assoc]
      have hkey : (∀ k, Key.str (F := F) key = .str k → p k = true) ↔ p key = true := by
        refine ⟨fun h => h key rfl, ?_⟩
        intro h k hk
        cases hk
        exact h
      rw [hkey]
    | _ => simp [fieldsTexts]

/-! ## What a writer makes of a value -/

/-- The text of a key: nothing if it cannot be written. -/
def keyText (fl : Floats F) : Key F → Option CodePoints
  | .null => some [0x6e, 0x75, 0x6c, 0x6c]
  | .bool true => some [0x74, 0x72, 0x75, 0x65]
  | .bool false => some [0x66, 0x61, 0x6c, 0x73, 0x65]
  | .int n => if (natText n.natAbs).length ≤ maxStrDigits then some (intText n) else none
  | .float x => if fl.finite x then some (fl.repr x) else none
  | .str s => some s
  | .other => none

/-- Members with the texts of their keys. -/
def nameMembers (fl : Floats F) : List (Key F × Wire F) → Option (List (CodePoints × Wire F))
  | [] => some []
  | (key, w) :: ms => do
    let name ← keyText fl key
    let rest ← nameMembers fl ms
    return (name, w) :: rest

/-- How a writer arranges the members of a dictionary: nothing if it raises. -/
abbrev Arrange (F : Type) := List (Key F × Wire F) → Option (List (Key F × Wire F))

/-- The members stay in their order: `json.dumps` without `sort_keys`. -/
def unsorted : Arrange F := some

mutual

/-- The document that `json.dumps` writes, with the members of the dictionaries arranged: nothing if it
raises for a value that is no JSON value. Numbers are refused by the writer. -/
def jsonForm (fl : Floats F) (arrange : Arrange F) : Value F → Option (Wire F)
  | .null => some .null
  | .bool b => some (.bool b)
  | .int n => some (.int n)
  | .float x => some (.float x)
  | .str s => some (.str s)
  | .sequence _ items => (jsonItems fl arrange items).map .list
  | .mapping true items =>
    ((jsonMembers fl arrange items).bind fun ms => (arrange ms).bind (nameMembers fl)).map .dict
  | .mapping false _ => none
  | .other => none

/-- The items of a list or a tuple. -/
def jsonItems (fl : Floats F) (arrange : Arrange F) : List (Value F) → Option (List (Wire F))
  | [] => some []
  | v :: vs => (jsonForm fl arrange v).bind fun w => (jsonItems fl arrange vs).map fun ws => w :: ws

/-- The items of a dictionary. -/
def jsonMembers (fl : Floats F) (arrange : Arrange F) :
    List (Key F × Value F) → Option (List (Key F × Wire F))
  | [] => some []
  | (key, v) :: items =>
    (jsonForm fl arrange v).bind fun w => (jsonMembers fl arrange items).map fun ms => (key, w) :: ms

end

end Value

end RickIntelligence.Lib
