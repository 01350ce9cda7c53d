import RickIntelligence.Lib.Json

/-!
# Dictionaries

The members of an object as a dictionary: a member that is set keeps the place of the one with its
name (`setMember`), and `merge` sets the members of a second dictionary in the first. Values are
compared as the program compares them (`equal`): a truth value is a number, whole numbers and numbers
with a fraction are compared by their value, and the order of the members does not count.
-/

namespace RickIntelligence.Lib

namespace Json

/-! ## Members -/

/-- The dictionary has the name. -/
def has (name : String) (ms : Members) : Bool := (member? name ms).isSome

/-- `d[name] = value`. -/
def setMember (name : String) (value : Json) : Members → Members
  | [] => [(name, value)]
  | m :: ms => if m.1 = name then (name, value) :: ms else m :: setMember name value ms

/-- The dictionary with the members of a second one. -/
def merge (ms ns : Members) : Members := ns.foldl (fun acc m => setMember m.1 m.2 acc) ms

/-- The members with the names of a list that the dictionary has, in the order of the list. -/
def restrict (names : List String) (ms : Members) : Members :=
  names.filterMap fun name => (member? name ms).map fun value => (name, value)

/-- The first member with the name. -/
theorem member?_cons (k : String) (m : String × Json) (ms : Members) :
    member? k (m :: ms) = if k = m.1 then some m.2 else member? k ms := by
  unfold member?
  rw [List.lookup_cons]
  by_cases hk : k = m.1
  · simp [hk]
  · rw [beq_false_of_ne hk, if_neg hk]

/-- The member that was set, and the others. -/
theorem member?_setMember (name k : String) (value : Json) (ms : Members) :
    member? k (setMember name value ms) = if k = name then some value else member? k ms := by
  induction ms with
  | nil =>
    unfold setMember
    rw [member?_cons]
  | cons m ms ih =>
    unfold setMember
    by_cases hm : m.1 = name
    · rw [if_pos hm, member?_cons, member?_cons, hm]
      by_cases hk : k = name <;> simp [hk]
    · rw [if_neg hm, member?_cons, member?_cons, ih]
      by_cases hk : k = m.1
      · have hne : k ≠ name := fun heq => hm (hk ▸ heq)
        rw [if_pos hk, if_pos hk, if_neg hne]
      · rw [if_neg hk, if_neg hk]

/-- A member of a merge is the last one with its name of the second dictionary, or one of the first. -/
theorem member?_merge (k : String) (ms ns : Members) :
    member? k (merge ms ns) = (member? k ns.reverse).or (member? k ms) := by
  unfold merge
  induction ns generalizing ms with
  | nil => rfl
  | cons m ns ih =>
    have hlast : member? k (ns.reverse ++ [m]) = (member? k ns.reverse).or (member? k [m]) :=
      List.lookup_append
    rw [List.foldl_cons, ih, member?_setMember, List.reverse_cons, hlast, member?_cons,
      Option.or_assoc]
    by_cases hk : k = m.1
    · rw [if_pos hk, if_pos hk, Option.some_or]
    · rw [if_neg hk, if_neg hk]
      rfl

/-- The dictionary with the names of a list that have a value. -/
def pick (names : List String) (f : String → Option Json) : Members :=
  names.filterMap fun name => (f name).map fun value => (name, value)

/-- A member of such a dictionary. -/
theorem member?_pick (names : List String) (f : String → Option Json) (k : String) :
    member? k (pick names f) = if k ∈ names then f k else none := by
  induction names with
  | nil => rfl
  | cons name names ih =>
    unfold pick at ih ⊢
    rw [List.filterMap_cons]
    by_cases hk : k = name
    · subst hk
      cases hvalue : f k with
      | none =>
        simp only [Option.map_none, ih, hvalue, List.mem_cons, true_or, if_true]
        split <;> rfl
      | some value =>
        simp only [Option.map_some, member?_cons, List.mem_cons, true_or, if_true]
    · have hmem : (k ∈ name :: names) ↔ k ∈ names := by simp [hk]
      simp only [hmem]
      cases hvalue : f name with
      | none => simpa only [Option.map_none] using ih
      | some value =>
        simp only [Option.map_some, member?_cons, if_neg hk]
        exact ih

/-- Two functions that agree on the names pick the same dictionary. -/
theorem pick_congr {names : List String} {f g : String → Option Json} (h : ∀ n ∈ names, f n = g n) :
    pick names f = pick names g := by
  unfold pick
  apply List.filterMap_congr
  intro n hn
  rw [h n hn]

/-- Picking from a dictionary that was picked, with values that the choice keeps. -/
theorem pick_pick {names : List String} {f : String → Option Json} {g : String → Json → Option Json}
    (h : ∀ n v, f n = some v → g n v = some v) :
    pick names (fun n => (member? n (pick names f)).bind (g n)) = pick names f := by
  apply pick_congr
  intro n hn
  rw [member?_pick, if_pos hn]
  cases hvalue : f n with
  | none => rfl
  | some v => exact h n v hvalue

/-- A name that the second dictionary does not have keeps its member. -/
theorem member?_merge_other {k : String} {ms ns : Members} (h : k ∉ ns.map Prod.fst) :
    member? k (merge ms ns) = member? k ms := by
  have hnone : member? k ns.reverse = none := by
    unfold member?
    rw [List.lookup_eq_none_iff]
    intro m hm
    simp only [bne_iff_ne, ne_eq]
    intro heq
    exact h (List.mem_map.mpr ⟨m, List.mem_reverse.mp hm, heq.symm⟩)
  rw [member?_merge, hnone, Option.none_or]

/-! ## Values -/

/-- `bool(value)`. -/
def truthy : Json → Bool
  | null => false
  | bool b => b
  | int n => n != 0
  | float q => q != 0
  | str s => s != ""
  | arr items => !items.isEmpty
  | obj ms => !ms.isEmpty

/-- The number that a value is compared as. -/
def numeric? : Json → Option ℚ
  | bool b => some (if b then 1 else 0)
  | int n => some n
  | float q => some q
  | _ => none

mutual

/-- `a == b`. -/
def equal : Json → Json → Bool
  | null, null => true
  | str s, str t => s == t
  | arr xs, arr ys => equalItems xs ys
  | obj ms, obj ns => ms.length == ns.length && equalMembers ms ns
  | x, y =>
    match x.numeric?, y.numeric? with
    | some p, some q => p == q
    | _, _ => false

/-- Two lists, item by item. -/
def equalItems : List Json → List Json → Bool
  | [], [] => true
  | x :: xs, y :: ys => equal x y && equalItems xs ys
  | _, _ => false

/-- Every member of a dictionary is one of the other. -/
def equalMembers : List (String × Json) → Members → Bool
  | [], _ => true
  | m :: ms, ns => equalMember m ns && equalMembers ms ns

/-- The other dictionary has the name of the member, with a value that is equal. -/
def equalMember : String × Json → Members → Bool
  | (name, x), ns =>
    match member? name ns with
    | some y => equal x y
    | none => false

end

/-- The items of a list of texts. -/
def texts? : Json → Option (List String)
  | arr items => items.mapM text?
  | _ => none

end Json

end RickIntelligence.Lib
