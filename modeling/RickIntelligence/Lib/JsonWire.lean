import RickIntelligence.Lib.Dict
import RickIntelligence.Lib.Gather
import RickIntelligence.Lib.SortedWire

/-!
# Values as documents

A JSON value as a document over code points, which is what is written and read as text. Members with different names
whose values are well spelled make a well spelled document.
-/

namespace RickIntelligence.Lib

/-! ## Values as documents -/

mutual

/-- A value as a document over code points. -/
def wire : Json → Wire ℚ
  | .null => .null
  | .bool b => .bool b
  | .int n => .int n
  | .float q => .float q
  | .str s => .str (codePoints s)
  | .arr items => .list (wireItems items)
  | .obj members => .dict (wireMembers members)

/-- The items of a list as documents. -/
def wireItems : List Json → List (Wire ℚ)
  | [] => []
  | v :: vs => wire v :: wireItems vs

/-- The members of an object as members of a document. -/
def wireMembers : List (String × Json) → List (CodePoints × Wire ℚ)
  | [] => []
  | (name, v) :: ms => (codePoints name, wire v) :: wireMembers ms

end

/-- The items are taken one by one. -/
theorem wireItems_eq (items : List Json) : wireItems items = items.map wire := by
  induction items with
  | nil => rfl
  | cons v vs ih => rw [wireItems, ih, List.map_cons]

/-- The members are taken one by one. -/
theorem wireMembers_eq (members : List (String × Json)) :
    wireMembers members = members.map fun m => (codePoints m.1, wire m.2) := by
  induction members with
  | nil => rfl
  | cons m ms ih =>
    obtain ⟨name, v⟩ := m
    rw [wireMembers, ih, List.map_cons]

/-- Texts with the same code points are the same. -/
theorem codePoints_injective : Function.Injective codePoints := by
  intro s t h
  have hchars : Function.Injective Char.toNat := fun c d hcd => Char.ext (UInt32.toNat_inj.mp hcd)
  exact String.toList_inj.mp (List.map_injective_iff.mpr hchars h)

/-- Members with different names whose values are well spelled make a well spelled document. -/
theorem wellSpelled_obj {ms : Json.Members} (hnames : (ms.map Prod.fst).Nodup)
    (hvalues : ∀ m ∈ ms, (wire m.2).all (Wire.wellSpelled false) = true) :
    (wire (.obj ms)).all (Wire.wellSpelled false) = true := by
  have hfst : (ms.map fun m => (codePoints m.1, wire m.2)).map Prod.fst = (ms.map Prod.fst).map codePoints := by
    rw [List.map_map, List.map_map]
    rfl
  rw [wire, wireMembers_eq]
  refine Wire.all_dict.mpr ⟨?_, ?_⟩
  · show (((ms.map fun m => (codePoints m.1, wire m.2)).map Prod.fst).all (Wire.spelled false) &&
      decide ((ms.map fun m => (codePoints m.1, wire m.2)).map Prod.fst).Nodup) = true
    rw [hfst, Bool.and_eq_true, decide_eq_true_eq, List.all_eq_true]
    exact ⟨fun _ _ => rfl, hnames.map codePoints_injective⟩
  · intro v hv
    obtain ⟨m, hm, rfl⟩ := List.mem_map.mp hv
    exact hvalues m hm

/-- Numbers with a fraction that is zero and that are not negative, written like `7.0`. -/
def wholeRationals : Wire.Floats ℚ where
  finite x := x = x.num.toNat
  repr x := Wire.wholeFloats.repr x.num.toNat
  parse text := Wire.wholeFloats.parse text
  constant _ := 0
  equals x n := x = n
  repr_chars x _ := Wire.wholeFloats.repr_chars x.num.toNat rfl
  repr_float x _ := Wire.wholeFloats.repr_float x.num.toNat rfl
  parse_repr x h := by
    rw [Wire.wholeFloats.parse_repr x.num.toNat rfl]
    exact (of_decide_eq_true h).symm

end RickIntelligence.Lib
