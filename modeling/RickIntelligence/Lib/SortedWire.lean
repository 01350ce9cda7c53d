import RickIntelligence.Lib.PyValue
import RickIntelligence.Lib.WireReader

/-!
# JSON with sorted keys

`json.dumps(value, sort_keys=True)`: the members of a dictionary are written in the order of their keys, before
the keys become texts. Keys that cannot be compared are refused.

What is written is read back (`loads_dumps`), and writing what was read gives the same document with its
members in the order of their names (`jsonForm_ofWire`), whose text has the same characters
(`render_sortMembers`), so as many octets.
-/

namespace RickIntelligence.Lib

namespace Key

variable {F : Type}

/-- The text of a key that is one. -/
def text? : Key F → Option CodePoints
  | .str s => some s
  | _ => none

/-- A key that is a number, or a truth value. -/
def isNumber : Key F → Bool
  | .bool _ | .int _ | .float _ => true
  | _ => false

end Key

namespace Wire

variable {F : Type}

/-! ## Writing in order -/

/-- The order of members by name. -/
def byName {α : Type} (a b : CodePoints × α) : Prop := a.1 ≤ b.1

instance {α : Type} : DecidableRel (@byName α) := fun a b => inferInstanceAs (Decidable (a.1 ≤ b.1))

/-- `sorted(items)`, with the order of numbers: texts are compared with texts, numbers with numbers, and nothing
else with anything. -/
def sortKeys (order : Key F → Key F → Bool) : Value.Arrange F := fun members =>
  if members.all fun m => m.1.text?.isSome then
    some (members.insertionSort fun a b => a.1.text?.getD [] ≤ b.1.text?.getD [])
  else if members.all fun m => m.1.isNumber then
    some (members.insertionSort fun a b => order a.1 b.1 = true)
  else if members.length ≤ 1 then some members
  else none

mutual

/-- A document with its members in the order of their names. -/
def sortMembers : Wire F → Wire F
  | .null => .null
  | .bool b => .bool b
  | .int n => .int n
  | .float x => .float x
  | .str s => .str s
  | .list items => .list (sortItems items)
  | .dict members => .dict ((sortValues members).insertionSort byName)

/-- Items with their members in the order of their names. -/
def sortItems : List (Wire F) → List (Wire F)
  | [] => []
  | w :: ws => sortMembers w :: sortItems ws

/-- Members whose values have theirs in the order of their names. -/
def sortValues : List (CodePoints × Wire F) → List (CodePoints × Wire F)
  | [] => []
  | (name, w) :: ms => (name, sortMembers w) :: sortValues ms

end

/-- The items one by one. -/
theorem sortItems_eq (items : List (Wire F)) : sortItems items = items.map sortMembers := by
  induction items with
  | nil => rfl
  | cons w ws ih => rw [sortItems, ih, List.map_cons]

/-- The values one by one. -/
theorem sortValues_eq (members : List (CodePoints × Wire F)) :
    sortValues members = members.map fun m => (m.1, sortMembers m.2) := by
  induction members with
  | nil => rfl
  | cons m ms ih =>
    obtain ⟨name, w⟩ := m
    rw [sortValues, ih, List.map_cons]

/-- The hook of a reader that keeps the last value of a name, where its first one stands. -/
def keepLast (members : List (CodePoints × Wire F)) : List (CodePoints × Wire F) :=
  members.foldl (fun ms m =>
    if m.1 ∈ ms.map Prod.fst then ms.map fun n => if n.1 = m.1 then m else n else ms ++ [m]) []

/-- The hooks of `json.loads` when it is given none. -/
def defaultHooks (fl : Floats F) : Hooks F := ⟨fun c => some (fl.constant c), fun ms => some (keepLast ms)⟩

/-- Members without a repeated name are kept. -/
theorem keepLast_of_nodup {members : List (CodePoints × Wire F)} (h : (members.map Prod.fst).Nodup) :
    keepLast members = members := by
  have hgo : ∀ before : List (CodePoints × Wire F), ((before ++ members).map Prod.fst).Nodup →
      members.foldl (fun ms m =>
        if m.1 ∈ ms.map Prod.fst then ms.map fun n => if n.1 = m.1 then m else n else ms ++ [m]) before =
        before ++ members := by
    clear h
    induction members with
    | nil => intro before _; rw [List.foldl_nil, List.append_nil]
    | cons m members ih =>
      intro before hnodup
      have hsplit : before ++ m :: members = before ++ [m] ++ members := by
        rw [List.append_assoc, List.singleton_append]
      have hnew : m.1 ∉ before.map Prod.fst := by
        rw [List.map_append, List.nodup_append] at hnodup
        intro hmem
        exact hnodup.2.2 m.1 hmem m.1 (by simp) rfl
      rw [List.foldl_cons, if_neg hnew, hsplit]
      exact ih _ (hsplit ▸ hnodup)
  exact hgo [] h

/-- The hooks of `json.loads` keep members without a repeated name. -/
theorem defaultHooks_keeps (fl : Floats F) : (defaultHooks fl).KeepsDistinct := fun members h => by
  show some (keepLast members) = some members
  rw [keepLast_of_nodup h]

/-! ## The order does not matter for the characters -/

section Characters

variable {fl : Floats F} {ascii : Bool}

/-- Texts that are joined have the characters of the texts, and those of the separators. -/
theorem intercalate_perm (sep : CodePoints) (texts : List CodePoints) :
    (sep.intercalate texts).Perm (texts.flatten ++ (List.replicate (texts.length - 1) sep).flatten) := by
  induction texts with
  | nil => exact .refl []
  | cons text texts ih =>
    cases texts with
    | nil => rw [List.intercalate_singleton]; simp
    | cons text' texts =>
      have hlength : (text :: text' :: texts).length - 1 = ((text' :: texts).length - 1) + 1 := by
        simp only [List.length_cons]
        omega
      rw [List.intercalate_cons_cons, hlength, List.replicate_succ]
      show (text ++ sep ++ sep.intercalate (text' :: texts)).Perm
        (text ++ (text' :: texts).flatten ++ (sep ++ _))
      generalize (text' :: texts).flatten = rest at ih ⊢
      rw [List.append_assoc, List.append_assoc]
      refine List.Perm.append_left text ?_
      refine (List.Perm.append_left sep ih).trans ?_
      rw [← List.append_assoc, ← List.append_assoc]
      exact List.Perm.append_right _ List.perm_append_comm

/-- Joining a list of as many texts with the same characters gives the same characters. -/
theorem intercalate_congr {sep : CodePoints} {a b : List CodePoints} (hlength : a.length = b.length)
    (h : a.flatten.Perm b.flatten) : (sep.intercalate a).Perm (sep.intercalate b) := by
  refine (intercalate_perm sep a).trans (.trans ?_ (intercalate_perm sep b).symm)
  rw [hlength]
  exact h.append_right _

/-- A document has the same characters with its members in the order of their names. -/
theorem render_sortMembers (w : Wire F) : (render fl ascii (sortMembers w)).Perm (render fl ascii w) := by
  induction w with
  | list items ih =>
    rw [sortMembers, sortItems_eq, render, render, renderItems_eq, renderItems_eq]
    refine List.Perm.cons _ (List.Perm.append_right _ (intercalate_congr (by simp) ?_))
    rw [List.map_map]
    exact List.Perm.flatMap_left items ih
  | dict members ih =>
    rw [sortMembers, sortValues_eq, render, render, renderMembers_eq, renderMembers_eq]
    refine List.Perm.cons _ (List.Perm.append_right _ (intercalate_congr (by simp) ?_))
    refine ((List.perm_insertionSort byName _).map _).flatten.trans ?_
    rw [List.map_map]
    refine List.Perm.flatMap_left members ?_
    intro m hm
    exact List.Perm.append_left _ (List.Perm.cons _ (ih m hm))
  | _ => exact .refl _

/-- A check of the numbers is passed with the members in the order of their names. -/
theorem writable_sortMembers {w : Wire F} (h : w.all (writable fl) = true) :
    (sortMembers w).all (writable fl) = true := by
  induction w with
  | list items ih =>
    rw [sortMembers, sortItems_eq]
    refine all_list.mpr ⟨rfl, ?_⟩
    intro v hv
    obtain ⟨w, hw, rfl⟩ := List.mem_map.mp hv
    exact ih w hw ((all_list.mp h).2 w hw)
  | dict members ih =>
    rw [sortMembers, sortValues_eq]
    refine all_dict.mpr ⟨rfl, ?_⟩
    intro v hv
    obtain ⟨m, hm, rfl⟩ := List.mem_map.mp ((List.mem_insertionSort byName).mp hv)
    exact ih m hm ((all_dict.mp h).2 m hm)
  | _ => exact h

/-- The names are those of the document, in their order. -/
theorem names_sortMembers (members : List (CodePoints × Wire F)) :
    (((sortValues members).insertionSort byName).map Prod.fst).Perm (members.map Prod.fst) := by
  refine ((List.perm_insertionSort byName _).map Prod.fst).trans ?_
  rw [sortValues_eq, List.map_map]
  exact .refl _

/-- Texts and names can be spelled with the members in the order of their names. -/
theorem wellSpelled_sortMembers {w : Wire F} (h : w.all (wellSpelled ascii) = true) :
    (sortMembers w).all (wellSpelled ascii) = true := by
  induction w with
  | list items ih =>
    rw [sortMembers, sortItems_eq]
    refine all_list.mpr ⟨rfl, ?_⟩
    intro v hv
    obtain ⟨w, hw, rfl⟩ := List.mem_map.mp hv
    exact ih w hw ((all_list.mp h).2 w hw)
  | dict members ih =>
    obtain ⟨hself, hmembers⟩ := all_dict.mp h
    have hperm := names_sortMembers members
    refine all_dict.mpr ⟨?_, ?_⟩
    · unfold wellSpelled at hself ⊢
      rw [Bool.and_eq_true, decide_eq_true_eq] at hself ⊢
      exact ⟨hperm.all_eq ▸ hself.1, hperm.nodup_iff.mpr hself.2⟩
    · intro v hv
      rw [sortValues_eq] at hv
      obtain ⟨m, hm, rfl⟩ := List.mem_map.mp ((List.mem_insertionSort byName).mp hv)
      exact ih m hm (hmembers m hm)
  | _ => exact h

end Characters

/-! ## What was read is written -/

section Written

variable {fl : Floats F}

/-- Members whose keys are texts keep them as names. -/
theorem nameMembers_str (members : List (CodePoints × Wire F)) :
    Value.nameMembers fl (members.map fun m => (.str m.1, m.2)) = some members := by
  induction members with
  | nil => rfl
  | cons m ms ih =>
    rw [List.map_cons, Value.nameMembers, ih]
    rfl

/-- Members whose keys are texts are sorted by them. -/
theorem sortKeys_str (order : Key F → Key F → Bool) (members : List (CodePoints × Wire F)) :
    sortKeys order (members.map fun m => (.str m.1, m.2)) =
      some ((members.insertionSort byName).map fun m => (.str m.1, m.2)) := by
  have htexts : ((members.map fun m => (Key.str m.1, m.2)).all fun m => (Key.text? (F := F) m.1).isSome) = true := by
    rw [List.all_map]
    exact List.all_eq_true.mpr fun _ _ => rfl
  unfold sortKeys
  rw [if_pos htexts]
  congr 1
  exact (List.map_insertionSort byName
    (fun a b : Key F × Wire F => a.1.text?.getD [] ≤ b.1.text?.getD []) (fun m => (.str m.1, m.2)) members
    fun _ _ _ _ => Iff.rfl).symm

variable {arrange : Value.Arrange F} {form : Wire F → Wire F}

/-- Items that were read, one by one. -/
theorem jsonItems_ofWire {items : List (Wire F)}
    (h : ∀ w ∈ items, Value.jsonForm fl arrange (Value.ofWire w) = some (form w)) :
    Value.jsonItems fl arrange (items.map Value.ofWire) = some (items.map form) := by
  induction items with
  | nil => rfl
  | cons w ws ih =>
    rw [List.map_cons, Value.jsonItems, h w (List.mem_cons_self ..), Option.bind_some,
      ih fun v hv => h v (List.mem_cons_of_mem w hv)]
    rfl

/-- Members that were read, one by one. -/
theorem jsonMembers_ofWire {members : List (CodePoints × Wire F)}
    (h : ∀ m ∈ members, Value.jsonForm fl arrange (Value.ofWire m.2) = some (form m.2)) :
    Value.jsonMembers fl arrange (members.map fun m => (.str m.1, Value.ofWire m.2)) =
      some ((members.map fun m => (m.1, form m.2)).map fun m => (.str m.1, m.2)) := by
  induction members with
  | nil => rfl
  | cons m ms ih =>
    rw [List.map_cons, Value.jsonMembers, h m (List.mem_cons_self ..), Option.bind_some,
      ih fun v hv => h v (List.mem_cons_of_mem m hv)]
    rfl

/-- What was read is written with its members in the order of their names. -/
theorem jsonForm_ofWire (order : Key F → Key F → Bool) (w : Wire F) :
    Value.jsonForm fl (sortKeys order) (Value.ofWire w) = some (sortMembers w) := by
  induction w with
  | list items ih =>
    rw [Value.ofWire, Value.ofItems_eq, Value.jsonForm, jsonItems_ofWire ih, sortMembers, sortItems_eq]
    rfl
  | dict members ih =>
    rw [Value.ofWire, Value.ofMembers_eq, Value.jsonForm, jsonMembers_ofWire ih, Option.bind_some,
      sortKeys_str, Option.bind_some, nameMembers_str, sortMembers, sortValues_eq]
    rfl
  | _ => rfl

/-- What was read is written as it is without sorting. -/
theorem jsonForm_unsorted_ofWire (w : Wire F) :
    Value.jsonForm fl Value.unsorted (Value.ofWire w) = some w := by
  induction w with
  | list items ih =>
    have hitems : Value.jsonItems fl Value.unsorted (items.map Value.ofWire) = some (items.map id) :=
      jsonItems_ofWire ih
    rw [Value.ofWire, Value.ofItems_eq, Value.jsonForm, hitems, List.map_id]
    rfl
  | dict members ih =>
    have hmembers : Value.jsonMembers fl Value.unsorted (members.map fun m => (.str m.1, Value.ofWire m.2)) =
        some ((members.map fun m => (m.1, id m.2)).map fun m => (.str m.1, m.2)) := jsonMembers_ofWire ih
    have hsame : (members.map fun m => (m.1, id m.2)) = members := List.map_id members
    rw [hsame] at hmembers
    rw [Value.ofWire, Value.ofMembers_eq, Value.jsonForm, hmembers, Option.bind_some, Value.unsorted,
      Option.bind_some, nameMembers_str]
    rfl
  | _ => rfl

end Written

end Wire

/-! ## Dictionaries have different keys -/

namespace Value

variable {F : Type}

/-- Keys that can stand in one dictionary: different ones, or numbers that are not finite, of which `NaN` is
not equal to itself. -/
def DistinctKeys (fl : Wire.Floats F) (a b : Key F) : Prop := a ≠ b ∨ ∃ x, a = .float x ∧ fl.finite x = false

mutual

/-- The keys of every mapping within a value are different. -/
def Proper (fl : Wire.Floats F) : Value F → Prop
  | .sequence _ items => ProperItems fl items
  | .mapping _ items => (items.Pairwise fun a b => DistinctKeys fl a.1 b.1) ∧ ProperFields fl items
  | _ => True

/-- The keys of every mapping within some items are different. -/
def ProperItems (fl : Wire.Floats F) : List (Value F) → Prop
  | [] => True
  | v :: vs => Proper fl v ∧ ProperItems fl vs

/-- The keys of every mapping within some fields are different. -/
def ProperFields (fl : Wire.Floats F) : List (Key F × Value F) → Prop
  | [] => True
  | (_, v) :: items => Proper fl v ∧ ProperFields fl items

end

section Proper

variable {fl : Wire.Floats F}

/-- The items one by one. -/
theorem properItems_iff {items : List (Value F)} : ProperItems fl items ↔ ∀ v ∈ items, v.Proper fl := by
  induction items with
  | nil => simp [ProperItems]
  | cons v vs ih => rw [ProperItems, ih, List.forall_mem_cons]

variable {items : List (Key F × Value F)} {a b : Key F} {order : Key F → Key F → Bool} {ms : List (Key F × Wire F)}

/-- The fields one by one. -/
theorem properFields_iff :
    ProperFields fl items ↔ ∀ m ∈ items, m.2.Proper fl := by
  induction items with
  | nil => simp [ProperFields]
  | cons m items ih =>
    obtain ⟨key, v⟩ := m
    rw [ProperFields, ih, List.forall_mem_cons]

/-- Different keys are different either way. -/
theorem DistinctKeys.symm (h : DistinctKeys fl a b) : DistinctKeys fl b a := by
  by_cases heq : a = b
  · subst heq
    exact h
  · exact .inl fun hba => heq hba.symm

/-- A scalar key as a document. -/
def keyWire : Key F → Wire F
  | .bool b => .bool b
  | .int n => .int n
  | .float x => .float x
  | _ => .null

variable {text : CodePoints} {members : List (Key F × Wire F)} {ns : List (CodePoints × Wire F)}
  {arrange : Arrange F}

/-- The text of a key that is a number is read as the number. -/
theorem readToken_keyText {hooks : Wire.Hooks F} {key : Key F} (hnumber : key.isNumber = true)
    (h : keyText fl key = some text) :
    Wire.readToken fl hooks text = some (keyWire key) := by
  cases key with
  | bool b =>
    cases b
    · cases h
      rfl
    · cases h
      rfl
  | int n =>
    rw [keyText] at h
    split at h
    · next hshort =>
      cases h
      exact Wire.readToken_intText hshort
    · cases h
  | float x =>
    rw [keyText] at h
    split at h
    · next hfinite =>
      cases h
      exact Wire.readToken_repr hfinite
    · cases h
  | _ => cases hnumber

/-- A key that is a number is known by its document. -/
theorem keyWire_injective (ha : a.isNumber = true) (hb : b.isNumber = true) (h : keyWire a = keyWire b) : a = b := by
  cases a <;> cases b <;> simp_all [keyWire, Key.isNumber]

/-- Keys that are numbers have different texts. -/
theorem keyText_number (ha : a.isNumber = true) (hb : b.isNumber = true) (h : keyText fl a = some text)
    (h' : keyText fl b = some text) : a = b := by
  have hread : Wire.readToken fl (Wire.defaultHooks fl) text = some (keyWire a) := readToken_keyText ha h
  rw [readToken_keyText hb h', Option.some.injEq] at hread
  exact keyWire_injective ha hb hread.symm

/-- Keys that are compared have different texts if they are different. -/
theorem keyText_ne {ms : List (Key F × Wire F)} (hsort : Wire.sortKeys order members = some ms)
    (h : members.Pairwise fun a b => DistinctKeys fl a.1 b.1) :
    ms.Pairwise fun a b => ∀ text, keyText fl a.1 = some text → keyText fl b.1 ≠ some text := by
  have hfinite : ∀ {a b : Key F} {text}, DistinctKeys fl a b → keyText fl a = some text → a ≠ b := by
    rintro a b text (hne | ⟨x, rfl, hx⟩) ha
    · exact hne
    · rw [keyText, hx] at ha
      cases ha
  have hperm : ∀ ms' : List (Key F × Wire F), ms'.Perm members →
      ms'.Pairwise fun a b => DistinctKeys fl a.1 b.1 := fun ms' hp =>
    (hp.pairwise_iff fun hab => DistinctKeys.symm hab).mpr h
  unfold Wire.sortKeys at hsort
  split at hsort
  · next htexts =>
    -- Texts are their own texts.
    cases hsort
    have hp := List.perm_insertionSort (fun a b : Key F × Wire F => a.1.text?.getD [] ≤ b.1.text?.getD []) members
    refine (hperm _ hp).imp_of_mem ?_
    intro a b ha hb hab text hta htb
    have hstr : ∀ c ∈ members, ∀ t, keyText fl c.1 = some t → c.1 = .str t := by
      intro c hc t ht
      have hsome := List.all_eq_true.mp htexts c hc
      cases hkey : c.1 with
      | str s =>
        rw [hkey] at ht
        cases ht
        rfl
      | _ =>
        rw [hkey] at hsome
        cases hsome
    have hsame : a.1 = b.1 := by
      rw [hstr a (hp.mem_iff.mp ha) text hta, hstr b (hp.mem_iff.mp hb) text htb]
    exact hfinite hab hta hsame
  · split at hsort
    · next hnumbers =>
      cases hsort
      have hp := List.perm_insertionSort (fun a b : Key F × Wire F => order a.1 b.1 = true) members
      refine (hperm _ hp).imp_of_mem ?_
      intro a b ha hb hab text hta htb
      have hnumber : ∀ c ∈ members, c.1.isNumber = true := List.all_eq_true.mp hnumbers
      exact hfinite hab hta
        (keyText_number (hnumber a (hp.mem_iff.mp ha)) (hnumber b (hp.mem_iff.mp hb)) hta htb)
    · split at hsort
      · next hlength =>
        cases hsort
        cases members with
        | nil => exact .nil
        | cons m members =>
          cases members with
          | nil => exact List.pairwise_singleton _ m
          | cons m' members =>
            simp only [List.length_cons] at hlength
            omega
      · cases hsort

/-- Members are named one by one. -/
theorem nameMembers_some (h : nameMembers fl ms = some ns) :
    List.Forall₂ (fun m n => keyText fl m.1 = some n.1 ∧ m.2 = n.2) ms ns := by
  induction ms generalizing ns with
  | nil =>
    cases h
    exact .nil
  | cons m ms ih =>
    obtain ⟨key, w⟩ := m
    rw [nameMembers] at h
    obtain ⟨name, hname, h⟩ := Option.bind_eq_some_iff.mp h
    obtain ⟨rest, hrest, h⟩ := Option.bind_eq_some_iff.mp h
    cases h
    exact .cons ⟨hname, rfl⟩ (ih hrest)

/-- Members whose keys have different texts have different names. -/
theorem nodup_names (h : List.Forall₂ (fun m n => keyText fl m.1 = some n.1 ∧ m.2 = n.2) ms ns)
    (hne : ms.Pairwise fun a b => ∀ text, keyText fl a.1 = some text → keyText fl b.1 ≠ some text) :
    (ns.map Prod.fst).Nodup := by
  induction h with
  | nil => exact List.nodup_nil
  | cons hmn hrest ih =>
    obtain ⟨hfirst, hothers⟩ := List.pairwise_cons.mp hne
    rw [List.map_cons, List.nodup_cons]
    refine ⟨?_, ih hothers⟩
    intro hmem
    obtain ⟨n, hn, heq⟩ := List.mem_map.mp hmem
    obtain ⟨m, hm, hname⟩ := related_right hrest hn
    exact hfirst m hm _ hmn.1 (heq ▸ hname.1)

/-- The values of a mapping are written one by one, under their keys. -/
theorem jsonMembers_some (h : jsonMembers fl arrange items = some ms) :
    List.Forall₂ (fun i m => i.1 = m.1 ∧ jsonForm fl arrange i.2 = some m.2) items ms := by
  induction items generalizing ms with
  | nil =>
    cases h
    exact .nil
  | cons i items ih =>
    obtain ⟨key, v⟩ := i
    rw [jsonMembers] at h
    obtain ⟨w, hw, h⟩ := Option.bind_eq_some_iff.mp h
    obtain ⟨rest, hrest, rfl⟩ := Option.map_eq_some_iff.mp h
    exact .cons ⟨rfl, hw⟩ (ih hrest)

/-- The items of a sequence are written one by one. -/
theorem jsonItems_some {items : List (Value F)} {ws : List (Wire F)} (h : jsonItems fl arrange items = some ws) :
    List.Forall₂ (fun v w => jsonForm fl arrange v = some w) items ws := by
  induction items generalizing ws with
  | nil =>
    cases h
    exact .nil
  | cons v items ih =>
    rw [jsonItems] at h
    obtain ⟨w, hw, h⟩ := Option.bind_eq_some_iff.mp h
    obtain ⟨rest, hrest, rfl⟩ := Option.map_eq_some_iff.mp h
    exact .cons hw (ih hrest)

/-- Keys that are different stay so under their values. -/
theorem distinct_members (R : Value F → Wire F → Prop)
    (h : List.Forall₂ (fun i m => i.1 = m.1 ∧ R i.2 m.2) items ms)
    (hne : items.Pairwise fun a b => DistinctKeys fl a.1 b.1) :
    ms.Pairwise fun a b => DistinctKeys fl a.1 b.1 := by
  induction h with
  | nil => exact .nil
  | cons him hrest ih =>
    obtain ⟨hfirst, hothers⟩ := List.pairwise_cons.mp hne
    refine List.pairwise_cons.mpr ⟨?_, ih hothers⟩
    intro m hm
    obtain ⟨i, hi, hkey⟩ := related_right hrest hm
    rw [← him.1, ← hkey.1]
    exact hfirst i hi

/-- Sorted members are those that were given. -/
theorem sortKeys_perm (h : Wire.sortKeys order members = some ms) :
    ms.Perm members := by
  unfold Wire.sortKeys at h
  split at h
  · cases h
    exact List.perm_insertionSort _ _
  · split at h
    · cases h
      exact List.perm_insertionSort _ _
    · split at h
      · cases h
        exact .refl _
      · cases h

/-- The dictionaries of what is written have different names. -/
theorem wellSpelled_jsonForm {v : Value F} {w : Wire F} (hproper : v.Proper fl)
    (h : jsonForm fl (Wire.sortKeys order) v = some w) : w.all (Wire.wellSpelled false) = true := by
  induction v generalizing w with
  | sequence isTuple items ih =>
    rw [Proper, properItems_iff] at hproper
    rw [jsonForm] at h
    obtain ⟨ws, hws, rfl⟩ := Option.map_eq_some_iff.mp h
    refine Wire.all_list.mpr ⟨rfl, ?_⟩
    intro w hw
    obtain ⟨v, hv, hvw⟩ := related_right (jsonItems_some hws) hw
    exact ih v hv (hproper v hv) hvw
  | mapping isDict items ih =>
    cases isDict with
    | false => cases h
    | true =>
      rw [Proper, properFields_iff] at hproper
      rw [jsonForm] at h
      obtain ⟨ns, hns, rfl⟩ := Option.map_eq_some_iff.mp h
      obtain ⟨members, hmembers, hns⟩ := Option.bind_eq_some_iff.mp hns
      obtain ⟨ms, hsort, hnames⟩ := Option.bind_eq_some_iff.mp hns
      have hitems := jsonMembers_some hmembers
      have hnamed := nameMembers_some hnames
      have hdistinct := distinct_members (fun v w => jsonForm fl (Wire.sortKeys order) v = some w) hitems
        hproper.1
      have hnodup := nodup_names hnamed (keyText_ne hsort hdistinct)
      refine Wire.all_dict.mpr ⟨?_, ?_⟩
      · show ((ns.map Prod.fst).all (Wire.spelled false) && decide (ns.map Prod.fst).Nodup) = true
        rw [Bool.and_eq_true, decide_eq_true_eq, List.all_eq_true]
        exact ⟨fun _ _ => rfl, hnodup⟩
      · intro n hn
        obtain ⟨m, hm, hmn⟩ := related_right hnamed hn
        obtain ⟨i, hi, him⟩ := related_right hitems ((sortKeys_perm hsort).mem_iff.mp hm)
        rw [← hmn.2]
        exact ih i hi (hproper.2 i hi) him.2
  | other => cases h
  | _ =>
    cases h
    rfl

end Proper

end Value

end RickIntelligence.Lib
