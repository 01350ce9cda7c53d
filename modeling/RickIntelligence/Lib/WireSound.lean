import RickIntelligence.Lib.WireReader

/-!
# What is read can be written again

A reader that refuses repeated names, on text without surrogates, reads only documents whose texts can be
spelled in ASCII and whose whole numbers are not too long: the invariant of the machine says so of all that it
holds. With finite numbers such a document is the one that its own text is read as.
-/

namespace RickIntelligence.Lib.Wire

variable {F : Type}

/-- What is read: texts that can be spelled, different names, and whole numbers that are not too long. -/
def readBack : Wire F → Bool
  | .int n => (natText n.natAbs).length ≤ maxStrDigits
  | w => wellSpelled true w

/-- The numbers with a fraction are finite. -/
def finiteNumbers (fl : Floats F) : Wire F → Bool
  | .float x => fl.finite x
  | _ => true

/-- What is read and finite is read back. -/
theorem sound_of_readBack {fl : Floats F} {w : Wire F} (hread : w.all readBack = true)
    (hfinite : w.all (finiteNumbers fl) = true) : w.all (sound fl true) = true := by
  refine all_imp ?_ (all_and hread hfinite)
  intro w h
  rw [Bool.and_eq_true] at h
  unfold sound
  rw [Bool.and_eq_true]
  cases w with
  | int n => exact ⟨h.1, rfl⟩
  | float x => exact ⟨h.2, rfl⟩
  | _ => exact ⟨rfl, h.1⟩

/-! ## Texts -/

section Texts

/-- A unit that a reader makes: a character that is no half of a surrogate pair, or an escape of 16 bits. -/
def CodeUnit.Made : CodeUnit → Prop
  | .raw c => c.isValidChar
  | .escaped n => n < 0x10000

/-- A character is no half of a surrogate pair. -/
theorem not_surrogate {c : ℕ} (h : c.isValidChar) : isHigh c = false ∧ isLow c = false ∧ c < 0x110000 := by
  have hvalid : c < 0xd800 ∨ 0xdfff < c ∧ c < 0x110000 := h
  unfold isHigh isLow
  simp only [Bool.and_eq_false_iff, decide_eq_false_iff_not]
  omega

/-- A text begins with a second half only if its spelling does. -/
theorem head_joinUnits {us : List CodeUnit} (h : ∀ u ∈ us, u.Made) {l : ℕ}
    (hhead : (joinUnits us).head? = some l) (hlow : isLow l = true) : us.head? = some (.escaped l) := by
  cases us with
  | nil => cases hhead
  | cons u us =>
    cases u with
    | raw c =>
      rw [joinUnits, List.head?_cons, Option.some.injEq] at hhead
      subst hhead
      rw [(not_surrogate (h (.raw c) (List.mem_cons_self ..))).2.1] at hlow
      cases hlow
    | escaped n =>
      have hsame : (joinUnits (.escaped n :: us)).head? = some n → some (CodeUnit.escaped n) = some (.escaped l) := by
        intro hn
        rw [hn, Option.some.injEq] at hhead
        rw [hhead]
      rw [List.head?_cons]
      cases us with
      | nil => exact hsame rfl
      | cons v us =>
        cases v with
        | raw c => exact hsame rfl
        | escaped m =>
          cases hpair : isHigh n && isLow m with
          | false =>
            apply hsame
            rw [joinUnits, hpair]
            rfl
          | true =>
            -- A pair that is joined is no second half.
            rw [joinUnits, hpair, if_pos rfl, List.head?_cons, Option.some.injEq] at hhead
            unfold isLow at hlow
            simp only [Bool.and_eq_true, decide_eq_true_eq] at hlow
            omega

/-- A text that follows a character which is no first half, or which no second half follows. -/
theorem noPair_cons {c : ℕ} {s : CodePoints} (h : noPair s = true)
    (hpair : ∀ l, s.head? = some l → (isHigh c && isLow l) = false) : noPair (c :: s) = true := by
  cases s with
  | nil => rfl
  | cons d s =>
    rw [noPair, hpair d rfl, h]
    rfl

/-- What is joined can be spelled. -/
theorem spelled_joinUnits {us : List CodeUnit} (h : ∀ u ∈ us, u.Made) :
    spelled true (joinUnits us) = true := by
  have hparts : (joinUnits us).all (· < 0x110000) = true ∧ noPair (joinUnits us) = true := by
    fun_induction joinUnits us with
    | case1 n m us hpair ih =>
      have hrest := ih fun u hu => h u (List.mem_cons_of_mem _ (List.mem_cons_of_mem _ hu))
      have hn : n < 0x10000 := h (.escaped n) (by simp)
      rw [Bool.and_eq_true] at hpair
      have hhigh := hpair.1
      have hlow := hpair.2
      unfold isHigh at hhigh
      unfold isLow at hlow
      simp only [Bool.and_eq_true, decide_eq_true_eq] at hhigh hlow
      refine ⟨?_, noPair_cons hrest.2 ?_⟩
      · rw [List.all_cons, hrest.1, Bool.and_true, decide_eq_true_eq]
        omega
      · intro l _
        have hno : isHigh (0x10000 + (n - 0xd800) * 1024 + (m - 0xdc00)) = false := by
          unfold isHigh
          simp only [Bool.and_eq_false_iff, decide_eq_false_iff_not]
          omega
        rw [hno, Bool.false_and]
    | case2 n m us hpair ih =>
      have hmade : ∀ u ∈ CodeUnit.escaped m :: us, u.Made := fun u hu => h u (List.mem_cons_of_mem _ hu)
      have hrest := ih hmade
      have hn : n < 0x10000 := h (.escaped n) (by simp)
      refine ⟨?_, noPair_cons hrest.2 ?_⟩
      · rw [List.all_cons, hrest.1, Bool.and_true, decide_eq_true_eq]
        omega
      · intro l hl
        by_contra hboth
        rw [Bool.not_eq_false, Bool.and_eq_true] at hboth
        have hm := head_joinUnits hmade hl hboth.2
        cases hm
        exact hpair (by rw [hboth.1, hboth.2]; rfl)
    | case3 n us hnext ih =>
      have hmade : ∀ u ∈ us, u.Made := fun u hu => h u (List.mem_cons_of_mem _ hu)
      have hrest := ih hmade
      have hn : n < 0x10000 := h (.escaped n) (by simp)
      refine ⟨?_, noPair_cons hrest.2 ?_⟩
      · rw [List.all_cons, hrest.1, Bool.and_true, decide_eq_true_eq]
        omega
      · intro l hl
        by_contra hboth
        rw [Bool.not_eq_false, Bool.and_eq_true] at hboth
        obtain ⟨us', hus⟩ := List.head?_eq_some_iff.mp (head_joinUnits hmade hl hboth.2)
        exact hnext l us' hus
    | case4 c us ih =>
      have hrest := ih fun u hu => h u (List.mem_cons_of_mem _ hu)
      obtain ⟨hhigh, -, hlt⟩ := not_surrogate (h (.raw c) (List.mem_cons_self ..))
      refine ⟨?_, noPair_cons hrest.2 ?_⟩
      · rw [List.all_cons, hrest.1, Bool.and_true, decide_eq_true_eq]
        exact hlt
      · intro l _
        rw [hhigh, Bool.false_and]
    | case5 => exact ⟨rfl, rfl⟩
  unfold spelled
  rw [hparts.1, hparts.2]
  rfl

end Texts

/-! ## Numbers -/

section Numbers

variable {fl : Floats F} {hooks : Hooks F}

/-- A number has no more digits than it was read from. -/
theorem length_natText_natOf {digits : CodePoints} (hne : digits ≠ [])
    (h : ∀ c ∈ digits, isDigit c = true) : (natText (natOf digits)).length ≤ digits.length := by
  unfold natText
  split
  · have hpos := List.length_pos_iff.mpr hne
    rw [List.length_singleton]
    omega
  · rw [List.length_map, List.length_reverse, Nat.digits_length_le_iff (by omega)]
    unfold natOf
    have hlt := Nat.ofDigits_lt_base_pow_length (l := digits.reverse.map (· - 0x30)) (by omega : 1 < 10) ?_
    · rwa [List.length_map, List.length_reverse] at hlt
    · intro d hd
      obtain ⟨c, hc, rfl⟩ := List.mem_map.mp hd
      have hdigit := h c (List.mem_reverse.mp hc)
      unfold isDigit at hdigit
      simp only [Bool.and_eq_true, decide_eq_true_eq] at hdigit
      omega

/-- What a token is read as is read back. -/
theorem readBack_readToken {text : CodePoints} {w : Wire F} (h : readToken fl hooks text = some w) :
    w.all readBack = true := by
  have hnumber : readNumber fl text = some w → w.all readBack = true := by
    intro hread
    unfold readNumber at hread
    simp only at hread
    split at hread
    · cases hread
    · next hwhole =>
      split at hread
      · split at hread
        · cases hread
        · next hlong =>
          rw [Option.some.injEq] at hread
          subst hread
          have hne : (unsigned text).takeWhile isDigit ≠ [] := by
            intro hnil
            rw [hnil] at hwhole
            exact hwhole rfl
          have hlength := length_natText_natOf hne (fun c hc => List.mem_takeWhile_imp hc)
          have habs : (if text.head? = some 0x2d then -(natOf ((unsigned text).takeWhile isDigit) : ℤ)
              else natOf ((unsigned text).takeWhile isDigit)).natAbs =
              natOf ((unsigned text).takeWhile isDigit) := by
            split
            · rw [Int.natAbs_neg, Int.natAbs_natCast]
            · rw [Int.natAbs_natCast]
          show decide (_ ≤ maxStrDigits) = true
          rw [habs, decide_eq_true_eq]
          omega
      · split at hread
        · rw [Option.some.injEq] at hread
          subst hread
          rfl
        · cases hread
  unfold readToken at h
  split at h
  · cases h
    rfl
  · split at h
    · cases h
      rfl
    · split at h
      · cases h
        rfl
      · split at h
        · obtain ⟨x, -, rfl⟩ := Option.map_eq_some_iff.mp h
          rfl
        · exact hnumber h

end Numbers

/-! ## The invariant of the machine -/

section Invariant

variable {fl : Floats F} {hooks : Hooks F}

/-- Members whose names can be spelled and whose values are read back. -/
def GoodMembers (members : List (CodePoints × Wire F)) : Prop :=
  ∀ m ∈ members, spelled true m.1 = true ∧ m.2.all readBack = true

/-- Items that are read back. -/
def GoodItems (items : List (Wire F)) : Prop := ∀ w ∈ items, w.all readBack = true

/-- What a string is for. -/
def Purpose.Good : Purpose F → Prop
  | .value => True
  | .name members => GoodMembers members

/-- The digits of an escape that have been read. -/
def Lexing.Good : Lexing → Prop
  | .hex count value => count ≤ 3 ∧ value < 16 ^ count
  | _ => True

/-- What the machine holds is read back. -/
def Mode.Good : Mode F → Prop
  | .value => True
  | .item items _ => GoodItems items
  | .name members _ => GoodMembers members
  | .string purpose lexing units => purpose.Good ∧ lexing.Good ∧ ∀ u ∈ units, u.Made
  | .colon members key => GoodMembers members ∧ spelled true key = true
  | .token _ => True
  | .done w => w.all readBack = true

/-- What is open around it is read back. -/
def Frame.Good : Frame F → Prop
  | .list items => GoodItems items
  | .dict members name => GoodMembers members ∧ spelled true name = true

/-- The state of the machine: all that it holds is read back. -/
structure State.Good (st : State F) : Prop where
  mode : st.mode.Good
  stack : ∀ f ∈ st.stack, f.Good

/-- The hook for the members gives some of them, with different names. -/
def Hooks.GivesDistinct (hooks : Hooks F) : Prop :=
  ∀ members ms, hooks.pairs members = some ms → (ms.map Prod.fst).Nodup ∧ ∀ m ∈ ms, m ∈ members

/-- Repeated names are refused. -/
theorem rejectDuplicates_distinct (constant : CodePoints → Option F) :
    Hooks.GivesDistinct ⟨constant, rejectDuplicates⟩ := by
  intro members ms h
  replace h : (if (members.map Prod.fst).Nodup then some members else none) = some ms := h
  split at h
  · next hnodup =>
    cases h
    exact ⟨hnodup, fun m hm => hm⟩
  · cases h

variable {items : List (Wire F)} {w : Wire F} {members : List (CodePoints × Wire F)} {c : ℕ}
  {stack : List (Frame F)} {st st' : State F} {units : List CodeUnit} {text : CodePoints}

/-- One more item. -/
theorem GoodItems.snoc (h : GoodItems items) (hw : w.all readBack = true) : GoodItems (items ++ [w]) := by
  intro v hv
  rcases List.mem_append.mp hv with hv | hv
  · exact h v hv
  · rw [List.mem_singleton.mp hv]
    exact hw

/-- One more member. -/
theorem GoodMembers.snoc {name : CodePoints} (h : GoodMembers members) (hname : spelled true name = true)
    (hw : w.all readBack = true) :
    GoodMembers (members ++ [(name, w)]) := by
  intro m hm
  rcases List.mem_append.mp hm with hm | hm
  · exact h m hm
  · rw [List.mem_singleton.mp hm]
    exact ⟨hname, hw⟩

/-- A list of items that are read back. -/
theorem GoodItems.all (h : GoodItems items) :
    (Wire.list items).all readBack = true := all_list.mpr ⟨rfl, h⟩

/-- A dictionary of members that are read back. -/
theorem GoodMembers.all (hgives : hooks.GivesDistinct) {ms : List (CodePoints × Wire F)} (h : GoodMembers members)
    (hpairs : hooks.pairs members = some ms) :
    (Wire.dict ms).all readBack = true := by
  obtain ⟨hnodup, hmem⟩ := hgives members ms hpairs
  refine all_dict.mpr ⟨?_, fun m hm => (h m (hmem m hm)).2⟩
  show ((ms.map Prod.fst).all (spelled true) && decide (ms.map Prod.fst).Nodup) = true
  rw [Bool.and_eq_true, decide_eq_true_eq, List.all_eq_true]
  refine ⟨?_, hnodup⟩
  intro name hname
  obtain ⟨m, hm, rfl⟩ := List.mem_map.mp hname
  exact (h m (hmem m hm)).1

/-- A hexadecimal digit is below sixteen. -/
theorem hexValue_lt {d : ℕ} (h : hexValue c = some d) : d < 16 := by
  unfold hexValue at h
  split at h
  · cases h
    omega
  · split at h
    · cases h
      omega
    · split at h
      · cases h
        omega
      · cases h

/-- A value that begins keeps the invariant. -/
theorem beginValue_good (hstack : ∀ f ∈ stack, f.Good) (h : beginValue stack c = some st) : st.Good := by
  unfold beginValue at h
  split at h
  · cases h
    exact ⟨⟨trivial, trivial, by simp⟩, hstack⟩
  · split at h
    · cases h
      exact ⟨fun w hw => absurd hw List.not_mem_nil, hstack⟩
    · split at h
      · cases h
        exact ⟨fun m hm => absurd hm List.not_mem_nil, hstack⟩
      · split at h
        · cases h
          exact ⟨trivial, hstack⟩
        · cases h

/-- A character after a value keeps the invariant. -/
theorem afterValue_good (hgives : hooks.GivesDistinct) (hw : w.all readBack = true) (hstack : ∀ f ∈ stack, f.Good)
    (h : afterValue hooks w stack c = some st) : st.Good := by
  unfold afterValue at h
  split at h
  · cases h
    exact ⟨hw, hstack⟩
  · split at h
    · cases h
    · next items rest =>
      have hitems : GoodItems items := hstack (.list items) (List.mem_cons_self ..)
      have hrest : ∀ f ∈ rest, f.Good := fun f hf => hstack f (List.mem_cons_of_mem _ hf)
      split at h
      · cases h
        exact ⟨hitems.snoc hw, hrest⟩
      · split at h
        · cases h
          exact ⟨(hitems.snoc hw).all, hrest⟩
        · cases h
    · next members name rest =>
      obtain ⟨hmembers, hname⟩ : GoodMembers members ∧ spelled true name = true :=
        hstack (.dict members name) (List.mem_cons_self ..)
      have hrest : ∀ f ∈ rest, f.Good := fun f hf => hstack f (List.mem_cons_of_mem _ hf)
      split at h
      · cases h
        exact ⟨hmembers.snoc hname hw, hrest⟩
      · split at h
        · obtain ⟨ms, hpairs, rfl⟩ := Option.map_eq_some_iff.mp h
          exact ⟨(hmembers.snoc hname hw).all hgives hpairs, hrest⟩
        · cases h

/-- One more unit. -/
theorem made_snoc {u : CodeUnit} (h : ∀ v ∈ units, v.Made) (hu : u.Made) :
    ∀ v ∈ units ++ [u], v.Made := by
  intro v hv
  rcases List.mem_append.mp hv with hv | hv
  · exact h v hv
  · rw [List.mem_singleton.mp hv]
    exact hu

/-- A text that can be spelled, or units and digits that are made. -/
def StringGood : CodePoints ⊕ Lexing × List CodeUnit → Prop
  | .inl s => spelled true s = true
  | .inr r => r.1.Good ∧ ∀ u ∈ r.2, u.Made

/-- A character within a string keeps the invariant. -/
theorem stepString_good {lexing : Lexing} {r : CodePoints ⊕ Lexing × List CodeUnit} (hc : c.isValidChar)
    (hlexing : lexing.Good) (hunits : ∀ u ∈ units, u.Made) (h : stepString lexing units c = some r) :
    StringGood r := by
  cases lexing with
  | plain =>
    simp only [stepString] at h
    split at h
    · cases h
      exact spelled_joinUnits hunits
    · split at h
      · cases h
        exact ⟨trivial, hunits⟩
      · split at h
        · cases h
        · cases h
          exact ⟨trivial, made_snoc hunits hc⟩
  | backslash =>
    simp only [stepString] at h
    split at h
    · cases h
      exact ⟨⟨Nat.zero_le 3, Nat.one_pos⟩, hunits⟩
    · split at h
      · cases h
        exact ⟨trivial, made_snoc hunits hc⟩
      · obtain ⟨e, hfind, rfl⟩ := Option.map_eq_some_iff.mp h
        have hvalid : ∀ e ∈ shortEscapes, e.1.isValidChar := by decide
        exact ⟨trivial, made_snoc hunits (hvalid e (List.mem_of_find?_eq_some hfind))⟩
  | hex count value =>
    simp only [stepString] at h
    obtain ⟨d, hd, rfl⟩ := Option.map_eq_some_iff.mp h
    have hlt := hexValue_lt hd
    obtain ⟨hcount, hvalue⟩ : count ≤ 3 ∧ value < 16 ^ count := hlexing
    split
    · next hthree =>
      subst hthree
      refine ⟨trivial, made_snoc hunits ?_⟩
      show value * 16 + d < 0x10000
      omega
    · next hless =>
      refine ⟨⟨by omega, ?_⟩, hunits⟩
      show value * 16 + d < 16 ^ (count + 1)
      rw [pow_succ]
      omega

/-- A character keeps the invariant. -/
theorem step_good (hgives : hooks.GivesDistinct) (hc : c.isValidChar) (hst : st.Good)
    (h : step fl hooks st c = some st') : st'.Good := by
  obtain ⟨mode, stack⟩ := st
  obtain ⟨hmode, hstack⟩ := hst
  cases mode with
  | value =>
    simp only [step] at h
    split at h
    · cases h
      exact ⟨trivial, hstack⟩
    · exact beginValue_good hstack h
  | item items first =>
    simp only [step] at h
    split at h
    · cases h
      exact ⟨hmode, hstack⟩
    · split at h
      · cases h
        exact ⟨GoodItems.all hmode, hstack⟩
      · refine beginValue_good ?_ h
        intro f hf
        rcases List.mem_cons.mp hf with rfl | hf
        · exact hmode
        · exact hstack f hf
  | name members first =>
    simp only [step] at h
    split at h
    · cases h
      exact ⟨hmode, hstack⟩
    · split at h
      · obtain ⟨ms, hpairs, rfl⟩ := Option.map_eq_some_iff.mp h
        exact ⟨GoodMembers.all hgives hmode hpairs, hstack⟩
      · split at h
        · cases h
          exact ⟨⟨hmode, trivial, by simp⟩, hstack⟩
        · cases h
  | string purpose lexing units =>
    obtain ⟨hpurpose, hlexing, hunits⟩ := hmode
    obtain ⟨r, hr, heq⟩ := Option.map_eq_some_iff.mp h
    have hgood := stepString_good hc hlexing hunits hr
    cases r with
    | inl s =>
      subst heq
      cases purpose with
      | value => exact ⟨hgood, hstack⟩
      | name members => exact ⟨⟨hpurpose, hgood⟩, hstack⟩
    | inr r =>
      subst heq
      exact ⟨⟨hpurpose, hgood.1, hgood.2⟩, hstack⟩
  | colon members name =>
    simp only [step] at h
    split at h
    · cases h
      exact ⟨hmode, hstack⟩
    · split at h
      · cases h
        refine ⟨trivial, ?_⟩
        intro f hf
        rcases List.mem_cons.mp hf with rfl | hf
        · exact hmode
        · exact hstack f hf
      · cases h
  | token text =>
    simp only [step] at h
    split at h
    · cases h
      exact ⟨trivial, hstack⟩
    · obtain ⟨w, hw, h⟩ := Option.bind_eq_some_iff.mp h
      exact afterValue_good hgives (readBack_readToken hw) hstack h
  | done w => exact afterValue_good hgives hmode hstack h

/-- A text without surrogates keeps the invariant. -/
theorem run_good (hgives : hooks.GivesDistinct) (htext : ∀ c ∈ text, c.isValidChar) (hst : st.Good)
    (h : run fl hooks st text = some st') : st'.Good := by
  induction text generalizing st with
  | nil =>
    cases h
    exact hst
  | cons c text ih =>
    obtain ⟨st₁, hstep, hrest⟩ := Option.bind_eq_some_iff.mp h
    exact ih (fun d hd => htext d (List.mem_cons_of_mem c hd))
      (step_good hgives (htext c (List.mem_cons_self ..)) hst hstep) hrest

/-- What is read of a text without surrogates is read back when it is written. -/
theorem loads_readBack (hgives : hooks.GivesDistinct) (htext : ∀ c ∈ text, c.isValidChar)
    (h : loads fl hooks text = some w) :
    w.all readBack = true := by
  obtain ⟨st, hrun, hfinish⟩ := Option.bind_eq_some_iff.mp h
  have hstart : (⟨.value, []⟩ : State F).Good := ⟨trivial, by simp⟩
  have hgood := run_good hgives htext hstart hrun
  obtain ⟨mode, stack⟩ := st
  unfold finish at hfinish
  split at hfinish
  · next v heq =>
    cases heq
    cases hfinish
    exact hgood.mode
  · exact readBack_readToken hfinish
  · cases hfinish

end Invariant

end RickIntelligence.Lib.Wire
