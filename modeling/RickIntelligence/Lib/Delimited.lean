import RickIntelligence.Lib.JsonText

/-!
# Delimited values

The values inside an array or an object of JSON text are separated by commas and closed by a bracket. A
way to write values is delimited if what is written, together with the separator or the bracket after
it, determines the value and the rest of the text (`Delimited`). Texts are, and so is everything that is
written without such characters; then members and items can be told apart one after the other.
-/

namespace RickIntelligence.Lib.JsonText

/-- What stands after a value. -/
def Ends (c : Char) : Prop := c = ',' ∨ c = '\x7d' ∨ c = ']'

/-- A value can be told apart from what stands after it. -/
def Delimited {α : Type} (write : α → List Char) : Prop :=
  ∀ ⦃a b : α⦄ ⦃c c' : Char⦄ ⦃rest rest' : List Char⦄, Ends c → Ends c' →
    write a ++ c :: rest = write b ++ c' :: rest' → a = b ∧ c :: rest = c' :: rest'

/-! ## Values -/

/-- A text in quotes. -/
def quoted (s : String) : List Char := '"' :: escape s.toList ++ ['"']

/-- `null`, or a value. -/
def orNull {α : Type} (write : α → List Char) : Option α → List Char
  | none => ['n', 'u', 'l', 'l']
  | some a => write a

/-- An escaped text ends at its quote. -/
theorem escape_inj {s t rest rest' : List Char}
    (h : escape s ++ '"' :: rest = escape t ++ '"' :: rest') : s = t ∧ rest = rest' := by
  have hs := @scanString_escape (max s.length t.length + 1) s (by omega) rest
  have ht := @scanString_escape (max s.length t.length + 1) t (by omega) rest'
  rw [h, ht, Option.some.injEq, Prod.mk.injEq] at hs
  exact ⟨hs.1.symm, hs.2.symm⟩

/-- A text in quotes is determined by what starts with it. -/
theorem quoted_inj {s t : String} {rest rest' : List Char}
    (h : quoted s ++ rest = quoted t ++ rest') : s = t ∧ rest = rest' := by
  unfold quoted at h
  simp only [List.cons_append, List.append_assoc, List.nil_append, List.cons.injEq, true_and] at h
  obtain ⟨hst, hrest⟩ := escape_inj h
  exact ⟨String.toList_injective hst, hrest⟩

/-- Texts are delimited. -/
theorem delimited_quoted : Delimited quoted := by
  intro s t c c' rest rest' _ _ h
  exact quoted_inj h

variable {α : Type} {write : α → List Char}

/-- Values that are written without separators and brackets are delimited. -/
theorem delimited_of_plain (hinj : Function.Injective write) (hplain : ∀ a, ∀ c ∈ write a, ¬ Ends c) :
    Delimited write := by
  intro a b c c' rest rest' hc hc' h
  rcases List.append_eq_append_iff.mp h with ⟨m, hb, hm⟩ | ⟨m, ha, hm⟩
  · cases m with
    | nil =>
      rw [List.append_nil] at hb
      exact ⟨(hinj hb).symm, hm⟩
    | cons d m =>
      rw [List.cons_append, List.cons.injEq] at hm
      exact absurd (hm.1 ▸ hc) (hplain b d (hb ▸ List.mem_append_right _ List.mem_cons_self))
  · cases m with
    | nil =>
      rw [List.append_nil] at ha
      exact ⟨hinj ha, hm.symm⟩
    | cons d m =>
      rw [List.cons_append, List.cons.injEq] at hm
      exact absurd (hm.1 ▸ hc') (hplain a d (ha ▸ List.mem_append_right _ List.mem_cons_self))

/-- Numbers without a sign are delimited. -/
theorem delimited_toDigits : Delimited (Nat.toDigits 10) := by
  apply delimited_of_plain
  · intro m n h
    have hdigits := congrArg (Nat.ofDigitChars 10 · 0) h
    simpa only [Nat.ofDigitChars_ten_toDigits] using hdigits
  · intro n c hc hends
    have hdigit : c.isDigit = true := Nat.isDigit_of_mem_toDigits (by omega) (by omega) hc
    rcases hends with rfl | rfl | rfl <;> cases hdigit

/-- A value that may be missing is delimited. -/
theorem delimited_orNull (h : Delimited write) (hhead : ∀ a, (write a).head? ≠ some 'n') :
    Delimited (orNull write) := by
  -- What starts with a value does not start as `null` does.
  have hcross : ∀ (a : α) (c c' : Char) (rest rest' : List Char), Ends c' →
      ['n', 'u', 'l', 'l'] ++ c :: rest ≠ write a ++ c' :: rest' := by
    intro a c c' rest rest' hc' heq
    cases hwrite : write a with
    | nil =>
      rw [hwrite, List.nil_append, List.cons_append, List.cons.injEq] at heq
      rcases hc' with rfl | rfl | rfl <;> cases heq.1
    | cons d ds =>
      simp only [hwrite, List.cons_append, List.cons.injEq] at heq
      apply hhead a
      rw [hwrite, ← heq.1]
      rfl
  intro a b c c' rest rest' hc hc' heq
  cases a with
  | none =>
    cases b with
    | none => exact ⟨rfl, List.append_cancel_left heq⟩
    | some b => exact absurd heq (hcross b c c' rest rest' hc')
  | some a =>
    cases b with
    | none => exact absurd heq.symm (hcross a c' c rest' rest hc)
    | some b =>
      obtain ⟨hab, hrest⟩ := h hc hc' heq
      exact ⟨congrArg some hab, hrest⟩

/-! ## Arrays and objects -/

/-- Parts separated by commas. -/
def joined : List (List Char) → List Char
  | [] => []
  | [part] => part
  | part :: parts => part ++ ',' :: joined parts

/-- An array of parts. -/
def dumpArray (parts : List (List Char)) : List Char := '[' :: joined parts ++ [']']

/-- A member of an object. -/
def member (name : String) (value : List Char) : List Char := quoted name ++ ':' :: value

/-- An object of members. -/
def dumpObject (members : List (String × List Char)) : List Char :=
  '\x7b' :: joined (members.map fun m => member m.1 m.2) ++ ['\x7d']

/-- A member of an object is delimited as its value is. -/
theorem delimited_member (h : Delimited write) (name : String) :
    Delimited fun a => member name (write a) := by
  intro a b c c' rest rest' hc hc' heq
  unfold member at heq
  rw [List.append_assoc, List.append_assoc, List.cons_append, List.cons_append] at heq
  have hvalue := List.append_cancel_left heq
  rw [List.cons.injEq] at hvalue
  exact h hc hc' hvalue.2

/-- The parts of two joined lists of the same length are equal one by one, where each is delimited. -/
theorem joined_cons_inj (h : Delimited write) {a b : α} {part part' : List Char} {parts parts' : List (List Char)}
    {c : Char} (heq : joined (write a :: part :: parts) ++ [c] = joined (write b :: part' :: parts') ++ [c]) :
    a = b ∧ joined (part :: parts) ++ [c] = joined (part' :: parts') ++ [c] := by
  unfold joined at heq
  rw [List.append_assoc, List.append_assoc, List.cons_append, List.cons_append] at heq
  obtain ⟨hab, hrest⟩ := h (.inl rfl) (.inl rfl) heq
  rw [List.cons.injEq] at hrest
  exact ⟨hab, hrest.2⟩

/-- The last part. -/
theorem joined_singleton_inj (h : Delimited write) {a b : α} {c : Char} (hc : Ends c)
    (heq : joined [write a] ++ [c] = joined [write b] ++ [c]) : a = b := by
  unfold joined at heq
  exact (h hc hc heq).1

/-- A text of an array can be told apart from the others. -/
theorem dumpArray_inj (h : Delimited write) {l l' : List α} (hlen : l.length = l'.length)
    (heq : dumpArray (l.map write) = dumpArray (l'.map write)) : l = l' := by
  unfold dumpArray at heq
  rw [List.cons_append, List.cons_append, List.cons.injEq] at heq
  replace heq := heq.2
  induction l generalizing l' with
  | nil => exact (List.length_eq_zero_iff.mp hlen.symm).symm
  | cons a l ih =>
    cases l' with
    | nil => cases hlen
    | cons b l' =>
      cases l with
      | nil =>
        cases l' with
        | nil => rw [joined_singleton_inj h (.inr (.inr rfl)) heq]
        | cons b' l' => cases hlen
      | cons a' l =>
        cases l' with
        | nil => cases hlen
        | cons b' l' =>
          obtain ⟨hab, hrest⟩ := joined_cons_inj h heq
          rw [hab, ih (Nat.succ.inj hlen) hrest]

end RickIntelligence.Lib.JsonText
