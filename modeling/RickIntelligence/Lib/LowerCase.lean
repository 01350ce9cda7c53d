import RickIntelligence.Lib.Text

/-!
# Lower case and stripping

`lower` and `strip` commute, and each of them is done once and for all: a text that went through both
is not changed by either again.
-/

namespace RickIntelligence.Lib

/-- The code point of a lower case letter. -/
theorem toNat_toLower (c : Char) :
    c.toLower.toNat = if 65 ≤ c.toNat ∧ c.toNat ≤ 90 then c.toNat + 32 else c.toNat := by
  have hiff : (c.val ≥ 'A'.val ∧ c.val ≤ 'Z'.val) ↔ (65 ≤ c.toNat ∧ c.toNat ≤ 90) := Iff.rfl
  unfold Char.toLower
  split
  · next h =>
    rw [if_pos (hiff.mp h)]
    show (c.val + 32).toNat = c.val.toNat + 32
    have hhi : c.val.toNat ≤ 90 := h.2
    rw [UInt32.toNat_add]
    have h32 : (32 : UInt32).toNat = 32 := rfl
    omega
  · next h => rw [if_neg fun hn => h (hiff.mpr hn)]

/-- The code point of a lower case. -/
theorem toNat_lowerChar (c : Char) :
    (lowerChar c).toNat = if c.toNat = 0x212a then 107
      else if 65 ≤ c.toNat ∧ c.toNat ≤ 90 then c.toNat + 32 else c.toNat := by
  unfold lowerChar
  split
  · rfl
  · exact toNat_toLower c

/-- The lower case of a lower case. -/
theorem lowerChar_lowerChar (c : Char) : lowerChar (lowerChar c) = lowerChar c := by
  have hne : (lowerChar c).toNat ≠ 0x212a := by
    rw [toNat_lowerChar]
    split_ifs <;> omega
  have houter : lowerChar (lowerChar c) = (lowerChar c).toLower := if_neg hne
  rw [houter]
  unfold lowerChar
  split
  · rfl
  · exact Char.toLower_toLower_eq_toLower c

/-- The lower case of a space is a space, and of nothing else. -/
theorem isSpace_lowerChar (c : Char) : isSpace (lowerChar c) = isSpace c := by
  have hn := toNat_lowerChar c
  unfold isSpace
  simp only [hn]
  split_ifs with hkelvin hcapital
  · rw [hkelvin]
    rfl
  · have hlo := hcapital.1
    have hhi := hcapital.2
    rw [Bool.eq_iff_iff]
    simp only [Bool.or_eq_true, Bool.and_eq_true, decide_eq_true_eq, beq_iff_eq]
    omega
  · rfl

/-- Stripping goes along with a change of the characters that keeps the spaces. -/
theorem stripList_map {f : Char → Char} (h : ∀ c, isSpace (f c) = isSpace c) (l : List Char) :
    stripList (l.map f) = (stripList l).map f := by
  have hcomp : isSpace ∘ f = isSpace := funext h
  have hdrop : ∀ l : List Char, (l.map f).dropWhile isSpace = (l.dropWhile isSpace).map f := by
    intro l
    rw [List.dropWhile_map, hcomp]
  unfold stripList List.rdropWhile
  rw [hdrop, ← List.map_reverse, hdrop, List.map_reverse]

/-- The lower case of a lower case. -/
theorem lower_lower (s : String) : lower (lower s) = lower s := by
  rw [lower, lower, String.toList_ofList, List.map_map]
  congr 1
  apply List.map_congr_left
  intro c _
  exact lowerChar_lowerChar c

/-- Stripping and lower case commute. -/
theorem strip_lower (s : String) : strip (lower s) = lower (strip s) := by
  rw [strip, lower, lower, strip, String.toList_ofList, String.toList_ofList,
    stripList_map isSpace_lowerChar]

/-- A text that was stripped and put in lower case is not changed by it again. -/
theorem lower_strip_lower_strip (s : String) : lower (strip (lower (strip s))) = lower (strip s) := by
  rw [strip_lower, strip_strip, lower_lower]

end RickIntelligence.Lib
