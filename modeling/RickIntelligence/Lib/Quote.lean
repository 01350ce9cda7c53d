import RickIntelligence.Lib.Percent
import RickIntelligence.Lib.Text

/-!
# Percent-encoding

`urllib.parse.quote`, on texts as lists of characters: the octets of a text in UTF-8, of which those of
unreserved characters, and of the characters that a caller calls safe, stay as they are. What was encoded
is decoded again (`unquote_quote`), so no two texts are encoded alike, and a separator that is safe
separates the same parts before and after (`splitAt_quote`).
-/

namespace RickIntelligence.Lib.Percent

open Utf8

/-- A hexadecimal digit. -/
def hexDigit (n : ℕ) : Char := Char.ofNat (if n < 10 then 0x30 + n else 0x41 + (n - 10))

/-- A character that is never encoded. -/
def unreserved (c : Char) : Bool := isAlnumAscii c || c == '_' || c == '.' || c == '-' || c == '~'

/-- A character that stays as it is. -/
def Kept (safe : List Char) (c : Char) : Prop := c.toNat < 0x80 ∧ (unreserved c = true ∨ c ∈ safe)

instance (safe : List Char) (c : Char) : Decidable (Kept safe c) := inferInstanceAs (Decidable (_ ∧ _))

/-- One octet of a text. -/
def quoteOctet (safe : List Char) (b : ℕ) : List Char :=
  if b < 0x80 ∧ Kept safe (Char.ofNat b) then [Char.ofNat b]
  else ['%', hexDigit (b / 16), hexDigit (b % 16)]

/-- `quote`. -/
def quote (safe text : List Char) : List Char := (encodeAll text).flatMap (quoteOctet safe)

variable {safe : List Char} {c : Char}

/-! ## What is written -/

/-- Two texts, one after the other. -/
theorem quote_append (a b : List Char) : quote safe (a ++ b) = quote safe a ++ quote safe b := by
  unfold quote encodeAll
  rw [List.flatMap_append, List.flatMap_append]

/-- A text with a first character. -/
theorem quote_cons (c : Char) (text : List Char) : quote safe (c :: text) = quote safe [c] ++ quote safe text :=
  quote_append [c] text

/-- A hexadecimal digit is a digit or a letter, and stands for its value. -/
theorem hexDigit_spec {n : ℕ} (h : n < 16) :
    (hexDigit n).toNat < 0x80 ∧ unreserved (hexDigit n) = true ∧ hexDigit n ≠ '%' ∧
      hexValue (hexDigit n).toNat = some n := by
  have hall : ∀ n < 16, (hexDigit n).toNat < 0x80 ∧ unreserved (hexDigit n) = true ∧ hexDigit n ≠ '%' ∧
      hexValue (hexDigit n).toNat = some n := by decide
  exact hall n h

/-- A character that is kept is one octet. -/
theorem quote_kept (h : Kept safe c) : quote safe [c] = [c] := by
  have hoctets : encodeAll [c] = [c.toNat] := by
    unfold encodeAll encode
    simp [h.1]
  have hself : Char.ofNat c.toNat = c := Char.ofNat_toNat c
  unfold quote
  rw [hoctets, List.flatMap_singleton, quoteOctet, hself, if_pos ⟨h.1, h⟩]

variable {text : List Char} {b : ℕ} {s : State} {bs : List ℕ} {sep : Char}

/-- A text of characters that are kept stays as it is. -/
theorem quote_eq_self (h : ∀ c ∈ text, Kept safe c) : quote safe text = text := by
  induction text with
  | nil => rfl
  | cons c text ih =>
    rw [quote_cons, quote_kept (h c List.mem_cons_self), ih fun d hd => h d (List.mem_cons_of_mem c hd)]
    rfl

/-- The octets of a text. -/
theorem encodeAll_lt (text : List Char) : ∀ b ∈ encodeAll text, b < 256 := by
  intro b hb
  unfold encodeAll at hb
  obtain ⟨c, -, hb⟩ := List.mem_flatMap.mp hb
  rw [encode_eq] at hb
  obtain ⟨u, -, rfl⟩ := List.mem_map.mp hb
  exact u.toNat_lt

/-- What is written is kept, or a percent sign, or unreserved. -/
theorem mem_quote (h : c ∈ quote safe text) :
    Kept safe c ∨ c = '%' ∨ Kept [] c := by
  unfold quote at h
  obtain ⟨b, hb, hc⟩ := List.mem_flatMap.mp h
  have hlt := encodeAll_lt text b hb
  unfold quoteOctet at hc
  split at hc
  · next hkept =>
    obtain rfl := List.mem_singleton.mp hc
    exact .inl hkept.2
  · simp only [List.mem_cons, List.not_mem_nil, or_false] at hc
    rcases hc with rfl | rfl | rfl
    · exact .inr (.inl rfl)
    · obtain ⟨hascii, hfree, -, -⟩ := hexDigit_spec (show b / 16 < 16 by omega)
      exact .inr (.inr ⟨hascii, .inl hfree⟩)
    · obtain ⟨hascii, hfree, -, -⟩ := hexDigit_spec (show b % 16 < 16 by omega)
      exact .inr (.inr ⟨hascii, .inl hfree⟩)

/-! ## Decoding -/

/-- A character that is no percent sign is read as it is. -/
theorem unquoteToBytes_cons {c : ℕ} (h : c ≠ percent) (s : Points) :
    unquoteToBytes (c :: s) = c :: unquoteToBytes s := by
  match s with
  | [] => rfl
  | [a] => rfl
  | a :: b :: s =>
    rw [unquoteToBytes, if_neg h]

/-- A text without a percent sign is read as it is. -/
theorem unquoteToBytes_plain {s : Points} (h : percent ∉ s) : unquoteToBytes s = s := by
  induction s with
  | nil => rfl
  | cons c s ih =>
    rw [List.mem_cons, not_or] at h
    rw [unquoteToBytes_cons (Ne.symm h.1), ih h.2]

/-- An escape is read as its octet. -/
theorem unquoteToBytes_escape (h : b < 256) (s : Points) :
    unquoteToBytes (percent :: (hexDigit (b / 16)).toNat :: (hexDigit (b % 16)).toNat :: s) =
      b :: unquoteToBytes s := by
  obtain ⟨-, -, -, hhigh⟩ := hexDigit_spec (show b / 16 < 16 by omega)
  obtain ⟨-, -, -, hlow⟩ := hexDigit_spec (show b % 16 < 16 by omega)
  have hoctet : octet (hexDigit (b / 16)).toNat (hexDigit (b % 16)).toNat = some b := by
    unfold octet
    rw [hhigh, hlow]
    simp only [Option.some.injEq]
    omega
  rw [unquoteToBytes, if_pos rfl, hoctet]

/-- The character of an octet of ASCII. -/
theorem toNat_ofNat_ascii (h : b < 0x80) : (Char.ofNat b).toNat = b := by
  have hvalid : b.isValidChar := .inl (by omega)
  rw [Char.ofNat, dif_pos hvalid]
  rfl

/-- The octets that were encoded are read again. -/
theorem unquoteToBytes_quote (hsafe : '%' ∉ safe) (octets : List ℕ) (h : ∀ b ∈ octets, b < 256) :
    unquoteToBytes ((octets.flatMap (quoteOctet safe)).map Char.toNat) = octets := by
  induction octets with
  | nil => rfl
  | cons b octets ih =>
    rw [List.flatMap_cons, List.map_append]
    have hrest := ih fun d hd => h d (List.mem_cons_of_mem b hd)
    by_cases hkept : b < 0x80 ∧ Kept safe (Char.ofNat b)
    · rw [quoteOctet, if_pos hkept]
      have hne : (Char.ofNat b).toNat ≠ percent := by
        intro heq
        have hpercent : Char.ofNat b = '%' := Char.toNat_inj.mp heq
        rw [hpercent] at hkept
        rcases hkept.2.2 with hfree | hmem
        · exact absurd hfree (by decide)
        · exact hsafe hmem
      rw [List.map_singleton, List.singleton_append, unquoteToBytes_cons hne,
        toNat_ofNat_ascii hkept.1, hrest]
    · rw [quoteOctet, if_neg hkept]
      show unquoteToBytes (percent :: _ :: _ :: _) = _
      rw [unquoteToBytes_escape (h b List.mem_cons_self)]
      exact congrArg (b :: ·) hrest

/-- An octet after which more is owed. -/
theorem decodeReplace_next {s' : State} (h : step s b = .next s') :
    decodeReplace s (b :: bs) = decodeReplace s' bs := by
  cases s with
  | start =>
    have hfirst : first b = .next s' := h
    rw [decodeReplace_start, hfirst]
  | owed more value low high => rw [decodeReplace_owed, h]

/-- An octet that completes a character. -/
theorem decodeReplace_done {c : Char} (h : step s b = .done c) :
    decodeReplace s (b :: bs) = c.toNat :: decodeReplace .start bs := by
  cases s with
  | start =>
    have hfirst : first b = .done c := h
    rw [decodeReplace_start, hfirst]
  | owed more value low high => rw [decodeReplace_owed, h]

/-- Octets that are read without a fault are read alike with replacements. -/
theorem decodeReplace_of_decode (h : decode s bs = some (text, .start)) :
    decodeReplace s bs = text.map Char.toNat := by
  induction bs generalizing s text with
  | nil =>
    obtain ⟨rfl, rfl⟩ := Prod.mk.inj (Option.some.inj h)
    rfl
  | cons b bs ih =>
    rw [decode_cons] at h
    cases hstep : step s b with
    | next s' =>
      rw [hstep] at h
      rw [decodeReplace_next hstep]
      exact ih h
    | done c =>
      rw [hstep] at h
      obtain ⟨r, hr, heq⟩ := Option.map_eq_some_iff.mp h
      obtain ⟨rfl, hstart⟩ := Prod.mk.inj heq
      have hrest : decode .start bs = some (r.1, .start) := by rw [hr, ← hstart]
      rw [decodeReplace_done hstep, ih hrest]
      rfl
    | refused =>
      rw [hstep] at h
      cases h

/-- **What was encoded is decoded again.** -/
theorem unquote_quote (hsafe : '%' ∉ safe) (text : List Char) :
    unquote ((quote safe text).map Char.toNat) = text.map Char.toNat := by
  have hascii : ∀ n ∈ (quote safe text).map Char.toNat, n < 0x80 := by
    intro n hn
    obtain ⟨c, hc, rfl⟩ := List.mem_map.mp hn
    rcases mem_quote hc with hkept | rfl | hfree
    · exact hkept.1
    · decide
    · exact hfree.1
  have hoctets : unquoteToBytes ((quote safe text).map Char.toNat) = encodeAll text :=
    unquoteToBytes_quote hsafe (encodeAll text) (encodeAll_lt text)
  have hrun : decodeRun ((quote safe text).map Char.toNat) = text.map Char.toNat := by
    unfold decodeRun
    rw [if_pos (List.all_eq_true.mpr fun n hn => decide_eq_true (hascii n hn)), hoctets]
    exact decodeReplace_of_decode (decode_encodeAll text)
  unfold unquote
  split
  · next hplain =>
    -- Without an escape the octets are the characters, and ASCII is read as it is.
    have hread := decodeReplace_of_decode (decode_encodeAll text)
    rw [← hoctets, unquoteToBytes_plain hplain, decodeReplace_of_decode (decode_ascii hascii), List.map_map]
      at hread
    have hsame : ∀ n ∈ (quote safe text).map Char.toNat, (Char.toNat ∘ Char.ofNat) n = n :=
      fun n hn => toNat_ofNat_ascii (hascii n hn)
    rw [List.map_congr_left hsame, List.map_id'] at hread
    exact hread
  · next hescape =>
    have hne : (quote safe text).map Char.toNat ≠ [] := by
      rintro hnil
      exact hescape (hnil ▸ List.not_mem_nil)
    have hchain : ((quote safe text).map Char.toNat).IsChain
        fun a b => (decide (a < 0x80) == decide (b < 0x80)) = true := by
      apply List.Pairwise.isChain
      apply List.pairwise_of_forall_mem_list
      intro a ha b hb
      rw [decide_eq_true (hascii a ha), decide_eq_true (hascii b hb)]
      rfl
    rw [List.splitBy_of_isChain hne hchain, List.flatMap_singleton, hrun]

/-- No two texts are encoded alike. -/
theorem quote_injective (hsafe : '%' ∉ safe) : Function.Injective (quote safe) := by
  intro a b h
  have hdecoded := congrArg (fun t => unquote (t.map Char.toNat)) h
  simp only [unquote_quote hsafe] at hdecoded
  exact List.map_injective_iff.mpr (fun c d hcd => Char.toNat_inj.mp hcd) hdecoded

/-! ## Separators -/

/-- A text before the first separator of another one is a part of its first part. -/
theorem splitAt_append_left {w s : List Char} {part : List Char} {parts : List (List Char)} (hw : sep ∉ w)
    (hs : splitAt sep s = part :: parts) : splitAt sep (w ++ s) = (w ++ part) :: parts := by
  induction w with
  | nil => exact hs
  | cons c w ih =>
    rw [List.mem_cons, not_or] at hw
    rw [List.cons_append, splitAt, if_neg (Ne.symm hw.1), ih hw.2]
    rfl

/-- Texts before a separator that is in neither of them are the same. -/
theorem append_sep_inj {a b r r' : List Char} (ha : sep ∉ a) (hb : sep ∉ b) (h : a ++ sep :: r = b ++ sep :: r') :
    a = b ∧ r = r' := by
  have hparts := congrArg (splitAt sep) h
  rw [splitAt_append ha, splitAt_append hb] at hparts
  obtain ⟨rfl, -⟩ := List.cons.inj hparts
  exact ⟨rfl, (List.cons.inj (List.append_cancel_left h)).2⟩

/-- The parts before and after a separator. -/
theorem splitAt_append_sep (sep : Char) (a b : List Char) :
    splitAt sep (a ++ sep :: b) = splitAt sep a ++ splitAt sep b := by
  induction a with
  | nil =>
    show splitAt sep (sep :: b) = [] :: splitAt sep b
    rw [splitAt, if_pos rfl]
  | cons c a ih =>
    rw [List.cons_append, splitAt, splitAt, ih]
    obtain ⟨part, parts, hparts⟩ := List.exists_cons_of_ne_nil (splitAt_ne_nil sep a)
    rw [hparts]
    split <;> rfl

/-- The parts joined by the separator are the text. -/
theorem intercalate_splitAt (sep : Char) (s : List Char) : [sep].intercalate (splitAt sep s) = s := by
  induction s with
  | nil => rfl
  | cons c s ih =>
    obtain ⟨part, parts, hparts⟩ := List.exists_cons_of_ne_nil (splitAt_ne_nil sep s)
    rw [hparts] at ih
    rw [splitAt, hparts]
    split
    · next hc => rw [List.intercalate_cons_cons, ih, hc, List.nil_append, List.singleton_append]
    · cases parts with
      | nil =>
        rw [List.intercalate_singleton] at ih ⊢
        rw [ih]
      | cons second parts =>
        rw [List.intercalate_cons_cons] at ih ⊢
        rw [List.cons_append, List.cons_append, ih]

/-- A text is determined by its parts. -/
theorem splitAt_injective (sep : Char) : Function.Injective (splitAt sep) :=
  Function.LeftInverse.injective (intercalate_splitAt sep)

/-- There is one part more than there are separators. -/
theorem length_splitAt (sep : Char) (s : List Char) : (splitAt sep s).length = s.count sep + 1 := by
  induction s with
  | nil => rfl
  | cons c s ih =>
    obtain ⟨part, parts, hparts⟩ := List.exists_cons_of_ne_nil (splitAt_ne_nil sep s)
    rw [hparts] at ih
    rw [splitAt, hparts]
    split
    · next hc =>
      rw [List.length_cons, ih, hc, List.count_cons_self]
    · next hc =>
      rw [List.count_cons_of_ne hc]
      exact ih

/-- The last part ends with the last character, when that is no separator. -/
theorem splitAt_concat {c : Char} (hc : c ≠ sep) (a : List Char) :
    ∃ parts part, splitAt sep (a ++ [c]) = parts ++ [part ++ [c]] := by
  induction a with
  | nil => exact ⟨[], [], by rw [List.nil_append, splitAt, if_neg hc]; rfl⟩
  | cons d a ih =>
    obtain ⟨parts, part, hparts⟩ := ih
    rw [List.cons_append, splitAt, hparts]
    split
    · exact ⟨[] :: parts, part, rfl⟩
    · cases parts with
      | nil => exact ⟨[], d :: part, rfl⟩
      | cons first parts => exact ⟨(d :: first) :: parts, part, rfl⟩

/-- A character that is not encoded as itself has no octet of ASCII but its own. -/
theorem encode_octets (h : b ∈ encodeAll [c]) : 0x80 ≤ b ∨ b = c.toNat := by
  unfold encodeAll encode at h
  rw [List.flatMap_singleton] at h
  simp only at h
  split_ifs at h <;> simp only [List.mem_cons, List.not_mem_nil, or_false] at h <;> omega

/-- A character that may be kept is written for no other one. -/
theorem not_mem_quote (hfree : unreserved sep = false) (hpercent : sep ≠ '%') (hc : c ≠ sep) :
    sep ∉ quote safe [c] := by
  intro hmem
  unfold quote at hmem
  obtain ⟨b, hb, hsep⟩ := List.mem_flatMap.mp hmem
  have hlt := encodeAll_lt [c] b hb
  unfold quoteOctet at hsep
  split at hsep
  · next hkept =>
    obtain rfl := List.mem_singleton.mp hsep
    rcases encode_octets hb with hhigh | rfl
    · omega
    · exact hc (Char.ofNat_toNat c).symm
  · simp only [List.mem_cons, List.not_mem_nil, or_false] at hsep
    rcases hsep with rfl | rfl | rfl
    · exact hpercent rfl
    · obtain ⟨-, hfree', -, -⟩ := hexDigit_spec (show b / 16 < 16 by omega)
      rw [hfree] at hfree'
      cases hfree'
    · obtain ⟨-, hfree', -, -⟩ := hexDigit_spec (show b % 16 < 16 by omega)
      rw [hfree] at hfree'
      cases hfree'

/-- A separator that is safe separates the same parts before and after. -/
theorem splitAt_quote (hsep : Kept safe sep) (hfree : unreserved sep = false) (hpercent : sep ≠ '%')
    (text : List Char) :
    splitAt sep (quote safe text) = (splitAt sep text).map (quote safe) := by
  induction text with
  | nil => rfl
  | cons c text ih =>
    rw [quote_cons]
    by_cases hc : c = sep
    · subst hc
      rw [quote_kept hsep, List.singleton_append, splitAt, splitAt, if_pos rfl, if_pos rfl, ih]
      rfl
    · obtain ⟨part, parts, hparts⟩ := List.exists_cons_of_ne_nil (splitAt_ne_nil sep text)
      rw [hparts] at ih
      rw [splitAt_append_left (not_mem_quote hfree hpercent hc) ih, splitAt, if_neg hc, hparts,
        ← quote_cons c part]
      rfl

end RickIntelligence.Lib.Percent
