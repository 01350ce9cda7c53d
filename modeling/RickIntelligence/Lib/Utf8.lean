import Mathlib

/-!
# UTF-8 octet by octet

`encode` writes a character as one to four octets, and `step` is the machine that reads them back one at a
time. A decoder that is given its input in pieces keeps the state of the machine between the pieces, so
where the input is cut does not matter (`decode_append`), and what was encoded is decoded
(`decode_encodeAll`). `decodeReplace` is the decoder that does not fail.
-/

namespace RickIntelligence.Lib.Utf8

/-! ## Writing -/

/-- The octets of a character. -/
def encode (c : Char) : List ℕ :=
  let n := c.toNat
  if n < 0x80 then [n]
  else if n < 0x800 then [0xc0 + n / 64, 0x80 + n % 64]
  else if n < 0x10000 then [0xe0 + n / 4096, 0x80 + n / 64 % 64, 0x80 + n % 64]
  else [0xf0 + n / 262144, 0x80 + n / 4096 % 64, 0x80 + n / 64 % 64, 0x80 + n % 64]

/-- The octets of a text. -/
def encodeAll (text : List Char) : List ℕ := text.flatMap encode

/-! ## Reading -/

/-- What a decoder keeps: whether it is between characters, or how many octets it waits for after the next
one, the value so far, and the least and the greatest octet that may come next. -/
inductive State where
  | start
  | owed (more value low high : ℕ)
  deriving DecidableEq, Repr

/-- What an octet leads to. -/
inductive Step where
  | next (s : State)
  | done (c : Char)
  | refused
  deriving DecidableEq, Repr

/-- The first octet of a character. Overlong forms, surrogates and values above the last character are
refused by their first two octets. -/
def first (b : ℕ) : Step :=
  if b < 0x80 then .done (Char.ofNat b)
  else if b < 0xc2 then .refused
  else if b < 0xe0 then .next (.owed 0 (b - 0xc0) 0x80 0xbf)
  else if b = 0xe0 then .next (.owed 1 0 0xa0 0xbf)
  else if b = 0xed then .next (.owed 1 0xd 0x80 0x9f)
  else if b < 0xf0 then .next (.owed 1 (b - 0xe0) 0x80 0xbf)
  else if b = 0xf0 then .next (.owed 2 0 0x90 0xbf)
  else if b < 0xf4 then .next (.owed 2 (b - 0xf0) 0x80 0xbf)
  else if b = 0xf4 then .next (.owed 2 4 0x80 0x8f)
  else .refused

/-- One octet. -/
def step : State → ℕ → Step
  | .start, b => first b
  | .owed more value low high, b =>
    if low ≤ b ∧ b ≤ high then
      match more with
      | 0 => .done (Char.ofNat (value * 64 + (b - 0x80)))
      | more + 1 => .next (.owed more (value * 64 + (b - 0x80)) 0x80 0xbf)
    else .refused

/-- The characters that some octets complete, and the state after them; nothing if an octet is refused. -/
def decode : State → List ℕ → Option (List Char × State)
  | s, [] => some ([], s)
  | s, b :: bs =>
    match step s b with
    | .next s => decode s bs
    | .done c => (decode .start bs).map fun r => (c :: r.1, r.2)
    | .refused => none

/-- The replacement character. -/
def replacement : ℕ := 0xfffd

/-- The code points that some octets are read as with `errors="replace"`: what is owed when an octet is
refused or the input ends is one replacement character, and a refused octet is then read anew. -/
def decodeReplace : State → List ℕ → List ℕ
  | .start, [] => []
  | .owed .., [] => [replacement]
  | .start, b :: bs =>
    match first b with
    | .next s => decodeReplace s bs
    | .done c => c.toNat :: decodeReplace .start bs
    | .refused => replacement :: decodeReplace .start bs
  | .owed more value low high, b :: bs =>
    match step (.owed more value low high) b with
    | .next s => decodeReplace s bs
    | .done c => c.toNat :: decodeReplace .start bs
    | .refused =>
      replacement :: match first b with
        | .next s => decodeReplace s bs
        | .done c => c.toNat :: decodeReplace .start bs
        | .refused => replacement :: decodeReplace .start bs

/-- The octets after the first one. -/
theorem decode_cons (s : State) (b : ℕ) (bs : List ℕ) :
    decode s (b :: bs) = match step s b with
      | .next s => decode s bs
      | .done c => (decode .start bs).map fun r => (c :: r.1, r.2)
      | .refused => none := rfl

/-! ## Pieces -/

/-- Octets that come in two pieces are decoded as if they came together. -/
theorem decode_append (s : State) (a b : List ℕ) :
    decode s (a ++ b) = (decode s a).bind fun r => (decode r.2 b).map fun q => (r.1 ++ q.1, q.2) := by
  induction a generalizing s with
  | nil => simp [decode]
  | cons x a ih =>
    rw [List.cons_append, decode_cons, decode_cons]
    cases step s x with
    | next s => exact ih s
    | done c =>
      simp only [ih]
      cases decode State.start a with
      | none => rfl
      | some r => simp [Function.comp_def]
    | refused => rfl

/-! ## What was written is read -/

/-- The encoding is that of the characters of Lean. -/
theorem encode_eq (c : Char) : encode c = (String.utf8EncodeChar c).map UInt8.toNat := by
  have hvalid : c.toNat < 0xd800 ∨ 0xdfff < c.toNat ∧ c.toNat < 0x110000 := c.valid
  have hval : c.val.toNat = c.toNat := rfl
  unfold encode String.utf8EncodeChar
  rw [hval]
  generalize c.toNat = n at hvalid ⊢
  have hle : ∀ m, (n < m + 1 ↔ n ≤ m) := fun m => Nat.lt_succ_iff
  simp only [hle 0x7f, hle 0x7ff, hle 0xffff]
  split_ifs <;> simp only [List.map_cons, List.map_nil, UInt8.toNat_ofNat', List.cons.injEq, and_true] <;>
    omega

variable {b : ℕ} {text octets : List ℕ}

/-- The first of two octets. -/
theorem first_two (h : 0xc2 ≤ b) (h' : b < 0xe0) :
    first b = .next (.owed 0 (b - 0xc0) 0x80 0xbf) := by
  unfold first
  rw [if_neg (by omega), if_neg (by omega), if_pos h']

/-- The first of three octets. -/
theorem first_three (h : 0xe0 ≤ b) (h' : b < 0xf0) :
    first b = .next (.owed 1 (b - 0xe0) (if b = 0xe0 then 0xa0 else 0x80)
      (if b = 0xed then 0x9f else 0xbf)) := by
  unfold first
  rw [if_neg (by omega), if_neg (by omega), if_neg (by omega)]
  by_cases h0 : b = 0xe0
  · subst h0
    rfl
  · by_cases hd : b = 0xed
    · subst hd
      rfl
    · rw [if_neg h0, if_neg hd, if_pos h', if_neg h0, if_neg hd]

/-- The first of four octets. -/
theorem first_four (h : 0xf0 ≤ b) (h' : b ≤ 0xf4) :
    first b = .next (.owed 2 (b - 0xf0) (if b = 0xf0 then 0x90 else 0x80)
      (if b = 0xf4 then 0x8f else 0xbf)) := by
  have hcases : b = 0xf0 ∨ b = 0xf1 ∨ b = 0xf2 ∨ b = 0xf3 ∨ b = 0xf4 := by omega
  rcases hcases with rfl | rfl | rfl | rfl | rfl <;> rfl

/-- An octet that is in its range. -/
theorem step_owed {more value low high : ℕ} (h : low ≤ b) (h' : b ≤ high) :
    step (.owed more value low high) b = match more with
      | 0 => .done (Char.ofNat (value * 64 + (b - 0x80)))
      | more + 1 => .next (.owed more (value * 64 + (b - 0x80)) 0x80 0xbf) := if_pos ⟨h, h'⟩

/-- A character that was written is read back. -/
theorem decode_encode (c : Char) (rest : List ℕ) :
    decode .start (encode c ++ rest) = (decode .start rest).map fun r => (c :: r.1, r.2) := by
  have hvalid : c.toNat < 0xd800 ∨ 0xdfff < c.toNat ∧ c.toNat < 0x110000 := c.valid
  have hchar : Char.ofNat c.toNat = c := Char.ofNat_toNat c
  unfold encode
  generalize c.toNat = n at hvalid hchar ⊢
  by_cases h1 : n < 0x80
  · have hone : step .start n = .done (Char.ofNat n) := if_pos h1
    simp only [if_pos h1, List.singleton_append, decode_cons, hone, hchar]
  · by_cases h2 : n < 0x800
    · have hfirst : step .start (0xc0 + n / 64) = _ := first_two (by omega) (by omega)
      have hvalue : (0xc0 + n / 64 - 0xc0) * 64 + (0x80 + n % 64 - 0x80) = n := by omega
      simp only [if_neg h1, if_pos h2, List.cons_append, List.nil_append, decode_cons, hfirst,
        step_owed (show 0x80 ≤ 0x80 + n % 64 by omega) (show 0x80 + n % 64 ≤ 0xbf by omega), hvalue, hchar]
    · by_cases h3 : n < 0x10000
      · have hfirst : step .start (0xe0 + n / 4096) = _ := first_three (by omega) (by omega)
        have hlow : (if 0xe0 + n / 4096 = 0xe0 then 0xa0 else 0x80) ≤ 0x80 + n / 64 % 64 := by
          split <;> omega
        have hhigh : 0x80 + n / 64 % 64 ≤ if 0xe0 + n / 4096 = 0xed then 0x9f else 0xbf := by
          split <;> omega
        have hvalue : ((0xe0 + n / 4096 - 0xe0) * 64 + (0x80 + n / 64 % 64 - 0x80)) * 64 +
            (0x80 + n % 64 - 0x80) = n := by omega
        simp only [if_neg h1, if_neg h2, if_pos h3, List.cons_append, List.nil_append, decode_cons, hfirst,
          step_owed hlow hhigh,
          step_owed (show 0x80 ≤ 0x80 + n % 64 by omega) (show 0x80 + n % 64 ≤ 0xbf by omega), hvalue, hchar]
      · have hfirst : step .start (0xf0 + n / 262144) = _ := first_four (by omega) (by omega)
        have hlow : (if 0xf0 + n / 262144 = 0xf0 then 0x90 else 0x80) ≤ 0x80 + n / 4096 % 64 := by
          split <;> omega
        have hhigh : 0x80 + n / 4096 % 64 ≤ if 0xf0 + n / 262144 = 0xf4 then 0x8f else 0xbf := by
          split <;> omega
        have hvalue : (((0xf0 + n / 262144 - 0xf0) * 64 + (0x80 + n / 4096 % 64 - 0x80)) * 64 +
            (0x80 + n / 64 % 64 - 0x80)) * 64 + (0x80 + n % 64 - 0x80) = n := by omega
        simp only [if_neg h1, if_neg h2, if_neg h3, List.cons_append, List.nil_append, decode_cons, hfirst,
          step_owed hlow hhigh,
          step_owed (show 0x80 ≤ 0x80 + n / 64 % 64 by omega) (show 0x80 + n / 64 % 64 ≤ 0xbf by omega),
          step_owed (show 0x80 ≤ 0x80 + n % 64 by omega) (show 0x80 + n % 64 ≤ 0xbf by omega), hvalue, hchar]

/-- A text that was written is read back, with nothing owed. -/
theorem decode_encodeAll (text : List Char) : decode .start (encodeAll text) = some (text, .start) := by
  induction text with
  | nil => rfl
  | cons c text ih =>
    unfold encodeAll at ih ⊢
    rw [List.flatMap_cons, decode_encode, ih]
    rfl

/-- Octets of ASCII are read as the characters of their values. -/
theorem decode_ascii {bs : List ℕ} (h : ∀ b ∈ bs, b < 0x80) :
    decode .start bs = some (bs.map Char.ofNat, .start) := by
  induction bs with
  | nil => rfl
  | cons b bs ih =>
    have hfirst : step .start b = .done (Char.ofNat b) := if_pos (h b (List.mem_cons_self ..))
    rw [decode_cons, hfirst]
    simp only
    rw [ih fun c hc => h c (List.mem_cons_of_mem b hc)]
    rfl

/-! ## Texts as code points -/

/-- `text.encode("utf-8")`: nothing if a half of a surrogate pair stands in the text. -/
def encodeText (text : List ℕ) : Option (List ℕ) :=
  if text.all fun c => decide c.isValidChar then some (encodeAll (text.map Char.ofNat)) else none

/-- `octets.decode("utf-8")`, as code points. -/
def decodeText (octets : List ℕ) : Option (List ℕ) :=
  match decode .start octets with
  | some (text, .start) => some (text.map Char.toNat)
  | _ => none

/-- Code points that are characters are those of the characters. -/
theorem toNat_ofNat_text (h : ∀ c ∈ text, c.isValidChar) :
    (text.map Char.ofNat).map Char.toNat = text := by
  rw [List.map_map]
  conv_rhs => rw [← List.map_id text]
  refine List.map_congr_left ?_
  intro c hc
  show (Char.ofNat c).toNat = c
  rw [Char.toNat_ofNat, if_pos (h c hc)]

/-- Octets of ASCII are read as themselves. -/
theorem decodeText_ascii (h : ∀ b ∈ octets, b < 0x80) :
    decodeText octets = some octets := by
  have hvalid : ∀ b ∈ octets, b.isValidChar := by
    intro b hb
    have hlt := h b hb
    exact .inl (by omega)
  unfold decodeText
  rw [decode_ascii h]
  simp only [toNat_ofNat_text hvalid]

/-- What is decoded has no halves of surrogate pairs. -/
theorem decodeText_valid (h : decodeText octets = some text) :
    ∀ c ∈ text, c.isValidChar := by
  unfold decodeText at h
  split at h
  · cases h
    intro c hc
    obtain ⟨d, -, rfl⟩ := List.mem_map.mp hc
    exact d.valid
  · cases h

/-- A text that was encoded is decoded. -/
theorem decodeText_encodeText (h : encodeText text = some octets) :
    decodeText octets = some text := by
  unfold encodeText at h
  split at h
  · next hall =>
    cases h
    have hvalid : ∀ c ∈ text, c.isValidChar := fun c hc =>
      of_decide_eq_true (List.all_eq_true.mp hall c hc)
    unfold decodeText
    rw [decode_encodeAll]
    simp only [toNat_ofNat_text hvalid]
  · cases h

/-- Texts with the same characters, in any order, are encoded in as many octets. -/
theorem encodeText_perm {a b : List ℕ} (h : a.Perm b) (ha : encodeText a = some octets) :
    ∃ octets', encodeText b = some octets' ∧ octets'.length = octets.length := by
  unfold encodeText at ha ⊢
  split at ha
  · next hall =>
    cases ha
    rw [h.all_eq] at hall
    refine ⟨_, if_pos hall, ?_⟩
    unfold encodeAll
    exact ((h.map Char.ofNat).flatMap_right encode).length_eq.symm
  · cases ha

/-- A text that is put together is encoded part by part. -/
theorem encodeText_append {a b octets' : List ℕ} (ha : encodeText a = some octets)
    (hb : encodeText b = some octets') : encodeText (a ++ b) = some (octets ++ octets') := by
  unfold encodeText at ha hb ⊢
  split at ha
  · next halla =>
    split at hb
    · next hallb =>
      cases ha
      cases hb
      rw [if_pos (by rw [List.all_append, halla, hallb]; rfl), List.map_append]
      unfold encodeAll
      rw [List.flatMap_append]
    · cases hb
  · cases ha

/-- Texts that are joined are encoded one by one. -/
theorem encodeText_intercalate {sep : List ℕ} (hsep : encodeText sep = some sep) {texts octets : List (List ℕ)}
    (h : List.Forall₂ (fun text part => encodeText text = some part) texts octets) :
    encodeText (sep.intercalate texts) = some (sep.intercalate octets) := by
  induction h with
  | nil => rfl
  | cons hfirst hrest ih =>
    cases hrest with
    | nil =>
      rw [List.intercalate_singleton, List.intercalate_singleton]
      exact hfirst
    | cons hsecond hrest =>
      rw [List.intercalate_cons_cons, List.intercalate_cons_cons]
      exact encodeText_append (encodeText_append hfirst hsep) ih

end RickIntelligence.Lib.Utf8
