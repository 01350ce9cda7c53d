import RickIntelligence.Lib.Utf8

/-!
# Percent-decoding

`urllib.parse.unquote`, on texts as lists of code points. The escapes of a run of ASCII characters become
octets, which are read as UTF-8; what is not UTF-8 becomes replacement characters.

A text shrinks when it is decoded, unless nothing changes. Its length is not what shrinks where one
character may count for several: a `Weight` counts the percent signs of a text first and its characters
then, and `unquote_shrinks` says that decoding lowers that count or changes nothing.
-/

namespace RickIntelligence.Lib.Percent

open Utf8

/-- A text as its code points. -/
abbrev Points := List ℕ

/-- `%`. -/
def percent : ℕ := 0x25

/-- The value of a hexadecimal digit. -/
def hexValue (c : ℕ) : Option ℕ :=
  if 0x30 ≤ c ∧ c ≤ 0x39 then some (c - 0x30)
  else if 0x41 ≤ c ∧ c ≤ 0x46 then some (c - 0x41 + 10)
  else if 0x61 ≤ c ∧ c ≤ 0x66 then some (c - 0x61 + 10)
  else none

/-- The octet of two hexadecimal digits. -/
def octet (a b : ℕ) : Option ℕ :=
  match hexValue a, hexValue b with
  | some x, some y => some (16 * x + y)
  | _, _ => none

/-- `unquote_to_bytes` of an ASCII text: an escape that is none stays as it is. -/
def unquoteToBytes : Points → List ℕ
  | [] => []
  | [a] => [a]
  | [a, b] => [a, b]
  | c :: a :: b :: s =>
    match (if c = percent then octet a b else none) with
    | some x => x :: unquoteToBytes s
    | none => c :: unquoteToBytes (a :: b :: s)

/-- A run of ASCII characters, or of others, decoded. -/
def decodeRun (run : Points) : Points :=
  if run.all (· < 0x80) then decodeReplace .start (unquoteToBytes run) else run

/-- `unquote`. -/
def unquote (s : Points) : Points :=
  if percent ∉ s then s
  else (s.splitBy fun a b => decide (a < 0x80) == decide (b < 0x80)).flatMap decodeRun

/-! ## Counting -/

/-- What a code point counts: percent signs, of which one has no more than one, and characters. -/
structure Weight where
  signs : ℕ → ℕ
  size : ℕ → ℕ
  signs_le : ∀ c, signs c ≤ 1
  signs_percent : signs percent = 1
  signs_replacement : signs replacement = 0
  size_pos : ∀ c, 0 < size c
  size_ascii : ∀ c < 0x80, size c = 1

namespace Weight

variable (u : Weight)

/-- The percent signs of a text. -/
def signsOf (s : Points) : ℕ := (s.map u.signs).sum

/-- The size of a text. -/
def sizeOf (s : Points) : ℕ := (s.map u.size).sum

/-- A text is no greater than another one: it has fewer signs, or as many and is smaller, or it is that
text. -/
def Shrinks (t s : Points) : Prop :=
  u.signsOf t ≤ u.signsOf s ∧
    (u.signsOf t = u.signsOf s → u.sizeOf t ≤ u.sizeOf s ∧ (u.sizeOf t = u.sizeOf s → t = s))

variable {u} {a b c d : Points}

/-- The signs of two texts. -/
@[simp]
theorem signsOf_append : u.signsOf (a ++ b) = u.signsOf a + u.signsOf b := by simp [signsOf]

/-- The size of two texts. -/
@[simp]
theorem sizeOf_append : u.sizeOf (a ++ b) = u.sizeOf a + u.sizeOf b := by simp [sizeOf]

/-- The signs of a text with a first character. -/
@[simp]
theorem signsOf_cons {x : ℕ} : u.signsOf (x :: a) = u.signs x + u.signsOf a := by simp [signsOf]

/-- The size of a text with a first character. -/
@[simp]
theorem sizeOf_cons {x : ℕ} : u.sizeOf (x :: a) = u.size x + u.sizeOf a := by simp [sizeOf]

/-- A text is no greater than itself. -/
theorem Shrinks.refl (s : Points) : u.Shrinks s s := ⟨le_refl _, fun _ => ⟨le_refl _, fun _ => rfl⟩⟩

/-- A text with fewer signs. -/
theorem Shrinks.of_lt (h : u.signsOf b < u.signsOf a) : u.Shrinks b a :=
  ⟨h.le, fun heq => absurd heq h.ne⟩

/-- A text with no more signs that is smaller. -/
theorem Shrinks.of_size_lt (h : u.signsOf b ≤ u.signsOf a) (hsize : u.signsOf b = u.signsOf a → u.sizeOf b < u.sizeOf a) :
    u.Shrinks b a :=
  ⟨h, fun heq => ⟨(hsize heq).le, fun hs => absurd hs (hsize heq).ne⟩⟩

/-- One after the other. -/
theorem Shrinks.trans (h₁ : u.Shrinks c b) (h₂ : u.Shrinks b a) : u.Shrinks c a := by
  obtain ⟨hs₁, he₁⟩ := h₁
  obtain ⟨hs₂, he₂⟩ := h₂
  refine ⟨hs₁.trans hs₂, fun heq => ?_⟩
  obtain ⟨hz₁, hc₁⟩ := he₁ (by omega)
  obtain ⟨hz₂, hc₂⟩ := he₂ (by omega)
  refine ⟨hz₁.trans hz₂, fun hz => ?_⟩
  rw [hc₁ (by omega), hc₂ (by omega)]

/-- Side by side. -/
theorem Shrinks.append (h₁ : u.Shrinks b a) (h₂ : u.Shrinks d c) : u.Shrinks (b ++ d) (a ++ c) := by
  obtain ⟨hs₁, he₁⟩ := h₁
  obtain ⟨hs₂, he₂⟩ := h₂
  unfold Shrinks
  simp only [signsOf_append, sizeOf_append]
  refine ⟨by omega, fun heq => ?_⟩
  obtain ⟨hz₁, hc₁⟩ := he₁ (by omega)
  obtain ⟨hz₂, hc₂⟩ := he₂ (by omega)
  refine ⟨by omega, fun hz => ?_⟩
  rw [hc₁ (by omega), hc₂ (by omega)]

/-- A text without some of its characters. -/
theorem Shrinks.of_sublist (h : b.Sublist a) : u.Shrinks b a := by
  induction h with
  | slnil => exact .refl []
  | @cons b a x _ ih =>
    have hpos := u.size_pos x
    obtain ⟨hs, he⟩ := ih
    refine .of_size_lt (by rw [signsOf_cons]; omega) fun heq => ?_
    rw [signsOf_cons] at heq
    have hz := (he (by omega)).1
    rw [sizeOf_cons]
    omega
  | @cons_cons b a x _ ih => exact (Shrinks.refl [x]).append ih

/-- Two texts that are no greater than each other are the same. -/
theorem Shrinks.antisymm (h₁ : u.Shrinks b a) (h₂ : u.Shrinks a b) : b = a := by
  obtain ⟨hz, heq⟩ := h₁.2 (le_antisymm h₁.1 h₂.1)
  exact heq (le_antisymm hz (h₂.2 (le_antisymm h₂.1 h₁.1)).1)

end Weight

/-! ## Decoding shrinks -/

section Decoding

variable {u : Weight}

/-- What a decoder waits for is no ASCII character. -/
def Waits : State → Prop
  | .start => True
  | .owed _ _ low _ => 0x80 ≤ low

variable {b more value low high : ℕ}

/-- The state after a first octet waits for what is no ASCII character. -/
theorem waits_first {s : State} (h : first b = .next s) : Waits s ∧ s ≠ .start := by
  unfold first at h
  split_ifs at h <;> (cases h; exact ⟨by show (0x80 : ℕ) ≤ _; omega, by simp⟩)

/-- The state after another octet does too. -/
theorem waits_step {s : State} (h : step (.owed more value low high) b = .next s) : Waits s ∧ s ≠ .start := by
  by_cases hrange : low ≤ b ∧ b ≤ high
  · rw [step_owed hrange.1 hrange.2] at h
    cases more with
    | zero => cases h
    | succ more =>
      cases h
      exact ⟨le_refl _, by simp⟩
  · have hrefused : step (.owed more value low high) b = .refused := if_neg hrange
    rw [hrefused] at h
    cases h

/-- A first octet that is a character is that character. -/
theorem first_done {c : Char} (h : first b = .done c) : b < 0x80 ∧ c.toNat = b := by
  unfold first at h
  split_ifs at h with hb
  cases h
  have hvalid : b.isValidChar := .inl (by omega)
  refine ⟨hb, ?_⟩
  rw [Char.ofNat, dif_pos hvalid]
  rfl

/-- An ASCII character in the middle of another one is refused. -/
theorem step_ascii (h : Waits (.owed more value low high)) (hb : b < 0x80) :
    step (.owed more value low high) b = .refused := by
  have hlow : ¬ (low ≤ b ∧ b ≤ high) := by
    have hwait : 0x80 ≤ low := h
    omega
  exact if_neg hlow

/-- The decoder at a first octet. -/
theorem decodeReplace_start (b : ℕ) (bs : List ℕ) :
    decodeReplace .start (b :: bs) = match first b with
      | .next s => decodeReplace s bs
      | .done c => c.toNat :: decodeReplace .start bs
      | .refused => replacement :: decodeReplace .start bs := rfl

/-- The decoder at another octet, which may be one to begin anew with. -/
theorem decodeReplace_owed (more value low high b : ℕ) (bs : List ℕ) :
    decodeReplace (.owed more value low high) (b :: bs) = match step (.owed more value low high) b with
      | .next s => decodeReplace s bs
      | .done c => c.toNat :: decodeReplace .start bs
      | .refused => replacement :: decodeReplace .start (b :: bs) := rfl

/-- After a refused octet the decoder begins anew. -/
theorem decodeReplace_refused {bs : List ℕ} (h : step (.owed more value low high) b = .refused) :
    decodeReplace (.owed more value low high) (b :: bs) =
      replacement :: decodeReplace .start (b :: bs) := by
  rw [decodeReplace_owed, h]

/-- What is read of the octets of a run. At the start it is no greater than the run; when octets are
owed, for each of which there was an escape, it has fewer signs than these and the run together. -/
def Reads (u : Weight) (run : Points) (bytes : List ℕ) : Prop :=
  u.Shrinks (decodeReplace .start bytes) run ∧
    ∀ s n, Waits s → s ≠ .start → 0 < n → u.signsOf (decodeReplace s bytes) < n + u.signsOf run

/-- An ASCII character that stands for itself. -/
theorem Reads.plain {c : ℕ} {run : Points} {bytes : List ℕ} (hc : c < 0x80) (h : Reads u run bytes) :
    Reads u (c :: run) (c :: bytes) := by
  have hdone : first c = .done (Char.ofNat c) := if_pos hc
  have hstart : decodeReplace .start (c :: bytes) = c :: decodeReplace .start bytes := by
    rw [decodeReplace_start, hdone]
    show (Char.ofNat c).toNat :: _ = _
    rw [(first_done hdone).2]
  have hshrinks : u.Shrinks (decodeReplace .start (c :: bytes)) (c :: run) := by
    rw [hstart]
    exact (Weight.Shrinks.refl [c]).append h.1
  refine ⟨hshrinks, ?_⟩
  intro s n hwait hs hn
  cases s with
  | start => exact absurd rfl hs
  | owed more value low high =>
    rw [decodeReplace_refused (step_ascii hwait hc), Weight.signsOf_cons, u.signs_replacement]
    have hsigns := hshrinks.1
    omega

/-- An escape. -/
theorem Reads.escape {a x : ℕ} {run : Points} {bytes : List ℕ} (h : Reads u run bytes) :
    Reads u (percent :: a :: b :: run) (x :: bytes) := by
  have hsigns : u.signsOf (percent :: a :: b :: run) =
      1 + u.signs a + u.signs b + u.signsOf run := by
    simp only [Weight.signsOf_cons, u.signs_percent]
    omega
  have hstart : u.Shrinks (decodeReplace .start (x :: bytes)) (percent :: a :: b :: run) := by
    cases hfirst : first x with
    | next s =>
      obtain ⟨hwait, hs⟩ := waits_first hfirst
      have hread := h.2 s 1 hwait hs Nat.one_pos
      rw [decodeReplace_start, hfirst]
      show u.Shrinks (decodeReplace s bytes) _
      exact .of_lt (by rw [hsigns]; omega)
    | refused =>
      have hread := h.1.1
      rw [decodeReplace_start, hfirst]
      refine .of_lt ?_
      rw [hsigns, Weight.signsOf_cons, u.signs_replacement]
      omega
    | done c =>
      -- One character for three: the sign may stay, the size does not.
      obtain ⟨hx, hc⟩ := first_done hfirst
      obtain ⟨hread, hsize⟩ := h.1
      have hone := u.signs_le x
      have hpercent := u.size_ascii percent (by decide)
      have hpos := u.size_pos a
      have hpos' := u.size_pos b
      rw [decodeReplace_start, hfirst]
      show u.Shrinks (c.toNat :: decodeReplace .start bytes) _
      rw [hc]
      refine .of_size_lt (by rw [hsigns, Weight.signsOf_cons]; omega) fun heq => ?_
      rw [hsigns, Weight.signsOf_cons] at heq
      have hrest := (hsize (by omega)).1
      simp only [Weight.sizeOf_cons, u.size_ascii x hx, hpercent]
      omega
  refine ⟨hstart, ?_⟩
  intro s n hwait hs hn
  cases s with
  | start => exact absurd rfl hs
  | owed more value low high =>
    cases hstep : step (.owed more value low high) x with
    | next s =>
      obtain ⟨hwait', hs'⟩ := waits_step hstep
      have hread := h.2 s (n + 1) hwait' hs' (Nat.succ_pos n)
      rw [decodeReplace_owed, hstep, hsigns]
      show u.signsOf (decodeReplace s bytes) < _
      omega
    | done c =>
      have hread := h.1.1
      have hone := u.signs_le c.toNat
      rw [decodeReplace_owed, hstep, hsigns]
      show u.signsOf (c.toNat :: decodeReplace .start bytes) < _
      rw [Weight.signsOf_cons]
      omega
    | refused =>
      have hread := hstart.1
      rw [decodeReplace_refused hstep, Weight.signsOf_cons, u.signs_replacement]
      omega

/-- The end of a run. -/
theorem Reads.nil : Reads u [] [] := by
  refine ⟨.refl [], ?_⟩
  intro s n hwait hs hn
  cases s with
  | start => exact absurd rfl hs
  | owed more value low high =>
    show u.signsOf [replacement] < n + 0
    rw [Weight.signsOf_cons, u.signs_replacement]
    exact hn

/-- A run of ASCII characters is read: by induction on its characters and escapes. -/
theorem reads_run (run : Points) (h : ∀ c ∈ run, c < 0x80) : Reads u run (unquoteToBytes run) := by
  fun_induction unquoteToBytes run with
  | case1 => exact .nil
  | case2 a => exact .plain (h a (by simp)) .nil
  | case3 a b => exact .plain (h a (by simp)) (.plain (h b (by simp)) .nil)
  | case4 c a b s x hx ih =>
    have hc : c = percent := by
      by_contra hne
      rw [if_neg hne] at hx
      cases hx
    rw [hc]
    exact .escape (ih fun d hd => h d (by simp [hd]))
  | case5 c a b s hnone ih =>
    exact .plain (h c (List.mem_cons_self ..)) (ih fun d hd => h d (List.mem_cons_of_mem c hd))

/-- A decoded text is no greater than the text. -/
theorem unquote_shrinks (u : Weight) (s : Points) : u.Shrinks (unquote s) s := by
  have hruns : ∀ runs : List Points, u.Shrinks (runs.flatMap decodeRun) runs.flatten := by
    intro runs
    induction runs with
    | nil => exact .refl []
    | cons run runs ih =>
      rw [List.flatMap_cons, List.flatten_cons]
      refine Weight.Shrinks.append ?_ ih
      unfold decodeRun
      split
      · next hall =>
        rw [List.all_eq_true] at hall
        exact (reads_run run fun c hc => by simpa using hall c hc).1
      · exact .refl run
  unfold unquote
  split
  · exact .refl s
  · have hsplit := hruns (s.splitBy fun a b => decide (a < 0x80) == decide (b < 0x80))
    rwa [List.flatten_splitBy] at hsplit

end Decoding

end RickIntelligence.Lib.Percent
