import RickIntelligence.Observability.Noninterference

/-!
# Events that are not discreet

Where the walk inspects a sensitive value of which something is emitted, the value has influence on the
event (`safeEvent_congr_iff`). Two values are put in its place that are emitted differently and use up
the budget (`exists_leak`): after that no key is assigned any more (`redactEntries_spent`), so that
what comes later in the event cannot cover the difference.
-/

namespace RickIntelligence.Observability

open Lib

/-! ## Budgets only shrink -/

/-- A budget of which no more is left than of another. -/
structure Budget.Below (budget' budget : Budget) : Prop where
  nodes : budget'.nodesLeft ≤ budget.nodesLeft
  bytes : budget'.bytesLeft ≤ budget.bytesLeft

/-- A budget is below itself. -/
theorem Budget.Below.refl (budget : Budget) : budget.Below budget := ⟨le_rfl, le_rfl⟩

/-- Below what is below. -/
theorem Budget.Below.trans {a b c : Budget} (hab : a.Below b) (hbc : b.Below c) : a.Below c :=
  ⟨hab.nodes.trans hbc.nodes, hab.bytes.trans hbc.bytes⟩

variable {budget budget' : Budget}

/-- What a reservation leaves. -/
theorem Budget.reserveNode_eq_some :
    budget.reserveNode = some budget' ↔
      0 < budget.nodesLeft ∧ nodeOverheadBytes ≤ budget.bytesLeft ∧
        budget' = ⟨budget.nodesLeft - 1, budget.bytesLeft - nodeOverheadBytes⟩ := by
  unfold Budget.reserveNode
  split
  · next h =>
    simp only [reduceCtorEq, false_iff]
    rintro ⟨hnodes, hbytes, -⟩
    omega
  · next h =>
    rw [Option.some.injEq]
    constructor
    · rintro rfl
      exact ⟨by omega, by omega, rfl⟩
    · rintro ⟨-, -, rfl⟩
      rfl

/-- A reservation that fails. -/
theorem Budget.reserveNode_eq_none :
    budget.reserveNode = none ↔ budget.exhausted = true := by
  unfold Budget.reserveNode Budget.exhausted
  split
  · next h => simpa using h
  · next h => simpa using h

/-- What a charge leaves. -/
theorem Budget.charge_eq_some {value : String} :
    budget.charge value = some budget' ↔ jsonBytes value ≤ budget.bytesLeft ∧
      budget' = { budget with bytesLeft := budget.bytesLeft - jsonBytes value } := by
  unfold Budget.charge
  split
  · next h =>
    rw [Option.some.injEq]
    constructor
    · rintro rfl
      exact ⟨h, rfl⟩
    · rintro ⟨-, rfl⟩
      rfl
  · next h => simp [h]

/-- A charge that fails. -/
theorem Budget.charge_eq_none {value : String} :
    budget.charge value = none ↔ budget.bytesLeft < jsonBytes value := by
  unfold Budget.charge
  split
  · next h => simp [h]
  · next h =>
    simp only [true_iff]
    omega

/-- The bytes of the marker. -/
theorem jsonBytes_truncated : jsonBytes truncated = 13 := by decide +kernel

/-- The bytes of the text for a sensitive value. -/
theorem jsonBytes_redacted : jsonBytes redacted = 12 := by decide +kernel

/-- What `text` does: it charges the text, or else the marker, or else nothing. -/
theorem Budget.text_cases (budget : Budget) (value : String) :
    (jsonBytes value ≤ budget.bytesLeft ∧ budget.text value =
        (some value, { budget with bytesLeft := budget.bytesLeft - jsonBytes value })) ∨
      (budget.bytesLeft < jsonBytes value ∧ 13 ≤ budget.bytesLeft ∧ budget.text value =
        (some truncated, { budget with bytesLeft := budget.bytesLeft - 13 })) ∨
      (budget.bytesLeft < jsonBytes value ∧ budget.bytesLeft < 13 ∧
        budget.text value = (none, budget)) := by
  unfold Budget.text
  cases hc : budget.charge value with
  | some budget' =>
    obtain ⟨hle, rfl⟩ := Budget.charge_eq_some.mp hc
    exact .inl ⟨hle, rfl⟩
  | none =>
    have hlt := Budget.charge_eq_none.mp hc
    unfold Budget.marker
    cases hm : budget.charge truncated with
    | some budget' =>
      obtain ⟨hle, rfl⟩ := Budget.charge_eq_some.mp hm
      rw [jsonBytes_truncated] at hle ⊢
      exact .inr (.inl ⟨hlt, hle, rfl⟩)
    | none =>
      have hlt' := Budget.charge_eq_none.mp hm
      rw [jsonBytes_truncated] at hlt'
      exact .inr (.inr ⟨hlt, hlt', rfl⟩)

/-- What `marker` does: it charges the marker, or else nothing. -/
theorem Budget.marker_cases (budget : Budget) :
    (13 ≤ budget.bytesLeft ∧ budget.marker =
        (some truncated, { budget with bytesLeft := budget.bytesLeft - 13 })) ∨
      (budget.bytesLeft < 13 ∧ budget.marker = (none, budget)) := by
  unfold Budget.marker
  cases hm : budget.charge truncated with
  | some budget' =>
    obtain ⟨hle, rfl⟩ := Budget.charge_eq_some.mp hm
    rw [jsonBytes_truncated] at hle ⊢
    exact .inl ⟨hle, rfl⟩
  | none =>
    have hlt := Budget.charge_eq_none.mp hm
    rw [jsonBytes_truncated] at hlt
    exact .inr ⟨hlt, rfl⟩

/-- A reservation leaves less. -/
theorem Budget.Below.reserveNode (h : budget.reserveNode = some budget') :
    budget'.Below budget := by
  obtain ⟨-, -, rfl⟩ := Budget.reserveNode_eq_some.mp h
  exact ⟨Nat.sub_le _ _, Nat.sub_le _ _⟩

/-- A charge leaves less. -/
theorem Budget.Below.text (budget : Budget) (value : String) :
    (budget.text value).2.Below budget := by
  rcases budget.text_cases value with ⟨-, h⟩ | ⟨-, -, h⟩ | ⟨-, -, h⟩ <;> rw [h] <;>
    exact ⟨le_rfl, by simp⟩

/-- A marker leaves less. -/
theorem Budget.Below.marker (budget : Budget) : budget.marker.2.Below budget := by
  rcases budget.marker_cases with ⟨-, h⟩ | ⟨-, h⟩ <;> rw [h] <;> exact ⟨le_rfl, by simp⟩

/-- What the loop over a mapping does with a key that is a text. -/
theorem keyStep_text (name : String) (budget : Budget) :
    (safeText name 64 = none ∧ keyStep (.text name) budget = .skip) ∨
      ∃ key, safeText name 64 = some key ∧
        ((budget.reserveNode = none ∧ keyStep (.text name) budget = .stop budget) ∨
          ∃ budget', budget.reserveNode = some budget' ∧
            (((budget'.text key).1 = none ∧
                keyStep (.text name) budget = .stop (budget'.text key).2) ∨
              ∃ shown, (budget'.text key).1 = some shown ∧
                keyStep (.text name) budget = if hasMarker shown.toList then
                  .hide shown (budget'.text key).2 else .inspect shown (budget'.text key).2)) := by
  simp only [keyStep]
  cases safeText name 64 with
  | none => exact .inl ⟨rfl, rfl⟩
  | some key =>
    refine .inr ⟨key, rfl, ?_⟩
    cases budget.reserveNode with
    | none => exact .inl ⟨rfl, rfl⟩
    | some budget' =>
      refine .inr ⟨budget', rfl, ?_⟩
      cases ht : budget'.text key with
      | mk text budget'' =>
        cases text with
        | none => exact .inl ⟨rfl, by simp only [ht]⟩
        | some shown => exact .inr ⟨shown, rfl, by simp only [ht]⟩

/-- The budget after the test of a key. -/
def KeyStep.left (budget : Budget) : KeyStep → Budget
  | skip => budget
  | stop budget => budget
  | hide _ budget => budget
  | inspect _ budget => budget

/-- The test of a key leaves less. -/
theorem keyStep_below (rawKey : Key) (budget : Budget) :
    ((keyStep rawKey budget).left budget).Below budget := by
  cases rawKey with
  | other => exact Budget.Below.refl budget
  | text name =>
    rcases keyStep_text name budget with ⟨-, hk⟩ | ⟨key, -, ⟨-, hk⟩ | ⟨budget', hr, ⟨-, hk⟩ | ⟨shown, -, hk⟩⟩⟩
    · rw [hk]
      exact Budget.Below.refl budget
    · rw [hk]
      exact Budget.Below.refl budget
    · rw [hk]
      exact (Budget.Below.text budget' key).trans (Budget.Below.reserveNode hr)
    · rw [hk]
      split <;> exact (Budget.Below.text budget' key).trans (Budget.Below.reserveNode hr)

section Loops

variable {next : Value → Budget → Emitted × Budget}
  (hnext : ∀ value budget, (next value budget).2.Below budget)

include hnext in
/-- The loop over a mapping leaves less. -/
theorem redactEntries_below (index : ℕ) (items : List (Key × Value))
    (result : List (String × Emitted)) (budget : Budget) :
    (redactEntries next index items result budget).2.Below budget := by
  induction items generalizing index result budget with
  | nil => exact Budget.Below.refl budget
  | cons item items ih =>
    obtain ⟨rawKey, rawValue⟩ := item
    have hstep := keyStep_below rawKey budget
    unfold redactEntries
    split
    · exact Budget.Below.refl budget
    · cases hk : keyStep rawKey budget with
      | skip => exact ih _ _ _
      | stop budget' =>
        rw [hk] at hstep
        exact hstep
      | hide key budget' =>
        rw [hk] at hstep
        have htext := (Budget.Below.text budget' redacted).trans hstep
        cases ht : budget'.text redacted with
        | mk text budget'' =>
          rw [ht] at htext
          simp only [ht]
          cases text with
          | none => exact htext
          | some text => exact (ih _ _ _).trans htext
      | inspect key budget' =>
        rw [hk] at hstep
        have hvalue := (hnext rawValue budget').trans hstep
        simp only []
        split
        · exact hvalue
        · exact (ih _ _ _).trans hvalue

include hnext in
/-- The loop over a list leaves less. -/
theorem redactItems_below (index : ℕ) (items : List Value) (result : List Emitted)
    (budget : Budget) : (redactItems next index items result budget).2.Below budget := by
  induction items generalizing index result budget with
  | nil => exact Budget.Below.refl budget
  | cons item items ih =>
    unfold redactItems
    split
    · exact Budget.Below.refl budget
    · have hvalue := hnext item budget
      simp only []
      split
      · exact hvalue
      · exact (ih _ _ _).trans hvalue

end Loops

/-- The charge of a number leaves less. -/
theorem chargeNumber_below (budget : Budget) (own : Bool) (candidate : String) (value : Emitted) :
    (chargeNumber budget own candidate value).2.Below budget := by
  have htext := Budget.Below.text budget candidate
  unfold chargeNumber
  cases ht : budget.text candidate with
  | mk text budget' =>
    rw [ht] at htext
    cases text <;> exact htext

variable {redactInlineSecrets : String → String}

/-- A scalar leaves less. -/
theorem redactScalar_below (value : Value) (budget : Budget) :
    (redactScalar redactInlineSecrets value budget).2.Below budget := by
  cases value with
  | bool b => exact Budget.Below.refl budget
  | none => exact Budget.Below.refl budget
  | int n =>
    simp only [redactScalar]
    split <;> exact chargeNumber_below _ _ _ _
  | float f =>
    simp only [redactScalar]
    split <;> exact chargeNumber_below _ _ _ _
  | str s =>
    simp only [redactScalar]
    cases safeText s maxValueChars with
    | none => exact Budget.Below.refl budget
    | some text => exact Budget.Below.text budget _
  | mapping items => exact Budget.Below.marker budget
  | list items => exact Budget.Below.marker budget
  | other => exact Budget.Below.marker budget

/-- The walk leaves less. -/
theorem redact_below (levels : ℕ) (value : Value) (budget : Budget) :
    (redact redactInlineSecrets levels value budget).2.Below budget := by
  induction levels generalizing value budget with
  | zero =>
    unfold redact
    cases hr : budget.reserveNode with
    | none => exact Budget.Below.refl budget
    | some budget' => exact (Budget.Below.marker budget').trans (Budget.Below.reserveNode hr)
  | succ levels ih =>
    unfold redact
    cases hr : budget.reserveNode with
    | none => exact Budget.Below.refl budget
    | some budget' =>
      have hreserve := Budget.Below.reserveNode hr
      cases value with
      | mapping items => exact (redactEntries_below ih 0 items [] budget').trans hreserve
      | list items => exact (redactItems_below ih 0 items [] budget').trans hreserve
      | bool b => exact (redactScalar_below _ budget').trans hreserve
      | none => exact (redactScalar_below _ budget').trans hreserve
      | int n => exact (redactScalar_below _ budget').trans hreserve
      | float f => exact (redactScalar_below _ budget').trans hreserve
      | str s => exact (redactScalar_below _ budget').trans hreserve
      | other => exact (redactScalar_below _ budget').trans hreserve

/-! ## Spent budgets -/

/-- No node is left, or too few bytes for a key and a value. -/
def Spent (budget : Budget) : Prop := budget.nodesLeft = 0 ∨ budget.bytesLeft < 19

variable {levels : ℕ} {budget budget' : Budget} {letter : String}

/-- Below a spent budget every one is spent. -/
theorem Spent.below (h : Spent budget) (hb : budget'.Below budget) :
    Spent budget' := by
  have hnodes := hb.nodes
  have hbytes := hb.bytes
  rcases h with h | h
  · exact .inl (by omega)
  · exact .inr (by omega)

/-- A budget without a node for more is spent. -/
theorem Spent.of_reserveNode (h : budget.reserveNode = none) : Spent budget := by
  unfold Budget.reserveNode at h
  split at h
  · next hor =>
    unfold nodeOverheadBytes at hor
    rcases hor with hnodes | hbytes
    · exact .inl (Nat.le_zero.mp hnodes)
    · exact .inr (by omega)
  · cases h

/-- A text that is kept takes at least three bytes. -/
theorem three_le_jsonBytes {name key : String} {limit : ℕ} (h : safeText name limit = some key)
    (hlimit : 0 < limit) : 3 ≤ jsonBytes key := by
  unfold safeText at h
  split at h
  · cases h
  · next hne =>
    have hkey : key = String.ofList ((cleaned name).take limit) := (Option.some.inj h).symm
    cases hc : cleaned name with
    | nil =>
      rw [hc] at hne
      exact absurd rfl hne
    | cons c cs =>
      obtain ⟨n, rfl⟩ : ∃ n, limit = n + 1 := ⟨limit - 1, by omega⟩
      have hwidth : 1 ≤ jsonWidth c := by
        unfold jsonWidth
        have hpos := c.utf8Size_pos
        split_ifs <;> omega
      rw [hkey, hc, jsonBytes, String.toList_ofList, List.take_succ_cons, List.map_cons,
        List.sum_cons]
      omega

/-- A node that is not left makes nothing of a value. -/
theorem redact_of_reserveNode (h : budget.reserveNode = none) (value : Value) :
    redact redactInlineSecrets levels value budget = (.none, budget) := by
  unfold redact
  rw [h]

/-- From a spent budget the loop over a mapping assigns nothing. -/
theorem redactEntries_spent (levels index : ℕ) (items : List (Key × Value)) (result : List (String × Emitted))
    (h : Spent budget) :
    (redactEntries (redact redactInlineSecrets levels) index items result budget).1 = result := by
  induction items generalizing index with
  | nil => rfl
  | cons item items ih =>
    obtain ⟨rawKey, rawValue⟩ := item
    unfold redactEntries
    split
    · rfl
    · cases rawKey with
      | other => exact ih (index + 1)
      | text name =>
        rcases keyStep_text name budget with
          ⟨-, hk⟩ | ⟨key, hsafe, ⟨-, hk⟩ | ⟨budget1, hr, ⟨-, hk⟩ | ⟨shown, hshown, hk⟩⟩⟩
        · rw [hk]
          exact ih (index + 1)
        · rw [hk]
        · rw [hk]
        · -- The key was charged, and what is left is less than a node.
          have hthree := three_le_jsonBytes hsafe (by omega)
          obtain ⟨hnodes, hbytes, hbudget1⟩ := Budget.reserveNode_eq_some.mp hr
          have hbytes1 : budget1.bytesLeft = budget.bytesLeft - 8 := by rw [hbudget1]; rfl
          have hlt : budget.bytesLeft < 19 := by
            rcases h with h | h
            · omega
            · exact h
          have hleft : (budget1.text key).2.bytesLeft < nodeOverheadBytes := by
            unfold nodeOverheadBytes
            rcases budget1.text_cases key with ⟨hle, ht⟩ | ⟨-, hle, -⟩ | ⟨-, -, ht⟩
            · rw [ht]
              show budget1.bytesLeft - jsonBytes key < 8
              omega
            · omega
            · rw [ht] at hshown
              cases hshown
          generalize budget1.text key = charged at hk hleft hshown
          rw [hk]
          by_cases hm : hasMarker shown.toList = true
          · rw [if_pos hm]
            have hnone : charged.2.text redacted = (none, charged.2) := by
              unfold nodeOverheadBytes at hleft
              rcases charged.2.text_cases redacted with ⟨hle, -⟩ | ⟨-, hle, -⟩ | ⟨-, -, ht⟩
              · rw [jsonBytes_redacted] at hle
                omega
              · omega
              · exact ht
            simp only [hnone]
          · rw [if_neg hm]
            have hexhausted : charged.2.exhausted = true := by
              unfold Budget.exhausted
              simp [hleft]
            have hnone := @redact_of_reserveNode redactInlineSecrets levels _
              (Budget.reserveNode_eq_none.mpr hexhausted) rawValue
            simp only [hnone, hexhausted, Emitted.isNone, Bool.and_self, if_true]

/-- The loop over a list only adds to what there is. -/
theorem redactItems_append {next : Value → Budget → Emitted × Budget} (index : ℕ)
    (items : List Value) (result : List Emitted) (budget : Budget) :
    ∃ more, (redactItems next index items result budget).1 = result ++ more := by
  induction items generalizing index result budget with
  | nil => exact ⟨[], (List.append_nil result).symm⟩
  | cons item items ih =>
    unfold redactItems
    split
    · exact ⟨[], (List.append_nil result).symm⟩
    · simp only []
      split
      · exact ⟨[], (List.append_nil result).symm⟩
      · obtain ⟨more, hmore⟩ := ih (index + 1) (result ++ [(next item budget).1])
          (next item budget).2
        exact ⟨(next item budget).1 :: more, by rw [hmore, List.append_assoc]; rfl⟩

/-! ## Values that use up a budget -/

/-- What a reservation leaves, in numbers. -/
theorem Budget.reserveNode_some (hnodes : 0 < budget.nodesLeft) (hbytes : 8 ≤ budget.bytesLeft) :
    ∃ budget', budget.reserveNode = some budget' ∧ budget'.nodesLeft = budget.nodesLeft - 1 ∧
      budget'.bytesLeft = budget.bytesLeft - 8 :=
  ⟨_, Budget.reserveNode_eq_some.mpr ⟨hnodes, hbytes, rfl⟩, rfl, rfl⟩

/-- A mapping for which a node is left is walked. -/
theorem redact_mapping (h : budget.reserveNode = some budget') (items : List (Key × Value)) :
    redact redactInlineSecrets (levels + 1) (.mapping items) budget =
      (.dict (redactEntries (redact redactInlineSecrets levels) 0 items [] budget').1,
        (redactEntries (redact redactInlineSecrets levels) 0 items [] budget').2) := by
  rw [redact, h]

/-- A list for which a node is left is walked. -/
theorem redact_list (h : budget.reserveNode = some budget') (items : List Value) :
    redact redactInlineSecrets (levels + 1) (.list items) budget =
      (.list (redactItems (redact redactInlineSecrets levels) 0 items [] budget').1,
        (redactItems (redact redactInlineSecrets levels) 0 items [] budget').2) := by
  rw [redact, h]

/-- A walk leaves less than a reservation. -/
theorem redact_below_reserveNode (h : budget.reserveNode = some budget') (value : Value) :
    (redact redactInlineSecrets levels value budget).2.Below budget' := by
  unfold redact
  rw [h]
  cases levels with
  | zero => exact Budget.Below.marker budget'
  | succ levels =>
    cases value with
    | mapping items => exact redactEntries_below (redact_below levels) 0 items [] budget'
    | list items => exact redactItems_below (redact_below levels) 0 items [] budget'
    | bool b => exact redactScalar_below _ budget'
    | none => exact redactScalar_below _ budget'
    | int n => exact redactScalar_below _ budget'
    | float f => exact redactScalar_below _ budget'
    | str s => exact redactScalar_below _ budget'
    | other => exact redactScalar_below _ budget'

/-- A whole number that is too large to be emitted. -/
def largeInt : Value := .int (2 ^ 53)

/-- What a large number takes from a budget, at any level: a node, and at least the bytes of a marker
if there are as many. -/
theorem redact_largeInt (hnodes : 0 < budget.nodesLeft) (hbytes : 8 ≤ budget.bytesLeft) :
    (21 ≤ budget.bytesLeft →
        (redact redactInlineSecrets levels largeInt budget).1.isNone = false ∧
        (redact redactInlineSecrets levels largeInt budget).2.bytesLeft + 21 ≤ budget.bytesLeft) ∧
      (budget.bytesLeft < 21 →
        (redact redactInlineSecrets levels largeInt budget).2.bytesLeft < 19) := by
  obtain ⟨budget', hr, -, hleft⟩ := Budget.reserveNode_some hnodes hbytes
  have hbelow := @redact_below_reserveNode redactInlineSecrets levels _ _ hr largeInt
  constructor
  · intro henough
    unfold redact
    rw [hr]
    cases levels with
    | zero =>
      rcases budget'.marker_cases with ⟨hle, hm⟩ | ⟨hlt, -⟩
      · simp only [hm]
        refine ⟨rfl, ?_⟩
        show budget'.bytesLeft - 13 + 21 ≤ budget.bytesLeft
        omega
      · omega
    | succ levels =>
      have hlarge : (2 ^ 53 : ℤ).natAbs ≥ 2 ^ 53 := by decide
      simp only [largeInt, redactScalar, if_pos hlarge, chargeNumber]
      have hlong : jsonBytes "[bounded-integer]" = 19 := by decide +kernel
      rcases budget'.text_cases "[bounded-integer]" with ⟨hle, ht⟩ | ⟨-, hle, ht⟩ | ⟨-, hlt, -⟩
      · simp only [ht]
        refine ⟨rfl, ?_⟩
        show budget'.bytesLeft - jsonBytes "[bounded-integer]" + 21 ≤ budget.bytesLeft
        omega
      · simp only [ht]
        refine ⟨?_, ?_⟩
        · split
          · next hand => exact absurd hand.2 (by decide)
          · rfl
        · show budget'.bytesLeft - 13 + 21 ≤ budget.bytesLeft
          omega
      · omega
  · intro hfew
    have hle := hbelow.bytes
    omega

/-- The longest text that is kept of a key: 64 characters of four bytes. -/
def fullKey : String := String.ofList (List.replicate 64 '𐀀')

/-- Keys of which the longest text is kept, all different. -/
def fillerKey (i : ℕ) : String := String.ofList (List.replicate 64 '𐀀' ++ List.replicate i 'x')

/-- Text without blanks and control characters is kept. -/
theorem cleaned_eq_self {l : List Char}
    (h : ∀ c ∈ l, isControl c = false ∧ isSpace c = false) : cleaned (String.ofList l) = l := by
  have hmap : l.map (fun c => if isControl c then ' ' else c) = l := by
    rw [List.map_congr_left (g := id), List.map_id]
    intro c hc
    rw [(h c hc).1]
    rfl
  have hstrip : strip (String.ofList l) = String.ofList l := by
    apply strip_eq_self
    rw [String.toList_ofList]
    exact fun c hc => (h c hc).2
  have hlist : stripList l = l := by
    have heq := congrArg String.toList hstrip
    rw [strip, String.toList_ofList, String.toList_ofList] at heq
    exact heq
  rw [cleaned, String.toList_ofList, hmap, hlist]

/-- What is kept of a filler. -/
theorem safeText_fillerKey (i : ℕ) : safeText (fillerKey i) 64 = some fullKey := by
  have hclean : cleaned (fillerKey i) = List.replicate 64 '𐀀' ++ List.replicate i 'x' := by
    apply cleaned_eq_self
    intro c hc
    rcases List.mem_append.mp hc with hc | hc
    · rw [List.eq_of_mem_replicate hc]
      decide
    · rw [List.eq_of_mem_replicate hc]
      decide
  have hne : (cleaned (fillerKey i)).isEmpty = false := by
    rw [hclean]
    rfl
  have htake : (cleaned (fillerKey i)).take 64 = List.replicate 64 '𐀀' := by
    rw [hclean]
    exact List.take_left' List.length_replicate
  rw [safeText, hne, htake]
  rfl

/-- The bytes of a text of characters of four bytes. -/
theorem jsonBytes_replicate (n : ℕ) :
    jsonBytes (String.ofList (List.replicate n '𐀀')) = 2 + n * 4 := by
  have hwidth : jsonWidth '𐀀' = 4 := by decide
  rw [jsonBytes, String.toList_ofList, List.map_replicate, List.sum_replicate, hwidth, smul_eq_mul]

/-- The bytes of the longest text. -/
theorem jsonBytes_fullKey : jsonBytes fullKey = 258 := by
  have hsize := jsonBytes_replicate 64
  unfold fullKey
  omega

/-- A text of characters that no marker has is not sensitive. -/
theorem not_hasMarker_replicate (n : ℕ) : hasMarker (List.replicate n '𐀀') = false := by
  have hall : ∀ marker ∈ sensitiveMarkers, marker.toList ≠ [] ∧ '𐀀' ∉ marker.toList := by
    decide +kernel
  rw [hasMarker, List.any_eq_false]
  intro marker hmarker
  obtain ⟨hne, hnot⟩ := hall marker hmarker
  simp only [contains, decide_eq_true_eq]
  intro hinfix
  obtain ⟨c, cs, hc⟩ := List.exists_cons_of_ne_nil hne
  have hmem := hinfix.subset (hc ▸ List.mem_cons_self)
  obtain ⟨d, hd, rfl⟩ := List.mem_map.mp hmem
  have hlower : (if lowerChar '𐀀' = '-' then '_' else lowerChar '𐀀') = '𐀀' := by decide
  rw [List.eq_of_mem_replicate hd, hlower] at hc
  apply hnot
  rw [hc]
  exact List.mem_cons_self

/-- The longest text is not sensitive. -/
theorem not_hasMarker_fullKey : hasMarker fullKey.toList = false := by
  have hmarker := not_hasMarker_replicate 64
  unfold fullKey
  simpa only [String.toList_ofList] using hmarker

/-- The marker is not sensitive. -/
theorem not_hasMarker_truncated : hasMarker truncated.toList = false := by decide +kernel

/-- The text of a filler that is kept, with what is left after it. -/
theorem keyStep_fillerKey (i : ℕ) (budget : Budget) :
    (∃ budget', keyStep (.text (fillerKey i)) budget = .stop budget' ∧ Spent budget') ∨
      ∃ shown budget', keyStep (.text (fillerKey i)) budget = .inspect shown budget' ∧
        budget'.bytesLeft + 21 ≤ budget.bytesLeft ∧
          (266 ≤ budget.bytesLeft → budget'.bytesLeft + 266 ≤ budget.bytesLeft) := by
  have hsafe := safeText_fillerKey i
  have hfull := jsonBytes_fullKey
  rcases keyStep_text (fillerKey i) budget with
    ⟨hnone, -⟩ | ⟨key, hkey, ⟨hr, hk⟩ | ⟨budget1, hr, hstep⟩⟩
  · rw [hsafe] at hnone
    cases hnone
  · exact .inl ⟨budget, hk, Spent.of_reserveNode hr⟩
  · rw [hsafe] at hkey
    have hsame : key = fullKey := (Option.some.inj hkey).symm
    subst hsame
    obtain ⟨-, hbytes, hbudget1⟩ := Budget.reserveNode_eq_some.mp hr
    have hleft : budget1.bytesLeft + 8 = budget.bytesLeft := by
      rw [hbudget1]
      unfold nodeOverheadBytes at hbytes ⊢
      show budget.bytesLeft - 8 + 8 = budget.bytesLeft
      omega
    rcases budget1.text_cases fullKey with ⟨hle, ht⟩ | ⟨hlt, hle, ht⟩ | ⟨-, hlt, ht⟩
    · rw [ht] at hstep
      rcases hstep with ⟨h, -⟩ | ⟨shown, h, hk⟩
      · cases h
      · have hshown : shown = fullKey := (Option.some.inj h).symm
        subst hshown
        rw [not_hasMarker_fullKey] at hk
        refine .inr ⟨fullKey, _, hk, ?_, fun _ => ?_⟩
        · show budget1.bytesLeft - jsonBytes fullKey + 21 ≤ budget.bytesLeft
          omega
        · show budget1.bytesLeft - jsonBytes fullKey + 266 ≤ budget.bytesLeft
          omega
    · rw [ht] at hstep
      rcases hstep with ⟨h, -⟩ | ⟨shown, h, hk⟩
      · cases h
      · have hshown : shown = truncated := (Option.some.inj h).symm
        subst hshown
        rw [not_hasMarker_truncated] at hk
        refine .inr ⟨truncated, _, hk, ?_, fun _ => ?_⟩
        · show budget1.bytesLeft - 13 + 21 ≤ budget.bytesLeft
          omega
        · omega
    · rw [ht] at hstep
      rcases hstep with ⟨-, hk⟩ | ⟨shown, h, -⟩
      · exact .inl ⟨budget1, hk, .inr (by omega)⟩
      · cases h

/-- One filler takes the longest text or a marker, besides its value, or the budget is spent. -/
theorem redactEntries_filler {index : ℕ} (i : ℕ) (hindex : index < maxEventKeys) (items : List (Key × Value))
    (result : List (String × Emitted)) (budget : Budget) :
    Spent (redactEntries (redact redactInlineSecrets levels) index
        ((.text (fillerKey i), largeInt) :: items) result budget).2 ∨
      ∃ result' budget', redactEntries (redact redactInlineSecrets levels) index
          ((.text (fillerKey i), largeInt) :: items) result budget =
        redactEntries (redact redactInlineSecrets levels) (index + 1) items result' budget' ∧
          budget'.bytesLeft + 42 ≤ budget.bytesLeft ∧
          (266 ≤ budget.bytesLeft → budget'.bytesLeft + 287 ≤ budget.bytesLeft) := by
  rw [redactEntries, if_neg (Nat.not_le.mpr hindex)]
  rcases keyStep_fillerKey i budget with ⟨budget', hk, hspent⟩ | ⟨shown, budget', hk, hsome, hfull⟩
  · rw [hk]
    exact .inl hspent
  · rw [hk]
    simp only []
    cases hr : budget'.reserveNode with
    | none =>
      -- No node is left for the value, which ends the loop.
      have hexhausted := Budget.reserveNode_eq_none.mp hr
      have hnone := @redact_of_reserveNode redactInlineSecrets levels _ hr largeInt
      simp only [hnone, hexhausted, Emitted.isNone, Bool.and_self, if_true]
      exact .inl (Spent.of_reserveNode hr)
    | some budget'' =>
      obtain ⟨hnodes, hbytes, -⟩ := Budget.reserveNode_eq_some.mp hr
      obtain ⟨hmany, hfew⟩ := @redact_largeInt redactInlineSecrets levels _ hnodes hbytes
      by_cases henough : 21 ≤ budget'.bytesLeft
      · obtain ⟨hvalue, hleft⟩ := hmany henough
        right
        refine ⟨_, _, by rw [hvalue, Bool.false_and, if_neg (by decide)], by omega, ?_⟩
        intro hlong
        have h266 := hfull hlong
        omega
      · have hlow := hfew (by omega)
        left
        split
        · exact .inr hlow
        · exact Spent.below (.inr hlow) (redactEntries_below (redact_below levels) _ _ _ _)

/-- Enough fillers use up a budget. -/
theorem redactEntries_fillers (is : List ℕ) {index : ℕ} (hindex : index + is.length ≤ maxEventKeys)
    (result : List (String × Emitted))
    (h : budget.bytesLeft < 19 + 42 * is.length ∨ 6 ≤ is.length ∧ budget.bytesLeft < 266 + 287 * (is.length - 6)) :
    Spent (redactEntries (redact redactInlineSecrets levels) index
      (is.map fun i => (.text (fillerKey i), largeInt)) result budget).2 := by
  induction is generalizing index result budget with
  | nil =>
    simp only [List.length_nil] at h
    exact .inr (by show budget.bytesLeft < 19; omega)
  | cons i is ih =>
    simp only [List.length_cons] at h hindex
    rw [List.map_cons]
    have hlt : index < maxEventKeys := by omega
    rcases redactEntries_filler i hlt (is.map fun i => (.text (fillerKey i), largeInt)) result
        budget with hspent | ⟨result', budget', heq, hsome, hlong⟩
    · exact hspent
    · have hrest : index + 1 + is.length ≤ maxEventKeys := by omega
      rw [heq]
      apply ih hrest
      by_cases h266 : 266 ≤ budget.bytesLeft
      · have h287 := hlong h266
        omega
      · omega

/-! ## Dictionaries -/

/-- A key that is assigned is found with its value. -/
theorem lookup_assign (result : List (String × Emitted)) (key : String) (value : Emitted) :
    (assign result key value).lookup key = some value := by
  unfold assign
  by_cases hany : (result.any fun item => item.1 == key) = true
  · rw [if_pos hany]
    induction result with
    | nil => cases hany
    | cons item result ih =>
      by_cases heq : item.1 = key
      · simp [heq]
      · obtain ⟨name, old⟩ := item
        have hne : (key == name) = false := beq_eq_false_iff_ne.mpr (Ne.symm heq)
        have hrest : (result.any fun item => item.1 == key) = true := by
          simpa [heq] using hany
        simp only [List.map_cons, if_neg heq, List.lookup_cons, hne]
        exact ih hrest
  · rw [if_neg hany]
    have hnone : result.lookup key = none := by
      rw [List.lookup_eq_none_iff]
      intro item hitem
      rw [List.any_eq_true, not_exists] at hany
      have hne := hany item
      simp only [hitem, true_and, Bool.not_eq_true, beq_eq_false_iff_ne] at hne
      exact bne_iff_ne.mpr (Ne.symm hne)
    rw [List.lookup_append, hnone]
    simp

/-- Different values under one key give different dictionaries. -/
theorem assign_ne {value value' : Emitted} (h : value ≠ value') (result : List (String × Emitted))
    (key : String) : assign result key value ≠ assign result key value' := by
  intro heq
  apply h
  have hlookup := lookup_assign result key value
  rw [heq, lookup_assign] at hlookup
  exact (Option.some.inj hlookup).symm

/-- The first key of a dictionary stays the first. -/
theorem head_assign {item : String × Emitted} {result : List (String × Emitted)}
    (key : String) (value : Emitted) :
    ∃ value' rest, assign (item :: result) key value = (item.1, value') :: rest := by
  unfold assign
  split
  · by_cases heq : item.1 = key
    · exact ⟨value, _, by rw [List.map_cons, if_pos heq, heq]⟩
    · exact ⟨item.2, _, by rw [List.map_cons, if_neg heq]⟩
  · exact ⟨item.2, _, rfl⟩

/-- The loop over a mapping keeps the first key. -/
theorem redactEntries_head {next : Value → Budget → Emitted × Budget} (index : ℕ)
    (items : List (Key × Value)) (item : String × Emitted) (result : List (String × Emitted))
    (budget : Budget) :
    ∃ value' rest, (redactEntries next index items (item :: result) budget).1 =
      (item.1, value') :: rest := by
  induction items generalizing index item result budget with
  | nil => exact ⟨item.2, result, rfl⟩
  | cons entry items ih =>
    obtain ⟨rawKey, rawValue⟩ := entry
    have hassign : ∀ key value budget, ∃ value' rest,
        (redactEntries next (index + 1) items (assign (item :: result) key value) budget).1 =
          (item.1, value') :: rest := by
      intro key value budget
      obtain ⟨value', rest, heq⟩ := @head_assign item result key value
      rw [heq]
      exact ih (index + 1) (item.1, value') rest budget
    unfold redactEntries
    split
    · exact ⟨item.2, result, rfl⟩
    · cases keyStep rawKey budget with
      | skip => exact ih (index + 1) item result budget
      | stop budget' => exact ⟨item.2, result, rfl⟩
      | hide key budget' =>
        cases ht : budget'.text redacted with
        | mk text budget'' =>
          simp only [ht]
          cases text with
          | none => exact ⟨item.2, result, rfl⟩
          | some text => exact hassign key _ budget''
      | inspect key budget' =>
        simp only []
        split
        · exact ⟨item.2, result, rfl⟩
        · exact hassign key _ _

/-! ## A value that is told -/

/-- Two values are emitted differently, and use up the budget. -/
structure Tells (redactInlineSecrets : String → String) (levels : ℕ) (budget : Budget)
    (value value' : Value) : Prop where
  ne : (redact redactInlineSecrets levels value budget).1 ≠
    (redact redactInlineSecrets levels value' budget).1
  emitted : (redact redactInlineSecrets levels value budget).1.isNone = false
  emitted' : (redact redactInlineSecrets levels value' budget).1.isNone = false
  spent : Spent (redact redactInlineSecrets levels value budget).2
  spent' : Spent (redact redactInlineSecrets levels value' budget).2

/-- A mapping whose first key is a letter, and that uses up a budget. -/
def greedy (letter : String) : Value :=
  .mapping ((.text letter, largeInt) :: (List.range 63).map fun i =>
    (.text (fillerKey i), largeInt))

/-- A short key that is not sensitive is kept. -/
theorem keyStep_letter (hsafe : safeText letter 64 = some letter) (hsize : jsonBytes letter = 3)
    (hmarker : hasMarker letter.toList = false) (hnodes : 0 < budget.nodesLeft) (hbytes : 11 ≤ budget.bytesLeft) :
    ∃ budget', keyStep (.text letter) budget = .inspect letter budget' ∧
      budget'.nodesLeft + 1 = budget.nodesLeft ∧ budget'.bytesLeft + 11 = budget.bytesLeft := by
  obtain ⟨budget1, hr, hnodes1, hbytes1⟩ := Budget.reserveNode_some hnodes (by omega)
  have htext : budget1.text letter =
      (some letter, { budget1 with bytesLeft := budget1.bytesLeft - 3 }) := by
    rcases budget1.text_cases letter with ⟨-, ht⟩ | ⟨hlt, -, -⟩ | ⟨hlt, -, -⟩
    · rw [ht, hsize]
    · omega
    · omega
  refine ⟨_, by simp only [keyStep, hsafe, hr, htext, hmarker]; rfl, ?_, ?_⟩
  · show budget1.nodesLeft + 1 = budget.nodesLeft
    omega
  · show budget1.bytesLeft - 3 + 11 = budget.bytesLeft
    omega

/-- A greedy mapping is emitted with its letter first, and uses up the budget. -/
theorem redact_greedy (hsafe : safeText letter 64 = some letter) (hsize : jsonBytes letter = 3)
    (hmarker : hasMarker letter.toList = false) (hr : budget.reserveNode = some budget')
    (hnodes : 2 ≤ budget'.nodesLeft) (hbytes : 32 ≤ budget'.bytesLeft) (hmax : budget'.bytesLeft ≤ maxEventBytes) :
    (∃ value rest, (redact redactInlineSecrets (levels + 1) (greedy letter) budget).1 =
        .dict ((letter, value) :: rest)) ∧
      Spent (redact redactInlineSecrets (levels + 1) (greedy letter) budget).2 := by
  obtain ⟨budget1, hk, hnodes1, hbytes1⟩ := keyStep_letter hsafe hsize hmarker
    (by omega : 0 < budget'.nodesLeft) (by omega)
  obtain ⟨hmany, -⟩ := @redact_largeInt redactInlineSecrets levels _
    (by omega : 0 < budget1.nodesLeft) (by omega)
  obtain ⟨hvalue, hleft⟩ := hmany (by omega)
  have hzero : ¬ (0 : ℕ) ≥ maxEventKeys := by decide
  rw [greedy, redact_mapping hr, redactEntries, if_neg hzero, hk]
  simp only [hvalue, Bool.false_and, Bool.false_eq_true, if_false]
  have hassign : ∀ value, assign [] letter value = [(letter, value)] := fun _ => rfl
  rw [hassign]
  constructor
  · obtain ⟨value', rest, heq⟩ := @redactEntries_head
      (redact redactInlineSecrets levels) (0 + 1)
      ((List.range 63).map fun i => (Key.text (fillerKey i), largeInt))
      (letter, (redact redactInlineSecrets levels largeInt budget1).1) []
      (redact redactInlineSecrets levels largeInt budget1).2
    exact ⟨value', rest, by rw [heq]⟩
  · apply redactEntries_fillers
    · rw [List.length_range]
      decide
    · right
      rw [List.length_range]
      unfold maxEventBytes at hmax
      omega

/-- A letter as a key. -/
theorem letter_facts (h : letter = "a" ∨ letter = "b") :
    safeText letter 64 = some letter ∧ jsonBytes letter = 3 ∧ hasMarker letter.toList = false := by
  rcases h with rfl | rfl <;> decide +kernel

/-- A whole number that is emitted as it is. -/
theorem redact_sixteenDigits {n : ℤ} (hn : n = 10 ^ 15 ∨ n = 10 ^ 15 + 1) (hr : budget.reserveNode = some budget')
    (hbytes : 18 ≤ budget'.bytesLeft) :
    redact redactInlineSecrets (levels + 1) (.int n) budget =
      (.int n, { budget' with bytesLeft := budget'.bytesLeft - 18 }) := by
  have hfacts : n.natAbs < 2 ^ 53 ∧ jsonBytes (toString n) = 18 := by
    rcases hn with rfl | rfl <;> decide +kernel
  obtain ⟨hsmall, hsize⟩ := hfacts
  rcases budget'.text_cases (toString n) with ⟨-, ht⟩ | ⟨hlt, -, -⟩ | ⟨hlt, -, -⟩
  · rw [redact, hr]
    simp only [redactScalar, if_neg (Nat.not_le.mpr hsmall), chargeNumber, ht, hsize, and_self,
      if_true]
  · omega
  · omega

/-- Where something of a value is emitted, some two values are told apart. -/
theorem exists_leak (h : ¬ Blind levels budget) (hmax : budget.bytesLeft ≤ maxEventBytes) :
    ∃ value value', Tells redactInlineSecrets levels budget value value' := by
  unfold Blind at h
  push Not at h
  obtain ⟨hr, hlevels⟩ := h
  obtain ⟨budget', hr⟩ := Option.ne_none_iff_exists'.mp hr
  obtain ⟨levels, rfl⟩ : ∃ n, levels = n + 1 := ⟨levels - 1, by omega⟩
  have hbelow := Budget.Below.reserveNode hr
  by_cases hspent : Spent budget'
  · -- Nothing can follow, so any two values will do.
    refine ⟨.bool true, .bool false, ?_⟩
    have hbool : ∀ b, redact redactInlineSecrets (levels + 1) (.bool b) budget =
        (.bool b, budget') := by
      intro b
      rw [redact, hr]
      rfl
    refine ⟨?_, ?_, ?_, ?_, ?_⟩ <;> simp only [hbool]
    · intro heq
      cases heq
    · rfl
    · rfl
    · exact hspent
    · exact hspent
  · have hnodes : 0 < budget'.nodesLeft := Nat.pos_of_ne_zero fun hzero => hspent (.inl hzero)
    have hbytes : 19 ≤ budget'.bytesLeft := Nat.not_lt.mp fun hlt => hspent (.inr hlt)
    by_cases hfew : budget'.bytesLeft < 32
    · -- A number of sixteen digits takes what is left of the bytes.
      refine ⟨.int (10 ^ 15), .int (10 ^ 15 + 1), ?_⟩
      have hfirst := @redact_sixteenDigits redactInlineSecrets levels _ _ _
        (.inl rfl : (10 : ℤ) ^ 15 = 10 ^ 15 ∨ _) hr (by omega)
      have hsecond := @redact_sixteenDigits redactInlineSecrets levels _ _ _
        (.inr rfl : (10 : ℤ) ^ 15 + 1 = 10 ^ 15 ∨ _) hr (by omega)
      have hleft : Spent { budget' with bytesLeft := budget'.bytesLeft - 18 } :=
        .inr (by show budget'.bytesLeft - 18 < 19; omega)
      refine ⟨?_, ?_, ?_, ?_, ?_⟩ <;> simp only [hfirst, hsecond]
      · intro heq
        have hne := Emitted.int.inj heq
        omega
      · rfl
      · rfl
      · exact hleft
      · exact hleft
    · by_cases hone : budget'.nodesLeft = 1
      · -- One item of a list takes the last node, and so does one key of a mapping.
        obtain ⟨budget1, hr1, hnodes1, -⟩ := Budget.reserveNode_some hnodes
          (by omega : 8 ≤ budget'.bytesLeft)
        have hzero : ¬ (0 : ℕ) ≥ maxEventKeys := by decide
        refine ⟨.list [.none], .mapping [(.text "a", .none)], ?_⟩
        refine ⟨?_, ?_, ?_, ?_, ?_⟩ <;> simp only [redact_list hr, redact_mapping hr]
        · intro heq
          cases heq
        · rfl
        · rfl
        · have hlast := @redact_below_reserveNode redactInlineSecrets levels _ _ hr1 .none
          left
          have hle := hlast.nodes
          rw [redactItems, if_neg hzero]
          simp only []
          split
          · show (redact redactInlineSecrets levels Value.none budget').2.nodesLeft = 0
            omega
          · show (redact redactInlineSecrets levels Value.none budget').2.nodesLeft = 0
            omega
        · obtain ⟨hsafe, hsize, hmarker⟩ := letter_facts (.inl rfl : "a" = "a" ∨ _)
          obtain ⟨budget2, hk, hnodes2, -⟩ := keyStep_letter hsafe hsize hmarker hnodes
            (by omega)
          left
          have hle := (@redact_below redactInlineSecrets levels .none
            budget2).nodes
          rw [redactEntries, if_neg hzero, hk]
          simp only []
          split
          · show (redact redactInlineSecrets levels Value.none budget2).2.nodesLeft = 0
            omega
          · show (redact redactInlineSecrets levels Value.none budget2).2.nodesLeft = 0
            omega
      · have hle := hbelow.bytes
        obtain ⟨hsafe, hsize, hmarker⟩ := letter_facts (.inl rfl : "a" = "a" ∨ _)
        obtain ⟨hsafe', hsize', hmarker'⟩ := letter_facts (.inr rfl : "b" = "a" ∨ _)
        obtain ⟨⟨value, rest, heq⟩, hspent1⟩ := @redact_greedy
          redactInlineSecrets levels _ _ _ hsafe hsize hmarker hr
          (by omega) (by omega) (by omega)
        obtain ⟨⟨value', rest', heq'⟩, hspent2⟩ := @redact_greedy
          redactInlineSecrets levels _ _ _ hsafe' hsize' hmarker' hr
          (by omega) (by omega) (by omega)
        refine ⟨greedy "a", greedy "b", ?_, ?_, ?_, hspent1, hspent2⟩
        · rw [heq, heq']
          intro hsame
          have hitems := Emitted.dict.inj hsame
          have hletters : "a" = "b" := (Prod.mk.inj (List.cons.inj hitems).1).1
          exact absurd hletters (by decide)
        · rw [heq]
          rfl
        · rw [heq']
          rfl

/-! ## Leaks reach the event -/

/-- A value that is not discreet has two variants, equal to it after erasure, that are told apart. -/
def Leaky (redactInlineSecrets : String → String) (levels : ℕ) (value : Value) (budget : Budget) :
    Prop :=
  ∃ value' value'', value'.erase = value.erase ∧ value''.erase = value.erase ∧
    Tells redactInlineSecrets levels budget value' value''

section Steps

variable {next : Value → Budget → Emitted × Budget} {rawKey : Key} {budget budget' : Budget}
  {index : ℕ} (hindex : ¬ index ≥ maxEventKeys) (rawValue : Value) (items : List (Key × Value))
  (result : List (String × Emitted))

include hindex

/-- The loop goes past a key of which nothing is left. -/
theorem redactEntries_of_skip (hk : keyStep rawKey budget = .skip) :
    redactEntries next index ((rawKey, rawValue) :: items) result budget =
      redactEntries next (index + 1) items result budget := by
  rw [redactEntries, if_neg hindex, hk]

/-- The loop replaces the value of a key that it knows as sensitive. -/
theorem redactEntries_of_hide {key text : String} {budget'' : Budget}
    (hk : keyStep rawKey budget = .hide key budget')
    (ht : budget'.text redacted = (some text, budget'')) :
    redactEntries next index ((rawKey, rawValue) :: items) result budget =
      redactEntries next (index + 1) items (assign result key (.str text)) budget'' := by
  rw [redactEntries, if_neg hindex, hk]
  simp only [ht]

/-- The loop redacts the value of any other key. -/
theorem redactEntries_of_inspect {key : String} (hk : keyStep rawKey budget = .inspect key budget')
    (hstop : ¬ ((next rawValue budget').1.isNone && (next rawValue budget').2.exhausted) = true) :
    redactEntries next index ((rawKey, rawValue) :: items) result budget =
      redactEntries next (index + 1) items (assign result key (next rawValue budget').1)
        (next rawValue budget').2 := by
  rw [redactEntries, if_neg hindex, hk]
  simp only [if_neg hstop]

/-- The loop redacts an item of a list. -/
theorem redactItems_of_next {item : Value} (items : List Value) (result : List Emitted)
    (hstop : ¬ ((next item budget).1.isNone && (next item budget).2.exhausted) = true) :
    redactItems next index (item :: items) result budget =
      redactItems next (index + 1) items (result ++ [(next item budget).1])
        (next item budget).2 := by
  rw [redactItems, if_neg hindex]
  simp only [if_neg hstop]

end Steps

/-- What is told apart does not stop a loop. -/
theorem Tells.goes {levels : ℕ} {budget : Budget} {value value' : Value}
    (h : Tells redactInlineSecrets levels budget value value') :
    (¬ ((redact redactInlineSecrets levels value budget).1.isNone &&
        (redact redactInlineSecrets levels value budget).2.exhausted) = true) ∧
      ¬ ((redact redactInlineSecrets levels value' budget).1.isNone &&
        (redact redactInlineSecrets levels value' budget).2.exhausted) = true := by
  rw [h.emitted, h.emitted', Bool.false_and, Bool.false_and]
  exact ⟨Bool.false_ne_true, Bool.false_ne_true⟩

section Loops

variable {levels : ℕ} (hinner : ∀ value budget, budget.bytesLeft ≤ maxEventBytes →
  ¬ Discreet redactInlineSecrets levels value budget →
    Leaky redactInlineSecrets levels value budget)

include hinner in
/-- The items of a mapping that are not discreet have two variants with different dictionaries. -/
theorem exists_leak_entries (index : ℕ) (items : List (Key × Value)) {budget : Budget}
    (hmax : budget.bytesLeft ≤ maxEventBytes)
    (h : ¬ DiscreetEntries (redact redactInlineSecrets levels) (Discreet redactInlineSecrets levels)
      (Blind levels) index items budget) :
    ∃ items' items'', eraseEntries items' = eraseEntries items ∧
      eraseEntries items'' = eraseEntries items ∧ ∀ result,
        (redactEntries (redact redactInlineSecrets levels) index items' result budget).1 ≠
            (redactEntries (redact redactInlineSecrets levels) index items'' result budget).1 ∧
          Spent (redactEntries (redact redactInlineSecrets levels) index items' result budget).2 ∧
          Spent (redactEntries (redact redactInlineSecrets levels) index items'' result budget).2 := by
  induction items generalizing index budget with
  | nil => exact absurd trivial h
  | cons item items ih =>
    obtain ⟨rawKey, rawValue⟩ := item
    have hstep := (keyStep_below rawKey budget).bytes
    rw [DiscreetEntries] at h
    by_cases hindex : index ≥ maxEventKeys
    · rw [if_pos hindex] at h
      exact absurd trivial h
    · rw [if_neg hindex] at h
      cases hk : keyStep rawKey budget with
      | skip =>
        rw [hk] at h
        obtain ⟨items', items'', he', he'', hall⟩ := ih (index + 1) hmax h
        refine ⟨(rawKey, rawValue) :: items', (rawKey, rawValue) :: items'',
          by rw [eraseEntries, he', eraseEntries], by rw [eraseEntries, he'', eraseEntries], ?_⟩
        intro result
        rw [redactEntries_of_skip hindex rawValue items' result hk,
          redactEntries_of_skip hindex rawValue items'' result hk]
        exact hall result
      | stop budget' =>
        rw [hk] at h
        exact absurd trivial h
      | hide key budget' =>
        rw [hk] at h hstep
        have hle := (Budget.Below.text budget' redacted).bytes
        cases ht : budget'.text redacted with
        | mk text budget'' =>
          rw [ht] at hle
          simp only [ht] at h
          cases text with
          | none => exact absurd trivial h
          | some text =>
            obtain ⟨items', items'', he', he'', hall⟩ := ih (index + 1)
              ((hle.trans hstep).trans hmax) h
            refine ⟨(rawKey, rawValue) :: items', (rawKey, rawValue) :: items'',
              by rw [eraseEntries, he', eraseEntries], by rw [eraseEntries, he'', eraseEntries], ?_⟩
            intro result
            rw [redactEntries_of_hide hindex rawValue items' result hk ht,
              redactEntries_of_hide hindex rawValue items'' result hk ht]
            exact hall _
      | inspect key budget' =>
        rw [hk] at h hstep
        simp only [] at h
        have hmax' : budget'.bytesLeft ≤ maxEventBytes := hstep.trans hmax
        by_cases hshown : (if rawKey.sensitive = true then Blind levels budget' else
            Discreet redactInlineSecrets levels rawValue budget')
        · -- The leak is further on.
          have hrest : ¬ if ((redact redactInlineSecrets levels rawValue budget').1.isNone &&
              (redact redactInlineSecrets levels rawValue budget').2.exhausted) = true then True
              else DiscreetEntries (redact redactInlineSecrets levels)
                (Discreet redactInlineSecrets levels) (Blind levels) (index + 1) items
                (redact redactInlineSecrets levels rawValue budget').2 := fun hrest =>
            h ⟨hshown, hrest⟩
          by_cases hstop : ((redact redactInlineSecrets levels rawValue budget').1.isNone &&
              (redact redactInlineSecrets levels rawValue budget').2.exhausted) = true
          · rw [if_pos hstop] at hrest
            exact absurd trivial hrest
          · rw [if_neg hstop] at hrest
            have hle := (@redact_below redactInlineSecrets levels rawValue
              budget').bytes
            obtain ⟨items', items'', he', he'', hall⟩ := ih (index + 1) (hle.trans hmax') hrest
            refine ⟨(rawKey, rawValue) :: items', (rawKey, rawValue) :: items'',
              by rw [eraseEntries, he', eraseEntries], by rw [eraseEntries, he'', eraseEntries], ?_⟩
            intro result
            rw [redactEntries_of_inspect hindex rawValue items' result hk hstop,
              redactEntries_of_inspect hindex rawValue items'' result hk hstop]
            exact hall _
        · -- The leak is here: two values that are told apart take the place of this one.
          have htells : ∃ value' value'',
              (if rawKey.sensitive = true then Value.none else value'.erase) =
                  (if rawKey.sensitive = true then Value.none else rawValue.erase) ∧
                (if rawKey.sensitive = true then Value.none else value''.erase) =
                  (if rawKey.sensitive = true then Value.none else rawValue.erase) ∧
                Tells redactInlineSecrets levels budget' value' value'' := by
            by_cases hs : rawKey.sensitive = true
            · rw [if_pos hs] at hshown
              obtain ⟨value', value'', htells⟩ := @exists_leak
                redactInlineSecrets _ _ hshown hmax'
              exact ⟨value', value'', by rw [if_pos hs, if_pos hs], by rw [if_pos hs, if_pos hs],
                htells⟩
            · rw [if_neg hs] at hshown
              obtain ⟨value', value'', he', he'', htells⟩ := hinner rawValue budget' hmax' hshown
              exact ⟨value', value'', by rw [if_neg hs, if_neg hs, he'],
                by rw [if_neg hs, if_neg hs, he''], htells⟩
          obtain ⟨value', value'', he', he'', htells⟩ := htells
          refine ⟨(rawKey, value') :: items, (rawKey, value'') :: items,
            by rw [eraseEntries, he', eraseEntries], by rw [eraseEntries, he'', eraseEntries], ?_⟩
          intro result
          rw [redactEntries_of_inspect hindex value' items result hk htells.goes.1,
            redactEntries_of_inspect hindex value'' items result hk htells.goes.2]
          rw [redactEntries_spent levels (index + 1) items _ htells.spent,
            redactEntries_spent levels (index + 1) items _ htells.spent']
          exact ⟨assign_ne htells.ne result key,
            htells.spent.below (redactEntries_below (redact_below levels) _ _ _ _),
            htells.spent'.below (redactEntries_below (redact_below levels) _ _ _ _)⟩

include hinner in
/-- The items of a list that are not discreet have two variants with different lists. -/
theorem exists_leak_items (index : ℕ) (items : List Value) {budget : Budget}
    (hmax : budget.bytesLeft ≤ maxEventBytes)
    (h : ¬ DiscreetItems (redact redactInlineSecrets levels) (Discreet redactInlineSecrets levels)
      index items budget) :
    ∃ items' items'', eraseItems items' = eraseItems items ∧
      eraseItems items'' = eraseItems items ∧ ∀ result,
        (redactItems (redact redactInlineSecrets levels) index items' result budget).1 ≠
            (redactItems (redact redactInlineSecrets levels) index items'' result budget).1 ∧
          Spent (redactItems (redact redactInlineSecrets levels) index items' result budget).2 ∧
          Spent (redactItems (redact redactInlineSecrets levels) index items'' result budget).2 := by
  induction items generalizing index budget with
  | nil => exact absurd trivial h
  | cons item items ih =>
    rw [DiscreetItems] at h
    by_cases hindex : index ≥ maxEventKeys
    · rw [if_pos hindex] at h
      exact absurd trivial h
    · rw [if_neg hindex] at h
      by_cases hitem : Discreet redactInlineSecrets levels item budget
      · have hrest : ¬ if ((redact redactInlineSecrets levels item budget).1.isNone &&
            (redact redactInlineSecrets levels item budget).2.exhausted) = true then True
            else DiscreetItems (redact redactInlineSecrets levels)
              (Discreet redactInlineSecrets levels) (index + 1) items
              (redact redactInlineSecrets levels item budget).2 := fun hrest => h ⟨hitem, hrest⟩
        by_cases hstop : ((redact redactInlineSecrets levels item budget).1.isNone &&
            (redact redactInlineSecrets levels item budget).2.exhausted) = true
        · rw [if_pos hstop] at hrest
          exact absurd trivial hrest
        · rw [if_neg hstop] at hrest
          have hle := (@redact_below redactInlineSecrets levels item
            budget).bytes
          obtain ⟨items', items'', he', he'', hall⟩ := ih (index + 1) (hle.trans hmax) hrest
          refine ⟨item :: items', item :: items'', by rw [eraseItems, he', eraseItems],
            by rw [eraseItems, he'', eraseItems], ?_⟩
          intro result
          rw [redactItems_of_next hindex items' result hstop,
            redactItems_of_next hindex items'' result hstop]
          exact hall _
      · obtain ⟨value', value'', he', he'', htells⟩ := hinner item budget hmax hitem
        refine ⟨value' :: items, value'' :: items, by rw [eraseItems, he', eraseItems],
          by rw [eraseItems, he'', eraseItems], ?_⟩
        intro result
        rw [redactItems_of_next hindex items result htells.goes.1,
          redactItems_of_next hindex items result htells.goes.2]
        refine ⟨?_, htells.spent.below (redactItems_below (redact_below levels) _ _ _ _),
          htells.spent'.below (redactItems_below (redact_below levels) _ _ _ _)⟩
        obtain ⟨more, hmore⟩ := @redactItems_append (redact redactInlineSecrets levels)
          (index + 1) items (result ++ [(redact redactInlineSecrets levels value' budget).1])
          (redact redactInlineSecrets levels value' budget).2
        obtain ⟨more', hmore'⟩ := @redactItems_append (redact redactInlineSecrets levels)
          (index + 1) items (result ++ [(redact redactInlineSecrets levels value'' budget).1])
          (redact redactInlineSecrets levels value'' budget).2
        rw [hmore, hmore', List.append_assoc, List.append_assoc]
        intro heq
        exact htells.ne (List.cons.inj (List.append_cancel_left heq)).1

end Loops

/-- A value that is not discreet leaks. -/
theorem leaky_of_not_discreet (levels : ℕ) (value : Value) (budget : Budget)
    (hmax : budget.bytesLeft ≤ maxEventBytes)
    (h : ¬ Discreet redactInlineSecrets levels value budget) :
    Leaky redactInlineSecrets levels value budget := by
  induction levels generalizing value budget with
  | zero =>
    unfold Discreet at h
    cases hr : budget.reserveNode <;> rw [hr] at h <;> exact absurd trivial h
  | succ levels ih =>
    unfold Discreet at h
    cases hr : budget.reserveNode with
    | none =>
      rw [hr] at h
      exact absurd trivial h
    | some budget' =>
      rw [hr] at h
      have hmax' := (Budget.Below.reserveNode hr).bytes.trans hmax
      cases value with
      | mapping items =>
        obtain ⟨items', items'', he', he'', hall⟩ := exists_leak_entries ih 0 items hmax' h
        obtain ⟨hne, hspent, hspent'⟩ := hall []
        refine ⟨.mapping items', .mapping items'', by rw [Value.erase, he', Value.erase],
          by rw [Value.erase, he'', Value.erase], ?_⟩
        refine ⟨?_, ?_, ?_, ?_, ?_⟩ <;> simp only [redact_mapping hr]
        · intro heq
          exact hne (Emitted.dict.inj heq)
        · rfl
        · rfl
        · exact hspent
        · exact hspent'
      | list items =>
        obtain ⟨items', items'', he', he'', hall⟩ := exists_leak_items ih 0 items hmax' h
        obtain ⟨hne, hspent, hspent'⟩ := hall []
        refine ⟨.list items', .list items'', by rw [Value.erase, he', Value.erase],
          by rw [Value.erase, he'', Value.erase], ?_⟩
        refine ⟨?_, ?_, ?_, ?_, ?_⟩ <;> simp only [redact_list hr]
        · intro heq
          exact hne (Emitted.list.inj heq)
        · rfl
        · rfl
        · exact hspent
        · exact hspent'
      | bool b => exact absurd trivial h
      | none => exact absurd trivial h
      | int n => exact absurd trivial h
      | float f => exact absurd trivial h
      | str s => exact absurd trivial h
      | other => exact absurd trivial h

/-- The fields of an event are those of the walk over its items. -/
theorem safeEvent_snd {eventName : Option String} {budget : Budget}
    (h : (eventBudget (safeEventName eventName)).reserveNode = some budget)
    (items : List (Key × Value)) :
    (safeEvent redactInlineSecrets items eventName).2 =
      (redactEntries (redact redactInlineSecrets maxNesting) 0 items [] budget).1 := by
  rw [safeEvent, redactEvent, redact_mapping h]
  rfl

/-! ## Influence of sensitive values -/

/-- Sensitive values have no influence on an event exactly when it is discreet. -/
theorem safeEvent_congr_iff (redactInlineSecrets : String → String) (items : List (Key × Value))
    (eventName : Option String) :
    (∀ items', DifferOnlyInSensitive items items' →
        safeEvent redactInlineSecrets items' eventName =
          safeEvent redactInlineSecrets items eventName) ↔
      DiscreetEvent redactInlineSecrets items eventName := by
  constructor
  · intro hsame
    by_contra hnot
    unfold DiscreetEvent Discreet at hnot
    cases hr : (eventBudget (safeEventName eventName)).reserveNode with
    | none =>
      rw [hr] at hnot
      exact hnot trivial
    | some budget =>
      rw [hr] at hnot
      have hmax : budget.bytesLeft ≤ maxEventBytes :=
        (Budget.Below.reserveNode hr).bytes.trans (Nat.sub_le _ _)
      obtain ⟨items', items'', he', he'', hall⟩ :=
        exists_leak_entries (leaky_of_not_discreet maxNesting) 0 items hmax hnot
      have hevents : safeEvent redactInlineSecrets items' eventName =
          safeEvent redactInlineSecrets items'' eventName :=
        (hsame items' he'.symm).trans (hsame items'' he''.symm).symm
      have hfields := congrArg Prod.snd hevents
      rw [safeEvent_snd hr, safeEvent_snd hr] at hfields
      exact (hall []).1 hfields
  · intro hdiscreet items' h
    exact safeEvent_congr hdiscreet h

/-- An event with a sensitive key that is cut before its marker. -/
def longKeyEvent (value : Bool) : List (Key × Value) :=
  [(.text "aaaaaaaaaaaaaaaaaaaaaaaaaaaaaaaaaaaaaaaaaaaaaaaaaaaaaaaaaaaaaaaapassword", .bool value)]

/-- What the walk makes of the key: it inspects the value. -/
theorem keyStep_longKey :
    keyStep (.text "aaaaaaaaaaaaaaaaaaaaaaaaaaaaaaaaaaaaaaaaaaaaaaaaaaaaaaaaaaaaaaaapassword")
        ⟨507, 16349⟩ =
      .inspect "aaaaaaaaaaaaaaaaaaaaaaaaaaaaaaaaaaaaaaaaaaaaaaaaaaaaaaaaaaaaaaaa"
        ⟨506, 16275⟩ := by
  decide +kernel

/-- Under a key with its marker after the sixty-fourth character a password is emitted. -/
theorem safeEvent_longKey_ne :
    DifferOnlyInSensitive (longKeyEvent true) (longKeyEvent false) ∧
      safeEvent id (longKeyEvent true) none ≠ safeEvent id (longKeyEvent false) none := by
  have hsensitive : (Key.text
      "aaaaaaaaaaaaaaaaaaaaaaaaaaaaaaaaaaaaaaaaaaaaaaaaaaaaaaaaaaaaaaaapassword").sensitive = true := by
    decide +kernel
  have hreserve : (eventBudget (safeEventName none)).reserveNode = some ⟨507, 16349⟩ := by
    decide +kernel
  have hfields : ∀ value, (safeEvent id (longKeyEvent value) none).2 =
      [("aaaaaaaaaaaaaaaaaaaaaaaaaaaaaaaaaaaaaaaaaaaaaaaaaaaaaaaaaaaaaaaa", .bool value)] := by
    intro value
    have hvalue : redact id maxNesting (.bool value) ⟨506, 16275⟩ = (.bool value, ⟨505, 16267⟩) := rfl
    have hgoes : ¬ ((redact id maxNesting (.bool value) ⟨506, 16275⟩).1.isNone &&
        (redact id maxNesting (.bool value) ⟨506, 16275⟩).2.exhausted) = true := by
      rw [hvalue]
      exact Bool.false_ne_true
    rw [safeEvent_snd hreserve, longKeyEvent,
      redactEntries_of_inspect (by decide) _ _ _ keyStep_longKey hgoes, hvalue]
    rfl
  constructor
  · have herase : ∀ value, eraseEntries (longKeyEvent value) = [(.text
        "aaaaaaaaaaaaaaaaaaaaaaaaaaaaaaaaaaaaaaaaaaaaaaaaaaaaaaaaaaaaaaaapassword", .none)] := by
      intro value
      rw [longKeyEvent, eraseEntries, hsensitive, if_pos rfl, eraseEntries]
    exact (herase true).trans (herase false).symm
  · intro hsame
    have hfield := congrArg Prod.snd hsame
    rw [hfields, hfields] at hfield
    have hbool := (Prod.mk.inj (List.cons.inj hfield).1).2
    exact absurd (Emitted.bool.inj hbool) (by decide)

end RickIntelligence.Observability
