import RickIntelligence.Observability.Redaction

/-!
# Sensitive values and emitted events

Two values differ only in sensitive values when they are equal after every value under a sensitive key
was erased (`Value.erase`). `redact` tests a key only after it was cut to 64 characters and charged
to the budget, which may replace it; a sensitive key that fails the test has its value inspected.

`Discreet` says that no sensitive value is inspected while there is something left to emit of it. A
discreet value is redacted as what is left of it after erasure (`redact_erase`), so two that differ only
in sensitive values are redacted alike.
-/

namespace RickIntelligence.Observability

open Lib

/-! ## Sensitive keys -/

/-- A key whose whole name, without control characters, contains a sensitive marker. -/
def Key.sensitive : Key → Bool
  | .text name => hasMarker (cleaned name)
  | .other => false

mutual

/-- A value without what is under its sensitive keys. -/
def Value.erase : Value → Value
  | .mapping items => .mapping (eraseEntries items)
  | .list items => .list (eraseItems items)
  | .bool b => .bool b
  | .none => .none
  | .int n => .int n
  | .float f => .float f
  | .str s => .str s
  | .other => .other

/-- The items of a mapping without what is under the sensitive keys. -/
def eraseEntries : List (Key × Value) → List (Key × Value)
  | [] => []
  | (key, value) :: items => (key, if key.sensitive then .none else value.erase) :: eraseEntries items

/-- The items of a list without what is under their sensitive keys. -/
def eraseItems : List Value → List Value
  | [] => []
  | item :: items => item.erase :: eraseItems items

end

/-- Two events differ only in values under sensitive keys. -/
def DifferOnlyInSensitive (items items' : List (Key × Value)) : Prop :=
  eraseEntries items = eraseEntries items'

/-! ## Discretion -/

section Discreet

variable (next : Value → Budget → Emitted × Budget) (inner : Value → Budget → Prop)
  (blind : Budget → Prop)

/-- Over the items of a mapping: a sensitive value is inspected only where the walk is blind to it, and
every other value is discreet in its turn. -/
def DiscreetEntries : ℕ → List (Key × Value) → Budget → Prop
  | _, [], _ => True
  | index, (rawKey, rawValue) :: items, budget =>
    if index ≥ maxEventKeys then True
    else match keyStep rawKey budget with
      | .skip => DiscreetEntries (index + 1) items budget
      | .stop _ => True
      | .hide _ budget => match budget.text redacted with
        | (none, _) => True
        | (some _, budget) => DiscreetEntries (index + 1) items budget
      | .inspect _ budget =>
        (if rawKey.sensitive then blind budget else inner rawValue budget) ∧
          if (next rawValue budget).1.isNone && (next rawValue budget).2.exhausted then True
          else DiscreetEntries (index + 1) items (next rawValue budget).2

/-- Over the items of a list: every item is discreet. -/
def DiscreetItems : ℕ → List Value → Budget → Prop
  | _, [], _ => True
  | index, item :: items, budget =>
    if index ≥ maxEventKeys then True
    else inner item budget ∧
      if (next item budget).1.isNone && (next item budget).2.exhausted then True
      else DiscreetItems (index + 1) items (next item budget).2

end Discreet

/-- Nothing of a value is emitted: no node is left for it, or it is below the levels that are walked. -/
def Blind (levels : ℕ) (budget : Budget) : Prop := budget.reserveNode = none ∨ levels = 0

/-- The walk of `redact` inspects no sensitive value of which something is emitted. -/
def Discreet (redactInlineSecrets : String → String) : ℕ → Value → Budget → Prop
  | levels, value, budget => match budget.reserveNode with
    | none => True
    | some budget => match levels with
      | 0 => True
      | levels + 1 => match value with
        | .mapping items => DiscreetEntries (redact redactInlineSecrets levels)
            (Discreet redactInlineSecrets levels) (Blind levels) 0 items budget
        | .list items => DiscreetItems (redact redactInlineSecrets levels)
            (Discreet redactInlineSecrets levels) 0 items budget
        | _ => True

/-! ## Redaction of a discreet value -/

/-- A walk that is blind to a value emits the same of every value. -/
theorem redact_of_blind {redactInlineSecrets : String → String} {levels : ℕ} {budget : Budget}
    (h : Blind levels budget) (value value' : Value) :
    redact redactInlineSecrets levels value budget =
      redact redactInlineSecrets levels value' budget := by
  rcases h with h | rfl
  · unfold redact
    rw [h]
  · unfold redact
    cases budget.reserveNode <;> rfl

section Loops

variable {next : Value → Budget → Emitted × Budget} {inner : Value → Budget → Prop}
  {blind : Budget → Prop}
  (hinner : ∀ value budget, inner value.erase budget ↔ inner value budget)
  (hnext : ∀ value budget, inner value budget → next value.erase budget = next value budget)
  (hblind : ∀ budget, blind budget → ∀ value value', next value budget = next value' budget)

include hinner hnext hblind in
/-- The loop over the items of a mapping, before and after erasure. -/
theorem entries_erase (index : ℕ) (items : List (Key × Value)) (budget : Budget) :
    (DiscreetEntries next inner blind index (eraseEntries items) budget ↔
        DiscreetEntries next inner blind index items budget) ∧
      (DiscreetEntries next inner blind index items budget → ∀ result,
        redactEntries next index (eraseEntries items) result budget =
          redactEntries next index items result budget) := by
  induction items generalizing index budget with
  | nil => exact ⟨Iff.rfl, fun _ _ => rfl⟩
  | cons item items ih =>
    obtain ⟨rawKey, rawValue⟩ := item
    rw [eraseEntries]
    simp only [DiscreetEntries, redactEntries]
    by_cases hindex : index ≥ maxEventKeys
    · simp only [if_pos hindex, implies_true, and_self]
    · simp only [if_neg hindex]
      cases hk : keyStep rawKey budget with
      | skip => exact ih (index + 1) budget
      | stop budget' => exact ⟨Iff.rfl, fun _ _ => rfl⟩
      | hide key budget' =>
        cases ht : budget'.text redacted with
        | mk text budget'' =>
          simp only [ht]
          cases text with
          | none => exact ⟨Iff.rfl, fun _ _ => rfl⟩
          | some text =>
            obtain ⟨hiff, heq⟩ := ih (index + 1) budget''
            exact ⟨hiff, fun h result => heq h _⟩
      | inspect key budget' =>
        -- The value that is inspected is redacted as after erasure.
        have hvalue : (if rawKey.sensitive = true then blind budget' else inner rawValue budget') →
            next (if rawKey.sensitive = true then Value.none else rawValue.erase) budget' =
              next rawValue budget' := by
          intro h
          by_cases hs : rawKey.sensitive = true
          · rw [if_pos hs] at h ⊢
            exact hblind budget' h _ _
          · rw [if_neg hs] at h ⊢
            exact hnext rawValue budget' h
        have hshown : (if rawKey.sensitive = true then blind budget' else
            inner (if rawKey.sensitive = true then Value.none else rawValue.erase) budget') ↔
              (if rawKey.sensitive = true then blind budget' else inner rawValue budget') := by
          by_cases hs : rawKey.sensitive = true
          · rw [if_pos hs, if_pos hs]
          · rw [if_neg hs, if_neg hs, if_neg hs]
            exact hinner rawValue budget'
        simp only []
        constructor
        · rw [hshown]
          refine and_congr_right fun h => ?_
          rw [hvalue h]
          split
          · exact Iff.rfl
          · exact (ih (index + 1) _).1
        · rintro ⟨h, hrest⟩ result
          rw [hvalue h]
          split
          · rfl
          · next hstop =>
            rw [if_neg hstop] at hrest
            exact (ih (index + 1) _).2 hrest _

include hinner hnext in
/-- The loop over the items of a list, before and after erasure. -/
theorem items_erase (index : ℕ) (items : List Value) (budget : Budget) :
    (DiscreetItems next inner index (eraseItems items) budget ↔
        DiscreetItems next inner index items budget) ∧
      (DiscreetItems next inner index items budget → ∀ result,
        redactItems next index (eraseItems items) result budget =
          redactItems next index items result budget) := by
  induction items generalizing index budget with
  | nil => exact ⟨Iff.rfl, fun _ _ => rfl⟩
  | cons item items ih =>
    rw [eraseItems]
    simp only [DiscreetItems, redactItems]
    by_cases hindex : index ≥ maxEventKeys
    · simp only [if_pos hindex, implies_true, and_self]
    · simp only [if_neg hindex]
      constructor
      · rw [hinner]
        refine and_congr_right fun h => ?_
        rw [hnext item budget h]
        split
        · exact Iff.rfl
        · exact (ih (index + 1) _).1
      · rintro ⟨h, hrest⟩ result
        rw [hnext item budget h]
        split
        · rfl
        · next hstop =>
          rw [if_neg hstop] at hrest
          exact (ih (index + 1) _).2 hrest _

end Loops

variable {redactInlineSecrets : String → String}

/-- Erasure keeps discretion, and a discreet value is redacted as after erasure. -/
theorem discreet_erase (levels : ℕ) (value : Value) (budget : Budget) :
    (Discreet redactInlineSecrets levels value.erase budget ↔
        Discreet redactInlineSecrets levels value budget) ∧
      (Discreet redactInlineSecrets levels value budget →
        redact redactInlineSecrets levels value.erase budget =
          redact redactInlineSecrets levels value budget) := by
  induction levels generalizing value budget with
  | zero =>
    unfold Discreet redact
    cases budget.reserveNode <;> exact ⟨Iff.rfl, fun _ => rfl⟩
  | succ levels ih =>
    unfold Discreet redact
    cases budget.reserveNode with
    | none => exact ⟨Iff.rfl, fun _ => rfl⟩
    | some budget =>
      have hinner := fun value budget => (ih value budget).1
      have hnext := fun value budget => (ih value budget).2
      have hblind : ∀ budget, Blind levels budget → ∀ value value',
          redact redactInlineSecrets levels value budget =
            redact redactInlineSecrets levels value' budget := fun _ h => redact_of_blind h
      cases value with
      | mapping items =>
        obtain ⟨hiff, heq⟩ := entries_erase hinner hnext hblind 0 items budget
        rw [Value.erase]
        refine ⟨hiff, fun h => ?_⟩
        simp only [heq h]
      | list items =>
        obtain ⟨hiff, heq⟩ := items_erase hinner hnext 0 items budget
        rw [Value.erase]
        refine ⟨hiff, fun h => ?_⟩
        simp only [heq h]
      | bool b => exact ⟨Iff.rfl, fun _ => rfl⟩
      | none => exact ⟨Iff.rfl, fun _ => rfl⟩
      | int n => exact ⟨Iff.rfl, fun _ => rfl⟩
      | float f => exact ⟨Iff.rfl, fun _ => rfl⟩
      | str s => exact ⟨Iff.rfl, fun _ => rfl⟩
      | other => exact ⟨Iff.rfl, fun _ => rfl⟩

/-- A discreet value is redacted as after erasure. -/
theorem redact_erase {levels : ℕ} {value : Value} {budget : Budget}
    (h : Discreet redactInlineSecrets levels value budget) :
    redact redactInlineSecrets levels value.erase budget =
      redact redactInlineSecrets levels value budget :=
  (discreet_erase levels value budget).2 h

/-- Of two values that are equal after erasure both are discreet or none. -/
theorem discreet_congr {levels : ℕ} {value value' : Value} (h : value.erase = value'.erase)
    (budget : Budget) : Discreet redactInlineSecrets levels value budget ↔
      Discreet redactInlineSecrets levels value' budget := by
  rw [← (discreet_erase levels value budget).1, h, (discreet_erase levels value' budget).1]

/-- An event is discreet: the walk from its budget is. -/
def DiscreetEvent (redactInlineSecrets : String → String) (items : List (Key × Value))
    (eventName : Option String) : Prop :=
  Discreet redactInlineSecrets (maxNesting + 1) (.mapping items)
    (eventBudget (safeEventName eventName))

/-- Of two events that differ only in sensitive values, of which one is discreet, the same is
emitted. -/
theorem safeEvent_congr {items items' : List (Key × Value)} {eventName : Option String}
    (hdiscreet : DiscreetEvent redactInlineSecrets items eventName)
    (h : DifferOnlyInSensitive items items') :
    safeEvent redactInlineSecrets items' eventName = safeEvent redactInlineSecrets items eventName := by
  have herase : (Value.mapping items).erase = (Value.mapping items').erase := by
    rw [Value.erase, Value.erase, h]
  have hdiscreet' := (discreet_congr herase _).mp hdiscreet
  have hsame : redactEvent redactInlineSecrets items' (safeEventName eventName) =
      redactEvent redactInlineSecrets items (safeEventName eventName) := by
    unfold redactEvent
    rw [← redact_erase hdiscreet', ← herase, redact_erase hdiscreet]
  rw [safeEvent, safeEvent, hsame]

end RickIntelligence.Observability
