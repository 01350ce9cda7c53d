import RickIntelligence.Lib.Proc
import RickIntelligence.Observability.Redaction

/-!
# Bounds of emitted events

`safe_event` of `rick_observability.redaction` on texts of any code points. A text with half of a surrogate
pair has no UTF-8 encoding, so charging it raises. Everything else is charged for before it is emitted, but
for the text that replaces a sensitive value: its bytes are charged and no node is. So an event is emitted
exactly when every text that is charged encodes, it is never too long or too deep, and it has too many
values and keys exactly when more values were replaced than nodes are left.
-/

namespace RickIntelligence.Observability

open Lib

/-! ## Texts -/

/-- A text of the program: code points, of which some may be halves of surrogate pairs. -/
abbrev PyText := List ℕ

/-- `value.encode("utf-8")`, if it does not raise: the text as characters. -/
def encodeText (text : PyText) : Option String :=
  if text.all fun n => decide n.isValidChar then some (String.ofList (text.map Char.ofNat)) else none

/-- A code point that `_CONTROL` matches. -/
def isControlPoint (n : ℕ) : Bool := decide (n < 0x20) || n == 0x7f

/-- A code point that `str.strip` removes. -/
def isSpacePoint (n : ℕ) : Bool := isSpace (Char.ofNat n)

/-- `safe_text` on a text of any code points. -/
def safePoints (value : PyText) (limit : ℕ) : Option PyText :=
  let blanked := value.map fun n => if isControlPoint n then 0x20 else n
  let cleaned := (blanked.dropWhile isSpacePoint).rdropWhile isSpacePoint
  if cleaned.isEmpty then none else some (cleaned.take limit)

/-! ## Values -/

/-- A key of a mapping. -/
inductive EventKey where
  | text (s : PyText)
  /-- A key that is not a text. -/
  | other

/-- A value of an event. -/
inductive EventValue where
  | mapping (items : List (EventKey × EventValue))
  /-- A list or a tuple. -/
  | list (items : List EventValue)
  | bool (b : Bool)
  | none
  | int (n : ℤ)
  | float (f : FloatValue)
  | str (s : PyText)
  /-- A value of any other type. -/
  | other

mutual

/-- The values and keys of an emitted value. -/
def Emitted.count : Emitted → ℕ
  | .dict items => 1 + countEntries items
  | .list items => 1 + countItems items
  | _ => 1

/-- The values and keys of the entries of a dictionary. -/
def countEntries : List (String × Emitted) → ℕ
  | [] => 0
  | (_, value) :: items => 1 + value.count + countEntries items

/-- The values and keys of the items of a list. -/
def countItems : List Emitted → ℕ
  | [] => 0
  | item :: items => item.count + countItems items

end

mutual

/-- How deep the containers of an emitted value are nested. -/
def Emitted.depth : Emitted → ℕ
  | .dict items => 1 + depthEntries items
  | .list items => 1 + depthItems items
  | _ => 0

/-- How deep the values of a dictionary are nested. -/
def depthEntries : List (String × Emitted) → ℕ
  | [] => 0
  | (_, value) :: items => max value.depth (depthEntries items)

/-- How deep the items of a list are nested. -/
def depthItems : List Emitted → ℕ
  | [] => 0
  | item :: items => max item.depth (depthItems items)

end

/-- The bytes of a text in UTF-8. -/
def plainBytes (s : String) : ℕ := (s.toList.map Char.utf8Size).sum

mutual

/-- The bytes of an emitted value in compact JSON with `ensure_ascii=False`. -/
def Emitted.size : Emitted → ℕ
  | .dict items => 2 + sizeEntries items - (if items.isEmpty then 0 else 1)
  | .list items => 2 + sizeItems items - (if items.isEmpty then 0 else 1)
  | .bool b => if b then 4 else 5
  | .none => 4
  | .int n => plainBytes (toString n)
  | .float f => plainBytes f.repr
  | .str s => jsonBytes s

/-- The bytes of the entries of a dictionary, each with a colon and a comma. -/
def sizeEntries : List (String × Emitted) → ℕ
  | [] => 0
  | (key, value) :: items => jsonBytes key + 1 + value.size + 1 + sizeEntries items

/-- The bytes of the items of a list, each with a comma. -/
def sizeItems : List Emitted → ℕ
  | [] => 0
  | item :: items => item.size + 1 + sizeItems items

end

/-! ## The walk -/

/-- What a walk has left, and its history, which nothing reads: the texts that were charged, how many
sensitive values were replaced, and how many of the values and keys counted so far were dropped or
overwritten. -/
structure Meter where
  budget : Budget
  charged : List PyText
  hidden : ℕ
  dropped : ℕ

/-- The error of a text that has no encoding. -/
inductive UnicodeEncodeError where
  | surrogates
  deriving DecidableEq

/-- A procedure of the walk. -/
abbrev MeterProc := Proc Meter UnicodeEncodeError

/-- `reserve_node`. -/
def reserveNode : MeterProc Bool := do
  let m ← get
  match m.budget.reserveNode with
  | none => pure false
  | some budget => do
    set { m with budget := budget }
    pure true

/-- `marker`. -/
def chargeMarker : MeterProc (Option String) := do
  let m ← get
  set { m with budget := m.budget.marker.2 }
  pure m.budget.marker.1

/-- `text`, of a text that the module makes itself. -/
def chargeOwn (value : String) : MeterProc (Option String) := do
  let m ← get
  set { m with budget := (m.budget.text value).2 }
  pure (m.budget.text value).1

/-- `text`. -/
def chargeText (value : PyText) : MeterProc (Option String) := do
  let m ← get
  set { m with charged := m.charged ++ [value] }
  match encodeText value with
  | none => Proc.raise .surrogates
  | some text => chargeOwn text

/-- What was counted of an entry or an item that is dropped. -/
def dropSince (before : Meter) : MeterProc Unit := do
  let m ← get
  set { m with dropped := before.dropped + (before.budget.nodesLeft - m.budget.nodesLeft) + (m.hidden - before.hidden) }

/-- A sensitive value is replaced. -/
def countHidden : MeterProc Unit := do
  let m ← get
  set { m with hidden := m.hidden + 1 }

/-- `result[key] = value`. -/
def assignEntry (result : List (String × Emitted)) (key : String) (value : Emitted) :
    MeterProc (List (String × Emitted)) := do
  let m ← get
  set { m with dropped := m.dropped + (countEntries result + 1 + value.count - countEntries (assign result key value)) }
  pure (assign result key value)

/-- The loop over the items of a mapping, where `next` redacts a value one level below. -/
def walkEntries (next : EventValue → MeterProc Emitted) :
    ℕ → List (EventKey × EventValue) → List (String × Emitted) → MeterProc (List (String × Emitted))
  | _, [], result => pure result
  | index, (rawKey, rawValue) :: items, result =>
    if index ≥ maxEventKeys then pure result
    else
      match rawKey with
      | .other => walkEntries next (index + 1) items result
      | .text name =>
        match safePoints name 64 with
        | none => walkEntries next (index + 1) items result
        | some key => do
          let before ← get
          if !(← reserveNode) then pure result
          else
            match ← chargeText key with
            | none => do
              dropSince before
              pure result
            | some key =>
              if hasMarker key.toList then do
                match ← chargeOwn redacted with
                | none => do
                  dropSince before
                  pure result
                | some text => do
                  countHidden
                  let result ← assignEntry result key (.str text)
                  walkEntries next (index + 1) items result
              else do
                let value ← next rawValue
                let after ← get
                if value.isNone && after.budget.exhausted then do
                  dropSince before
                  pure result
                else do
                  let result ← assignEntry result key value
                  walkEntries next (index + 1) items result

/-- The loop over the items of a list, where `next` redacts a value one level below. -/
def walkItems (next : EventValue → MeterProc Emitted) :
    ℕ → List EventValue → List Emitted → MeterProc (List Emitted)
  | _, [], result => pure result
  | index, item :: items, result =>
    if index ≥ maxEventKeys then pure result
    else do
      let before ← get
      let value ← next item
      let after ← get
      if value.isNone && after.budget.exhausted then do
        dropSince before
        pure result
      else walkItems next (index + 1) items (result ++ [value])

/-- `redact` of a number: it is emitted itself only if its own text was charged. -/
def walkNumber (own : Bool) (candidate : String) (value : Emitted) : MeterProc Emitted := do
  match ← chargeOwn candidate with
  | none => pure .none
  | some charged => pure (if charged = candidate ∧ own then value else .str charged)

/-- `redact` of a scalar, after its node was reserved. -/
def walkScalar (redactInlineSecrets : PyText → PyText) : EventValue → MeterProc Emitted
  | .bool b => pure (.bool b)
  | .none => pure .none
  | .int n =>
    if n.natAbs ≥ 2 ^ 53 then walkNumber false "[bounded-integer]" (.int n)
    else walkNumber true (toString n) (.int n)
  | .float f =>
    if f.finite then walkNumber true f.repr (.float f) else walkNumber false "[non-finite]" (.float f)
  | .str s =>
    match safePoints s maxValueChars with
    | none => pure .none
    | some text => Emitted.ofText <$> chargeText (redactInlineSecrets text)
  | _ => Emitted.ofText <$> chargeMarker

/-- `redact`, with the levels that are left. -/
def walk (redactInlineSecrets : PyText → PyText) : ℕ → EventValue → MeterProc Emitted
  | levels, value => do
    if !(← reserveNode) then pure .none
    else
      match levels with
      | 0 => Emitted.ofText <$> chargeMarker
      | levels + 1 =>
        match value with
        | .mapping items => Emitted.dict <$> walkEntries (walk redactInlineSecrets levels) 0 items []
        | .list items => Emitted.list <$> walkItems (walk redactInlineSecrets levels) 0 items []
        | value => walkScalar redactInlineSecrets value

/-! ## Events -/

/-- `safe_event_name` of a text of any code points, or of anything else: a name that is kept is ASCII. -/
def eventName (event_name : Option PyText) : String :=
  match event_name.bind fun value => (safePoints value 96).bind encodeText with
  | some candidate => if eventNamePattern candidate then candidate else "event"
  | none => "event"

/-- `safe_event`: what it returns, and what is left. -/
def safeEventPoints (redactInlineSecrets : PyText → PyText) (event : List (EventKey × EventValue))
    (event_name : Option PyText) : Except UnicodeEncodeError Emitted × Meter :=
  let name := eventName event_name
  Proc.exec (do
    let payload ← walk redactInlineSecrets (maxNesting + 1) (.mapping event)
    pure (.dict [("event", .str name), ("fields", .dict payload.fields)])) ⟨eventBudget name, [], 0, 0⟩

end RickIntelligence.Observability
