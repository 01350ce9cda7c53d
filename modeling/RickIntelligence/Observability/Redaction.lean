import RickIntelligence.Lib.JsonText

/-!
# Redaction of structured events

`rick_observability.redaction`. An event is a mapping of nested mappings, lists and scalars; `redact`
walks it with a budget of nodes and of bytes of JSON text, which every part takes from and which cuts
the rest off once it is used up. A value under a sensitive key is replaced.

The recursion is on the levels that are left: `redact` at `levels` is `redact` at the depth
`MAX_NESTING + 1 - levels`. What `_redact_inline_secrets` makes of a text is a parameter: nothing here
depends on it. A number with a fraction is given by what `repr` makes of it.
-/

namespace RickIntelligence.Observability

open Lib

/-! ## Limits and names -/

/-- `MAX_EVENT_KEYS`. -/
def maxEventKeys : ℕ := 64

/-- `MAX_VALUE_CHARS`. -/
def maxValueChars : ℕ := 512

/-- `MAX_NESTING`. -/
def maxNesting : ℕ := 4

/-- `MAX_EVENT_NODES`. -/
def maxEventNodes : ℕ := 512

/-- `MAX_EVENT_BYTES`. -/
def maxEventBytes : ℕ := 16 * 1024

/-- `_NODE_OVERHEAD_BYTES`. -/
def nodeOverheadBytes : ℕ := 8

/-- `_SENSITIVE`. -/
def sensitiveMarkers : List String :=
  ["authorization", "api_key", "apikey", "cookie", "credential", "password", "secret", "token",
   "set_cookie", "prompt", "document", "content", "body", "stack", "traceback", "raw_response"]

/-- A character of `_CONTROL`. -/
def isControl (c : Char) : Bool := decide (c.toNat < 0x20) || c.toNat == 0x7f

/-- The text with its control characters as blanks, stripped. -/
def cleaned (value : String) : List Char :=
  stripList (value.toList.map fun c => if isControl c then ' ' else c)

/-- `safe_text` on a text. -/
def safeText (value : String) (limit : ℕ) : Option String :=
  if (cleaned value).isEmpty then none else some (String.ofList ((cleaned value).take limit))

/-- `any(marker in lowered for marker in _SENSITIVE)`, for the text in lower case with `-` as `_`. -/
def hasMarker (text : List Char) : Bool :=
  sensitiveMarkers.any fun marker =>
    contains marker.toList (text.map fun c => if lowerChar c = '-' then '_' else lowerChar c)

/-! ## Values -/

/-- A number with a fraction: its `repr`, and whether it is finite. -/
structure FloatValue where
  repr : String
  finite : Bool
  deriving DecidableEq

/-- A key of a mapping. -/
inductive Key where
  | text (s : String)
  /-- A key that is not a text. -/
  | other
  deriving DecidableEq

/-- A value of an event. -/
inductive Value where
  | mapping (items : List (Key × Value))
  /-- A list or a tuple. -/
  | list (items : List Value)
  | bool (b : Bool)
  | none
  | int (n : ℤ)
  | float (f : FloatValue)
  | str (s : String)
  /-- A value of any other type. -/
  | other

/-- A value of an emitted event. -/
inductive Emitted where
  | dict (items : List (String × Emitted))
  | list (items : List Emitted)
  | bool (b : Bool)
  | none
  | int (n : ℤ)
  | float (f : FloatValue)
  | str (s : String)

/-- `redacted is None`. -/
def Emitted.isNone : Emitted → Bool
  | none => true
  | _ => false

/-- `result[key] = value`: a key that is there keeps its place. -/
def assign (result : List (String × Emitted)) (key : String) (value : Emitted) :
    List (String × Emitted) :=
  if result.any fun item => item.1 == key then
    result.map fun item => if item.1 = key then (key, value) else item
  else result ++ [(key, value)]

/-- A text, or `None`. -/
def Emitted.ofText : Option String → Emitted
  | some s => str s
  | Option.none => none

/-! ## The budget -/

/-- The bytes of a character inside a string of `json.dumps` with `ensure_ascii=False`. -/
def jsonWidth (c : Char) : ℕ :=
  if (JsonText.shortEscapes.map Prod.fst).contains c then 2
  else if c.toNat < 0x20 then 6
  else c.utf8Size

/-- `len(json.dumps(value, ensure_ascii=False).encode("utf-8"))` of a text. -/
def jsonBytes (value : String) : ℕ := 2 + (value.toList.map jsonWidth).sum

/-- `_RedactionBudget`. -/
structure Budget where
  nodesLeft : ℕ
  bytesLeft : ℕ
  deriving DecidableEq

/-- `exhausted`. -/
def Budget.exhausted (budget : Budget) : Bool :=
  decide (budget.nodesLeft ≤ 0) || decide (budget.bytesLeft < nodeOverheadBytes)

/-- `reserve_node`: the budget after it, if there is a node left. -/
def Budget.reserveNode (budget : Budget) : Option Budget :=
  if budget.nodesLeft ≤ 0 ∨ budget.bytesLeft < nodeOverheadBytes then none
  else some ⟨budget.nodesLeft - 1, budget.bytesLeft - nodeOverheadBytes⟩

/-- The text that stands for what was cut off. -/
def truncated : String := "[truncated]"

/-- The text that stands for a sensitive value. -/
def redacted : String := "[redacted]"

/-- A charge for a text, if there are bytes left for it. -/
def Budget.charge (budget : Budget) (value : String) : Option Budget :=
  if jsonBytes value ≤ budget.bytesLeft then
    some { budget with bytesLeft := budget.bytesLeft - jsonBytes value }
  else none

/-- `marker`. -/
def Budget.marker (budget : Budget) : Option String × Budget :=
  match budget.charge truncated with
  | some budget => (some truncated, budget)
  | none => (none, budget)

/-- `text`. -/
def Budget.text (budget : Budget) (value : String) : Option String × Budget :=
  match budget.charge value with
  | some budget => (some value, budget)
  | none => budget.marker

/-! ## The walk -/

/-- What the loop over a mapping does with a key, before it looks at the value. -/
inductive KeyStep where
  /-- The key is not a text, or nothing is left of it. -/
  | skip
  /-- The budget is used up. -/
  | stop (budget : Budget)
  /-- The value is replaced. -/
  | hide (key : String) (budget : Budget)
  /-- The value is redacted in its turn. -/
  | inspect (key : String) (budget : Budget)
  deriving DecidableEq

/-- The loop over a mapping, up to the test of the key. -/
def keyStep (rawKey : Key) (budget : Budget) : KeyStep :=
  match rawKey with
  | .other => .skip
  | .text name => match safeText name 64 with
    | none => .skip
    | some key => match budget.reserveNode with
      | none => .stop budget
      | some budget => match budget.text key with
        | (none, budget) => .stop budget
        | (some key, budget) => if hasMarker key.toList then .hide key budget else .inspect key budget

/-- The loop over the items of a mapping, where `next` redacts a value one level below. -/
def redactEntries (next : Value → Budget → Emitted × Budget) :
    ℕ → List (Key × Value) → List (String × Emitted) → Budget → List (String × Emitted) × Budget
  | _, [], result, budget => (result, budget)
  | index, (rawKey, rawValue) :: items, result, budget =>
    if index ≥ maxEventKeys then (result, budget)
    else match keyStep rawKey budget with
      | .skip => redactEntries next (index + 1) items result budget
      | .stop budget => (result, budget)
      | .hide key budget => match budget.text redacted with
        | (none, budget) => (result, budget)
        | (some text, budget) =>
          redactEntries next (index + 1) items (assign result key (.str text)) budget
      | .inspect key budget =>
        let (value, budget) := next rawValue budget
        if value.isNone && budget.exhausted then (result, budget)
        else redactEntries next (index + 1) items (assign result key value) budget

/-- The loop over the items of a list, where `next` redacts a value one level below. -/
def redactItems (next : Value → Budget → Emitted × Budget) :
    ℕ → List Value → List Emitted → Budget → List Emitted × Budget
  | _, [], result, budget => (result, budget)
  | index, item :: items, result, budget =>
    if index ≥ maxEventKeys then (result, budget)
    else
      let (value, budget) := next item budget
      if value.isNone && budget.exhausted then (result, budget)
      else redactItems next (index + 1) items (result ++ [value]) budget

/-- The text of a number that is charged, or the text that replaces it: the number itself is emitted
only if its own text was charged. -/
def chargeNumber (budget : Budget) (own : Bool) (candidate : String) (value : Emitted) :
    Emitted × Budget :=
  match budget.text candidate with
  | (none, budget) => (.none, budget)
  | (some charged, budget) => (if charged = candidate ∧ own then value else .str charged, budget)

/-- `redact` of a scalar, after its node was reserved. -/
def redactScalar (redactInlineSecrets : String → String) (value : Value) (budget : Budget) :
    Emitted × Budget :=
  match value with
  | .bool b => (.bool b, budget)
  | .none => (.none, budget)
  | .int n =>
    if n.natAbs ≥ 2 ^ 53 then chargeNumber budget false "[bounded-integer]" (.int n)
    else chargeNumber budget true (toString n) (.int n)
  | .float f =>
    if f.finite then chargeNumber budget true f.repr (.float f)
    else chargeNumber budget false "[non-finite]" (.float f)
  | .str s => match safeText s maxValueChars with
    | none => (.none, budget)
    | some text =>
      let (text, budget) := budget.text (redactInlineSecrets text)
      (Emitted.ofText text, budget)
  | _ =>
    let (text, budget) := budget.marker
    (Emitted.ofText text, budget)

/-- `redact`. -/
def redact (redactInlineSecrets : String → String) : ℕ → Value → Budget → Emitted × Budget
  | levels, value, budget => match budget.reserveNode with
    | none => (.none, budget)
    | some budget => match levels with
      | 0 =>
        let (text, budget) := budget.marker
        (Emitted.ofText text, budget)
      | levels + 1 => match value with
        | .mapping items =>
          let (result, budget) := redactEntries (redact redactInlineSecrets levels) 0 items [] budget
          (.dict result, budget)
        | .list items =>
          let (result, budget) := redactItems (redact redactInlineSecrets levels) 0 items [] budget
          (.list result, budget)
        | value => redactScalar redactInlineSecrets value budget

/-! ## Events -/

/-- `_EVENT_NAME`. -/
def eventNamePattern : String → Bool :=
  matchesRun (fun c => isLowerAscii c || isUpperAscii c)
    (fun c => isAlnumAscii c || ['_', '.', ':', '-'].contains c) 95

/-- `safe_event_name`, of a text or of anything else. -/
def safeEventName : Option String → String
  | some value => match safeText value 96 with
    | some candidate => if eventNamePattern candidate then candidate else "event"
    | none => "event"
  | none => "event"

/-- The budget of an event: the envelope around the fields is taken from it. -/
def eventBudget (name : String) : Budget :=
  ⟨max 1 (maxEventNodes - 4),
    maxEventBytes - (jsonBytes "event" + 2 + jsonBytes name + 1 + jsonBytes "fields" + 2 + 2 - 2)⟩

/-- `payload if isinstance(payload, dict) else {}`. -/
def Emitted.fields : Emitted → List (String × Emitted)
  | dict items => items
  | _ => []

/-- `redact` of an event with the budget of its name. -/
def redactEvent (redactInlineSecrets : String → String) (items : List (Key × Value))
    (name : String) : Emitted :=
  (redact redactInlineSecrets (maxNesting + 1) (.mapping items) (eventBudget name)).1

/-- `safe_event`: the name and the fields. -/
def safeEvent (redactInlineSecrets : String → String) (items : List (Key × Value))
    (eventName : Option String) : String × List (String × Emitted) :=
  (safeEventName eventName,
    (redactEvent redactInlineSecrets items (safeEventName eventName)).fields)

end RickIntelligence.Observability
