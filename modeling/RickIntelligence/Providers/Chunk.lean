import RickIntelligence.Lib.Json
import RickIntelligence.Lib.Text
import RickIntelligence.Lib.Validated

/-!
# Frames of a streamed completion

How a client of `rick_providers/client.py` reads one frame of a streamed chat completion: the checks of
its fields, its usage, its calls of tools, and the chunk that is handed on (`extractChatChunk`).

A frame is a JSON object. What the checks of its metadata, moderation, log probabilities and audio
accept is left open (`Shapes`), as are the parser of JSON and the validator of schemas; everything
below holds for any of them.
-/

namespace RickIntelligence.Providers

open Lib

/-! ## Errors -/

/-- `ProviderErrorCode`, as far as a stream may end with it. -/
inductive ErrorCode where
  | timeout
  | unavailable
  | rate_limit
  | server_error
  | invalid_json
  | malformed_response
  | missing_field
  | invalid_model
  | model_not_found
  | http_error
  | invalid_configuration
  | internal_error
  deriving DecidableEq, Repr

/-- `RETRYABLE_ERROR_CODES`. -/
def ErrorCode.retryable : ErrorCode → Bool
  | timeout | unavailable | rate_limit | server_error => true
  | _ => false

/-- A refusal of a frame that is malformed. -/
def require (c : Bool) : Except ErrorCode Unit := raiseFirst [(!c, .malformed_response)]

/-! ## Fields -/

/-- `body.get(name)` that is not `None`. -/
def given? (name : String) (body : Json.Members) : Option Json :=
  match Json.member? name body with
  | some .null => none
  | v => v

/-- The members are among some names. -/
def onlyKeys (allowed : List String) (body : Json.Members) : Bool :=
  body.all fun m => allowed.contains m.1

/-- The names are all there. -/
def hasKeys (names : List String) (body : Json.Members) : Bool :=
  names.all fun name => (Json.member? name body).isSome

/-- A whole number. -/
def int? : Json → Option ℤ
  | .int n => some n
  | _ => none

/-- An object. -/
def obj? : Json → Option Json.Members
  | .obj ms => some ms
  | _ => none

/-- A list. -/
def arr? : Json → Option (List Json)
  | .arr items => some items
  | _ => none

/-- `_CORRELATION_CONTROL.search`. -/
def hasControl (s : String) : Bool := s.toList.any fun c => c.val < 0x20 || c.val == 0x7f

/-- A text that is not blank, not longer than a bound, and without control characters. -/
def boundedText (bound : ℕ) (v : Json) : Bool :=
  v.text?.any fun s => strip s != "" && decide (s.length ≤ bound) && !hasControl s

/-- `MAX_RESPONSE_BYTES`. -/
def maxResponseBytes : ℕ := 1000000

/-- `MAX_TOOL_CALL_COUNT`. -/
def maxToolCallCount : ℕ := 32

/-- The checks of what stands in a frame beside the completion. -/
structure Shapes where
  metadata : Json → Bool
  moderation : Json → Bool
  logprobs : Json → Bool
  audio : Json → Bool

/-- A citation of a URL. -/
def validAnnotation (value : Json) : Bool :=
  (obj? value).any fun a =>
    hasKeys ["type", "url_citation"] a && onlyKeys ["type", "url_citation"] a &&
    ((Json.member? "type" a).bind Json.text? == some "url_citation") &&
    ((Json.member? "url_citation" a).bind obj?).any fun citation =>
      hasKeys ["start_index", "end_index", "title", "url"] citation &&
      onlyKeys ["start_index", "end_index", "title", "url"] citation &&
      (((Json.member? "start_index" citation).bind int?).any fun start =>
        ((Json.member? "end_index" citation).bind int?).any fun stop =>
          decide (0 ≤ start ∧ 0 ≤ stop ∧ start ≤ stop)) &&
      ["title", "url"].all fun name => ((Json.member? name citation).bind Json.text?).isSome

/-- The checks of `_validate_openai_fields` on the choice of a frame. -/
def validateChoice (shapes : Shapes) (native : Bool) (choice : Json) : Except ErrorCode Unit := do
  match obj? choice with
  | none => throw .malformed_response
  | some choice =>
    require (onlyKeys ["index", "delta", "finish_reason", "logprobs"] choice)
    raiseFirst [(native && !hasKeys ["index", "delta", "finish_reason"] choice, .missing_field)]
    require ((Json.member? "index" choice).all fun v => int? v == some 0)
    require ((given? "logprobs" choice).all shapes.logprobs)
    match obj? ((Json.member? "delta" choice).getD (.obj [])) with
    | none => throw .malformed_response
    | some message =>
      require (onlyKeys ["role", "content", "refusal", "tool_calls", "function_call", "annotations",
        "audio"] message)
      require (given? "function_call" message).isNone
      require ((given? "annotations" message).all fun v => (arr? v).any (·.all validAnnotation))
      require ((given? "audio" message).all shapes.audio)

/-- `_validate_openai_fields` of a streamed frame. -/
def validateOpenaiFields (shapes : Shapes) (native : Bool) (body : Json.Members) :
    Except ErrorCode Unit := do
  require (!native || hasKeys ["id", "object", "created", "model", "choices", "usage"] body)
  require (!native || ["id", "model"].all fun name => (Json.member? name body).any (boundedText 256))
  require ((Json.member? "id" body).all (boundedText 256))
  require (onlyKeys ["id", "object", "created", "model", "choices", "usage", "service_tier",
    "system_fingerprint", "moderation", "metadata", "obfuscation"] body)
  require (["id", "service_tier", "system_fingerprint", "obfuscation"].all fun name =>
    (given? name body).all fun v => v.text?.isSome)
  require (!native || (given? "service_tier" body).all fun v => v.text?.any
    ["auto", "default", "flex", "scale", "priority", "fast"].contains)
  require ((Json.member? "created" body).all fun v => (int? v).any fun n => decide (0 ≤ n))
  require ((Json.member? "object" body).all fun v => v.text? == some "chat.completion.chunk")
  require ((given? "metadata" body).all shapes.metadata)
  require ((given? "moderation" body).all shapes.moderation)
  match (Json.member? "choices" body).bind arr? with
  | none => throw .malformed_response
  | some [] => return
  | some [choice] => validateChoice shapes native choice
  | some _ => throw .malformed_response

/-! ## Usage -/

/-- `ProviderUsage`. -/
structure Usage where
  prompt_tokens : ℤ
  completion_tokens : ℤ
  total_tokens : ℤ
  deriving DecidableEq, Repr

/-- A counter of some usage. -/
def counter? (name : String) (body : Json.Members) : Option ℤ := (Json.member? name body).bind int?

/-- The sum of some counters, where one that is not given counts for nothing. -/
def counterSum (names : List String) (body : Json.Members) : ℤ :=
  (names.map fun name => (counter? name body).getD 0).sum

/-- The checks of the details of a counter. -/
def validDetails (allowed : List String) (sums : List (List String)) (total : ℤ) (v : Json) : Bool :=
  (obj? v).any fun nested => onlyKeys allowed nested &&
    (nested.all fun m => match m.2 with
      | .null => true
      | .int n => decide (0 ≤ n ∧ n ≤ total)
      | _ => false) &&
    sums.all fun names => decide (counterSum names nested ≤ total)

/-- `_normalize_openai_usage`. -/
def normalizeOpenaiUsage (value : Option Json) : Except ErrorCode (Option Usage) := do
  match value with
  | none => return none
  | some v =>
    match obj? v with
    | none => throw .malformed_response
    | some raw =>
      require (onlyKeys ["prompt_tokens", "completion_tokens", "total_tokens", "prompt_tokens_details",
        "completion_tokens_details"] raw)
      match counter? "prompt_tokens" raw, counter? "completion_tokens" raw, counter? "total_tokens" raw with
      | some prompt, some completion, some total =>
        require (decide (0 ≤ prompt ∧ prompt ≤ 10000000 ∧ 0 ≤ completion ∧ completion ≤ 10000000 ∧
          0 ≤ total ∧ total ≤ 20000000))
        require (total == prompt + completion)
        require ((given? "prompt_tokens_details" raw).all (validDetails
          ["cached_tokens", "audio_tokens", "text_tokens", "image_tokens", "cache_write_tokens"]
          [["text_tokens", "image_tokens", "audio_tokens"], ["cached_tokens", "cache_write_tokens"]]
          prompt))
        require ((given? "completion_tokens_details" raw).all (validDetails
          ["reasoning_tokens", "audio_tokens", "accepted_prediction_tokens",
            "rejected_prediction_tokens", "text_tokens"]
          [["text_tokens", "audio_tokens", "reasoning_tokens"]] completion))
        return some ⟨prompt, completion, total⟩
      | _, _, _ => throw .malformed_response

/-! ## Calls of tools -/

/-- `ProviderToolCallDelta`; its `type` is `function` or nothing. -/
structure ToolCallDelta where
  index : ℕ
  id : Option String
  isFunction : Bool
  name : Option String
  arguments : String
  deriving DecidableEq, Repr

/-- One call of `_extract_tool_call_deltas`, with the indices before it. -/
def extractToolCallDelta (indices : List ℕ) (raw : Json) : Except ErrorCode ToolCallDelta := do
  match obj? raw with
  | none => throw .malformed_response
  | some call =>
    match (Json.member? "index" call).bind int? with
    | none => throw .malformed_response
    | some index =>
      require (decide (0 ≤ index ∧ index < maxToolCallCount) && !indices.contains index.toNat)
      require (onlyKeys ["index", "id", "type", "function"] call)
      match obj? ((Json.member? "function" call).getD (.obj [])) with
      | none => throw .malformed_response
      | some function =>
        require (onlyKeys ["name", "arguments"] function)
        require ((given? "id" call).all (boundedText 256))
        require ((given? "type" call).all fun v => v.text? == some "function")
        require ((given? "name" function).all (boundedText 128))
        match (Json.member? "arguments" function).getD (.str "") with
        | .str arguments =>
          require (decide (arguments.length ≤ maxResponseBytes))
          return {
            index := index.toNat
            id := ((given? "id" call).bind Json.text?).map strip
            isFunction := (given? "type" call).isSome
            name := ((given? "name" function).bind Json.text?).map strip
            arguments }
        | _ => throw .malformed_response

/-- The calls of `_extract_tool_call_deltas` from one on. -/
def extractToolCallsFrom (indices : List ℕ) : List Json → Except ErrorCode (List ToolCallDelta)
  | [] => .ok []
  | raw :: rest => do
    let call ← extractToolCallDelta indices raw
    let calls ← extractToolCallsFrom (call.index :: indices) rest
    return call :: calls

/-- `_extract_tool_call_deltas`. -/
def extractToolCallDeltas (value : Option Json) : Except ErrorCode (Option (List ToolCallDelta)) := do
  match value with
  | none => return none
  | some v =>
    match arr? v with
    | none => throw .malformed_response
    | some items =>
      require (!items.isEmpty && decide (items.length ≤ maxToolCallCount))
      let calls ← extractToolCallsFrom [] items
      return some calls

/-! ## Chunks -/

/-- `_ALLOWED_FINISH_REASONS`. -/
inductive FinishReason where
  | stop
  | length
  | content_filter
  | tool_calls
  deriving DecidableEq, Repr

/-- The reason that a text gives. -/
def finishReason? : String → Option FinishReason
  | "stop" => some .stop
  | "length" => some .length
  | "content_filter" => some .content_filter
  | "tool_calls" => some .tool_calls
  | _ => none

/-- `ChatCompletionChunk`. -/
structure Chunk where
  model : String
  delta : String
  tool_calls : Option (List ToolCallDelta)
  finish_reason : Option FinishReason
  usage : Option Usage
  deriving DecidableEq, Repr

/-- `matches_model`, of a client that is not one of Anthropic. -/
def matchesModel (requested actual : String) (native : Bool) : Bool :=
  actual == requested ||
    native && requested == "gpt-4o-mini" && actual == "gpt-4o-mini-2024-07-18"

/-- The model of a frame, which is the requested one if there is none. -/
def frameModel (expected_model : String) (body : Json.Members) : Json :=
  (Json.member? "model" body).getD (.str expected_model)

/-- The choices of a frame. -/
def choicesOf (body : Json.Members) : List Json := ((Json.member? "choices" body).bind arr?).getD []

/-- The content of a delta: an empty text if there is none. -/
def contentOf (delta : Json.Members) : Except ErrorCode String :=
  match given? "content" delta with
  | none => .ok ""
  | some (.str content) => .ok content
  | some _ => .error .malformed_response

/-- The chunk of the choice of a frame. -/
def extractChoice (model : String) (usage : Option Usage) (choice : Json) :
    Except ErrorCode (Option Chunk) := do
  match obj? choice with
  | none => throw .malformed_response
  | some choice =>
    match obj? ((Json.member? "delta" choice).getD (.obj [])) with
    | none => throw .malformed_response
    | some delta =>
      require ((given? "role" delta).all fun v => v.text? == some "assistant")
      require ((given? "refusal" delta).all fun v => v.text? == some "")
      let content ← contentOf delta
      let tool_calls ← extractToolCallDeltas (given? "tool_calls" delta)
      if content == "" && tool_calls.isNone && (given? "finish_reason" choice).isNone && usage.isNone then
        return none
      let finish_reason ← match given? "finish_reason" choice with
        | none => .ok none
        | some v => match v.text?.bind finishReason? with
          | none => .error .malformed_response
          | some reason => .ok (some reason)
      require (decide (content.length ≤ maxResponseBytes))
      return some { model, delta := content, tool_calls, finish_reason, usage }

/-- `_extract_chat_chunk`. -/
def extractChatChunk (shapes : Shapes) (expected_model : String) (native : Bool) (body : Json) :
    Except ErrorCode (Option Chunk) := do
  match obj? body with
  | none => throw .malformed_response
  | some body =>
    require (Json.member? "error" body).isNone
    validateOpenaiFields shapes native body
    match frameModel expected_model body with
    | .str model =>
      raiseFirst [(decide (256 < model.length) || hasControl model ||
        !matchesModel expected_model (strip model) native, .invalid_model)]
      let usage ← normalizeOpenaiUsage (given? "usage" body)
      match choicesOf body with
      | [] =>
        require (!native || usage.isSome)
        return usage.map fun _ =>
          { model := strip model, delta := "", tool_calls := none, finish_reason := none, usage }
      | choice :: _ => extractChoice (strip model) usage choice
    | _ => throw .invalid_model

end RickIntelligence.Providers
