import RickIntelligence.Providers.Chunk

/-!
# Streaming a chat completion

`OpenAICompatibleClient._chat_completion_stream` of `rick_providers/client.py`, from the request on.
What one attempt gets from the transport is an `Exchange`: a failure, or a response with its events and
the way in which it ends. A deadline that passes is a failure in the place in which it is noticed.

An attempt hands chunks on as it reads them and holds back the one that ends the completion, until
everything is checked. `chatCompletionStream` is what a consumer gets that reads to the end: the
chunks, and the end of the iterator or its error.
-/

namespace RickIntelligence.Providers

open Lib

/-! ## What is configured -/

/-- `normalized_format`. -/
inductive ResponseFormat where
  | text
  | json_object
  | json_schema (schema : Json)

/-- The format is one of JSON. -/
def ResponseFormat.isJson : ResponseFormat → Bool
  | text => false
  | _ => true

/-- What a stream reads and calls: `json.loads` as the client calls it, `validate_instance`, equality
of JSON values, the model error that a refusal names, the checks of frames, and the request. -/
structure StreamConfig where
  loads : String → Option Json
  validate_instance : Json → Json → Bool
  same : Json → Json → Bool
  model_error_code : String → Option ErrorCode
  shapes : Shapes
  native : Bool
  model : String
  format : ResponseFormat

/-! ## Accounting -/

/-- `_StreamUsage`. -/
structure StreamUsage where
  previous : Option Json.Members
  usage : Option Usage

/-- The details of a counter do not shrink, and those of the prompt stay. -/
def detailsKept (stays : Bool) (previous current : Option Json) : Bool :=
  match previous.bind obj? with
  | none => true
  | some previous =>
    (current.bind obj?).any fun current =>
      hasKeys (previous.map Prod.fst) current &&
      previous.all fun m => match int? m.2 with
        | none => true
        | some value => (counter? m.1 current).any fun new =>
          decide (value ≤ new) && (!stays || new == value)

/-- A snapshot of the usage is one that may follow another. -/
def usageFollows (same : Json → Json → Bool) (previous raw : Json.Members) : Bool :=
  let tokens := fun name body => (counter? name body).getD 0
  hasKeys (previous.map Prod.fst) raw &&
    tokens "prompt_tokens" raw == tokens "prompt_tokens" previous &&
    decide (tokens "completion_tokens" previous ≤ tokens "completion_tokens" raw) &&
    decide (tokens "total_tokens" previous ≤ tokens "total_tokens" raw) &&
    (tokens "total_tokens" raw != tokens "total_tokens" previous || same (.obj raw) (.obj previous)) &&
    detailsKept true (Json.member? "prompt_tokens_details" previous)
      (Json.member? "prompt_tokens_details" raw) &&
    detailsKept false (Json.member? "completion_tokens_details" previous)
      (Json.member? "completion_tokens_details" raw)

/-- `_StreamUsage.accept`. -/
def StreamUsage.accept (cfg : StreamConfig) (accounting : StreamUsage) (body : Json.Members)
    (terminal : Bool) : Except ErrorCode StreamUsage := do
  match (Json.member? "usage" body).bind obj? with
  | none => throw .internal_error
  | some raw =>
    require (!cfg.native ||
      accounting.previous.isNone && terminal && (choicesOf body).isEmpty)
    require (accounting.previous.all fun previous => usageFollows cfg.same previous raw)
    let usage ← normalizeOpenaiUsage (some (.obj raw))
    return ⟨some raw, usage⟩

/-! ## Citations and tools -/

/-- `_citation_end`. -/
def citationEnd (delta : Json.Members) : Except ErrorCode ℤ :=
  match given? "annotations" delta with
  | none => .ok 0
  | some v =>
    match (arr? v).bind fun items => items.mapM fun item => do
      let citation ← (← obj? item).lookup "url_citation"
      int? (← (← obj? citation).lookup "end_index") with
    | none => .error .internal_error
    | some ends => .ok (ends.foldr max 0)

/-- A call of a tool, as far as it was streamed. -/
structure AssembledCall where
  id : Option String
  isFunction : Bool
  name : Option String
  arguments : String

/-- A value that was given keeps the one that is there. -/
def assembleField (known given : Option String) : Except ErrorCode (Option String) :=
  match given with
  | none => .ok known
  | some value =>
    if known.all (· == value) then .ok (some value) else .error .malformed_response

/-- One delta of a call is added to what was streamed of it. -/
def assembleCall (streamed : AList fun _ : ℕ => AssembledCall) (call : ToolCallDelta) :
    Except ErrorCode (AList fun _ : ℕ => AssembledCall) := do
  let assembled := (streamed.lookup call.index).getD ⟨none, false, none, ""⟩
  let id ← assembleField assembled.id call.id
  let name ← assembleField assembled.name call.name
  return streamed.insert call.index
    ⟨id, assembled.isFunction || call.isFunction, name, assembled.arguments ++ call.arguments⟩

/-- `_extract_tool_calls` of a call that was streamed, with the ids before it. -/
def validateCall (cfg : StreamConfig) (identities : List String) (call : AssembledCall) :
    Except ErrorCode String := do
  match call.id, call.name with
  | some id, some name =>
    require (boundedText 256 (.str id) && !identities.contains (strip id))
    require call.isFunction
    require (boundedText 128 (.str name))
    require (strip call.arguments != "" && decide (call.arguments.length ≤ maxResponseBytes))
    match cfg.loads call.arguments with
    | none => throw .invalid_json
    | some decoded =>
      require (obj? decoded).isSome
      return strip id
  | _, _ => throw .malformed_response

/-- The calls that were streamed, from one on. -/
def validateCallsFrom (cfg : StreamConfig) (identities : List String) :
    List AssembledCall → Except ErrorCode Unit
  | [] => .ok ()
  | call :: rest => do
    let id ← validateCall cfg identities call
    validateCallsFrom cfg (id :: identities) rest

/-- `_extract_tool_calls` of the calls that were streamed, if there are any, in the order of their
indices. -/
def validateCalls (cfg : StreamConfig) (streamed : AList fun _ : ℕ => AssembledCall) :
    Except ErrorCode Unit :=
  let calls := (streamed.entries.mergeSort fun a b => decide (a.1 ≤ b.1)).map Sigma.snd
  if calls.isEmpty then .ok ()
  else do
    require (decide (calls.length ≤ maxToolCallCount))
    validateCallsFrom cfg [] calls

/-- `_validate_tool_termination`. -/
def validateToolTermination (reason : Option FinishReason) (has_tools : Bool) :
    Except ErrorCode Unit :=
  require (!(reason == some .tool_calls && !has_tools || reason == some .stop && has_tools))

/-- `_validate_response_format_result`. -/
def validateResponseFormat (cfg : StreamConfig) (content : String) : Except ErrorCode Unit := do
  match cfg.format with
  | .text => return
  | .json_object =>
    raiseFirst [(strip content == "", .missing_field)]
    match cfg.loads content with
    | none => throw .invalid_json
    | some decoded => require (obj? decoded).isSome
  | .json_schema schema =>
    raiseFirst [(strip content == "", .missing_field)]
    match cfg.loads content with
    | none => throw .invalid_json
    | some decoded =>
      require (decide (content.utf8ByteSize ≤ maxResponseBytes) &&
        cfg.validate_instance schema decoded)

/-! ## One attempt -/

/-- The variables of an attempt, and the chunks that it has handed on. -/
structure StreamState where
  emitted : Bool
  saw_done : Bool
  terminal_chunk : Option Chunk
  accounting : StreamUsage
  has_content : Bool
  has_tools : Bool
  streamed_tools : AList fun _ : ℕ => AssembledCall
  json_fragments : List String
  completion_id : Option String
  completion_created : Option ℤ
  resolved_model : Option String
  citation_end : ℤ
  text_length : ℕ
  delivered : List Chunk

/-- An attempt at its start. -/
def StreamState.start : StreamState where
  emitted := false
  saw_done := false
  terminal_chunk := none
  accounting := ⟨none, none⟩
  has_content := false
  has_tools := false
  streamed_tools := ∅
  json_fragments := []
  completion_id := none
  completion_created := none
  resolved_model := none
  citation_end := 0
  text_length := 0
  delivered := []

/-- The citations and the text of a frame are counted. -/
def StreamState.measure (st : StreamState) (body : Json.Members) : Except ErrorCode StreamState := do
  match choicesOf body with
  | [] => return st
  | choice :: _ =>
    let delta := ((obj? choice).bind fun c => (Json.member? "delta" c).bind obj?).getD []
    let stop ← citationEnd delta
    let text ← contentOf delta
    return { st with
      citation_end := max st.citation_end stop
      text_length := st.text_length + text.utf8ByteSize }

/-- The model of a frame is the one of the frames before it. -/
def StreamState.identifyModel (st : StreamState) (cfg : StreamConfig) (body : Json.Members) :
    Except ErrorCode StreamState :=
  match (frameModel cfg.model body).text? with
  | none => .error .internal_error
  | some model =>
    if st.resolved_model.all (· == strip model) then
      .ok { st with resolved_model := some (strip model) }
    else .error .invalid_model

/-- The id and the time of a frame are those of the frames before it that have them. -/
def StreamState.identifyCompletion (st : StreamState) (body : Json.Members) :
    Except ErrorCode StreamState := do
  let id := (Json.member? "id" body).bind Json.text?
  let created := (Json.member? "created" body).bind int?
  require (id.all fun value => st.completion_id.all (· == value))
  require (created.all fun value => st.completion_created.all (· == value))
  return { st with
    completion_id := id <|> st.completion_id
    completion_created := created <|> st.completion_created }

/-- A chunk that carries usage only. -/
def Chunk.usageOnly (chunk : Chunk) : Bool :=
  chunk.usage.isSome && chunk.delta == "" && chunk.tool_calls.isNone && chunk.finish_reason.isNone

/-- A chunk is handed on. -/
def StreamState.deliver (st : StreamState) (chunk : Chunk) : StreamState :=
  { st with emitted := true, delivered := st.delivered ++ [chunk] }

/-- The usage of a chunk is accounted for. -/
def StreamState.account (st : StreamState) (cfg : StreamConfig) (body : Json.Members) (chunk : Chunk) :
    Except ErrorCode StreamUsage :=
  if chunk.usage.isSome then st.accounting.accept cfg body st.terminal_chunk.isSome
  else .ok st.accounting

/-- The chunk of a frame is accepted: it is handed on, merged into the one that is held back, or held
back itself. -/
def StreamState.acceptChunk (st : StreamState) (cfg : StreamConfig) (body : Json.Members)
    (chunk : Chunk) : Except ErrorCode StreamState := do
  let accounting ← st.account cfg body chunk
  let st := { st with accounting }
  if chunk.usageOnly then
    match st.terminal_chunk with
    | some terminal => return { st with
        emitted := true
        terminal_chunk := some { terminal with usage := chunk.usage } }
    | none => return st.deliver chunk
  else
    require st.terminal_chunk.isNone
    let streamed_tools ← (chunk.tool_calls.getD []).foldlM assembleCall st.streamed_tools
    let st := { st with
      has_content := st.has_content || strip chunk.delta != ""
      has_tools := st.has_tools || chunk.tool_calls.isSome
      streamed_tools
      json_fragments := if cfg.format.isJson then st.json_fragments ++ [chunk.delta]
        else st.json_fragments }
    if chunk.finish_reason.isSome then
      return { st with emitted := true, terminal_chunk := some { chunk with usage := st.accounting.usage } }
    else return st.deliver chunk

/-- One event of a response. -/
def StreamState.step (cfg : StreamConfig) (st : StreamState) (data : String) :
    Except ErrorCode StreamState := do
  require (!st.saw_done)
  if data = "[DONE]" then return { st with saw_done := true }
  else
    match cfg.loads data with
    | none => throw .invalid_json
    | some decoded =>
      let chunk ← extractChatChunk cfg.shapes cfg.model cfg.native decoded
      let body := (obj? decoded).getD []
      let st ← st.measure body
      let st ← st.identifyModel cfg body
      let st ← st.identifyCompletion body
      require (!(st.terminal_chunk.isSome && !(choicesOf body).isEmpty))
      match chunk with
      | none => return st
      | some chunk => st.acceptChunk cfg body chunk

/-- The events of a response, up to one that is refused: the state then, and the refusal. -/
def consume (cfg : StreamConfig) : StreamState → List String → StreamState × Option ErrorCode
  | st, [] => (st, none)
  | st, data :: rest =>
    match st.step cfg data with
    | .error e => (st, some e)
    | .ok st => consume cfg st rest

/-- The checks at the end of the events: the chunk that was held back. -/
def StreamState.finish (cfg : StreamConfig) (st : StreamState) : Except ErrorCode Chunk := do
  require st.saw_done
  match st.terminal_chunk with
  | none => throw .missing_field
  | some terminal =>
    require (!(cfg.native && st.accounting.usage.isNone))
    require (decide (st.citation_end ≤ st.text_length))
    validateCalls cfg st.streamed_tools
    raiseFirst [(!st.has_content && (!st.has_tools || cfg.format.isJson), .missing_field)]
    validateToolTermination terminal.finish_reason (!st.streamed_tools.entries.isEmpty)
    -- The result that is validated is one of the contracts, whose content is bounded.
    raiseFirst [(cfg.format.isJson &&
      decide (maxResponseBytes < (String.join st.json_fragments).length), .internal_error)]
    validateResponseFormat cfg (String.join st.json_fragments)
    return terminal

/-- What a transport raises. -/
inductive Failure where
  | provider (code : ErrorCode)
  | timeout
  | request
  | invalid_url
  | other

/-- `_classify_transport_error`, and the errors that are told apart before it. -/
def Failure.code : Failure → ErrorCode
  | provider code => code
  | timeout => .timeout
  | request => .unavailable
  | invalid_url => .invalid_configuration
  | other => .internal_error

/-- `_classify_http_status`. A status that no error of the contracts may carry is an error of its
own. -/
def classifyHttpStatus (cfg : StreamConfig) (status : ℤ) (raw : String) : ErrorCode :=
  if status = 429 then .rate_limit
  else if status = 408 then .timeout
  else if 500 ≤ status ∧ status ≤ 599 then .server_error
  else if status < 100 ∨ 599 < status then .internal_error
  else (cfg.model_error_code raw).getD .http_error

/-- A response: its status, its body if that is read as a whole, its events and how they end, and how
it is closed. -/
structure Response where
  status : ℤ
  raw : Except Failure String
  events : List String
  ending : Option Failure
  closing : Option Failure

/-- What an attempt gets. -/
abbrev Exchange := Except Failure Response

/-- The body of an attempt with a response: its state, and the chunk that ends the completion. -/
def Response.read (cfg : StreamConfig) (r : Response) : StreamState × Except ErrorCode Chunk :=
  if 200 ≤ r.status ∧ r.status ≤ 299 then
    let consumed := consume cfg StreamState.start r.events
    (consumed.1, match consumed.2, r.ending with
      | some e, _ => .error e
      | none, some failure => .error failure.code
      | none, none => consumed.1.finish cfg)
  else (StreamState.start, .error (match r.raw with
    | .error failure => failure.code
    | .ok raw => classifyHttpStatus cfg r.status raw))

/-- An attempt. A response that cannot be closed fails, whatever was read from it. -/
def attemptStream (cfg : StreamConfig) : Exchange → StreamState × Except ErrorCode Chunk
  | .error failure => (StreamState.start, .error failure.code)
  | .ok r => match r.closing with
    | none => r.read cfg
    | some failure => ((r.read cfg).1, .error failure.code)

/-! ## Attempts one after the other -/

/-- The attempts from one on, with what each of them gets, and the error of the sleep after it. The
chunks that a consumer gets, and the error that the iterator ends with. -/
def streamFrom (cfg : StreamConfig) (exchanges : ℕ → Exchange) (sleeps : ℕ → Option ErrorCode) :
    ℕ → ℕ → List Chunk × Option ErrorCode
  | 0, _ => ([], some .internal_error)
  | remaining + 1, attempt =>
    match attemptStream cfg (exchanges attempt) with
    | (st, .ok terminal) => (st.delivered ++ [terminal], none)
    | (st, .error e) =>
      if st.emitted || !e.retryable || remaining == 0 then (st.delivered, some e)
      else match sleeps attempt with
        | some e => (st.delivered, some e)
        | none =>
          let rest := streamFrom cfg exchanges sleeps remaining (attempt + 1)
          (st.delivered ++ rest.1, rest.2)

/-- `chat_completion_stream`. -/
def chatCompletionStream (cfg : StreamConfig) (max_attempts : ℕ) (exchanges : ℕ → Exchange)
    (sleeps : ℕ → Option ErrorCode) : List Chunk × Option ErrorCode :=
  streamFrom cfg exchanges sleeps max_attempts 1

end RickIntelligence.Providers
