import RickIntelligence.Chat.Responses

/-!
# The chat history stores

`InMemoryChatHistoryStore` and `SQLiteChatHistoryStore` of `apps/api/src/services/chat_history.py`. The
store in memory has a bounded list of turns, a map of conversations and a map of replay records; it
changes them in place, so an error leaves what was changed before it. The store in SQLite has a table of
conversations and a table of turns with the idempotency key in a column; an operation is a transaction,
so an error leaves nothing. A column of JSON is read back only if its text is short enough.

Both stores share what they do to the arguments of a call. A call is given the time that it reads.
-/

namespace RickIntelligence.Chat

open Lib

/-! ## Calls -/

/-- The ids of a session. -/
structure Session where
  tenant_id : String
  workspace_id : String
  user_id : String

/-- The scope of a session. -/
structure Scope where
  tenant_id : String
  workspace_id : String
  user_id : String
  deriving DecidableEq, Repr

/-- `_scope`. -/
def Session.scope (s : Session) : Except ChatError Scope :=
  if strip s.tenant_id = "" ∨ strip s.workspace_id = "" ∨ strip s.user_id = "" then .error .value
  else .ok ⟨strip s.tenant_id, strip s.workspace_id, strip s.user_id⟩

/-- A text, or the second one if it is empty. -/
def orText (s t : String) : String := if s = "" then t else s

/-- `(idempotency_key or "").strip()[:128] or None`. -/
def normaliseKey (key : Option String) : Option String :=
  match cut 128 (strip (key.getD "")) with
  | "" => none
  | k => some k

/-- A call of `append`. -/
structure Append where
  session : Session
  message : String
  response : Json.Members
  idempotency_key : Option String
  fingerprint : Option String

/-- A turn that is about to be stored. -/
structure Turn where
  scope : Scope
  question : String
  response : SafeResponse
  key : Option String
  fingerprint : Option String

/-- What both stores make of the arguments of `append`. -/
def Append.turn (env : Env) (max_answer_chars : ℕ) (a : Append) : Except ChatError Turn := do
  let scope ← a.session.scope
  let response ← safeChatResponse env max_answer_chars a.response
  return ⟨scope, cut 20000 a.message, response, normaliseKey a.idempotency_key, a.fingerprint⟩

/-- A call of `record_stream_outcome`. -/
structure StreamOutcome where
  session : Session
  message : String
  conversation_id : String
  message_id : String
  status : String
  answer : String
  error_code : Option String
  metadata : Option Json.Members
  idempotency_key : Option String
  fingerprint : Option String

/-- `STREAM_TERMINAL_STATUSES`. -/
def streamTerminalStatuses : List String := ["partial", "error", "cancelled", "complete"]

/-- `STREAM_CONTEXT_EXCLUDED_STATUSES`. -/
def streamContextExcludedStatuses : List String := ["partial", "error", "cancelled"]

/-- The call of `append` that `record_stream_outcome` makes. -/
def StreamOutcome.append (max_answer_chars : ℕ) (o : StreamOutcome) : Except ChatError Append :=
  if o.status ∈ streamTerminalStatuses then
    let metadata := Json.setMember "stream_status" (.str o.status) (o.metadata.getD [])
    let metadata := match o.error_code with
      | none | some "" => metadata
      | some code => Json.setMember "error_code" (.str code) metadata
    .ok {
      session := o.session
      message := o.message
      response := [("conversation_id", .str o.conversation_id), ("message_id", .str o.message_id),
        ("answer", .str (cut max_answer_chars o.answer)), ("citations", .arr []),
        ("metadata", .obj metadata)]
      idempotency_key := o.idempotency_key
      fingerprint := o.fingerprint }
  else .error .value

/-- The stream of the response was interrupted. -/
def SafeResponse.interrupted (r : SafeResponse) : Bool :=
  match Json.member? "stream_status" r.metadata with
  | some (.str status) => streamContextExcludedStatuses.contains status
  | _ => false

/-- A conversation. -/
structure Conversation where
  title : String
  collection_id : Option String
  archived : Bool
  created_at : ℚ
  updated_at : ℚ
  message_count : ℕ

/-- The conversation that `create_conversation` makes. -/
def createdConversation (title collection_id : Option String) (now : ℚ) : Conversation where
  title := orText (cut 160 (strip (orText (title.getD "") "Nova conversa"))) "Nova conversa"
  collection_id :=
    match cut 128 (strip (collection_id.getD "")) with
    | "" => none
    | id => some id
  archived := false
  created_at := now
  updated_at := now
  message_count := 0

/-- The conversation that a first turn makes. -/
def firstConversation (question : String) (now : ℚ) : Conversation :=
  ⟨orText (cut 160 question) "Nova conversa", none, false, now, now, 0⟩

/-- The id of the conversation that `create_conversation` makes or returns. -/
def requestedId (conversation_id : Option String) (generated : String) : Except ChatError String :=
  let id := strip (orText (conversation_id.getD "") generated)
  if id = "" ∨ 128 < id.length then .error .value else .ok id

/-! ## Collections -/

/-- `_normalise_allowed_collection_ids`. -/
def normaliseAllowed (allowed : Option (List String)) : Option (List String) :=
  allowed.map fun ids => (ids.map strip).filter (· ≠ "")

/-- `citation.get("collection_id") in allowed`. -/
def inCollections (allowed : List String) (c : Json.Members) : Bool :=
  match Json.member? "collection_id" c with
  | some (.str id) => allowed.contains id
  | _ => false

/-- `_filter_citations`. -/
def filterCitations (citations : List Json.Members) (allowed : Option (List String)) :
    List Json.Members :=
  let safe := safeCitations (.arr (citations.map .obj))
  match normaliseAllowed allowed with
  | none => safe
  | some ids => if ids.contains "*" then safe else safe.filter (inCollections ids)

/-- `_turn_allowed`. -/
def turnAllowed (citations : List Json.Members) (allowed : Option (List String)) : Bool :=
  match normaliseAllowed allowed with
  | none => true
  | some ids => ids.contains "*" || (safeCitations (.arr (citations.map .obj))).all (inCollections ids)

/-! ## Pages -/

/-- The bounds of a page: `_bounded_page`. -/
def boundedPage (limit offset : ℤ) : ℕ × ℕ :=
  ((min 100 (max 1 limit)).toNat, (min 100000 (max 0 offset)).toNat)

/-- A page of a list. -/
structure Page (α : Type) where
  items : List α
  total : ℕ
  next_offset : Option ℕ

/-- A page of a list of items. -/
def pageOf {α : Type} (items : List α) (limit offset : ℤ) : Page α :=
  let (bounded, start) := boundedPage limit offset
  ⟨(items.drop start).take bounded, items.length,
    if start + bounded < items.length then some (start + bounded) else none⟩

/-- A turn of a history. -/
structure HistoryItem where
  conversation_id : String
  message_id : String
  question : String
  answer : String
  citations : List Json.Members
  metadata : Json.Members
  created_at : ℚ

/-- A source that was cited. -/
structure Source where
  citation : Json.Members
  conversation_id : String
  message_id : String
  created_at : ℚ

/-- The citations of a turn are the same source: the same document, shown as a text, and chunk. -/
def sameSource (shown : Json → String) (c d : Json.Members) : Bool :=
  shown ((Json.member? "document_id" c).getD .null) == shown ((Json.member? "document_id" d).getD .null) &&
    Json.equal ((Json.member? "chunk_id" c).getD .null) ((Json.member? "chunk_id" d).getD .null)

/-- The sources of turns, each where it is first cited. -/
def collectSources (shown : Json → String) (turns : List HistoryItem) : List Source :=
  turns.foldl (fun acc turn => turn.citations.foldl (fun acc c =>
    if acc.any fun source => sameSource shown source.citation c then acc
    else acc ++ [⟨c, turn.conversation_id, turn.message_id, turn.created_at⟩]) acc) []

/-- The last messages of a context. -/
def lastMessages (limit : ℤ) (messages : List (String × String)) : List (String × String) :=
  let bounded := (min 50 (max 0 limit)).toNat
  messages.drop (messages.length - bounded * 2)

/-! ## The store in memory -/

/-- A turn of the list. -/
structure Entry where
  scope : Scope
  question : String
  response : SafeResponse
  key : Option String
  created_at : ℚ

/-- A replay record. -/
structure Replay where
  response : SafeResponse
  fingerprint : Option String

/-- The store in memory. -/
structure Memory where
  entries : List Entry
  conversations : Scope × String → Option Conversation
  idempotent : Scope × String → Option Replay

/-- The limits of the store in memory. -/
structure MemoryLimits where
  max_entries : ℕ
  max_answer_chars : ℕ

/-- The first of a list with a property is changed. -/
def replaceFirst {α : Type} (p : α → Bool) (f : α → α) : List α → Option (List α)
  | [] => none
  | a :: l => if p a then some (f a :: l) else (replaceFirst p f l).map (a :: ·)

namespace Memory

/-- A store with nothing in it. -/
def empty : Memory := ⟨[], fun _ => none, fun _ => none⟩

/-- The conversation is there, or is made. -/
def ensure (m : Memory) (t : Turn) (now : ℚ) : Memory :=
  let key := (t.scope, t.response.conversation_id)
  match m.conversations key with
  | some _ => m
  | none =>
    let made := some (firstConversation t.question now)
    { m with conversations := Function.update m.conversations key made }

/-- The conversation is changed. -/
def touch (m : Memory) (t : Turn) (f : Conversation → Conversation) : Memory :=
  let key := (t.scope, t.response.conversation_id)
  { m with conversations := Function.update m.conversations key ((m.conversations key).map f) }

/-- The entry of a turn. -/
def entry (t : Turn) (created_at : ℚ) : Entry := ⟨t.scope, t.question, t.response, t.key, created_at⟩

/-- The turn is added to the list, whose first turn is dropped if it is full. -/
def push (limits : MemoryLimits) (m : Memory) (t : Turn) (now : ℚ) : Memory :=
  let entries := m.entries ++ [entry t now]
  { m with entries := entries.drop (entries.length - limits.max_entries) }.touch t fun c =>
    { c with updated_at := now, message_count := c.message_count + 2 }

/-- The replay record of the turn. -/
def remember (m : Memory) (t : Turn) (key : String) : Memory :=
  { m with idempotent :=
      Function.update m.idempotent (t.scope, key) (some ⟨t.response, t.fingerprint⟩) }

/-- The entry carries the key in the scope. -/
def carries (scope : Scope) (key : String) (e : Entry) : Bool :=
  e.scope == scope && e.key == some key

/-- The last turn with the key of an interrupted one is replaced, in its place and with its time. -/
def replace (m : Memory) (t : Turn) (key : String) : Option Memory :=
  (replaceFirst (carries t.scope key) (fun e => entry t e.created_at) m.entries.reverse).map fun l =>
    { m with entries := l.reverse }

/-- `append`. The conversation is made before the replay record is looked at. -/
def append (env : Env) (limits : MemoryLimits) (m : Memory) (now later : ℚ) (t : Turn) :
    Except ChatError SafeResponse × Memory :=
  let m := m.ensure t now
  if (m.conversations (t.scope, t.response.conversation_id)).any Conversation.archived then
    (.error .value, m)
  else
    match t.key with
    | none => (.ok t.response, m.push limits t now)
    | some key =>
      match m.idempotent (t.scope, key) with
      | none => (.ok t.response, (m.remember t key).push limits t now)
      | some r =>
        if r.response.conversation_id ≠ t.response.conversation_id ∨ r.fingerprint ≠ t.fingerprint then
          (.error .conflict, m)
        else if r.response.interrupted then
          match m.replace t key with
          | some m => (.ok t.response, (m.remember t key).touch t fun c => { c with updated_at := later })
          | none => (.ok t.response, (m.remember t key).push limits t now)
        else (safeChatResponse env limits.max_answer_chars r.response.members, m)

/-- `create_conversation`. -/
def create (m : Memory) (scope : Scope) (id : String) (title collection_id : Option String) (now : ℚ) :
    Except ChatError Conversation × Memory :=
  match m.conversations (scope, id) with
  | none =>
    let c := createdConversation title collection_id now
    (.ok c, { m with conversations := Function.update m.conversations (scope, id) (some c) })
  | some c => if c.archived then (.error .value, m) else (.ok c, m)

/-- `archive_conversation`. -/
def archive (m : Memory) (scope : Scope) (id : String) (now : ℚ) : Bool × Memory :=
  match m.conversations (scope, id) with
  | none => (false, m)
  | some c =>
    (true, { m with conversations :=
      Function.update m.conversations (scope, id) (some { c with archived := true, updated_at := now }) })

/-- `get_context`. -/
def context (m : Memory) (scope : Scope) (id : String) (limit : ℤ) (allowed : Option (List String)) :
    List (String × String) :=
  let entries := m.entries.filter fun e => e.scope == scope && e.response.conversation_id == id
  let shown := entries.filter fun e => turnAllowed e.response.citations allowed && !e.response.interrupted
  lastMessages limit (shown.flatMap fun e => [("user", e.question), ("assistant", e.response.answer)])

/-- `get_idempotent`. The key is taken as it is. -/
def replay (env : Env) (limits : MemoryLimits) (m : Memory) (scope : Scope) (key : String)
    (conversation_id fingerprint : Option String) : Except ChatError (Option SafeResponse) :=
  match m.idempotent (scope, key) with
  | none => .ok none
  | some r =>
    if (conversation_id.isSome ∨ fingerprint.isSome) ∧
        ¬ (some r.response.conversation_id = conversation_id ∧ r.fingerprint = fingerprint) then
      .error .conflict
    else if r.response.interrupted then .ok none
    else
      match safeChatResponse env limits.max_answer_chars r.response.members with
      | .ok response => .ok (some response)
      | .error .value => .ok none
      | .error e => .error e

/-- A turn as an item of the history. -/
def item (e : Entry) (citations : List Json.Members) : HistoryItem :=
  ⟨e.response.conversation_id, e.response.message_id, e.question, e.response.answer, citations,
    e.response.metadata, e.created_at⟩

/-- The turns of `list_history_page`. -/
def history (m : Memory) (scope : Scope) (id : Option String) (allowed : Option (List String)) :
    List HistoryItem :=
  let entries := m.entries.reverse.filter fun e => e.scope == scope &&
    id.all (· == e.response.conversation_id) && turnAllowed e.response.citations allowed
  entries.map fun e => item e (filterCitations e.response.citations allowed)

/-- The sources of `list_sources_page`. Every citation is asked for its own collection. -/
def sources (shown : Json → String) (m : Memory) (scope : Scope) (allowed : Option (List String)) :
    List Source :=
  let entries := m.entries.reverse.filter fun e => e.scope == scope
  collectSources shown (entries.map fun e => item e (filterCitations e.response.citations allowed))

end Memory

/-! ## The store in SQLite -/

/-- A row of `chat_turns`. -/
structure Row where
  scope : Scope
  question : String
  response : SafeResponse
  key : Option String
  fingerprint : Option String
  created_at : ℚ

/-- Whether a text of JSON can be read back: that of a response, of its citations or of its metadata. -/
structure Columns where
  response : SafeResponse → Bool
  citations : List Json.Members → Bool
  metadata : Json.Members → Bool

/-- The store in SQLite. The rows are in the order of their insertion; the number of messages of a
conversation is counted when it is asked for. -/
structure Sqlite where
  rows : List Row
  conversations : Scope × String → Option Conversation

namespace Sqlite

/-- A store with nothing in it. -/
def empty : Sqlite := ⟨[], fun _ => none⟩

/-- The row of the key. -/
def find (q : Sqlite) (scope : Scope) (key : String) : Option Row :=
  q.rows.find? fun r => r.scope == scope && r.key == some key

/-- `UPDATE conversations SET updated_at=?`. -/
def touch (q : Sqlite) (t : Turn) (now : ℚ) : Sqlite :=
  let key := (t.scope, t.response.conversation_id)
  let touched := (q.conversations key).map fun c => { c with updated_at := now }
  { q with conversations := Function.update q.conversations key touched }

/-- The row of a turn. -/
def row (t : Turn) (now : ℚ) : Row := ⟨t.scope, t.question, t.response, t.key, t.fingerprint, now⟩

/-- Another row of the scope has the message id. -/
def taken (q : Sqlite) (t : Turn) (own : Row → Bool) : Bool :=
  q.rows.any fun r => !own r && r.scope == t.scope && r.response.message_id == t.response.message_id

/-- A turn that is new. -/
def insertTurn (q : Sqlite) (now : ℚ) (t : Turn) : Except ChatError (SafeResponse × Sqlite) :=
  let key := (t.scope, t.response.conversation_id)
  match q.conversations key with
  | some c =>
    if c.archived then .error .value
    else if q.taken t fun _ => false then .error .integrity
    else .ok (t.response, { q with rows := q.rows ++ [row t now] }.touch t now)
  | none =>
    if q.taken t fun _ => false then .error .integrity
    else
      let made := Function.update q.conversations key (some (firstConversation t.question now))
      .ok (t.response, (⟨q.rows ++ [row t now], made⟩ : Sqlite).touch t now)

/-- `append`. The row of the key is looked at before the conversation. A response that cannot be read
back is of no conversation. -/
def append (env : Env) (columns : Columns) (q : Sqlite) (now : ℚ) (t : Turn) :
    Except ChatError (SafeResponse × Sqlite) :=
  match t.key with
  | none => q.insertTurn now t
  | some key =>
    match q.find t.scope key with
    | none => q.insertTurn now t
    | some r =>
      if columns.response r.response = false ∨
          r.response.conversation_id ≠ t.response.conversation_id ∨ r.fingerprint ≠ t.fingerprint then
        .error .conflict
      else if r.response.interrupted then
        let own := fun r : Row => r.scope == t.scope && r.key == some key
        if q.taken t own then .error .integrity
        else
          let rows := q.rows.map fun r => if own r then row t now else r
          .ok (t.response, { q with rows := rows }.touch t now)
      else (safeChatResponse env 8000 r.response.members).map fun response => (response, q)

/-- The conversation as it is shown, with its number of messages. -/
def shownConversation (q : Sqlite) (scope : Scope) (id : String) : Option Conversation :=
  (q.conversations (scope, id)).map fun c => { c with
    message_count := 2 * q.rows.countP fun r => r.scope == scope && r.response.conversation_id == id }

/-- `create_conversation`. -/
def create (q : Sqlite) (scope : Scope) (id : String) (title collection_id : Option String) (now : ℚ) :
    Except ChatError (Conversation × Sqlite) :=
  match q.conversations (scope, id) with
  | none =>
    let c := createdConversation title collection_id now
    let q' := { q with conversations := Function.update q.conversations (scope, id) (some c) }
    .ok ((q'.shownConversation scope id).getD c, q')
  | some c => if c.archived then .error .value else .ok ((q.shownConversation scope id).getD c, q)

/-- `archive_conversation`. -/
def archive (q : Sqlite) (scope : Scope) (id : String) (now : ℚ) : Bool × Sqlite :=
  match q.conversations (scope, id) with
  | none => (false, q)
  | some c =>
    (true, { q with conversations :=
      Function.update q.conversations (scope, id) (some { c with archived := true, updated_at := now }) })

/-- `ORDER BY created_at DESC, message_id DESC`. -/
def newestFirst (rows : List Row) : List Row :=
  rows.mergeSort fun r r' => decide (r'.created_at < r.created_at ∨
    (r'.created_at = r.created_at ∧ r'.response.message_id ≤ r.response.message_id))

/-- `get_context`. -/
def context (columns : Columns) (q : Sqlite) (scope : Scope) (id : String) (limit : ℤ)
    (allowed : Option (List String)) : List (String × String) :=
  let rows := newestFirst (q.rows.filter fun r => r.scope == scope && r.response.conversation_id == id)
  let shown := rows.reverse.filter fun r =>
    let citations := if columns.citations r.response.citations then r.response.citations else []
    turnAllowed citations allowed && !(columns.metadata r.response.metadata && r.response.interrupted)
  lastMessages limit (shown.flatMap fun r => [("user", r.question), ("assistant", r.response.answer)])

/-- `get_idempotent`. The key is normalised. -/
def replay (env : Env) (columns : Columns) (q : Sqlite) (scope : Scope) (key : String)
    (conversation_id fingerprint : Option String) : Except ChatError (Option SafeResponse) :=
  match q.find scope (cut 128 (strip key)) with
  | none => .ok none
  | some r =>
    let stored := if columns.response r.response then some r.response.conversation_id else none
    if (conversation_id.isSome ∨ fingerprint.isSome) ∧
        ¬ (stored = conversation_id ∧ r.fingerprint = fingerprint) then .error .conflict
    else if columns.response r.response = false then .ok none
    else if r.response.interrupted then .ok none
    else
      match safeChatResponse env 8000 r.response.members with
      | .ok response => .ok (some response)
      | .error .value => .ok none
      | .error e => .error e

/-- `_history_entries`. -/
def history (env : Env) (columns : Columns) (q : Sqlite) (scope : Scope) (id : Option String)
    (allowed : Option (List String)) : List HistoryItem :=
  let rows := newestFirst (q.rows.filter fun r => r.scope == scope &&
    id.all (· == r.response.conversation_id))
  let shown := rows.filter fun r => columns.response r.response &&
    turnAllowed r.response.citations allowed
  shown.map fun r =>
    ⟨r.response.conversation_id, r.response.message_id, r.question, r.response.answer,
      filterCitations r.response.citations allowed,
      safeStreamMetadata env (.obj r.response.metadata), r.created_at⟩

/-- The sources of `list_sources_page`, of the turns that the history shows. -/
def sources (shown : Json → String) (env : Env) (columns : Columns) (q : Sqlite) (scope : Scope)
    (allowed : Option (List String)) : List Source :=
  collectSources shown (q.history env columns scope none allowed)

end Sqlite

end RickIntelligence.Chat
