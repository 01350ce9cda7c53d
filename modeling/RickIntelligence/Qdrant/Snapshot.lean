import RickIntelligence.Lib.Dict
import RickIntelligence.Lib.Validated
import RickIntelligence.Qdrant.Request

/-!
# Snapshots of a document

`QdrantHttpVectorStore.snapshot_document` of `rick_retrieval/qdrant.py`: the points of a document are read
one by one, each reply saying where the next request goes on. What a server answers is not trusted: every
row is checked, and a place that was named before is refused.

`snapshots_complete` bounds the requests for any answers, and says what comes back from a server that
scrolls over a fixed set of points in the order of their ids. How many bytes a value has as
JSON text, and which float a whole number becomes, are left to the environment.
-/

namespace RickIntelligence.Qdrant

open Lib

/-! ## The limits -/

/-- `MAX_DOCUMENT_SNAPSHOT_POINTS`. -/
def maxDocumentSnapshotPoints : ℕ := 100000

/-- `MAX_DOCUMENT_SNAPSHOT_BYTES`. -/
def maxDocumentSnapshotBytes : ℕ := 64 * 1024 * 1024

/-- `MAX_POINT_ID_CHARS`, which is `MAX_SCOPE_VALUE_CHARS` too. -/
def maxIdChars : ℕ := 128

/-- The limits of a store that a snapshot reads. -/
structure SnapshotLimits where
  max_collection_filters : ℕ
  max_vector_dimensions : ℕ
  max_payload_bytes : ℕ
  max_query_bytes : ℕ

/-- `QdrantIndexSchema`, as far as a snapshot reads it. -/
structure IndexSchema where
  dense_dimensions : ℕ
  sparse_enabled : Bool

/-- The functions of Python's library that the adapter uses: whether `json.dumps` takes a value, how many
bytes its text has in UTF-8, if it has a text, and `float` of a whole number. -/
structure JsonEnv where
  dumps : Json → Bool
  encoded : Json → Option ℕ
  float : ℤ → Option ℚ

/-- What a call raises: an error of the adapter, or an `OverflowError` that was not caught. -/
inductive Raised where
  | qdrant (e : QdrantError)
  | overflow
  deriving DecidableEq, Repr

namespace Snapshot

/-- The operation that the errors of a snapshot name. -/
def operation : String := "snapshot_document"

/-- An error of the snapshot. -/
def failure (kind : ErrorKind) : Raised := .qdrant ⟨kind, operation⟩

/-- `QdrantValidationError(operation)`. -/
def invalid : Raised := failure (.validation false false)

/-- `QdrantMalformedResponseError(operation)`. -/
def malformed : Raised := failure .malformedResponse

/-- `except QdrantValidationError: raise QdrantMalformedResponseError(operation)`. -/
def asMalformed {α : Type} : Except Raised α → Except Raised α
  | .error (.qdrant e) =>
    match e.kind with
    | .validation _ _ | .bounds => .error malformed
    | _ => .error (.qdrant e)
  | r => r

/-! ## Checks -/

/-- A text that is not empty, has few enough characters, and none of them a control character. -/
def boundedText (value : String) : Bool :=
  value != "" && decide (value.toList.length ≤ maxIdChars) &&
    !value.toList.any fun c => decide (c.toNat < 0x20) || c.toNat == 0x7f

/-- `_validate_id`. -/
def validateId : Option Json → Except Raised String
  | some (.str value) => if boundedText value then .ok value else .error invalid
  | _ => .error invalid

/-- `_validate_scope_value`. -/
def validateScopeValue (value : String) : Except Raised Unit :=
  if boundedText value then .ok () else .error invalid

variable (env : JsonEnv) (limits : SnapshotLimits) (schema : IndexSchema)

/-- `_encode_json`: the number of the bytes. -/
def encodeJson (value : Json) (max_bytes : ℕ) : Except Raised ℕ :=
  match env.encoded value with
  | none => .error invalid
  | some bytes => if max_bytes < bytes then .error (failure .bounds) else .ok bytes

/-- `_validate_json_mapping`. -/
def validateJsonMapping : Option Json → Except Raised Json.Members
  | some (.obj members) => if env.dumps (.obj members) then .ok members else .error invalid
  | _ => .error invalid

/-- A component of a dense vector. -/
def component : Json → Except Raised ℚ
  | .int n => match env.float n with
    | some q => .ok q
    | none => .error invalid
  | .float q => .ok q
  | _ => .error invalid

/-- `_validate_vector`. -/
def validateVector : Option Json → Except Raised (List ℚ)
  | some (.arr items) =>
    if items.isEmpty || decide (limits.max_vector_dimensions < items.length) then
      .error (failure .bounds)
    else items.mapM (component env)
  | _ => .error invalid

/-- An index of a sparse vector. -/
def sparseIndex : Json → Except Raised ℤ
  | .int n => if 0 ≤ n ∧ n < 2 ^ 32 then .ok n else .error invalid
  | _ => .error invalid

/-- A weight of a sparse vector. `float` of a whole number that is too large raises an
`OverflowError`. -/
def sparseWeight : Json → Except Raised ℚ
  | .int n => match env.float n with
    | some q => .ok q
    | none => .error .overflow
  | .float q => .ok q
  | _ => .error invalid

/-- `_validate_sparse_vector`. -/
def validateSparseVector (value : Option Json) : Except Raised (List ℤ × List ℚ) :=
  match value with
  | some (.obj members) =>
    match Json.member? "indices" members, Json.member? "values" members with
    | some (.arr indices), some (.arr values) =>
      if members.length ≠ 2 ∨ indices.length ≠ values.length then .error invalid
      else if limits.max_vector_dimensions < indices.length then .error (failure .bounds)
      else do
        let checked ← indices.mapM sparseIndex
        if !(checked.zip checked.tail).all fun p => decide (p.1 < p.2) then .error invalid
        else do
          let weights ← values.mapM (sparseWeight env)
          return (checked, weights)
    | _, _ => .error invalid
  | _ => .error invalid

/-! ## Rows -/

/-- A point of a snapshot. -/
structure Point where
  point_id : String
  vector : List ℚ
  payload : Json.Members
  sparse_vector : Option (List ℤ × List ℚ)

/-- A point as a JSON value. -/
def Point.json (p : Point) : Json :=
  .obj ([("point_id", .str p.point_id), ("vector", .arr (p.vector.map .float)),
    ("payload", .obj p.payload)] ++
    (p.sparse_vector.map fun s => ("sparse_vector", .obj [("indices", .arr (s.1.map .int)),
      ("values", .arr (s.2.map .float))])).toList)

/-- The arguments of a snapshot. -/
structure Target where
  document_id : String
  collection_id : String
  tenant_id : String
  workspace_id : String

/-- The members that a payload must have. -/
def Target.fields (t : Target) : List (String × String) :=
  [("document_id", t.document_id), ("tenant_id", t.tenant_id), ("workspace_id", t.workspace_id),
    ("collection_id", t.collection_id)]

/-- `payload.get(name) == value`. -/
def hasText (payload : Json.Members) (name value : String) : Bool :=
  match Json.member? name payload with
  | some (.str s) => s == value
  | _ => false

/-- The vectors of a row: the dense one, and the sparse one if the schema has one. -/
def readVectors (vectors : Option Json) : Except Raised (List ℚ × Option (List ℤ × List ℚ)) :=
  match vectors with
  | some (.obj members) =>
    if !Json.has "dense" members then .error malformed
    else do
      let dense ← asMalformed (validateVector env limits (Json.member? "dense" members))
      if dense.length ≠ schema.dense_dimensions then .error (failure .schemaMismatch)
      else if schema.sparse_enabled then do
        let sparse ← asMalformed (validateSparseVector env limits (Json.member? "sparse" members))
        return (dense, some sparse)
      else if Json.has "sparse" members then .error (failure .schemaMismatch)
      else return (dense, none)
  | _ => .error malformed

/-- The check of a row: its point, and how many bytes that has. -/
def readRow (target : Target) (row : Json) : Except Raised (Point × ℕ) :=
  match row with
  | .obj raw => do
    let point_id ← asMalformed (validateId (Json.member? "id" raw))
    let payload ← asMalformed (validateJsonMapping env (Json.member? "payload" raw))
    if !target.fields.all fun f => hasText payload f.1 f.2 then .error malformed
    else do
      let _ ← encodeJson env (.obj payload) limits.max_payload_bytes
      let vectors ← readVectors env limits schema (Json.member? "vector" raw)
      let point : Point := ⟨point_id, vectors.1, payload, vectors.2⟩
      let bytes ← encodeJson env point.json maxDocumentSnapshotBytes
      return (point, bytes)
  | _ => .error malformed

/-! ## The loop -/

/-- A condition of a filter on one value. -/
def matchValue (key value : String) : Json :=
  .obj [("key", .str key), ("match", .obj [("value", .str value)])]

/-- The conditions of the request: `_acl_filter` of the scope, and the document. -/
def must (t : Target) : List Json :=
  [matchValue "tenant_id" t.tenant_id, matchValue "workspace_id" t.workspace_id] ++
    (if t.collection_id = "*" then [] else
      [.obj [("key", .str "collection_id"), ("match", .obj [("any", .arr [.str t.collection_id])])]]) ++
    [matchValue "document_id" t.document_id]

/-- The body of a scroll request. -/
def body (t : Target) (offset : Option String) : Json :=
  .obj ([("filter", .obj [("must", .arr (must t))]), ("limit", .int 1), ("with_payload", .bool true),
    ("with_vector", .bool true)] ++ (offset.map fun o => ("offset", Json.str o)).toList)

/-- A member of an object, and nothing of another value. -/
def get? (name : String) : Option Json → Option Json
  | some (.obj members) => Json.member? name members
  | _ => none

/-- What the loop has come to. -/
structure State where
  points : List Point
  seen_offsets : List String
  offset : Option String
  total_bytes : ℕ

/-- What a round of the loop leads to: another round, or the end. -/
inductive Round where
  | again (s : State)
  | done (points : List Point)

/-- A value that is there and not null. -/
def present : Option Json → Option Json
  | some .null => none
  | v => v

/-- The rest of a round, after the request was answered with a value. -/
def readPage (target : Target) (s : State) (parsed : Json) : Except Raised Round :=
  let result := get? "result" (some parsed)
  let next_offset := present (get? "next_page_offset" result)
  match get? "points" result with
  | some (.arr []) => if next_offset.isSome then .error malformed else .ok (.done s.points)
  | some (.arr [row]) => do
    let (point, bytes) ← readRow env limits schema target row
    if maxDocumentSnapshotBytes < s.total_bytes + bytes then .error (failure .bounds)
    else
      let points := s.points ++ [point]
      match next_offset with
      | none => return .done points
      | some next => do
        let next ← asMalformed (validateId (some next))
        if s.seen_offsets.contains next then .error malformed
        else return .again ⟨points, next :: s.seen_offsets, some next, s.total_bytes + bytes⟩
  | _ => .error malformed

/-- The loop, with the number of points that may still be read, and the requests that were made: how it
ends, and how many requests it has made then. The server answers a request with a parsed value, or
`_request` or `_decode_json` raises. -/
def scroll (target : Target) (server : ℕ → Json → Except Raised Json) :
    ℕ → ℕ → State → Except Raised (List Point) × ℕ
  | 0, requests, _ => (.error (failure .bounds), requests)
  | left + 1, requests, s =>
    match encodeJson env (body target s.offset) limits.max_query_bytes with
    | .error e => (.error e, requests)
    | .ok _ =>
      match server requests (body target s.offset) with
      | .error e => (.error e, requests + 1)
      | .ok parsed =>
        match readPage env limits schema target s parsed with
        | .error e => (.error e, requests + 1)
        | .ok (.done points) => (.ok points, requests + 1)
        | .ok (.again s) => scroll target server left (requests + 1) s

/-- The checks of the arguments: `_scope` and `_validate_id`. -/
def checkTarget (t : Target) : Except Raised Unit := do
  validateScopeValue t.tenant_id
  validateScopeValue t.workspace_id
  if limits.max_collection_filters < 1 then .error (failure .bounds)
  else if t.collection_id = "*" then return ()
  else validateScopeValue t.collection_id

end Snapshot

/-- `snapshot_document`: the points, or what it raises, and the number of scroll requests. The schema is
known to the store or read by it. -/
def snapshotDocument (env : JsonEnv) (limits : SnapshotLimits) (schema : Except Raised IndexSchema)
    (closed : Bool) (target : Snapshot.Target) (server : ℕ → Json → Except Raised Json) :
    Except Raised (List Snapshot.Point) × ℕ :=
  if closed then (.error (Snapshot.failure .closed), 0)
  else match (do Snapshot.checkTarget limits target
                 let _ ← Snapshot.validateId (some (.str target.document_id))
                 schema : Except Raised IndexSchema) with
    | .error e => (.error e, 0)
    | .ok schema =>
      Snapshot.scroll env limits schema target server maxDocumentSnapshotPoints 0 ⟨[], [], none, 0⟩

/-! ## The requests end -/

section Requests

variable (env : JsonEnv) (limits : SnapshotLimits)

/-- The loop makes at most as many requests as points may still be read. -/
theorem Snapshot.scroll_requests (schema : IndexSchema) (target : Snapshot.Target)
    (server : ℕ → Json → Except Raised Json) (left requests : ℕ) (s : Snapshot.State) :
    (Snapshot.scroll env limits schema target server left requests s).2 ≤ requests + left := by
  induction left generalizing requests s with
  | zero => exact le_refl requests
  | succ left ih =>
    unfold Snapshot.scroll
    split
    · show requests ≤ requests + (left + 1)
      omega
    · split
      · show requests + 1 ≤ requests + (left + 1)
        omega
      · split
        · show requests + 1 ≤ requests + (left + 1)
          omega
        · show requests + 1 ≤ requests + (left + 1)
          omega
        · have hrest := ih (requests + 1) (by assumption)
          omega

end Requests

/-! ## A server with a fixed set of points -/

/-- A stored point. -/
structure Stored where
  id : String
  payload : Json.Members
  vector : Json

/-- A stored point as a row of an answer. -/
def Stored.row (p : Stored) : Json :=
  .obj [("id", .str p.id), ("payload", .obj p.payload), ("vector", p.vector)]

/-- The stored points, in the order of their ids. -/
structure PointSet where
  before : String → String → Bool
  points : List Stored
  irrefl : ∀ id, before id id = false
  sorted : points.Pairwise fun p q => before p.id q.id

namespace PointSet

open Snapshot

/-- A value of a payload has a text: it is the text, or an array with it. -/
def holdsText (value : String) : Json → Bool
  | .str s => s == value
  | .arr items => items.any fun item => match item with
    | .str s => s == value
    | _ => false
  | _ => false

/-- The texts of a condition, one of which the value must have. -/
def wanted (condition : Json) : List String :=
  match get? "value" (get? "match" (some condition)), get? "any" (get? "match" (some condition)) with
  | some (.str value), _ => [value]
  | _, some (.arr values) => values.filterMap Json.text?
  | _, _ => []

/-- A payload meets a condition of a filter. -/
def meets (payload : Json.Members) (condition : Json) : Bool :=
  match get? "key" (some condition) with
  | some (.str key) => (Json.member? key payload).elim false fun value =>
    (wanted condition).any fun text => holdsText text value
  | _ => false

/-- A payload meets the conditions of a request. -/
def meetsFilter (payload : Json.Members) (request : Json) : Bool :=
  match get? "must" (get? "filter" (some request)) with
  | some (.arr conditions) => conditions.all (meets payload)
  | _ => true

/-- The points that a request asks for: those that meet the filter, from the offset on. -/
def asked (set : PointSet) (request : Json) : List Stored :=
  let found := set.points.filter fun p => meetsFilter p.payload request
  match get? "offset" (some request) with
  | some (.str offset) => found.dropWhile fun p => set.before p.id offset
  | _ => found

/-- The number of points on a page. -/
def pageSize (request : Json) : ℕ :=
  match get? "limit" (some request) with
  | some (.int limit) => limit.toNat
  | _ => 10

/-- The answer to a scroll request: the first of the points, and the id of the one after them. -/
def answer (set : PointSet) (request : Json) : Json :=
  .obj [("result", .obj [
    ("points", .arr (((set.asked request).take (pageSize request)).map Stored.row)),
    ("next_page_offset",
      (((set.asked request).drop (pageSize request)).head?).elim .null fun p => .str p.id)])]

/-- The points of a document: those whose payload has the four texts. -/
def ofDocument (set : PointSet) (target : Target) : List Stored :=
  set.points.filter fun p => target.fields.all fun f => hasText p.payload f.1 f.2

end PointSet

namespace Snapshot

/-! ## What the server does with the requests -/

variable {payload : Json.Members}

/-- The condition on one value is met by the text. -/
theorem meets_matchValue {name value : String} (h : hasText payload name value = true) :
    PointSet.meets payload (matchValue name value) = true := by
  unfold hasText at h
  have hwanted : PointSet.wanted (matchValue name value) = [value] := rfl
  have hkey : get? "key" (some (matchValue name value)) = some (.str name) := rfl
  unfold PointSet.meets
  rw [hkey, hwanted]
  cases hmember : Json.member? name payload with
  | none =>
    rw [hmember] at h
    cases h
  | some found =>
    rw [hmember] at h
    cases found with
    | str s => simpa [PointSet.holdsText, hmember] using h
    | _ => cases h

/-- The conditions of the request are met by the points of the document. -/
theorem meets_must {target : Target} (h : (target.fields.all fun f => hasText payload f.1 f.2) = true) :
    (must target).all (PointSet.meets payload) = true := by
  have hfield : ∀ f ∈ target.fields, hasText payload f.1 f.2 = true := List.all_eq_true.mp h
  have hdocument := meets_matchValue (hfield ("document_id", target.document_id) (by simp [Target.fields]))
  have htenant := meets_matchValue (hfield ("tenant_id", target.tenant_id) (by simp [Target.fields]))
  have hworkspace :=
    meets_matchValue (hfield ("workspace_id", target.workspace_id) (by simp [Target.fields]))
  have hcollection :=
    meets_matchValue (hfield ("collection_id", target.collection_id) (by simp [Target.fields]))
  unfold must
  by_cases hall : target.collection_id = "*"
  · simp [hall, hdocument, htenant, hworkspace]
  · -- The condition with one text in its list asks what the condition on one value asks.
    have hany : PointSet.meets payload (.obj [("key", .str "collection_id"),
        ("match", .obj [("any", .arr [.str target.collection_id])])]) = true := hcollection
    simp [hall, hdocument, htenant, hworkspace, hany]

/-- The filter of a request. -/
theorem meetsFilter_body (payload : Json.Members) (target : Target) (offset : Option String) :
    PointSet.meetsFilter payload (body target offset) = (must target).all (PointSet.meets payload) := by
  cases offset <;> rfl

/-- A page has one point. -/
theorem pageSize_body (target : Target) (offset : Option String) :
    PointSet.pageSize (body target offset) = 1 := by
  cases offset <;> rfl

end Snapshot

namespace PointSet

open Snapshot

variable {env : JsonEnv} {limits : SnapshotLimits} {schema : IndexSchema} {target : Target}
  {set : PointSet}

/-- `asMalformed` returns what the computation returns. -/
theorem asMalformed_ok {α : Type} {x : Except Raised α} {a : α} (h : asMalformed x = .ok a) :
    x = .ok a := by
  cases x with
  | ok b => exact h
  | error e =>
    cases e with
    | overflow => cases h
    | qdrant e =>
      obtain ⟨kind, operation⟩ := e
      cases kind <;> cases h

/-- `_validate_id` returns the text that it took. -/
theorem validateId_ok {s id : String} (h : validateId (some (.str s)) = .ok id) :
    id = s ∧ boundedText s = true := by
  unfold validateId at h
  by_cases hs : boundedText s = true
  · simp only [hs, if_true, Except.ok.injEq] at h
    exact ⟨h.symm, hs⟩
  · simp [hs] at h

variable {p : Stored} {pre post : List Stored}

/-- What the checks of a row say of the stored point, and the point that they return. -/
theorem readRow_ok {r : Point × ℕ} (h : readRow env limits schema target p.row = .ok r) :
    validateId (some (.str p.id)) = .ok p.id ∧
      (target.fields.all fun f => hasText p.payload f.1 f.2) = true ∧
      r.1.point_id = p.id ∧ r.1.payload = p.payload ∧
      readVectors env limits schema (some p.vector) = .ok (r.1.vector, r.1.sparse_vector) := by
  unfold readRow Stored.row at h
  obtain ⟨id, hid, h⟩ := except_bind_ok.mp h
  have hid' : validateId (some (.str p.id)) = .ok id := asMalformed_ok hid
  obtain ⟨heq, -⟩ := validateId_ok hid'
  subst heq
  obtain ⟨payload, hpayload, h⟩ := except_bind_ok.mp h
  have hpayload' : validateJsonMapping env (some (.obj p.payload)) = .ok payload :=
    asMalformed_ok hpayload
  have hsame : payload = p.payload := by
    unfold validateJsonMapping at hpayload'
    by_cases hdumps : env.dumps (.obj p.payload) = true
    · simp only [hdumps, if_true, Except.ok.injEq] at hpayload'
      exact hpayload'.symm
    · simp [hdumps] at hpayload'
  subst hsame
  cases hfields : target.fields.all fun f => hasText p.payload f.1 f.2 with
  | false =>
    rw [hfields] at h
    cases h
  | true =>
    rw [hfields] at h
    obtain ⟨-, -, h⟩ := except_bind_ok.mp h
    obtain ⟨vectors, hvectors, h⟩ := except_bind_ok.mp h
    obtain ⟨bytes, -, h⟩ := except_bind_ok.mp h
    cases h
    exact ⟨hid', rfl, rfl, rfl, hvectors⟩

variable (env limits schema target set) in
/-- Every point that meets the filter passes the checks that are made of a row. -/
def Readable : Prop :=
  ∀ p ∈ set.points, (must target).all (meets p.payload) = true →
    ∃ r, readRow env limits schema target p.row = .ok r

/-- If every point that meets the filter passes the checks of a row, these are the points of the
document. -/
theorem filter_eq (hrows : set.Readable env limits schema target) (offset : Option String) :
    (set.points.filter fun p => meetsFilter p.payload (body target offset)) = set.ofDocument target := by
  unfold ofDocument
  apply List.filter_congr
  intro p hp
  rw [meetsFilter_body]
  cases hmust : (must target).all (meets p.payload) with
  | true =>
    obtain ⟨r, hr⟩ := hrows p hp hmust
    exact (readRow_ok hr).2.1.symm
  | false =>
    cases hfields : target.fields.all fun f => hasText p.payload f.1 f.2 with
    | true =>
      rw [meets_must hfields] at hmust
      cases hmust
    | false => rfl

/-- The points before an id are left out. -/
theorem dropWhile_before (hsorted : (pre ++ p :: post).Pairwise fun p q => set.before p.id q.id) :
    ((pre ++ p :: post).dropWhile fun q => set.before q.id p.id) = p :: post := by
  have hpre : ∀ q ∈ pre, set.before q.id p.id = true := fun q hq =>
    (List.pairwise_append.mp hsorted).2.2 q hq p (List.mem_cons_self ..)
  rw [List.dropWhile_append_of_pos hpre]
  rw [List.dropWhile_cons_of_neg (by simp [set.irrefl])]

/-- The points that are asked for at the id of a point of the document: it, and those after it. -/
theorem asked_at (hrows : set.Readable env limits schema target)
    (hdocument : set.ofDocument target = pre ++ p :: post) :
    set.asked (body target (some p.id)) = p :: post := by
  have hoffset : get? "offset" (some (body target (some p.id))) = some (.str p.id) := rfl
  have hsorted : (pre ++ p :: post).Pairwise fun p q => set.before p.id q.id := by
    rw [← hdocument]
    exact set.sorted.filter _
  unfold asked
  rw [filter_eq hrows, hoffset, hdocument]
  exact dropWhile_before hsorted

/-- The points that are asked for by the first request. -/
theorem asked_first (hrows : set.Readable env limits schema target) :
    set.asked (body target none) = set.ofDocument target := by
  have hoffset : get? "offset" (some (body target none)) = none := rfl
  unfold asked
  rw [filter_eq hrows, hoffset]

/-- The answer with the first of the points asked for, and the id of the second. -/
theorem answer_eq (offset : Option String) :
    set.answer (body target offset) = .obj [("result", .obj [
      ("points", .arr (((set.asked (body target offset)).take 1).map Stored.row)),
      ("next_page_offset",
        (((set.asked (body target offset)).drop 1).head?).elim .null fun p => .str p.id)])] := by
  unfold answer
  rw [pageSize_body]

end PointSet

namespace Snapshot

open PointSet

/-! ## The loop over the points of the document -/

section Complete

variable {env : JsonEnv} {limits : SnapshotLimits} {schema : IndexSchema} {target : Target}
  {set : PointSet}

/-- The bytes that the points have together. -/
def bytesOf (read : List (Point × ℕ)) : ℕ := (read.map Prod.snd).sum

variable {p q : Stored} {r : Point × ℕ} {s : State} {offset : Option String} {post pre points : List Stored}
  {read : List (Point × ℕ)}

/-- A page with the last point ends the loop with it. -/
theorem readPage_last (hasked : set.asked (body target offset) = [p])
    (hr : readRow env limits schema target p.row = .ok r) (hbytes : s.total_bytes + r.2 ≤ maxDocumentSnapshotBytes) :
    readPage env limits schema target s (set.answer (body target offset)) =
      .ok (.done (s.points ++ [r.1])) := by
  rw [answer_eq, hasked]
  show readPage env limits schema target s (.obj [("result", .obj [("points", .arr [p.row]),
    ("next_page_offset", .null)])]) = _
  have hpoints : get? "points" (get? "result" (some (.obj [("result", .obj [("points", .arr [p.row]),
    ("next_page_offset", .null)])]))) = some (.arr [p.row]) := rfl
  unfold readPage
  simp only [hpoints, hr, if_neg (Nat.not_lt.mpr hbytes), bind, Except.bind]
  rfl

/-- A page with a point that is not the last one goes on at the next one, which was not named before. -/
theorem readPage_again (hasked : set.asked (body target offset) = p :: q :: post)
    (hr : readRow env limits schema target p.row = .ok r) (hbytes : s.total_bytes + r.2 ≤ maxDocumentSnapshotBytes)
    (hid : validateId (some (.str q.id)) = .ok q.id) (hnew : q.id ∉ s.seen_offsets) :
    readPage env limits schema target s (set.answer (body target offset)) =
      .ok (.again ⟨s.points ++ [r.1], q.id :: s.seen_offsets, some q.id, s.total_bytes + r.2⟩) := by
  rw [answer_eq, hasked]
  show readPage env limits schema target s (.obj [("result", .obj [("points", .arr [p.row]),
    ("next_page_offset", .str q.id)])]) = _
  have hpoints : get? "points" (get? "result" (some (.obj [("result", .obj [("points", .arr [p.row]),
    ("next_page_offset", .str q.id)])]))) = some (.arr [p.row]) := rfl
  have hnext : present (get? "next_page_offset" (get? "result" (some (.obj [("result",
    .obj [("points", .arr [p.row]), ("next_page_offset", .str q.id)])])))) = some (.str q.id) := rfl
  unfold readPage
  simp only [hpoints, hnext, hr, if_neg (Nat.not_lt.mpr hbytes), bind, Except.bind, hid, asMalformed]
  simp only [List.contains_eq_mem, hnew, decide_false, Bool.false_eq_true, if_false]
  rfl

/-- The point that comes next was not named before: those that were are before it. -/
theorem next_new {seen : List String} (hsorted : (pre ++ q :: post).Pairwise fun p q => set.before p.id q.id)
    (hseen : ∀ id ∈ seen, ∃ p ∈ pre, p.id = id) : q.id ∉ seen := by
  intro hmem
  obtain ⟨p, hp, hid⟩ := hseen q.id hmem
  have hbefore := (List.pairwise_append.mp hsorted).2.2 p hp q (List.mem_cons_self ..)
  rw [hid, set.irrefl] at hbefore
  cases hbefore

/-- From a point of the document on, the loop reads it and those after it: by induction on these, with
every place that was named the id of a point that was read or of the one that is read now. -/
theorem scroll_complete (hrows : set.Readable env limits schema target)
    (hquery : ∀ offset : Option String, (∀ o, offset = some o → ∃ p ∈ set.ofDocument target, p.id = o) →
      ∃ n, encodeJson env (body target offset) limits.max_query_bytes = .ok n) {left requests : ℕ}
    (hdocument : set.ofDocument target = pre ++ p :: post)
    (hread : (p :: post).mapM (fun p => readRow env limits schema target p.row) = .ok read)
    (hasked : set.asked (body target s.offset) = p :: post)
    (hoffset : ∀ o, s.offset = some o → ∃ p ∈ set.ofDocument target, p.id = o)
    (hseen : ∀ id ∈ s.seen_offsets, ∃ q ∈ pre ++ [p], q.id = id) (hleft : post.length < left)
    (hbytes : s.total_bytes + bytesOf read ≤ maxDocumentSnapshotBytes) :
    (scroll env limits schema target (fun _ request => .ok (set.answer request)) left requests s).1 =
      .ok (s.points ++ read.map Prod.fst) := by
  induction post generalizing p pre read s left requests with
  | nil =>
    cases left with
    | zero => exact absurd hleft (Nat.not_lt_zero _)
    | succ left =>
      obtain ⟨n, hn⟩ := hquery s.offset hoffset
      rw [List.mapM_cons] at hread
      obtain ⟨r, hr, hread⟩ := except_bind_ok.mp hread
      cases hread
      have hlast := readPage_last hasked hr (by simpa [bytesOf] using hbytes)
      unfold scroll
      simp only [hn, hlast]
      rfl
  | cons q post ih =>
    cases left with
    | zero => exact absurd hleft (Nat.not_lt_zero _)
    | succ left =>
      obtain ⟨n, hn⟩ := hquery s.offset hoffset
      rw [List.mapM_cons] at hread
      obtain ⟨r, hr, hread⟩ := except_bind_ok.mp hread
      obtain ⟨rest, hrest, hread⟩ := except_bind_ok.mp hread
      cases hread
      have hsplit : set.ofDocument target = (pre ++ [p]) ++ q :: post := by
        rw [hdocument, List.append_assoc]
        rfl
      have hsorted : ((pre ++ [p]) ++ q :: post).Pairwise fun p q => set.before p.id q.id := by
        rw [← hsplit]
        exact set.sorted.filter _
      have hid : validateId (some (.str q.id)) = .ok q.id := by
        have hmem : q ∈ set.ofDocument target := by rw [hsplit]; simp
        obtain ⟨hq, hfields⟩ := List.mem_filter.mp hmem
        obtain ⟨r, hr⟩ := hrows q hq (meets_must hfields)
        exact (readRow_ok hr).1
      have hsum : bytesOf ((r :: rest)) = r.2 + bytesOf rest := by simp [bytesOf]
      have hfirst : s.total_bytes + r.2 ≤ maxDocumentSnapshotBytes := by omega
      have hagain := readPage_again hasked hr hfirst hid (next_new hsorted hseen)
      have hseen' : ∀ id ∈ q.id :: s.seen_offsets, ∃ x ∈ (pre ++ [p]) ++ [q], x.id = id := by
        intro id hmem
        rcases List.mem_cons.mp hmem with hq | hold
        · exact ⟨q, by simp, hq.symm⟩
        · obtain ⟨x, hx, hxid⟩ := hseen id hold
          exact ⟨x, List.mem_append_left _ hx, hxid⟩
      have hleft' : post.length < left := by
        simp only [List.length_cons] at hleft
        omega
      have hbytes' : s.total_bytes + r.2 + bytesOf rest ≤ maxDocumentSnapshotBytes := by omega
      unfold scroll
      simp only [hn, hagain]
      rw [ih (s := ⟨s.points ++ [r.1], q.id :: s.seen_offsets, some q.id, s.total_bytes + r.2⟩)
        hsplit hrest (asked_at hrows hsplit) (fun o ho => ⟨q, by rw [hsplit]; simp, Option.some.inj ho⟩)
        hseen' hleft' hbytes']
      simp

variable (env limits schema target) in
/-- The bytes of a stored point that passes the checks of a row. -/
def storedBytes (p : Stored) : ℕ :=
  match readRow env limits schema target p.row with
  | .ok r => r.2
  | .error _ => 0

variable (env limits schema) in
/-- A point of a snapshot is a stored one: its id, its payload, and the numbers of its vectors. -/
def Kept (p : Stored) (q : Point) : Prop :=
  q.point_id = p.id ∧ q.payload = p.payload ∧
    readVectors env limits schema (some p.vector) = .ok (q.vector, q.sparse_vector)

/-- Points that pass the checks are read one by one, each as it is stored. -/
theorem read_all (h : ∀ p ∈ points, ∃ r, readRow env limits schema target p.row = .ok r) :
    ∃ read, points.mapM (fun p => readRow env limits schema target p.row) = .ok read ∧
      bytesOf read = (points.map (storedBytes env limits schema target)).sum ∧
      List.Forall₂ (Kept env limits schema) points (read.map Prod.fst) := by
  induction points with
  | nil => exact ⟨[], rfl, rfl, .nil⟩
  | cons p points ih =>
    obtain ⟨r, hr⟩ := h p (List.mem_cons_self ..)
    obtain ⟨read, hread, hsum, hkept⟩ := ih fun q hq => h q (List.mem_cons_of_mem p hq)
    have hsize : storedBytes env limits schema target p = r.2 := by
      unfold storedBytes
      rw [hr]
    refine ⟨r :: read, ?_, ?_, .cons (readRow_ok hr).2.2 hkept⟩
    · rw [List.mapM_cons, hr, hread]
      rfl
    · rw [List.map_cons, List.sum_cons, hsize, ← hsum]
      rfl

/-- The points of a snapshot are in the order of the stored ones. -/
theorem pairwise_kept {read : List Point} (hkept : List.Forall₂ (Kept env limits schema) points read)
    (hsorted : points.Pairwise fun p q => set.before p.id q.id) :
    read.Pairwise fun p q => set.before p.point_id q.point_id := by
  have hids : read.map Point.point_id = points.map Stored.id := by
    induction hkept with
    | nil => rfl
    | cons hp _ ih => rw [List.map_cons, List.map_cons, hp.1, ih (List.pairwise_cons.mp hsorted).2]
  have hmapped : (points.map Stored.id).Pairwise fun a b => set.before a b := List.pairwise_map.mpr hsorted
  rw [← hids] at hmapped
  exact List.pairwise_map.mp hmapped

/-- The whole loop over the points of a document. -/
theorem scroll_all (hrows : set.Readable env limits schema target)
    (hquery : ∀ offset : Option String, (∀ o, offset = some o → ∃ p ∈ set.ofDocument target, p.id = o) →
      ∃ n, encodeJson env (body target offset) limits.max_query_bytes = .ok n)
    (hread : (set.ofDocument target).mapM (fun p => readRow env limits schema target p.row) = .ok read)
    (hbytes : bytesOf read ≤ maxDocumentSnapshotBytes)
    (hlength : (set.ofDocument target).length ≤ maxDocumentSnapshotPoints) :
    (scroll env limits schema target (fun _ request => .ok (set.answer request))
      maxDocumentSnapshotPoints 0 ⟨[], [], none, 0⟩).1 = .ok (read.map Prod.fst) := by
  have hfirst := asked_first hrows
  cases hdocument : set.ofDocument target with
  | nil =>
    -- The first page is empty, and names no place to go on at.
    rw [hdocument] at hread hfirst
    cases hread
    obtain ⟨n, hn⟩ := hquery none fun o ho => nomatch ho
    have hanswer : set.answer (body target none) = .obj [("result", .obj [("points", .arr []),
        ("next_page_offset", .null)])] := by
      rw [answer_eq, hfirst]
      rfl
    have hpage : readPage env limits schema target ⟨[], [], none, 0⟩ (set.answer (body target none)) =
        .ok (.done []) := by
      rw [hanswer]
      rfl
    show (scroll env limits schema target _ (99999 + 1) 0 ⟨[], [], none, 0⟩).1 = _
    unfold scroll
    simp only [hn, hpage]
    rfl
  | cons p post =>
    rw [hdocument] at hread hfirst hlength
    have hstart : set.ofDocument target = [] ++ p :: post := hdocument
    exact scroll_complete hrows hquery hstart hread hfirst (fun o ho => nomatch ho)
      (fun id hid => absurd hid List.not_mem_nil) hlength (by simpa using hbytes)

end Complete

end Snapshot

/-- For any answers a snapshot makes at most `MAX_DOCUMENT_SNAPSHOT_POINTS` scroll requests, and then it
has returned or raised. Against a server that scrolls over a fixed set of points in the order of their
ids, if every point that meets the filter passes the checks that are made of a row, it returns the points
of the document, each once and in the order of the ids, whenever there are at most that many and the
limits of the bytes hold. -/
theorem snapshots_complete (env : JsonEnv) (limits : SnapshotLimits) :
    (∀ (schema : Except Raised IndexSchema) (closed : Bool) (target : Snapshot.Target)
      (server : ℕ → Json → Except Raised Json),
      (snapshotDocument env limits schema closed target server).2 ≤ maxDocumentSnapshotPoints) ∧
    ∀ (schema : IndexSchema) (target : Snapshot.Target) (set : PointSet),
      Snapshot.checkTarget limits target = .ok () → Snapshot.boundedText target.document_id = true →
      set.Readable env limits schema target →
      (set.ofDocument target).length ≤ maxDocumentSnapshotPoints →
      ((set.ofDocument target).map (Snapshot.storedBytes env limits schema target)).sum ≤
        maxDocumentSnapshotBytes →
      (∀ offset : Option String, (∀ o, offset = some o → ∃ p ∈ set.ofDocument target, p.id = o) →
        ∃ n, Snapshot.encodeJson env (Snapshot.body target offset) limits.max_query_bytes = .ok n) →
      ∃ points, (snapshotDocument env limits (.ok schema) false target
          fun _ request => .ok (set.answer request)).1 = .ok points ∧
        List.Forall₂ (Snapshot.Kept env limits schema) (set.ofDocument target) points ∧
        points.Pairwise fun p q => set.before p.point_id q.point_id := by
  refine ⟨fun schema closed target server => ?_, ?_⟩
  · unfold snapshotDocument
    split
    · exact Nat.zero_le _
    · split
      · exact Nat.zero_le _
      · have hloop := Snapshot.scroll_requests env limits (by assumption) target server
          maxDocumentSnapshotPoints 0 ⟨[], [], none, 0⟩
        rwa [Nat.zero_add] at hloop
  · intro schema target set htarget hid hrows hlength hbytes hquery
    have hpasses : ∀ p ∈ set.ofDocument target,
        ∃ r, Snapshot.readRow env limits schema target p.row = .ok r := fun p hp =>
      hrows p (List.mem_filter.mp hp).1 (Snapshot.meets_must (List.mem_filter.mp hp).2)
    obtain ⟨read, hread, hsum, hkept⟩ := Snapshot.read_all hpasses
    have hloop := Snapshot.scroll_all hrows hquery hread (hsum ▸ hbytes) hlength
    refine ⟨read.map Prod.fst, ?_, hkept, Snapshot.pairwise_kept hkept (set.sorted.filter _)⟩
    have hdocument : Snapshot.validateId (some (.str target.document_id)) = .ok target.document_id := by
      unfold Snapshot.validateId
      exact if_pos hid
    unfold snapshotDocument
    simp only [Bool.false_eq_true, if_false, htarget, hdocument, bind, Except.bind]
    exact hloop

/-- The points of two documents. -/
def shelf : PointSet where
  before a b := decide (a < b)
  points :=
    [⟨"p1", [("document_id", .str "d"), ("tenant_id", .str "t"), ("workspace_id", .str "w"),
      ("collection_id", .str "c")], .obj [("dense", .arr [.int 1])]⟩,
    ⟨"p2", [("document_id", .str "e"), ("tenant_id", .str "t"), ("workspace_id", .str "w"),
      ("collection_id", .str "c")], .obj [("dense", .arr [.int 2])]⟩,
    ⟨"p3", [("document_id", .str "d"), ("tenant_id", .str "t"), ("workspace_id", .str "w"),
      ("collection_id", .str "c")], .obj [("dense", .arr [.int 3])]⟩]
  irrefl id := decide_eq_false (lt_irrefl id)
  sorted := by decide

/-- The two points of the first document come back, in their order. -/
theorem shelf_snapshot :
    ∃ points, (snapshotDocument ⟨fun _ => true, fun _ => some 200, fun n => some n⟩ ⟨1, 8, 1000, 1000⟩
        (.ok ⟨1, false⟩) false ⟨"d", "c", "t", "w"⟩ fun _ request => .ok (shelf.answer request)).1 =
        .ok points ∧
      points.length = 2 := by
  obtain ⟨points, hpoints, hkept, -⟩ := (snapshots_complete ⟨fun _ => true, fun _ => some 200,
    fun n => some n⟩ ⟨1, 8, 1000, 1000⟩).2 ⟨1, false⟩ ⟨"d", "c", "t", "w"⟩ shelf rfl (by decide)
    (by
      intro p hp hmeets
      simp only [shelf, List.mem_cons, List.not_mem_nil, or_false] at hp
      rcases hp with rfl | rfl | rfl
      · exact ⟨_, rfl⟩
      · exact absurd hmeets (by decide)
      · exact ⟨_, rfl⟩)
    (by decide) (by decide) (fun offset _ => ⟨200, rfl⟩)
  refine ⟨points, hpoints, ?_⟩
  rw [← hkept.length_eq]
  decide
/-- A stored point of the document that has no vector named `dense`. -/
def bare : PointSet where
  before a b := decide (a < b)
  points := [⟨"p", [("document_id", .str "d"), ("tenant_id", .str "t"), ("workspace_id", .str "w"),
    ("collection_id", .str "c")], .obj []⟩]
  irrefl id := decide_eq_false (lt_irrefl id)
  sorted := List.pairwise_singleton ..

/-- The snapshot of a document with such a point raises, though there is one point and no limit is
reached. -/
theorem bare_raises :
    (bare.ofDocument ⟨"d", "c", "t", "w"⟩).length = 1 ∧
    snapshotDocument ⟨fun _ => true, fun _ => some 200, fun n => some n⟩ ⟨1, 8, 1000, 1000⟩
      (.ok ⟨1, false⟩) false ⟨"d", "c", "t", "w"⟩ (fun _ request => .ok (bare.answer request)) =
      (.error Snapshot.malformed, 1) := by
  refine ⟨by decide, ?_⟩
  rfl

end RickIntelligence.Qdrant
