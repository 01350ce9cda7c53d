import Mathlib

/-!
# Candidates and reciprocal rank fusion

A candidate is a Python dictionary, of which a backend fixes neither the keys nor the types of the
values. `rrf_fusion` blends the candidates of the dense and of the sparse leg by their chunk: the
scores are summed from the ranks, and a row fills in what is missing in the rows before it.

Numbers are IEEE doubles, as in Python; nothing that is proved depends on how they round.
-/

namespace RickIntelligence.Retrieval

/-! ## Dictionaries -/

/-- A Python value. -/
inductive Value where
  | none
  | bool (b : Bool)
  | int (n : ℤ)
  | num (x : Float)
  | text (s : String)
  | list (items : List Value)
  | dict (members : List (String × Value))

/-- The exceptions that leave `retrieve`. -/
inductive PyError where
  | value (message : String)
  | key (name : String)
  | type
  | attribute
  | hybridUnavailable
  | other (name : String)
  deriving DecidableEq, Repr

/-- A dictionary: the value of every key that it has. -/
abbrev Dict := String → Option Value

namespace Value

/-- The truth of a value. -/
def truthy : Value → Bool
  | none => false
  | bool b => b
  | int n => n != 0
  | num x => x != 0
  | text s => s != ""
  | list items => !items.isEmpty
  | dict members => !members.isEmpty

/-- `value or default`. -/
def orElse (v default : Value) : Value := if v.truthy then v else default

/-- `_has_value`. -/
def hasValue : Value → Bool
  | none => false
  | text s => s != ""
  | list items => !items.isEmpty
  | dict members => !members.isEmpty
  | bool _ | int _ | num _ => true

/-- The value, or another one where it is missing. -/
def ifMissing (v other : Value) : Value := if v.hasValue then v else other

/-- `float(value or 0.0)`, with what `float` makes of a text. -/
def floatOrZero (parse : String → Option Float) : Value → Except PyError Float
  | none => .ok 0
  | bool b => .ok (if b then 1 else 0)
  | int n => .ok (Float.ofInt n)
  | num x => .ok (if x != 0 then x else 0)
  | text s =>
    if s = "" then .ok 0
    else match parse s with
      | some x => .ok x
      | Option.none => .error (.value "could not convert string to float")
  | list items => if items.isEmpty then .ok 0 else .error .type
  | dict members => if members.isEmpty then .ok 0 else .error .type

/-- The value is hashable. -/
def hashable : Value → Bool
  | list _ | dict _ => false
  | _ => true

/-- The number of a value that compares as a number. -/
def number? : Value → Option Float
  | bool b => some (if b then 1 else 0)
  | int n => some (Float.ofInt n)
  | num x => some x
  | _ => Option.none

/-- `==` of hashable values. -/
def equals : Value → Value → Bool
  | none, none => true
  | text s, text t => s == t
  | int m, int n => m == n
  | v, w =>
    match v.number?, w.number? with
    | some x, some y => x == y
    | _, _ => false

end Value

namespace Dict

/-- `d.get(field)`. -/
def get (d : Dict) (field : String) : Value := (d field).getD .none

/-- `d.get(field, default)`. -/
def getOr (d : Dict) (field : String) (default : Value) : Value := (d field).getD default

/-- `d[field] = value`. -/
def set (d : Dict) (field : String) (value : Value) : Dict :=
  fun f => if f = field then some value else d f

/-- `d.setdefault(field, value)`. -/
def setDefault (d : Dict) (field : String) (value : Value) : Dict :=
  if (d field).isSome then d else d.set field value

/-- The dictionary with a value for a field where that is missing. -/
def fill (d : Dict) (field : String) (value : Value) : Dict :=
  if (d.get field).hasValue then d else d.set field value

/-- `d[field]`, for a field that holds a number. -/
def score (d : Dict) (field : String) : Float :=
  match d field with
  | some (.num x) => x
  | _ => 0

/-- The key that was set. -/
@[simp]
theorem set_self (d : Dict) (field : String) (value : Value) : d.set field value field = some value := by
  simp [set]

/-- Another key. -/
theorem set_ne (d : Dict) {field f : String} (value : Value) (h : f ≠ field) :
    d.set field value f = d f := by
  simp [set, h]

/-- A key that is not defaulted. -/
theorem setDefault_ne (d : Dict) {field f : String} (value : Value) (h : f ≠ field) :
    d.setDefault field value f = d f := by
  unfold setDefault
  split
  · rfl
  · exact set_ne d value h

/-- A key that is not filled. -/
theorem fill_ne (d : Dict) {field f : String} (value : Value) (h : f ≠ field) :
    d.fill field value f = d f := by
  unfold fill
  split
  · rfl
  · exact set_ne d value h

end Dict

/-! ## Fusion -/

/-- `_SCORE_FIELDS`. -/
def scoreFields : List String := ["score", "dense_score", "sparse_score"]

/-- `_merge_provenance`: every field of the row that is missing in the target. -/
def mergeProvenance (target result : Dict) : Dict := fun field =>
  if scoreFields.contains field then target field
  else match result field with
    | none => target field
    | some value => if !(target.get field).hasValue && value.hasValue then some value else target field

/-- `_finalize_provenance`. -/
def finalizeProvenance (item : Dict) : Dict :=
  let page := (item.get "page_start").ifMissing (item.get "page_hint")
  let item := item.fill "page_start" page
  let item := item.fill "page_end" page
  let source := (item.get "source").ifMissing
    (((item.get "source_title").orElse (item.get "document_filename")).orElse (.text ""))
  let item := item.fill "source" source
  let item := item.fill "document_filename" (source.orElse (.text ""))
  item.fill "title" (((item.get "source_title").orElse source).orElse (.text ""))

/-- `_blank`. -/
def blank (result : Dict) (chunk_id : Value) : Dict :=
  let item := result.set "chunk_id" chunk_id
  let item := item.setDefault "document_id" .none
  let item := item.setDefault "workspace_id" .none
  let item := item.setDefault "text" (.text "")
  let item :=
    if (item "page_start").isSome then item else item.set "page_start" (item.get "page_hint")
  let item := item.setDefault "page_end" .none
  let item := item.setDefault "source" .none
  let item := item.setDefault "title" .none
  let item := item.setDefault "document_filename" .none
  let item := item.setDefault "section" .none
  let item := item.setDefault "checksum" .none
  let item :=
    if (item.get "collection_id").truthy then item
    else item.set "collection_id" (.text "rag_phase0")
  ((item.set "score" (.num 0)).set "dense_score" (.num 0)).set "sparse_score" (.num 0)

/-- `scores`: the item of each chunk, in the order in which the chunks came. -/
abbrev Scores := List (Value × Dict)

/-- The item of a chunk. -/
def Scores.item? (scores : Scores) (chunk_id : Value) : Option Dict :=
  (List.find? (fun entry => entry.1.equals chunk_id) scores).map Prod.snd

/-- `scores[chunk_id] = item`: a chunk that is there keeps its place. -/
def Scores.put (scores : Scores) (chunk_id : Value) (item : Dict) : Scores :=
  match scores with
  | [] => [(chunk_id, item)]
  | entry :: rest =>
    if entry.1.equals chunk_id then (entry.1, item) :: rest
    else entry :: Scores.put rest chunk_id item

/-- `result["chunk_id"]`, as the key of a dictionary. -/
def chunkId (result : Dict) : Except PyError Value :=
  match result "chunk_id" with
  | none => .error (.key "chunk_id")
  | some v => if v.hashable then .ok v else .error .type

/-- `max(a, b)`. -/
def pyMax (a b : Float) : Float := if b > a then b else a

/-- `1.0 / (k + rank + 1)`. -/
def rankScore (k rank : ℕ) : Float := 1.0 / Float.ofNat (k + rank + 1)

/-- One row of the dense leg. -/
def addDense (parse : String → Option Float) (k : ℕ) (scores : Scores) (row : Dict × ℕ) :
    Except PyError Scores := do
  let (result, rank) := row
  let chunk_id ← chunkId result
  let item := match Scores.item? scores chunk_id with
    | none => blank result chunk_id
    | some target => mergeProvenance target result
  let item := item.set "score" (.num (item.score "score" + rankScore k rank))
  let dense ← ((result.getOr "score" (.num 0)).floatOrZero parse)
  return Scores.put scores chunk_id (item.set "dense_score" (.num (pyMax (item.score "dense_score") dense)))

/-- One row of the sparse leg. -/
def addSparse (parse : String → Option Float) (k : ℕ) (scores : Scores) (row : Dict × ℕ) :
    Except PyError Scores := do
  let (result, rank) := row
  let chunk_id ← chunkId result
  let item := match Scores.item? scores chunk_id with
    | some target =>
      let item := mergeProvenance target result
      item.set "score" (.num (item.score "score" + rankScore k rank))
    | none => (blank result chunk_id).set "score" (.num (rankScore k rank))
  let sparse ← ((result.getOr "sparse_score" (result.getOr "score" (.num 0))).floatOrZero parse)
  return Scores.put scores chunk_id
    (item.set "sparse_score" (.num (pyMax (item.score "sparse_score") sparse)))

/-- `rrf_fusion`: the items by their scores, the highest first, and those with one score in the order
in which they came. -/
def rrfFusion (parse : String → Option Float) (dense sparse : List Dict) (k : ℕ) :
    Except PyError (List Dict) := do
  let scores ← dense.zipIdx.foldlM (addDense parse k) []
  let scores ← sparse.zipIdx.foldlM (addSparse parse k) scores
  let items := scores.map fun entry => finalizeProvenance entry.2
  return items.mergeSort fun a b => !(a.score "score" < b.score "score")

end RickIntelligence.Retrieval
