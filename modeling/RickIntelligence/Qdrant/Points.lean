import RickIntelligence.Lib.Gather
import RickIntelligence.Lib.SortedWire
import RickIntelligence.Lib.Utf8
import RickIntelligence.Lib.Validated
import RickIntelligence.Qdrant.Snapshot

/-!
# Points of an upsert

`_normalize_point` of `rick_retrieval/qdrant.py` with the checks it calls, and `sparse_vector` of
`rick_retrieval/sparse.py`. A caller may give anything as a point. What Python's numbers with a fraction and its
tables of characters do, and MD5, is left to the environment; a deep recursion is no limit here.

A point that is accepted has been `Checked` (`normalizePoint_ok`), which is all that its vectors and its payload
must be to be accepted again.
-/

namespace RickIntelligence.Qdrant

open Lib Lib.Wire

/-! ## The environment and the store -/

/-- `MAX_POINTS_PER_UPSERT`. -/
def maxPointsPerUpsert : ℕ := 256

/-- `MAX_VECTOR_DIMENSIONS`. -/
def maxVectorDimensions : ℕ := 16384

/-- `MAX_PAYLOAD_BYTES`. -/
def maxPayloadBytes : ℕ := 64 * 1024

/-- `MAX_REQUEST_BYTES`. -/
def maxRequestBytes : ℕ := 4 * 1024 * 1024

/-- `QdrantLimits` that `validate` accepts, as far as an upsert reads them. -/
structure UpsertLimits where
  max_points : ℕ
  max_vector_dimensions : ℕ
  max_payload_bytes : ℕ
  max_request_bytes : ℕ
  points_range : 0 < max_points ∧ max_points ≤ maxPointsPerUpsert
  dimensions_range : 0 < max_vector_dimensions ∧ max_vector_dimensions ≤ maxVectorDimensions
  payload_range : 0 < max_payload_bytes ∧ max_payload_bytes ≤ maxPayloadBytes
  request_range : 0 < max_request_bytes ∧ max_request_bytes ≤ maxRequestBytes

/-- The default limits. -/
def UpsertLimits.default : UpsertLimits where
  max_points := maxPointsPerUpsert
  max_vector_dimensions := maxVectorDimensions
  max_payload_bytes := maxPayloadBytes
  max_request_bytes := maxRequestBytes
  points_range := by decide
  dimensions_range := by decide
  payload_range := by decide
  request_range := by decide

/-- The fields of a `QdrantHttpVectorStore` that an upsert reads. -/
structure UpsertStore where
  limits : UpsertLimits
  index_schema : Option IndexSchema
  closed : Bool

/-- The functions that an upsert calls: JSON's and Python's on numbers with a fraction of type `F`, the lower
case and the word characters of texts, and MD5 as a number. `float` gives nothing for `OverflowError`, and
`pack`, which is `struct.pack("!f", x)`, for that or `struct.error`. -/
structure PointEnv (F : Type) where
  floats : Floats F
  float : ℤ → Option F
  order : Key F → Key F → Bool
  pack : F → Option ℕ
  zero : F
  add : F → F → F
  log : ℕ → F
  lower : CodePoints → CodePoints
  isWord : ℕ → Bool
  md5 : CodePoints → ℕ

/-- What an upsert raises: an error of the adapter, or an exception that it does not catch. -/
inductive UpsertRaised where
  | qdrant (e : QdrantError)
  | uncaught
  deriving DecidableEq, Repr

namespace Upsert

variable {F : Type}

/-- An error of an upsert. -/
def failure (kind : ErrorKind) : UpsertRaised := .qdrant ⟨kind, "upsert"⟩

/-- `QdrantValidationError(operation)`. -/
def invalid : UpsertRaised := failure (.validation false false)

/-- `QdrantBoundsError(operation, limit=True)`. -/
def bounds : UpsertRaised := failure .bounds

/-- `QdrantSchemaMismatchError(operation)`. -/
def mismatch : UpsertRaised := failure .schemaMismatch

/-! ## Sparse vectors -/

/-- `SPARSE_MODULUS`. -/
def sparseModulus : ℕ := 100000

/-- `MEANINGLESS_QUERY_TOKENS`. -/
def meaninglessQueryTokens : List CodePoints :=
  ["a", "ao", "aos", "as", "ate", "até", "com", "como", "da", "das", "de", "do", "dos",
    "e", "em", "essa", "esse", "esta", "este", "foi", "na", "nas", "no", "nos", "o", "os",
    "ou", "para", "por", "qual", "quais", "quando", "quanto", "que", "se", "sem", "ser",
    "sao", "são", "sua", "suas", "seu", "seus", "uma", "um", "usa", "usada", "usado",
    "utiliza", "utilizado"].map codePoints

/-- `sparse_hash`. -/
def sparseHash (env : PointEnv F) (token : CodePoints) : ℕ := env.md5 token % sparseModulus

/-- `tokenize_terms` with its default length: `re.findall(r"\w{2,}", text.lower())` finds the runs of two or
more word characters. -/
def tokenizeTerms (env : PointEnv F) (text : CodePoints) : List CodePoints :=
  (((env.lower text).splitOnP fun c => !env.isWord c).filter fun token => 2 ≤ token.length).filter fun token =>
    !meaninglessQueryTokens.contains token

/-- The counts of the tokens: `freq[tok] = freq.get(tok, 0) + 1`. -/
def countTokens (tokens : List CodePoints) : List (CodePoints × ℕ) :=
  gather id (fun count _ => count.getD 0 + 1) tokens

/-- `sparse_vector`: `index_scores[idx] = index_scores.get(idx, 0.0) + math.log(1 + count)`. -/
def sparseVector (env : PointEnv F) (text : CodePoints) : List (ℕ × F) :=
  gather (fun e => sparseHash env e.1) (fun score e => env.add (score.getD env.zero) (env.log (1 + e.2)))
    (countTokens (tokenizeTerms env text))

/-- A sparse vector: indices and values. -/
abbrev Sparse (F : Type) := List ℤ × List F

/-- The indices of a text in order, with their values. -/
def lexical (env : PointEnv F) (text : CodePoints) : Sparse F :=
  let encoded := sparseVector env text
  let indices := (encoded.map Prod.fst).insertionSort (· ≤ ·)
  (indices.map Int.ofNat, indices.map fun index => (encoded.lookup index).getD env.zero)

/-- A sparse vector as a dictionary. -/
def sparseWire (s : Sparse F) : Wire F :=
  .dict [(codePoints "indices", .list (s.1.map .int)), (codePoints "values", .list (s.2.map .float))]

/-! ## Fields -/

/-- `mapping.get(name)`: nothing if it is missing. -/
def get? (name : CodePoints) : List (Key F × Value F) → Option (Value F)
  | [] => none
  | (key, v) :: items => if key.text? = some name then some v else get? name items

/-- `mapping[name] = value`. -/
def setItem (name : CodePoints) (value : Value F) : List (Key F × Value F) → List (Key F × Value F)
  | [] => [(.str name, value)]
  | (key, v) :: items => if key.text? = some name then (key, value) :: items
    else (key, v) :: setItem name value items

/-- The keys of a mapping are just these names. -/
def hasKeys (items : List (Key F × Value F)) (names : List CodePoints) : Bool :=
  items.all (fun m => m.1.text?.any names.contains) && names.all fun name => (get? name items).isSome

/-- A text of 1 to 128 characters without control characters: `MAX_POINT_ID_CHARS`, which is
`MAX_SCOPE_VALUE_CHARS` too. -/
def boundedText (s : CodePoints) : Bool :=
  !s.isEmpty && s.length ≤ maxIdChars && s.all fun c => !(decide (c < 0x20) || c == 0x7f)

/-- `_validate_id`. -/
def validateId : Option (Value F) → Except UpsertRaised CodePoints
  | some (.str s) => if boundedText s then .ok s else .error invalid
  | _ => .error invalid

/-- A number of a vector, as `float` gives it. -/
def component (env : PointEnv F) : Value F → Except UpsertRaised F
  | .int n => match env.float n with
    | some x => if env.floats.finite x then .ok x else .error invalid
    | none => .error invalid
  | .float x => if env.floats.finite x then .ok x else .error invalid
  | _ => .error invalid

/-- `_validate_vector`. A sequence that is neither a list nor a tuple is given as a list. -/
def validateVector (env : PointEnv F) (max_dimensions : ℕ) :
    Option (Value F) → Except UpsertRaised (List F)
  | some (.sequence _ items) =>
    if items.isEmpty ∨ max_dimensions < items.length then .error bounds else items.mapM (component env)
  | _ => .error invalid

/-- `len(vector) != self._index_schema.dense_dimensions`, if there is a schema. -/
def checkDimensions (index_schema : Option IndexSchema) (vector : List F) : Except UpsertRaised Unit :=
  match index_schema with
  | some schema => if vector.length = schema.dense_dimensions then .ok () else .error mismatch
  | none => .ok ()

/-- `_validate_json_mapping`. -/
def validateJsonMapping (env : PointEnv F) :
    Option (Value F) → Except UpsertRaised (List (Key F × Value F))
  | some (.mapping isDict items) =>
    let encoded := (Value.jsonForm env.floats Value.unsorted (.mapping isDict items)).bind (dumps env.floats false)
    if (encoded.bind (loads env.floats (defaultHooks env.floats))).isNone then .error invalid
    else if items.all fun m => m.1.text?.isSome then .ok items
    else .error invalid
  | _ => .error invalid

/-- `_encode_json`. -/
def encodeJson (env : PointEnv F) (value : Value F) (max_bytes : ℕ) : Except UpsertRaised (List ℕ) :=
  match ((Value.jsonForm env.floats (sortKeys env.order) value).bind (dumps env.floats false)).bind
      Utf8.encodeText with
  | none => .error invalid
  | some encoded => if max_bytes < encoded.length then .error bounds else .ok encoded

/-- The index of a sparse vector: a whole number below 2^32. -/
def sparseIndex : Value F → Except UpsertRaised ℤ
  | .int n => if 0 ≤ n ∧ n < 2 ^ 32 then .ok n else .error invalid
  | _ => .error invalid

/-- The value of a sparse vector. `float` of a whole number that is too large is not caught. -/
def sparseWeight (env : PointEnv F) : Value F → Except UpsertRaised F
  | .int n => match env.float n with
    | some x => if env.floats.finite x then .ok x else .error invalid
    | none => .error .uncaught
  | .float x => if env.floats.finite x then .ok x else .error invalid
  | _ => .error invalid

/-- The items of a list or a tuple. -/
def listItems : Option (Value F) → Option (List (Value F))
  | some (.sequence _ items) => some items
  | _ => none

/-- `_validate_sparse_vector`. -/
def validateSparseVector (env : PointEnv F) (max_terms : ℕ) : Value F → Except UpsertRaised (Sparse F)
  | .mapping _ fields =>
    if !hasKeys fields [codePoints "indices", codePoints "values"] then .error invalid
    else match listItems (get? (codePoints "indices") fields), listItems (get? (codePoints "values") fields) with
      | some indices, some values =>
        if indices.length ≠ values.length then .error invalid
        else if max_terms < indices.length then .error bounds
        else do
          let checked ← indices.mapM sparseIndex
          if !checked.Pairwise (· < ·) then .error invalid
          else do
            let weights ← values.mapM (sparseWeight env)
            return (checked, weights)
      | _, _ => .error invalid
  | _ => .error invalid

/-- `_same_float32`. -/
def sameFloat32 (env : PointEnv F) (left right : F) : Bool :=
  match env.pack left, env.pack right with
  | some a, some b => a == b
  | _, _ => false

/-- The fields of a payload that say where it belongs. -/
def scopeFields : List CodePoints := ["tenant_id", "workspace_id", "collection_id"].map codePoints

/-- The check of a field of the scope. -/
def checkScopeField (payload : List (Key F × Value F)) (name : CodePoints) : Except UpsertRaised Unit :=
  match get? name payload with
  | some (.str s) => if boundedText s then .ok () else .error invalid
  | _ => .error invalid

/-- `HTTP_HYBRID_INDEX_VERSION`. -/
def hybridIndexVersion : CodePoints := codePoints "dense-sparse-logtf-v1"

/-- `payload.get("index_version") in (None, "", HTTP_HYBRID_INDEX_VERSION)`. -/
def versionAccepted : Option (Value F) → Bool
  | none | some .null => true
  | some (.str s) => s.isEmpty || s == hybridIndexVersion
  | _ => false

/-- The sparse vector of a point with a text, which is that of the point if it has one. -/
def checkSparse (env : PointEnv F) (store : UpsertStore) (fields payload : List (Key F × Value F))
    (text : CodePoints) : Except UpsertRaised (Sparse F) := do
  let given := (get? (codePoints "sparse_vector") fields).getD (Value.ofWire (sparseWire (lexical env text)))
  let checked ← validateSparseVector env store.limits.max_vector_dimensions given
  if checked.1 = (lexical env text).1 ∧
      (List.zip checked.2 (lexical env text).2).all (fun p => sameFloat32 env p.1 p.2) ∧
      versionAccepted (get? (codePoints "index_version") payload) then .ok checked
  else .error mismatch

/-- `self._index_schema is not None and self._index_schema.sparse_enabled`. -/
def sparseEnabled (store : UpsertStore) : Bool := (store.index_schema.map IndexSchema.sparse_enabled).getD false

/-- The sparse vector and the payload of a point, as the schema asks for. -/
def checkHybrid (env : PointEnv F) (store : UpsertStore) (fields payload : List (Key F × Value F)) :
    Except UpsertRaised (Option (Sparse F) × List (Key F × Value F)) :=
  if sparseEnabled store then
    match get? (codePoints "text") payload with
    | some (.str text) => do
      let checked ← checkSparse env store fields payload text
      return (some checked, setItem (codePoints "index_version") (.str hybridIndexVersion) payload)
    | _ => .error invalid
  else if (get? (codePoints "sparse_vector") fields).isSome then .error mismatch
  else .ok (none, payload)

/-- The vectors of a point by their names: `_DENSE_VECTOR_NAME` and `_SPARSE_VECTOR_NAME`. -/
def namedWire (vector : List F) (sparse : Option (Sparse F)) : List (CodePoints × Wire F) :=
  (codePoints "dense", .list (vector.map .float)) ::
    (sparse.map fun s => (codePoints "sparse", sparseWire s)).toList

/-- A normalised point. -/
def pointValue (id : CodePoints) (vector : List F) (sparse : Option (Sparse F))
    (payload : List (Key F × Value F)) : Value F :=
  .mapping true [(.str (codePoints "id"), .str id),
    (.str (codePoints "vector"), Value.ofWire (.dict (namedWire vector sparse))),
    (.str (codePoints "payload"), .mapping true payload)]

/-- `_normalize_point`. -/
def normalizePoint (env : PointEnv F) (store : UpsertStore) : Value F → Except UpsertRaised (Value F)
  | .mapping _ fields => do
    let point_id ← validateId (get? (codePoints "point_id") fields)
    let vector ← validateVector env store.limits.max_vector_dimensions (get? (codePoints "vector") fields)
    checkDimensions store.index_schema vector
    let payload ← validateJsonMapping env (get? (codePoints "payload") fields)
    let _ ← scopeFields.mapM (checkScopeField payload)
    let hybrid ← checkHybrid env store fields payload
    let _ ← encodeJson env (.mapping true hybrid.2) store.limits.max_payload_bytes
    return pointValue point_id vector hybrid.1 hybrid.2
  | _ => .error invalid

/-! ## Fields that are read back -/

section Fields

variable {name : CodePoints} {items : List (Key F × Value F)} {v : Value F}

/-- A field that is found is one of the mapping. -/
theorem mem_of_get? (h : get? name items = some v) : (.str name, v) ∈ items := by
  induction items with
  | nil => cases h
  | cons m items ih =>
    obtain ⟨key, u⟩ := m
    rw [get?] at h
    split at h
    · next hkey =>
      cases h
      cases key with
      | str s =>
        cases hkey
        exact List.mem_cons_self ..
      | _ => cases hkey
    · exact List.mem_cons_of_mem _ (ih h)

/-- A field that was set. -/
theorem get?_setItem (name : CodePoints) (v : Value F) (items : List (Key F × Value F)) :
    get? name (setItem name v items) = some v := by
  induction items with
  | nil => exact if_pos rfl
  | cons m items ih =>
    obtain ⟨key, u⟩ := m
    rw [setItem]
    split
    · next hkey => exact if_pos hkey
    · next hkey =>
      rw [get?, if_neg hkey]
      exact ih

/-- The other fields stay when one is set. -/
theorem get?_setItem_ne {other : CodePoints} (hne : other ≠ name) (v : Value F) (items : List (Key F × Value F)) :
    get? other (setItem name v items) = get? other items := by
  have hother : ∀ key : Key F, key.text? = some name → key.text? ≠ some other := by
    intro key hkey heq
    rw [hkey, Option.some.injEq] at heq
    exact hne heq.symm
  induction items with
  | nil => exact if_neg (hother (.str name) rfl)
  | cons m items ih =>
    obtain ⟨key, u⟩ := m
    rw [setItem]
    split
    · next hkey => rw [get?, get?, if_neg (hother key hkey), if_neg (hother key hkey)]
    · rw [get?, get?, ih]

/-- Setting a field to what it is changes nothing. -/
theorem setItem_of_get? (h : get? name items = some v) : setItem name v items = items := by
  induction items with
  | nil => cases h
  | cons m items ih =>
    obtain ⟨key, u⟩ := m
    rw [get?] at h
    rw [setItem]
    split at h
    · next hkey =>
      cases h
      rw [if_pos hkey]
    · next hkey => rw [if_neg hkey, ih h]

/-- What stands in a mapping after a field is set: what stood there, or the field. -/
theorem mem_setItem {m : Key F × Value F} (h : m ∈ setItem name v items) :
    (∃ n ∈ items, n.1 = m.1 ∧ (n.2 = m.2 ∨ m.2 = v)) ∨ m = (.str name, v) := by
  induction items with
  | nil => exact .inr (List.mem_singleton.mp h)
  | cons n items ih =>
    obtain ⟨key, u⟩ := n
    rw [setItem] at h
    split at h
    · rcases List.mem_cons.mp h with rfl | h
      · exact .inl ⟨(key, u), List.mem_cons_self .., rfl, .inr rfl⟩
      · exact .inl ⟨m, List.mem_cons_of_mem _ h, rfl, .inl rfl⟩
    · rcases List.mem_cons.mp h with rfl | h
      · exact .inl ⟨(key, u), List.mem_cons_self .., rfl, .inl rfl⟩
      · rcases ih h with ⟨n, hn, hkey, hvalue⟩ | heq
        · exact .inl ⟨n, List.mem_cons_of_mem _ hn, hkey, hvalue⟩
        · exact .inr heq

variable {env : PointEnv F}

/-- The keys of a mapping stay different when a field is set. -/
theorem distinct_setItem (v : Value F) (h : items.Pairwise fun a b => Value.DistinctKeys env.floats a.1 b.1) :
    (setItem name v items).Pairwise fun a b => Value.DistinctKeys env.floats a.1 b.1 := by
  induction items with
  | nil => exact List.pairwise_singleton _ _
  | cons n items ih =>
    obtain ⟨key, u⟩ := n
    obtain ⟨hfirst, hrest⟩ := List.pairwise_cons.mp h
    rw [setItem]
    split
    · exact List.pairwise_cons.mpr ⟨hfirst, hrest⟩
    · next hkey =>
      refine List.pairwise_cons.mpr ⟨?_, ih hrest⟩
      intro m hm
      rcases mem_setItem hm with ⟨n, hn, heq, -⟩ | rfl
      · exact heq ▸ hfirst n hn
      · left
        rintro rfl
        exact hkey rfl

/-- A mapping is proper when a proper field is set. -/
theorem proper_setItem (hv : v.Proper env.floats) (h : (Value.mapping true items).Proper env.floats) :
    (Value.mapping true (setItem name v items)).Proper env.floats := by
  rw [Value.Proper, Value.properFields_iff] at h ⊢
  refine ⟨distinct_setItem v h.1, ?_⟩
  intro m hm
  rcases mem_setItem hm with ⟨n, hn, -, hvalue⟩ | rfl
  · rcases hvalue with heq | heq
    · exact heq ▸ h.2 n hn
    · exact heq ▸ hv
  · exact hv

/-- The left one of two lists whose elements are related. -/
theorem related_left {α β : Type} {R : α → β → Prop} {as : List α} {bs : List β} (h : List.Forall₂ R as bs)
    {a : α} (ha : a ∈ as) : ∃ b ∈ bs, R a b := by
  obtain ⟨b, hb, hR⟩ := related_right h.flip ha
  exact ⟨b, hb, hR⟩

variable {members : List (CodePoints × Wire F)} {w : Wire F}

/-- A field of members with different names. -/
theorem get?_ofMembers (hnodup : (members.map Prod.fst).Nodup) (h : (name, w) ∈ members) :
    get? name (Value.ofMembers members) = some (Value.ofWire w) := by
  induction members with
  | nil => cases h
  | cons m members ih =>
    obtain ⟨first, u⟩ := m
    rw [List.map_cons, List.nodup_cons] at hnodup
    rw [Value.ofMembers, get?]
    rcases List.mem_cons.mp h with heq | hrest
    · cases heq
      exact if_pos rfl
    · have hne : (Key.str first : Key F).text? ≠ some name := by
        intro heq
        have hfirst : first = name := Option.some.inj heq
        rw [hfirst] at hnodup
        exact hnodup.1 (List.mem_map.mpr ⟨(name, w), hrest, rfl⟩)
      rw [if_neg hne]
      exact ih hnodup.2 hrest

/-- A field that is a text is the same text in what is read of what is written. -/
theorem get?_written (hproper : (Value.mapping true items).Proper env.floats)
    (h : Value.jsonForm env.floats (sortKeys env.order) (.mapping true items) = some (.dict members))
    {s : CodePoints} (hget : get? name items = some (.str s)) :
    get? name (Value.ofMembers members) = some (.str s) := by
  have hnodup : (members.map Prod.fst).Nodup := by
    have hself : ((members.map Prod.fst).all (spelled false) && decide (members.map Prod.fst).Nodup) = true :=
      all_self (Value.wellSpelled_jsonForm hproper h)
    rw [Bool.and_eq_true, decide_eq_true_eq] at hself
    exact hself.2
  rw [Value.jsonForm] at h
  obtain ⟨ns, hns, heq⟩ := Option.map_eq_some_iff.mp h
  cases heq
  obtain ⟨ms, hms, hns⟩ := Option.bind_eq_some_iff.mp hns
  obtain ⟨sorted, hsort, hnames⟩ := Option.bind_eq_some_iff.mp hns
  obtain ⟨m, hm, hkey, hform⟩ := related_left (Value.jsonMembers_some hms) (mem_of_get? hget)
  obtain ⟨n, hn, hname, hvalue⟩ := related_left (Value.nameMembers_some hnames)
    ((Value.sortKeys_perm hsort).mem_iff.mpr hm)
  have hname : name = n.1 := by
    rw [← hkey] at hname
    exact Option.some.inj hname
  have hvalue : n.2 = .str s := by
    rw [Value.jsonForm, hvalue] at hform
    exact (Option.some.inj hform).symm
  have hmem : (name, Wire.str s) ∈ members := by
    rw [hname, ← hvalue]
    exact hn
  exact get?_ofMembers hnodup hmem

/-- What is written of a dictionary is a dictionary. -/
theorem jsonForm_dict (h : Value.jsonForm env.floats (sortKeys env.order) (.mapping true items) = some w) :
    ∃ members, w = .dict members := by
  rw [Value.jsonForm] at h
  obtain ⟨ns, -, rfl⟩ := Option.map_eq_some_iff.mp h
  exact ⟨ns, rfl⟩

end Fields

/-! ## What is checked -/

section Checks

variable {env : PointEnv F} {store : UpsertStore}

variable {max : ℕ} {v : Value F} {x : F} {s : Sparse F} {payload : List (Key F × Value F)}

variable {value : Value F} {octets : List ℕ} {field : Option (Value F)} {vector : List F}
  {fields : List (Key F × Value F)}

/-- What `_encode_json` gives: the octets of the text, if they are not too many. -/
theorem encodeJson_ok :
    encodeJson env value max = .ok octets ↔
      ∃ w, Value.jsonForm env.floats (sortKeys env.order) value = some w ∧ w.all (writable env.floats) = true ∧
        Utf8.encodeText (render env.floats false w) = some octets ∧ octets.length ≤ max := by
  have hencoded : ((Value.jsonForm env.floats (sortKeys env.order) value).bind (dumps env.floats false)).bind
      Utf8.encodeText = some octets ↔ ∃ w, Value.jsonForm env.floats (sortKeys env.order) value = some w ∧
        w.all (writable env.floats) = true ∧ Utf8.encodeText (render env.floats false w) = some octets := by
    simp only [Option.bind_eq_some_iff, dumps_eq_some]
    constructor
    · rintro ⟨text, ⟨w, hform, hwritable, rfl⟩, htext⟩
      exact ⟨w, hform, hwritable, htext⟩
    · rintro ⟨w, hform, hwritable, htext⟩
      exact ⟨_, ⟨w, hform, hwritable, rfl⟩, htext⟩
  simp only [← and_assoc] at hencoded ⊢
  simp only [exists_and_right, ← hencoded]
  unfold encodeJson
  split
  · next hnone => simp [hnone]
  · next text hsome =>
    rw [hsome, Option.some.injEq]
    split
    · next hlong =>
      refine iff_of_false (by simp) ?_
      rintro ⟨rfl, hle⟩
      omega
    · next hlong =>
      rw [Except.ok.injEq]
      refine ⟨?_, fun h => h.1⟩
      rintro rfl
      exact ⟨rfl, not_lt.mp hlong⟩

/-- The document of a value is encoded in as many octets as the value. -/
theorem encodeJson_again {w : Wire F} (hform : Value.jsonForm env.floats (sortKeys env.order) value = some w)
    (h : encodeJson env value max = .ok octets) {max' : ℕ} (hmax : octets.length ≤ max') :
    ∃ octets', encodeJson env (Value.ofWire w) max' = .ok octets' ∧ octets'.length = octets.length := by
  obtain ⟨v, hv, hwritable, htext, -⟩ := encodeJson_ok.mp h
  have heq : v = w := Option.some.inj (hv.symm.trans hform)
  subst heq
  obtain ⟨octets', htext', hlength⟩ := Utf8.encodeText_perm (render_sortMembers v).symm htext
  refine ⟨octets', encodeJson_ok.mpr ?_, hlength⟩
  exact ⟨sortMembers v, jsonForm_ofWire env.order v, writable_sortMembers hwritable, htext', hlength ▸ hmax⟩

/-- A component is finite. -/
theorem component_finite (h : component env v = .ok x) : env.floats.finite x = true := by
  cases v with
  | int n =>
    rw [component] at h
    split at h
    · split at h
      · next hfinite =>
        cases h
        exact hfinite
      · cases h
    · cases h
  | float y =>
    rw [component] at h
    split at h
    · next hfinite =>
      cases h
      exact hfinite
    · cases h
  | _ => cases h

/-- A finite number is its own component. -/
theorem component_float (h : env.floats.finite x = true) : component env (.float x) = .ok x := if_pos h

/-- The components of a vector. -/
theorem validateVector_ok (h : validateVector env max field = .ok vector) :
    vector ≠ [] ∧ vector.length ≤ max ∧ ∀ x ∈ vector, env.floats.finite x = true := by
  unfold validateVector at h
  split at h
  · next isTuple items =>
    split at h
    · cases h
    · next hlength =>
      have hitems := mapM_ok.mp h
      have heq : items.length = vector.length := hitems.length_eq
      refine ⟨?_, by omega, ?_⟩
      · rintro rfl
        have hnil : items = [] := List.length_eq_zero_iff.mp heq
        exact hlength (.inl (by rw [hnil]; rfl))
      · intro x hx
        obtain ⟨v, -, hv⟩ := related_right hitems hx
        exact component_finite hv
  · cases h

/-- A list of finite numbers is accepted. -/
theorem validateVector_floats (hne : vector ≠ []) (hlength : vector.length ≤ max)
    (hfinite : ∀ x ∈ vector, env.floats.finite x = true) :
    validateVector env max (some (Value.ofWire (.list (vector.map .float)))) = .ok vector := by
  have hitems : (vector.map (Wire.float (F := F))).map Value.ofWire = vector.map .float := by
    rw [List.map_map]
    rfl
  have hcheck : ¬ ((vector.map (Value.float (F := F))).isEmpty ∨ max < (vector.map Value.float).length) := by
    rw [List.isEmpty_iff, List.map_eq_nil_iff, List.length_map]
    exact not_or.mpr ⟨hne, not_lt.mpr hlength⟩
  rw [Value.ofWire, Value.ofItems_eq, hitems, validateVector, if_neg hcheck, mapM_ok, List.forall₂_map_left_iff]
  exact List.forall₂_same.mpr fun x hx => component_float (hfinite x hx)

/-- What a sparse vector must be. -/
structure SparseChecked (env : PointEnv F) (max_terms : ℕ) (s : Sparse F) : Prop where
  lengths : s.1.length = s.2.length
  terms : s.1.length ≤ max_terms
  range : ∀ n ∈ s.1, 0 ≤ n ∧ n < 2 ^ 32
  increasing : s.1.Pairwise (· < ·)
  finite : ∀ x ∈ s.2, env.floats.finite x = true

/-- An index is in range, and it is the number that was given. -/
theorem sparseIndex_ok {n : ℤ} : sparseIndex v = .ok n ↔ v = .int n ∧ 0 ≤ n ∧ n < 2 ^ 32 := by
  cases v with
  | int k =>
    rw [sparseIndex, Value.int.injEq]
    split
    · next hrange =>
      rw [Except.ok.injEq]
      refine ⟨?_, fun h => h.1⟩
      rintro rfl
      exact ⟨rfl, hrange⟩
    · next hrange =>
      refine iff_of_false (by simp) ?_
      rintro ⟨rfl, h⟩
      exact hrange h
  | _ => simp [sparseIndex]

/-- A value of a sparse vector is finite. -/
theorem sparseWeight_finite (h : sparseWeight env v = .ok x) :
    env.floats.finite x = true := by
  cases v with
  | int n =>
    rw [sparseWeight] at h
    split at h
    · split at h
      · next hfinite =>
        cases h
        exact hfinite
      · cases h
    · cases h
  | float y =>
    rw [sparseWeight] at h
    split at h
    · next hfinite =>
      cases h
      exact hfinite
    · cases h
  | _ => cases h

/-- A sparse vector that is accepted. -/
theorem validateSparseVector_ok (h : validateSparseVector env max v = .ok s) : SparseChecked env max s := by
  cases v with
  | mapping isDict fields =>
    rw [validateSparseVector] at h
    split at h
    · cases h
    · split at h
      · next indices values _ _ =>
        split at h
        · cases h
        · next hlengths =>
          split at h
          · cases h
          · next hterms =>
            obtain ⟨checked, hchecked, h⟩ := except_bind_ok.mp h
            split at h
            · cases h
            · next hincreasing =>
              obtain ⟨weights, hweights, h⟩ := except_bind_ok.mp h
              cases h
              have hindices := mapM_ok.mp hchecked
              have hvalues := mapM_ok.mp hweights
              have hleft : indices.length = checked.length := hindices.length_eq
              have hright : values.length = weights.length := hvalues.length_eq
              refine ⟨by show checked.length = weights.length; omega, by show checked.length ≤ max; omega,
                ?_, by simpa using hincreasing, ?_⟩
              · intro n hn
                obtain ⟨v, -, hv⟩ := related_right hindices hn
                exact (sparseIndex_ok.mp hv).2
              · intro x hx
                obtain ⟨v, -, hv⟩ := related_right hvalues hx
                exact sparseWeight_finite hv
      · cases h
  | _ => cases h

/-- The fields of a sparse vector that is read. -/
theorem ofWire_sparseWire (s : Sparse F) : Value.ofWire (sparseWire s) =
    .mapping true [(.str (codePoints "indices"), .sequence false (s.1.map .int)),
      (.str (codePoints "values"), .sequence false (s.2.map .float))] := by
  have hindices : (s.1.map (Wire.int (F := F))).map Value.ofWire = s.1.map .int := by
    rw [List.map_map]
    rfl
  have hvalues : (s.2.map (Wire.float (F := F))).map Value.ofWire = s.2.map .float := by
    rw [List.map_map]
    rfl
  rw [sparseWire, Value.ofWire, Value.ofMembers, Value.ofMembers, Value.ofMembers, Value.ofWire, Value.ofWire,
    Value.ofItems_eq, Value.ofItems_eq, hindices, hvalues]

/-- A sparse vector that was accepted is accepted again. -/
theorem validateSparseVector_wire (h : SparseChecked env max s) :
    validateSparseVector env max (Value.ofWire (sparseWire s)) = .ok s := by
  have hindices : (s.1.map (Value.int (F := F))).mapM sparseIndex = .ok s.1 := by
    rw [mapM_ok, List.forall₂_map_left_iff]
    exact List.forall₂_same.mpr fun n hn => sparseIndex_ok.mpr ⟨rfl, h.range n hn⟩
  have hvalues : (s.2.map (Value.float (F := F))).mapM (sparseWeight env) = .ok s.2 := by
    rw [mapM_ok, List.forall₂_map_left_iff]
    exact List.forall₂_same.mpr fun x hx => if_pos (h.finite x hx)
  have hlengths : ¬ (s.1.map (Value.int (F := F))).length ≠ (s.2.map (Value.float (F := F))).length := by
    rw [List.length_map, List.length_map, not_not]
    exact h.lengths
  have hterms : ¬ max < (s.1.map (Value.int (F := F))).length := by
    rw [List.length_map]
    exact not_lt.mpr h.terms
  rw [ofWire_sparseWire]
  show (if _ then _ else if _ then _ else _) = _
  rw [if_neg hlengths, if_neg hterms, hindices]
  show (if (!decide (s.1.Pairwise (· < ·))) = true then _ else _) = _
  rw [if_neg (by simp [h.increasing]), hvalues]
  rfl

/-- A field of the scope is a short text. -/
theorem checkScopeField_ok {name : CodePoints} {u : Unit} :
    checkScopeField payload name = .ok u ↔ ∃ s, get? name payload = some (.str s) ∧ boundedText s = true := by
  unfold checkScopeField
  split
  · next s hget =>
    rw [hget]
    split
    · next hbounded => simp [hbounded]
    · next hbounded => simp [hbounded]
  · next hother =>
    refine iff_of_false (by simp) ?_
    rintro ⟨s, hget, -⟩
    exact hother s hget

/-- The sparse vector of a point with a text. -/
structure LexicalChecked (env : PointEnv F) (store : UpsertStore) (s : Sparse F)
    (payload : List (Key F × Value F)) : Prop where
  sparse : SparseChecked env store.limits.max_vector_dimensions s
  lexical : ∃ text, get? (codePoints "text") payload = some (.str text) ∧ s.1 = (lexical env text).1 ∧
    (List.zip s.2 (lexical env text).2).all (fun p => sameFloat32 env p.1 p.2) = true
  version : get? (codePoints "index_version") payload = some (.str hybridIndexVersion)

/-- There is a sparse vector just when the schema asks for one. -/
def HybridChecked (env : PointEnv F) (store : UpsertStore) (sparse : Option (Sparse F))
    (payload : List (Key F × Value F)) : Prop :=
  match sparse with
  | none => sparseEnabled store = false
  | some s => sparseEnabled store = true ∧ LexicalChecked env store s payload

/-- What a normalised point is made of. -/
structure Checked (env : PointEnv F) (store : UpsertStore) (id : CodePoints) (vector : List F)
    (sparse : Option (Sparse F)) (payload : List (Key F × Value F)) : Prop where
  id_bounded : boundedText id = true
  vector_ne : vector ≠ []
  vector_length : vector.length ≤ store.limits.max_vector_dimensions
  vector_finite : ∀ x ∈ vector, env.floats.finite x = true
  dimensions : checkDimensions store.index_schema vector = .ok ()
  scope : ∀ name ∈ scopeFields, checkScopeField payload name = .ok ()
  hybrid : HybridChecked env store sparse payload
  proper : (Value.mapping true payload).Proper env.floats
  written : ∃ octets, encodeJson env (.mapping true payload) store.limits.max_payload_bytes = .ok octets

/-- The sparse vector of a point that is accepted is that of its text. -/
theorem checkSparse_ok {text : CodePoints} (h : checkSparse env store fields payload text = .ok s) :
    SparseChecked env store.limits.max_vector_dimensions s ∧ s.1 = (lexical env text).1 ∧
      (List.zip s.2 (lexical env text).2).all (fun p => sameFloat32 env p.1 p.2) = true := by
  obtain ⟨checked, hchecked, h⟩ := except_bind_ok.mp h
  split at h
  · next hsame =>
    cases h
    exact ⟨validateSparseVector_ok hchecked, hsame.1, hsame.2.1⟩
  · cases h

/-- The payload of a point that is accepted is the one given, with the version of the index if the schema asks
for sparse vectors. -/
theorem checkHybrid_ok {hybrid : Option (Sparse F) × List (Key F × Value F)}
    (h : checkHybrid env store fields payload = .ok hybrid) :
    HybridChecked env store hybrid.1 hybrid.2 ∧ (hybrid.2 = payload ∨
      hybrid.2 = setItem (codePoints "index_version") (.str hybridIndexVersion) payload) := by
  unfold checkHybrid at h
  split at h
  · next henabled =>
    split at h
    · next text htext =>
      obtain ⟨s, hs, h⟩ := except_bind_ok.mp h
      cases h
      obtain ⟨hsparse, hindices, hsame⟩ := checkSparse_ok hs
      have htext' : get? (codePoints "text")
          (setItem (codePoints "index_version") (.str hybridIndexVersion) payload) = some (.str text) := by
        rw [get?_setItem_ne (by decide)]
        exact htext
      exact ⟨⟨henabled, hsparse, ⟨text, htext', hindices, hsame⟩, get?_setItem ..⟩, .inr rfl⟩
    · cases h
  · next hdisabled =>
    split at h
    · cases h
    · cases h
      exact ⟨Bool.eq_false_iff.mpr hdisabled, .inl rfl⟩

/-- A payload that is accepted is a dictionary. -/
theorem validateJsonMapping_ok (h : validateJsonMapping env field = .ok payload) :
    field = some (.mapping true payload) := by
  unfold validateJsonMapping at h
  split at h
  · next isDict items =>
    simp only at h
    split at h
    · cases h
    · next hread =>
      split at h
      · cases h
        cases isDict with
        | true => rfl
        | false => exact absurd rfl hread
      · cases h
  · cases h

/-- A point that is accepted has been checked. -/
theorem normalizePoint_ok {p n : Value F} (hproper : p.Proper env.floats)
    (h : normalizePoint env store p = .ok n) :
    ∃ id vector sparse payload, n = pointValue id vector sparse payload ∧
      Checked env store id vector sparse payload := by
  cases p with
  | mapping isDict fields =>
    rw [normalizePoint] at h
    obtain ⟨id, hid, h⟩ := except_bind_ok.mp h
    obtain ⟨vector, hvector, h⟩ := except_bind_ok.mp h
    obtain ⟨u, hdimensions, h⟩ := except_bind_ok.mp h
    obtain ⟨payload, hpayload, h⟩ := except_bind_ok.mp h
    obtain ⟨units, hscope, h⟩ := except_bind_ok.mp h
    obtain ⟨hybrid, hhybrid, h⟩ := except_bind_ok.mp h
    obtain ⟨octets, hoctets, h⟩ := except_bind_ok.mp h
    cases h
    obtain ⟨hne, hlength, hfinite⟩ := validateVector_ok hvector
    obtain ⟨hchecked, hfields⟩ := checkHybrid_ok hhybrid
    have hgiven : (Value.mapping true payload).Proper env.floats := by
      rw [Value.Proper, Value.properFields_iff] at hproper
      exact hproper.2 _ (mem_of_get? (validateJsonMapping_ok hpayload))
    refine ⟨id, vector, hybrid.1, hybrid.2, rfl, ?_, hne, hlength, hfinite, hdimensions, ?_, hchecked, ?_,
      octets, hoctets⟩
    · unfold validateId at hid
      split at hid
      · split at hid
        · next hbounded =>
          cases hid
          exact hbounded
        · cases hid
      · cases hid
    · intro name hname
      obtain ⟨u, -, hu⟩ := related_left (mapM_ok.mp hscope) hname
      obtain ⟨s, hget, hbounded⟩ := checkScopeField_ok.mp hu
      refine checkScopeField_ok.mpr ⟨s, ?_, hbounded⟩
      have hother : ∀ name ∈ scopeFields, name ≠ codePoints "index_version" := by decide
      rcases hfields with heq | heq
      · rw [heq]
        exact hget
      · rw [heq, get?_setItem_ne (hother name hname)]
        exact hget
    · rcases hfields with heq | heq
      · rw [heq]
        exact hgiven
      · rw [heq]
        exact proper_setItem (by simp only [Value.Proper]) hgiven
  | _ => cases h

end Checks

end Upsert

end RickIntelligence.Qdrant
