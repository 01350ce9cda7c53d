import RickIntelligence.Qdrant.Points

/-!
# Plans of upserts

`QdrantHttpVectorStore.plan_upsert_batches` and `upsert_points` of `rick_retrieval/qdrant.py`. The planner counts
the octets of a request that is encoded later, by another function, from points that were written and read.

`upsert_plan_complete` says that the batches of a plan are the points, each once and in order, and that each
batch is sent as a request of as many octets as were counted.
-/

namespace RickIntelligence.Qdrant

open Lib Lib.Wire

namespace Upsert

variable {F : Type}

/-! ## The planner -/

/-- `len(b'{"points":[]}')`. -/
def envelopeBytes : ℕ := (codePoints "\x7b\"points\":[]\x7d").length

/-- `document[name]`: nothing if it raises. -/
def item (name : CodePoints) : Wire F → Option (Wire F)
  | .dict members => members.lookup name
  | _ => none

/-- The point of a batch that is made of a normalised one. -/
def batchPoint (normalized : Wire F) : Option (Value F) := do
  let point_id ← item (codePoints "id") normalized
  let vector ← item (codePoints "vector") normalized
  let dense ← item (codePoints "dense") vector
  let payload ← item (codePoints "payload") normalized
  let sparse := (item (codePoints "sparse") vector).map fun s => (Key.str (codePoints "sparse_vector"), Value.ofWire s)
  return .mapping true ([(.str (codePoints "point_id"), Value.ofWire point_id),
    (.str (codePoints "vector"), Value.ofWire dense), (.str (codePoints "payload"), Value.ofWire payload)] ++
      sparse.toList)

/-- What the planner holds: the batches, and the batch that it fills with the octets of its request. -/
structure PlanState (F : Type) where
  batches : List (List (Value F))
  batch : List (Value F)
  batch_bytes : ℕ

/-- The planner before the first point. -/
def PlanState.start : PlanState F := ⟨[], [], envelopeBytes⟩

/-- Whether a batch has no place for one more point of that many octets. -/
def PlanState.full (limits : UpsertLimits) (st : PlanState F) (size : ℕ) : Bool :=
  !st.batch.isEmpty &&
    (limits.max_points ≤ st.batch.length || decide (limits.max_request_bytes < st.batch_bytes + 1 + size))

/-- The batch is one of the plan, and the next one is begun. -/
def PlanState.close (st : PlanState F) : PlanState F := ⟨st.batches ++ [st.batch], [], envelopeBytes⟩

/-- One more point in the batch. -/
def PlanState.push (st : PlanState F) (entry : Value F) (size : ℕ) : PlanState F :=
  ⟨st.batches, st.batch ++ [entry], st.batch_bytes + (size + if st.batch.isEmpty then 0 else 1)⟩

/-- The loop of `plan_upsert_batches`. -/
def planStep (env : PointEnv F) (store : UpsertStore) (st : PlanState F) (point : Value F) :
    Except UpsertRaised (PlanState F) := do
  let normalized ← normalizePoint env store point
  let encoded ← encodeJson env normalized store.limits.max_request_bytes
  if store.limits.max_request_bytes < envelopeBytes + encoded.length then .error bounds
  else
    let st' := if st.full store.limits encoded.length then st.close else st
    match ((Utf8.decodeText encoded).bind (loads env.floats (defaultHooks env.floats))).bind batchPoint with
    | none => .error .uncaught
    | some entry => .ok (st'.push entry encoded.length)

/-- The batches of a plan, the last one included. -/
def PlanState.plan (st : PlanState F) : List (List (Value F)) :=
  if st.batch.isEmpty then st.batches else st.batches ++ [st.batch]

/-- `plan_upsert_batches`. -/
def planUpsertBatches (env : PointEnv F) (store : UpsertStore) (points : Value F) :
    Except UpsertRaised (List (List (Value F))) :=
  if store.closed then .error (failure .closed)
  else match points with
    | .sequence _ items => PlanState.plan <$> items.foldlM (planStep env store) .start
    | _ => .error invalid

/-! ## The request -/

/-- `_decode_json`. -/
def decodeJson (env : PointEnv F) (content : List ℕ) : Except UpsertRaised (Wire F) :=
  if content.isEmpty then .error (failure .malformedResponse)
  else match (Utf8.decodeText content).bind (loads env.floats ⟨fun _ => none, rejectDuplicates⟩) with
    | none => .error (failure .malformedResponse)
    | some value => .ok value

/-- `_require_acknowledged_result`. -/
def requireAcknowledgedResult (value : Wire F) : Except UpsertRaised Unit :=
  match item (codePoints "result") value with
  | some (.bool true) | some (.dict (_ :: _)) | some (.str _) | some (.int _) => .ok ()
  | _ => .error (failure .malformedResponse)

/-- What `upsert_points` returns of the content of a response. -/
def acknowledge (env : PointEnv F) (count : ℕ) (content : List ℕ) : Except UpsertRaised ℕ := do
  let result ← decodeJson env content
  requireAcknowledgedResult result
  return count

/-- `{"points": encoded_points}`. -/
def requestValue (encoded_points : List (Value F)) : Value F :=
  .mapping true [(.str (codePoints "points"), .sequence false encoded_points)]

/-- `upsert_points`, where `request` says what `_request` gives for a body: the content of the response. -/
def upsertPoints (env : PointEnv F) (store : UpsertStore) (request : List ℕ → Except UpsertRaised (List ℕ))
    (points : Value F) : Except UpsertRaised ℕ :=
  if store.closed then .error (failure .closed)
  else match points with
    | .sequence _ items =>
      if store.limits.max_points < items.length then .error bounds
      else if items.isEmpty then .ok 0
      else do
        let encoded_points ← items.mapM (normalizePoint env store)
        let body ← encodeJson env (requestValue encoded_points) (min store.limits.max_request_bytes maxRequestBytes)
        let content ← request body
        acknowledge env encoded_points.length content
    | _ => .error invalid

/-- The document of a normalised point. -/
def normalizedForm (env : PointEnv F) (store : UpsertStore) (point : Value F) : Except UpsertRaised (Wire F) := do
  let normalized ← normalizePoint env store point
  match Value.jsonForm env.floats (sortKeys env.order) normalized with
  | none => .error invalid
  | some w => .ok w

/-! ## A normalised point is accepted again -/

section Again

variable {env : PointEnv F} {store : UpsertStore}

/-- A normalised point with the members of its payload. -/
def pointWire (id : CodePoints) (vector : List F) (sparse : Option (Sparse F))
    (members : List (CodePoints × Wire F)) : Wire F :=
  .dict [(codePoints "id", .str id), (codePoints "payload", .dict members),
    (codePoints "vector", .dict (namedWire vector sparse))]

/-- The point of a batch with the members of its payload. -/
def entryValue (id : CodePoints) (vector : List F) (sparse : Option (Sparse F))
    (members : List (CodePoints × Wire F)) : Value F :=
  .mapping true ([(.str (codePoints "point_id"), .str id),
    (.str (codePoints "vector"), Value.ofWire (.list (vector.map .float))),
    (.str (codePoints "payload"), Value.ofWire (.dict members))] ++
      (sparse.map fun s => (Key.str (codePoints "sparse_vector"), Value.ofWire (sparseWire s))).toList)

/-- The point of a batch is made of the normalised point. -/
theorem batchPoint_pointWire (id : CodePoints) (vector : List F) (sparse : Option (Sparse F))
    (members : List (CodePoints × Wire F)) :
    batchPoint (pointWire id vector sparse members) = some (entryValue id vector sparse members) := by
  cases sparse with
  | none => rfl
  | some s => rfl

/-- The vectors of a point stand in order. -/
theorem sortMembers_namedWire (vector : List F) (sparse : Option (Sparse F)) :
    sortMembers (.dict (namedWire vector sparse)) = .dict (namedWire vector sparse) := by
  have hleaves : ∀ {α : Type} (f : α → Wire F) (l : List α), (∀ a ∈ l, sortMembers (f a) = f a) →
      sortMembers (.list (l.map f)) = .list (l.map f) := by
    intro α f l hf
    rw [sortMembers, sortItems_eq, List.map_map]
    exact congrArg _ (List.map_congr_left hf)
  have hdense : sortMembers (.list (vector.map .float)) = .list (vector.map .float) :=
    hleaves _ _ fun x _ => by rw [sortMembers]
  cases sparse with
  | none =>
    rw [namedWire, sortMembers, Option.map_none, Option.toList_none, sortValues, sortValues, hdense]
    rfl
  | some s =>
    have hindices : sortMembers (.list (s.1.map (Wire.int (F := F)))) = .list (s.1.map .int) :=
      hleaves _ _ fun x _ => by rw [sortMembers]
    have hvalues : sortMembers (.list (s.2.map .float)) = .list (s.2.map .float) :=
      hleaves _ _ fun x _ => by rw [sortMembers]
    have hsparse : sortMembers (sparseWire s) = sparseWire s := by
      rw [sparseWire, sortMembers, sortValues, sortValues, sortValues, hindices, hvalues]
      rfl
    rw [namedWire, sortMembers, Option.map_some, Option.toList_some, sortValues, sortValues, sortValues, hdense,
      hsparse]
    rfl

variable {id : CodePoints} {vector : List F} {sparse : Option (Sparse F)} {payload : List (Key F × Value F)}
  {members : List (CodePoints × Wire F)}

/-- A normalised point is written as its document. -/
theorem jsonForm_pointValue {w : Wire F} :
    Value.jsonForm env.floats (sortKeys env.order) (pointValue id vector sparse payload) = some w ↔
      ∃ members, Value.jsonForm env.floats (sortKeys env.order) (.mapping true payload) = some (.dict members) ∧
        pointWire id vector sparse members = w := by
  have hsort : ∀ members : List (CodePoints × Wire F),
      (sortKeys env.order [(.str (codePoints "id"), .str id),
        (.str (codePoints "vector"), .dict (namedWire vector sparse)),
        (.str (codePoints "payload"), .dict members)]).bind (Value.nameMembers env.floats) =
      some [(codePoints "id", .str id), (codePoints "payload", .dict members),
        (codePoints "vector", .dict (namedWire vector sparse))] := by
    intro members
    have hmembers := sortKeys_str env.order [(codePoints "id", Wire.str id),
      (codePoints "vector", .dict (namedWire vector sparse)), (codePoints "payload", .dict members)]
    rw [List.map_cons, List.map_cons, List.map_cons, List.map_nil] at hmembers
    rw [hmembers, Option.bind_some, nameMembers_str]
    rfl
  have hid : Value.jsonForm env.floats (sortKeys env.order) (.str id) = some (.str id) := by
    rw [Value.jsonForm]
  rw [pointValue, Value.jsonForm, Value.jsonMembers, Value.jsonMembers, Value.jsonMembers, Value.jsonMembers, hid,
    jsonForm_ofWire, sortMembers_namedWire, Option.bind_some, Option.bind_some]
  cases hpayload : Value.jsonForm env.floats (sortKeys env.order) (.mapping true payload) with
  | none => simp
  | some v =>
    obtain ⟨members, rfl⟩ := jsonForm_dict hpayload
    simp only [Option.bind_some, Option.map_some, hsort, Option.some.injEq, Wire.dict.injEq]
    constructor
    · intro h
      exact ⟨members, rfl, h⟩
    · rintro ⟨members', heq, h⟩
      subst heq
      exact h

/-- The fields of what is read of a dictionary have texts as keys. -/
theorem keys_ofMembers (members : List (CodePoints × Wire F)) :
    ((Value.ofMembers members).all fun m => m.1.text?.isSome) = true := by
  rw [Value.ofMembers_eq, List.all_map]
  exact List.all_eq_true.mpr fun m _ => rfl

/-- A dictionary that is written is accepted as a payload. -/
theorem validateJsonMapping_ofWire (hwritable : (Wire.dict members).all (writable env.floats) = true)
    (hspelled : (Wire.dict members).all (wellSpelled false) = true) :
    validateJsonMapping env (some (Value.ofWire (.dict members))) = .ok (Value.ofMembers members) := by
  have hencoded : ((Value.jsonForm env.floats Value.unsorted (Value.ofWire (.dict members))).bind
      (dumps env.floats false)).bind (loads env.floats (defaultHooks env.floats)) = some (.dict members) := by
    rw [jsonForm_unsorted_ofWire, Option.bind_some, dumps_eq_some.mpr ⟨hwritable, rfl⟩, Option.bind_some]
    exact loads_render (defaultHooks_keeps env.floats) (all_and hwritable hspelled)
  rw [Value.ofWire] at hencoded ⊢
  rw [validateJsonMapping]
  simp only [hencoded, keys_ofMembers]
  rfl

/-- The text and the version of a point are those of what is read of its payload. -/
theorem checkHybrid_entry (h : Checked env store id vector sparse payload)
    (hform : Value.jsonForm env.floats (sortKeys env.order) (.mapping true payload) = some (.dict members))
    {fields : List (Key F × Value F)}
    (hfields : get? (codePoints "sparse_vector") fields = sparse.map fun s => Value.ofWire (sparseWire s)) :
    checkHybrid env store fields (Value.ofMembers members) = .ok (sparse, Value.ofMembers members) := by
  have hhybrid := h.hybrid
  unfold checkHybrid
  cases sparse with
  | none =>
    have hdisabled : sparseEnabled store = false := hhybrid
    rw [hdisabled, hfields]
    rfl
  | some s =>
    obtain ⟨henabled, hchecked⟩ := hhybrid
    obtain ⟨text, htext, hindices, hsame⟩ := hchecked.lexical
    have hversion := get?_written h.proper hform hchecked.version
    have haccepted : versionAccepted (some (Value.str (F := F) hybridIndexVersion)) = true := by
      rw [versionAccepted, beq_self_eq_true, Bool.or_true]
    have hsparse : checkSparse env store fields (Value.ofMembers members) text = .ok s := by
      unfold checkSparse
      rw [hfields, hversion]
      simp only [Option.map_some, Option.getD_some, validateSparseVector_wire hchecked.sparse]
      exact if_pos ⟨hindices, hsame, haccepted⟩
    rw [henabled, get?_written h.proper hform htext]
    simp only [hsparse]
    rw [if_pos trivial]
    show Except.ok (some s, setItem _ _ _) = _
    rw [setItem_of_get? hversion]

/-- A normalised point that is given as a point of a batch is normalised again, with the payload that was
read. -/
theorem normalizePoint_entry (h : Checked env store id vector sparse payload)
    (hform : Value.jsonForm env.floats (sortKeys env.order) (.mapping true payload) = some (.dict members)) :
    normalizePoint env store (entryValue id vector sparse members) =
      .ok (pointValue id vector sparse (Value.ofMembers members)) := by
  obtain ⟨octets, hoctets⟩ := h.written
  obtain ⟨w, hw, hwritable, -⟩ := encodeJson_ok.mp hoctets
  have heq : w = .dict members := Option.some.inj (hw.symm.trans hform)
  subst heq
  have hfields : ∃ fields, entryValue id vector sparse members = .mapping true fields ∧
      get? (codePoints "point_id") fields = some (.str id) ∧
      get? (codePoints "vector") fields = some (Value.ofWire (.list (vector.map .float))) ∧
      get? (codePoints "payload") fields = some (Value.ofWire (.dict members)) ∧
      get? (codePoints "sparse_vector") fields = sparse.map fun s => Value.ofWire (sparseWire s) := by
    refine ⟨_, rfl, rfl, rfl, rfl, ?_⟩
    cases sparse with
    | none => rfl
    | some s => rfl
  obtain ⟨fields, hentry, hid, hvector, hpayload, hsparse⟩ := hfields
  have hscope : ∀ name ∈ scopeFields, checkScopeField (Value.ofMembers members) name = .ok () := by
    intro name hname
    obtain ⟨s, hget, hbounded⟩ := checkScopeField_ok.mp (h.scope name hname)
    exact checkScopeField_ok.mpr ⟨s, get?_written h.proper hform hget, hbounded⟩
  have hunits : scopeFields.mapM (checkScopeField (Value.ofMembers members)) = .ok (scopeFields.map fun _ => ()) := by
    rw [mapM_ok, List.forall₂_map_right_iff]
    exact List.forall₂_same.mpr hscope
  have hpoint : validateId (some (.str id : Value F)) = .ok id := if_pos h.id_bounded
  obtain ⟨octets', hagain, -⟩ := encodeJson_again hform hoctets (encodeJson_ok.mp hoctets).choose_spec.2.2.2
  rw [Value.ofWire] at hagain
  rw [hentry, normalizePoint, hid, hvector, hpayload, hpoint,
    validateVector_floats h.vector_ne h.vector_length h.vector_finite,
    validateJsonMapping_ofWire hwritable (Value.wellSpelled_jsonForm h.proper hform)]
  simp only [bind, Except.bind, h.dimensions, hunits, checkHybrid_entry h hform hsparse, hagain]
  rfl

end Again

/-! ## The octets of a request -/

section Octets

variable {env : PointEnv F} {store : UpsertStore}

/-- The octets of a request for points of which each has these. -/
def requestOctets (parts : List (List ℕ)) : List ℕ :=
  codePoints "\x7b\"points\":[" ++ [0x2c].intercalate parts ++ codePoints "]\x7d"

/-- A request is encoded point by point. -/
theorem encodeText_request {ws : List (Wire F)} {parts : List (List ℕ)}
    (h : List.Forall₂ (fun w part => Utf8.encodeText (render env.floats false w) = some part) ws parts) :
    Utf8.encodeText (render env.floats false (.dict [(codePoints "points", .list ws)])) =
      some (requestOctets parts) := by
  have hcomma : Utf8.encodeText [0x2c] = some [0x2c] := rfl
  have hparts := Utf8.encodeText_intercalate hcomma (List.forall₂_map_left_iff.mpr h)
  have hrender : render env.floats false (.dict [(codePoints "points", .list ws)]) =
      codePoints "\x7b\"points\":[" ++ [0x2c].intercalate (ws.map (render env.floats false)) ++
        codePoints "]\x7d" := by
    rw [render, renderMembers_eq, List.map_cons, List.map_nil, List.intercalate_singleton, renderMember, render,
      renderItems_eq]
    have hopen : codePoints "\x7b\"points\":[" = 0x7b :: (quoted false (codePoints "points") ++ [0x3a, 0x5b]) := by
      decide
    have hclose : codePoints "]\x7d" = [0x5d, 0x7d] := by decide
    rw [hopen, hclose]
    simp only [List.cons_append, List.append_assoc, List.nil_append]
  rw [hrender]
  exact Utf8.encodeText_append (Utf8.encodeText_append rfl hparts) rfl

/-- The octets of a request: those of the points, and one between any two. -/
theorem length_requestOctets (parts : List (List ℕ)) : (requestOctets parts).length =
    envelopeBytes + ((parts.map List.length).sum + (parts.length - 1)) := by
  have hlength := (intercalate_perm [0x2c] parts).length_eq
  have hopen : (codePoints "\x7b\"points\":[").length = 11 := by decide
  have hclose : (codePoints "]\x7d").length = 2 := by decide
  have henvelope : envelopeBytes = 13 := by decide
  rw [List.length_append, List.length_flatten, List.length_flatten, List.map_replicate, List.sum_replicate,
    List.length_singleton, smul_eq_mul, mul_one] at hlength
  rw [requestOctets, List.length_append, List.length_append, hlength, hopen, hclose, henvelope]
  omega

/-- One more point in a request. -/
theorem length_requestOctets_push (parts : List (List ℕ)) (part : List ℕ) :
    (requestOctets (parts ++ [part])).length =
      (requestOctets parts).length + (part.length + if parts.isEmpty then 0 else 1) := by
  rw [length_requestOctets, length_requestOctets, List.map_append, List.sum_append, List.length_append]
  cases parts with
  | nil => simp
  | cons first rest =>
    simp only [List.map_cons, List.map_nil, List.sum_cons, List.sum_nil, List.length_cons, List.length_nil,
      List.isEmpty_cons, Bool.false_eq_true, if_false]
    omega

end Octets

/-! ## A point of a plan -/

section Points

variable {env : PointEnv F} {store : UpsertStore}

/-- A point of a batch, with the document of the normalised point and its octets. -/
structure Planned (env : PointEnv F) (store : UpsertStore) (entry : Value F) (w : Wire F) (octets : List ℕ) :
    Prop where
  made : batchPoint w = some entry
  again : ∃ n, normalizePoint env store entry = .ok n ∧
    Value.jsonForm env.floats (sortKeys env.order) n = some (sortMembers w)
  sound : w.all (sound env.floats false) = true
  encoded : Utf8.encodeText (render env.floats false w) = some octets

variable {id : CodePoints} {vector : List F} {sparse : Option (Sparse F)} {members : List (CodePoints × Wire F)}

/-- The texts of a normalised point can be spelled if those of its payload can. -/
theorem wellSpelled_pointWire (h : (Wire.dict members).all (wellSpelled false) = true) :
    (pointWire id vector sparse members).all (wellSpelled false) = true := by
  have hleaves : ∀ {α : Type} (f : α → Wire F) (l : List α), (∀ a, (f a).all (wellSpelled false) = true) →
      (Wire.list (l.map f)).all (wellSpelled false) = true := by
    intro α f l hf
    refine all_list.mpr ⟨rfl, fun w hw => ?_⟩
    obtain ⟨a, -, rfl⟩ := List.mem_map.mp hw
    exact hf a
  have hdense : (Wire.list (vector.map .float)).all (wellSpelled false) = true := hleaves _ _ fun _ => rfl
  have hnamed : (Wire.dict (namedWire vector sparse)).all (wellSpelled false) = true := by
    cases sparse with
    | none => exact all_dict.mpr ⟨rfl, by simpa [namedWire] using hdense⟩
    | some s =>
      have hindices : (Wire.list (s.1.map (Wire.int (F := F)))).all (wellSpelled false) = true :=
        hleaves _ _ fun _ => rfl
      have hvalues : (Wire.list (s.2.map .float)).all (wellSpelled false) = true := hleaves _ _ fun _ => rfl
      have hsparse : (sparseWire s).all (wellSpelled false) = true :=
        all_dict.mpr ⟨rfl, by simpa using ⟨hindices, hvalues⟩⟩
      exact all_dict.mpr ⟨rfl, by simpa [namedWire] using ⟨hdense, hsparse⟩⟩
  have hid : (Wire.str (F := F) id).all (wellSpelled false) = true := rfl
  exact all_dict.mpr ⟨rfl, by simpa using ⟨hid, h, hnamed⟩⟩

/-- The members of a normalised point stand in order. -/
theorem sortMembers_pointWire {members' : List (CodePoints × Wire F)}
    (h : sortMembers (.dict members) = .dict members') :
    sortMembers (pointWire id vector sparse members) = pointWire id vector sparse members' := by
  have hid : sortMembers (.str id : Wire F) = .str id := by rw [sortMembers]
  rw [pointWire, sortMembers, sortValues, sortValues, sortValues, sortValues, hid, h, sortMembers_namedWire]
  rfl

/-- A point that was normalised and encoded gives one of a batch. -/
theorem planned_of_normalizePoint {p n : Value F} {w : Wire F} {octets : List ℕ} {max : ℕ}
    (hproper : p.Proper env.floats) (h : normalizePoint env store p = .ok n)
    (hform : Value.jsonForm env.floats (sortKeys env.order) n = some w)
    (hencoded : encodeJson env n max = .ok octets) : ∃ entry, Planned env store entry w octets := by
  obtain ⟨id, vector, sparse, payload, rfl, hchecked⟩ := normalizePoint_ok hproper h
  obtain ⟨v, hv, hwritable, htext, -⟩ := encodeJson_ok.mp hencoded
  have heq : v = w := Option.some.inj (hv.symm.trans hform)
  subst heq
  obtain ⟨members, hpayload, rfl⟩ := jsonForm_pointValue.mp hform
  have hspelled : (pointWire id vector sparse members).all (wellSpelled false) = true :=
    wellSpelled_pointWire (Value.wellSpelled_jsonForm hchecked.proper hpayload)
  have hagain : Value.jsonForm env.floats (sortKeys env.order) (Value.ofWire (.dict members)) =
      some (sortMembers (.dict members)) := jsonForm_ofWire env.order (.dict members)
  obtain ⟨members', hmembers⟩ : ∃ members', sortMembers (.dict members) = .dict members' := ⟨_, by rw [sortMembers]⟩
  rw [hmembers, Value.ofWire] at hagain
  refine ⟨entryValue id vector sparse members, batchPoint_pointWire .., ?_, all_and hwritable hspelled, htext⟩
  refine ⟨_, normalizePoint_entry hchecked hpayload, ?_⟩
  rw [sortMembers_pointWire hmembers]
  exact jsonForm_pointValue.mpr ⟨members', hagain, rfl⟩

end Points

/-! ## The loop -/

section Loop

variable {env : PointEnv F} {store : UpsertStore}

/-- A batch that keeps the limits, with the documents of its points and their octets. -/
structure Filled (env : PointEnv F) (store : UpsertStore) (batch : List (Value F))
    (parts : List (Wire F × List ℕ)) : Prop where
  planned : List.Forall₂ (fun entry part => Planned env store entry part.1 part.2) batch parts
  count : batch.length ≤ store.limits.max_points
  size : batch ≠ [] → (requestOctets (parts.map Prod.snd)).length ≤ store.limits.max_request_bytes

/-- What the planner holds after points with these documents: the documents of the batches and of the last
one, whose request has the octets that were counted. -/
structure PlanInv (env : PointEnv F) (store : UpsertStore) (ws : List (Wire F)) (st : PlanState F)
    (closed : List (List (Wire F × List ℕ))) (parts : List (Wire F × List ℕ)) : Prop where
  forms : ws = (closed.flatten ++ parts).map Prod.fst
  batches : List.Forall₂ (fun batch parts => batch ≠ [] ∧ Filled env store batch parts) st.batches closed
  batch : Filled env store st.batch parts
  bytes : st.batch_bytes = (requestOctets (parts.map Prod.snd)).length

/-- An empty batch keeps the limits. -/
theorem filled_nil : Filled env store [] [] := ⟨.nil, Nat.zero_le _, fun h => absurd rfl h⟩

/-- The planner before the first point. -/
theorem planInv_start : PlanInv env store [] .start [] [] := ⟨rfl, .nil, filled_nil, rfl⟩

variable {st st' : PlanState F} {ws : List (Wire F)} {closed : List (List (Wire F × List ℕ))}
  {parts : List (Wire F × List ℕ)}

/-- One more step of the loop: the point is normalised, and it is one of the batch that has a place for it. -/
theorem planStep_ok {p : Value F} (hproper : p.Proper env.floats) (h : planStep env store st p = .ok st') :
    ∃ w octets entry, normalizedForm env store p = .ok w ∧ Planned env store entry w octets ∧
      envelopeBytes + octets.length ≤ store.limits.max_request_bytes ∧
      st' = (if st.full store.limits octets.length then st.close else st).push entry octets.length := by
  obtain ⟨n, hn, h⟩ := except_bind_ok.mp h
  obtain ⟨octets, hoctets, h⟩ := except_bind_ok.mp h
  obtain ⟨w, hform, -, htext, -⟩ := encodeJson_ok.mp hoctets
  obtain ⟨entry, hplanned⟩ := planned_of_normalizePoint hproper hn hform hoctets
  have hread : ((Utf8.decodeText octets).bind (loads env.floats (defaultHooks env.floats))).bind batchPoint =
      some entry := by
    rw [Utf8.decodeText_encodeText htext, Option.bind_some,
      loads_render (defaultHooks_keeps env.floats) hplanned.sound, Option.bind_some, hplanned.made]
  have hnormalized : normalizedForm env store p = .ok w := by
    unfold normalizedForm
    rw [hn]
    show (match Value.jsonForm env.floats (sortKeys env.order) n with
      | none => .error invalid
      | some w => .ok w) = Except.ok w
    rw [hform]
  split at h
  · cases h
  · next hlong =>
    simp only [hread, Except.ok.injEq] at h
    exact ⟨w, octets, entry, hnormalized, hplanned, not_lt.mp hlong, h.symm⟩

/-- A batch with points can be closed. -/
theorem planInv_close (h : PlanInv env store ws st closed parts) (hne : st.batch ≠ []) :
    PlanInv env store ws st.close (closed ++ [parts]) [] where
  forms := by rw [h.forms, List.flatten_append, List.flatten_singleton, List.append_nil]
  batches := List.rel_append h.batches (.cons ⟨hne, h.batch⟩ .nil)
  batch := filled_nil
  bytes := rfl

/-- A batch takes a point that it has a place for. -/
theorem planInv_push (h : PlanInv env store ws st closed parts) {entry : Value F} {w : Wire F} {octets : List ℕ}
    (hplanned : Planned env store entry w octets) (hcount : st.batch.length < store.limits.max_points)
    (hsize : st.batch_bytes + (octets.length + if st.batch.isEmpty then 0 else 1) ≤ store.limits.max_request_bytes) :
    PlanInv env store (ws ++ [w]) (st.push entry octets.length) closed (parts ++ [(w, octets)]) := by
  have hlength : st.batch.length = parts.length := h.batch.planned.length_eq
  have hempty : (parts.map Prod.snd).isEmpty = st.batch.isEmpty := by
    rw [Bool.eq_iff_iff, List.isEmpty_iff_length_eq_zero, List.isEmpty_iff_length_eq_zero, List.length_map, hlength]
  have hbytes : st.batch_bytes + (octets.length + if st.batch.isEmpty then 0 else 1) =
      (requestOctets ((parts ++ [(w, octets)]).map Prod.snd)).length := by
    rw [List.map_append, List.map_singleton, length_requestOctets_push, h.bytes, hempty]
  refine ⟨?_, h.batches, ⟨?_, ?_, ?_⟩, hbytes⟩
  · rw [h.forms]
    simp only [List.map_append, List.map_cons, List.map_nil, List.append_assoc]
  · exact List.rel_append h.batch.planned (.cons hplanned .nil)
  · show (st.batch ++ [entry]).length ≤ _
    rw [List.length_append, List.length_singleton]
    exact hcount
  · intro _
    rw [← hbytes]
    exact hsize

/-- One step of the loop keeps what the planner holds. -/
theorem planInv_step (hinv : PlanInv env store ws st closed parts) {p : Value F} (hproper : p.Proper env.floats)
    (h : planStep env store st p = .ok st') :
    ∃ w closed' parts', normalizedForm env store p = .ok w ∧ PlanInv env store (ws ++ [w]) st' closed' parts' := by
  obtain ⟨w, octets, entry, hform, hplanned, hfits, rfl⟩ := planStep_ok hproper h
  -- a batch that is begun has a place for a point that fits alone
  have hbegun : ∀ {st : PlanState F} {closed parts}, st.batch = [] → PlanInv env store ws st closed parts →
      PlanInv env store (ws ++ [w]) (st.push entry octets.length) closed (parts ++ [(w, octets)]) := by
    intro st closed parts hnil hinv
    have hparts : parts = [] := by
      have hlength := hinv.batch.planned.length_eq
      rw [hnil] at hlength
      exact List.length_eq_zero_iff.mp hlength.symm
    refine planInv_push hinv hplanned ?_ ?_
    · rw [hnil]
      exact store.limits.points_range.1
    · have hbytes : st.batch_bytes = envelopeBytes := by
        rw [hinv.bytes, hparts]
        rfl
      rw [hbytes, hnil]
      exact hfits
  by_cases hne : st.batch = []
  · have hplace : st.full store.limits octets.length = false := by
      unfold PlanState.full
      rw [hne]
      rfl
    rw [hplace]
    exact ⟨w, closed, _, hform, hbegun hne hinv⟩
  · cases hfull : st.full store.limits octets.length with
    | true => exact ⟨w, closed ++ [parts], _, hform, hbegun rfl (planInv_close hinv hne)⟩
    | false =>
      have hnotEmpty : st.batch.isEmpty = false := by simpa using hne
      have hplace : ¬ store.limits.max_points ≤ st.batch.length ∧
          ¬ store.limits.max_request_bytes < st.batch_bytes + 1 + octets.length := by
        unfold PlanState.full at hfull
        simpa [hnotEmpty] using hfull
      refine ⟨w, closed, _, hform, planInv_push hinv hplanned (by omega) ?_⟩
      rw [hnotEmpty, if_neg (by simp)]
      omega

/-- The loop keeps what the planner holds. -/
theorem planInv_run {points : List {p : Value F // p.Proper env.floats}}
    (hinv : PlanInv env store ws st closed parts)
    (h : (points.map Subtype.val).foldlM (planStep env store) st = .ok st') :
    ∃ ws' closed' parts', points.mapM (fun p => normalizedForm env store p.val) = .ok ws' ∧
      PlanInv env store (ws ++ ws') st' closed' parts' := by
  induction points generalizing ws st closed parts with
  | nil =>
    cases h
    exact ⟨[], closed, parts, rfl, (List.append_nil ws).symm ▸ hinv⟩
  | cons p points ih =>
    rw [List.map_cons, List.foldlM_cons] at h
    obtain ⟨next, hnext, h⟩ := except_bind_ok.mp h
    obtain ⟨w, closed', parts', hform, hinv'⟩ := planInv_step hinv p.property hnext
    obtain ⟨ws', closed'', parts'', hforms, hlast⟩ := ih hinv' h
    refine ⟨w :: ws', closed'', parts'', ?_, ?_⟩
    · exact mapM_ok.mpr (.cons hform (mapM_ok.mp hforms))
    · rw [List.append_cons]
      exact hlast

end Loop

/-! ## A batch is sent -/

section Sending

variable {env : PointEnv F} {store : UpsertStore}

/-- A batch that is sent: it has the normalised points, which are normalised to the same documents, with the
members in the order of their names, and which are what the body of the request says. The body has that many
octets, and whatever comes back is the answer to it. -/
structure Sendable (env : PointEnv F) (store : UpsertStore) (batch : List (Value F)) (ws : List (Wire F))
    (bytes : ℕ) : Prop where
  points : batch.map some = ws.map batchPoint
  nonempty : batch ≠ []
  count : batch.length ≤ store.limits.max_points
  again : List.Forall₂ (fun entry w => normalizedForm env store entry = .ok (sortMembers w)) batch ws
  sent : ∃ body, body.length = bytes ∧ bytes ≤ store.limits.max_request_bytes ∧
    (Utf8.decodeText body).bind (loads env.floats (defaultHooks env.floats)) =
      some (.dict [(codePoints "points", .list (ws.map sortMembers))]) ∧
    ∀ request, upsertPoints env store request (.sequence false batch) =
      request body >>= acknowledge env batch.length

variable {batch : List (Value F)} {parts : List (Wire F × List ℕ)} {ws : List (Wire F)}

/-- The points of a batch are normalised again. -/
theorem mapM_normalizePoint (h : List.Forall₂ (fun entry part => Planned env store entry part.1 part.2) batch parts) :
    ∃ ns, batch.mapM (normalizePoint env store) = .ok ns ∧ ns.length = batch.length ∧
      Value.jsonItems env.floats (sortKeys env.order) ns = some (parts.map fun part => sortMembers part.1) := by
  induction h with
  | nil => exact ⟨[], rfl, rfl, rfl⟩
  | @cons entry part batch parts hplanned _ ih =>
    obtain ⟨n, hn, hform⟩ := hplanned.again
    obtain ⟨ns, hns, hlength, hforms⟩ := ih
    refine ⟨n :: ns, mapM_ok.mpr (.cons hn (mapM_ok.mp hns)), by rw [List.length_cons, List.length_cons, hlength], ?_⟩
    rw [Value.jsonItems, hform, hforms]
    rfl

/-- The document of a request. -/
theorem jsonForm_requestValue {ns : List (Value F)}
    (h : Value.jsonItems env.floats (sortKeys env.order) ns = some (ws.map sortMembers)) :
    Value.jsonForm env.floats (sortKeys env.order) (requestValue ns) =
      some (sortMembers (.dict [(codePoints "points", .list ws)])) := by
  have hsorted : sortMembers (.dict [(codePoints "points", .list ws)]) =
      .dict [(codePoints "points", .list (ws.map sortMembers))] := by
    rw [sortMembers, sortValues, sortValues, sortMembers, sortItems_eq]
    rfl
  have hmembers := sortKeys_str env.order [(codePoints "points", Wire.list (ws.map sortMembers))]
  rw [List.map_singleton] at hmembers
  rw [hsorted, requestValue, Value.jsonForm, Value.jsonMembers, Value.jsonMembers, Value.jsonForm, h,
    Option.map_some, Option.bind_some, Option.map_some, Option.bind_some, hmembers, Option.bind_some, nameMembers_str]
  rfl

/-- A batch that keeps the limits is sent. -/
theorem sendable_of_filled (hopen : store.closed = false) (h : Filled env store batch parts) (hne : batch ≠ []) :
    Sendable env store batch (parts.map Prod.fst) (requestOctets (parts.map Prod.snd)).length := by
  obtain ⟨ns, hns, hlength, hforms⟩ := mapM_normalizePoint h.planned
  have hsorted : (parts.map fun part => sortMembers part.1) = (parts.map Prod.fst).map sortMembers := by
    rw [List.map_map]
    rfl
  rw [hsorted] at hforms
  have hsound : (Wire.dict [(codePoints "points", .list (parts.map Prod.fst))]).all (sound env.floats false) =
      true := by
    have hlist : (Wire.list (parts.map Prod.fst)).all (sound env.floats false) = true := by
      refine all_list.mpr ⟨rfl, fun w hw => ?_⟩
      obtain ⟨part, hpart, rfl⟩ := List.mem_map.mp hw
      obtain ⟨entry, -, hplanned⟩ := related_right h.planned hpart
      exact hplanned.sound
    exact all_dict.mpr ⟨rfl, by simpa using hlist⟩
  have hwritable : (sortMembers (.dict [(codePoints "points", .list (parts.map Prod.fst))])).all
      (writable env.floats) = true :=
    writable_sortMembers (all_imp (fun w hw => (Bool.and_eq_true_iff.mp hw).1) hsound)
  have hspelled : (sortMembers (.dict [(codePoints "points", .list (parts.map Prod.fst))])).all
      (wellSpelled false) = true :=
    wellSpelled_sortMembers (all_imp (fun w hw => (Bool.and_eq_true_iff.mp hw).2) hsound)
  have hparts : List.Forall₂ (fun w part => Utf8.encodeText (render env.floats false w) = some part)
      (parts.map Prod.fst) (parts.map Prod.snd) := by
    rw [List.forall₂_map_left_iff, List.forall₂_map_right_iff]
    refine List.forall₂_same.mpr fun part hpart => ?_
    obtain ⟨entry, -, hplanned⟩ := related_right h.planned hpart
    exact hplanned.encoded
  obtain ⟨body, hbody, hbytes⟩ := Utf8.encodeText_perm
    (render_sortMembers (.dict [(codePoints "points", .list (parts.map Prod.fst))])).symm (encodeText_request hparts)
  have hfits := h.size hne
  have hencoded : encodeJson env (requestValue ns) (min store.limits.max_request_bytes maxRequestBytes) =
      .ok body := by
    rw [min_eq_left store.limits.request_range.2]
    exact encodeJson_ok.mpr ⟨_, jsonForm_requestValue hforms, hwritable, hbody, hbytes ▸ hfits⟩
  refine ⟨?_, hne, h.count, ?_, body, hbytes, hfits, ?_, ?_⟩
  · rw [← List.forall₂_eq_eq_eq, List.forall₂_map_left_iff, List.forall₂_map_right_iff, List.forall₂_map_right_iff]
    exact h.planned.imp fun entry part hplanned => hplanned.made.symm
  · rw [List.forall₂_map_right_iff]
    refine h.planned.imp fun entry part hplanned => ?_
    obtain ⟨n, hn, hform⟩ := hplanned.again
    unfold normalizedForm
    rw [hn]
    show (match Value.jsonForm env.floats (sortKeys env.order) n with
      | none => .error invalid
      | some w => .ok w) = Except.ok _
    rw [hform]
  · rw [Utf8.decodeText_encodeText hbody, Option.bind_some,
      loads_render (defaultHooks_keeps env.floats) (all_and hwritable hspelled), sortMembers, sortValues,
      sortValues, sortMembers, sortItems_eq]
    rfl
  · intro request
    have hcount : ¬ store.limits.max_points < batch.length := not_lt.mpr h.count
    rw [upsertPoints, hopen, if_neg (by simp)]
    show (if _ then _ else _) = _
    rw [if_neg hcount, if_neg (by simpa using hne), hns]
    show (encodeJson env (requestValue ns) _ >>= _) = _
    rw [hencoded]
    show (request body >>= acknowledge env ns.length) = _
    rw [hlength]

/-- A batch of the planner is sent, with as many octets as were counted. -/
theorem sendable_of_planInv (hopen : store.closed = false) {st : PlanState F}
    {closed : List (List (Wire F × List ℕ))} (h : PlanInv env store ws st closed parts) (hne : st.batch ≠ []) :
    Sendable env store st.batch (parts.map Prod.fst) st.batch_bytes := by
  rw [h.bytes]
  exact sendable_of_filled hopen h.batch hne

end Sending

/-- Whenever the planner returns, its batches are the normalised points, each once and in order, and each batch is
sent. While it runs, the octets that it counts are those of the request for the batch that it fills. -/
theorem upsert_plan_complete (env : PointEnv F) (store : UpsertStore) (isTuple : Bool)
    (points : List {p : Value F // p.Proper env.floats}) {batches : List (List (Value F))}
    (h : planUpsertBatches env store (.sequence isTuple (points.map Subtype.val)) = .ok batches) :
    (∃ wss, points.mapM (fun p => normalizedForm env store p.val) = .ok wss.flatten ∧
      List.Forall₂ (fun batch ws => ∃ bytes, Sendable env store batch ws bytes) batches wss) ∧
    ∀ k st, ((points.take k).map Subtype.val).foldlM (planStep env store) .start = .ok st → st.batch ≠ [] →
      ∃ ws, Sendable env store st.batch ws st.batch_bytes := by
  unfold planUpsertBatches at h
  split at h
  · cases h
  · next hclosed =>
    have hopen : store.closed = false := Bool.eq_false_iff.mpr hclosed
    refine ⟨?_, ?_⟩
    · obtain ⟨st, hrun, rfl⟩ := except_map_ok.mp h
      obtain ⟨ws, closed, parts, hforms, hinv⟩ := planInv_run planInv_start hrun
      have hws : ws = (closed.flatten ++ parts).map Prod.fst := hinv.forms
      have hclosed : List.Forall₂ (fun batch ws => ∃ bytes, Sendable env store batch ws bytes) st.batches
          (closed.map (List.map Prod.fst)) := by
        rw [List.forall₂_map_right_iff]
        exact hinv.batches.imp fun batch parts hbatch => ⟨_, sendable_of_filled hopen hbatch.2 hbatch.1⟩
      by_cases hne : st.batch = []
      · have hparts : parts = [] := by
          have hlength := hinv.batch.planned.length_eq
          rw [hne] at hlength
          exact List.length_eq_zero_iff.mp hlength.symm
        have hplan : st.plan = st.batches := by
          unfold PlanState.plan
          rw [hne]
          rfl
        refine ⟨closed.map (List.map Prod.fst), ?_, hplan ▸ hclosed⟩
        rw [← List.map_flatten, hforms, hws, hparts, List.append_nil]
      · have hplan : st.plan = st.batches ++ [st.batch] := by
          unfold PlanState.plan
          rw [if_neg (by simpa using hne)]
        refine ⟨closed.map (List.map Prod.fst) ++ [parts.map Prod.fst], ?_, ?_⟩
        · rw [List.flatten_append, List.flatten_singleton, ← List.map_flatten, ← List.map_append, hforms, hws]
        · rw [hplan]
          exact List.rel_append hclosed (.cons ⟨_, sendable_of_planInv hopen hinv hne⟩ .nil)
    · intro k st hrun hne
      obtain ⟨ws, closed, parts, -, hinv⟩ := planInv_run planInv_start hrun
      exact ⟨_, sendable_of_planInv hopen hinv hne⟩

/-! ## A plan -/

/-- A mapping with different keys is proper if its values are. -/
theorem proper_mapping {fl : Floats F} {isDict : Bool} {items : List (Key F × Value F)}
    (hkeys : (items.map fun m => m.1.text?).Nodup) (hvalues : ∀ m ∈ items, m.2.Proper fl) :
    (Value.mapping isDict items).Proper fl := by
  rw [Value.Proper, Value.properFields_iff]
  refine ⟨(List.pairwise_map.mp hkeys).imp fun hne => .inl ?_, hvalues⟩
  intro heq
  exact hne (congrArg Key.text? heq)

/-- Whole numbers in place of those with a fraction, and texts of small letters. -/
def wholeEnv : PointEnv ℕ where
  floats := wholeFloats
  float n := if 0 ≤ n then some n.toNat else none
  order _ _ := true
  pack x := some x
  zero := 0
  add := (· + ·)
  log n := n - 1
  lower text := text
  isWord c := 0x61 ≤ c && c ≤ 0x7a
  md5 _ := 0

/-- A store for two dimensions and sparse vectors, whose requests have at most 404 octets. -/
def smallStore : UpsertStore where
  limits := { UpsertLimits.default with max_request_bytes := 404, request_range := by decide }
  index_schema := some ⟨2, true⟩
  closed := false

/-- A point of a tenant. -/
def samplePoint (id : String) : Value ℕ :=
  .mapping true [(.str (codePoints "point_id"), .str (codePoints id)),
    (.str (codePoints "vector"), .sequence true [.int 3, .float 1]),
    (.str (codePoints "payload"), .mapping true [(.str (codePoints "workspace_id"), .str (codePoints "w")),
      (.str (codePoints "tenant_id"), .str (codePoints "t")), (.str (codePoints "text"), .str (codePoints "a b")),
      (.str (codePoints "collection_id"), .str (codePoints "c"))])]

/-- The keys of a point are different. -/
theorem samplePoint_proper (id : String) : (samplePoint id).Proper wholeEnv.floats := by
  refine proper_mapping (of_decide_eq_true rfl) ?_
  simp only [List.forall_mem_cons, List.not_mem_nil, false_imp_iff, implies_true, and_true]
  refine ⟨by simp only [Value.Proper], ?_, proper_mapping (of_decide_eq_true rfl) ?_⟩
  · simp only [Value.Proper, Value.ProperItems, and_true]
  · simp only [List.forall_mem_cons, List.not_mem_nil, false_imp_iff, implies_true, and_true, Value.Proper]

/-- Three points of which two fill a request. -/
def samplePoints : List {p : Value ℕ // p.Proper wholeEnv.floats} :=
  ["a", "b", "c"].map fun id => ⟨samplePoint id, samplePoint_proper id⟩

/-- Three points of which two fill a request are sent in two batches. -/
theorem upsert_plan_complete_filled :
    ∃ batches, planUpsertBatches wholeEnv smallStore (.sequence false (samplePoints.map Subtype.val)) = .ok batches ∧
      batches.map List.length = [2, 1] ∧
      ∃ wss, List.Forall₂ (fun batch ws => ∃ bytes, Sendable wholeEnv smallStore batch ws bytes) batches wss := by
  have hplan : (planUpsertBatches wholeEnv smallStore (.sequence false (samplePoints.map Subtype.val))).toOption.map
      (List.map List.length) = some [2, 1] := by decide +kernel
  cases h : planUpsertBatches wholeEnv smallStore (.sequence false (samplePoints.map Subtype.val)) with
  | error e =>
    rw [h] at hplan
    cases hplan
  | ok batches =>
    rw [h] at hplan
    obtain ⟨⟨wss, -, hsent⟩, -⟩ := upsert_plan_complete wholeEnv smallStore false samplePoints h
    exact ⟨batches, rfl, Option.some.inj hplan, wss, hsent⟩

end Upsert

end RickIntelligence.Qdrant
