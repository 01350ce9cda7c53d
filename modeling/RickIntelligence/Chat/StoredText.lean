import RickIntelligence.Lib.JsonWire
import RickIntelligence.Lib.Utf8
import RickIntelligence.Chat.Stores

/-!
# The texts of a stored turn

What the store in SQLite writes in the columns of a turn, and how it reads them back. A response is written as
JSON text of any length (`storedText`), and read with `decode_bounded_json` of
`apps/api/src/services/json_boundary.py`, which gives up on a text of more than `MAX_HISTORY_JSON_BYTES` octets,
and on one whose value takes more when it is written again.

A value that was written is read back exactly if its text is short enough (`decodeBoundedJson_render`), since
the same value written with its names in order has as many octets. The texts are over code points, the numbers
with a fraction are written and read as the parameter `fl` says.
-/

namespace RickIntelligence.Chat

open Lib

/-! ## Bounded JSON -/

section Bounded

variable {F : Type} {fl : Wire.Floats F} {max_bytes : ℕ}

/-- `len(text.encode("utf-8")) <= max_bytes`. A text that cannot be encoded does not fit. -/
def fitsBytes (max_bytes : ℕ) (text : CodePoints) : Bool :=
  (Utf8.encodeText text).any fun octets => octets.length ≤ max_bytes

/-- `isinstance(parsed, (dict, list))`. -/
def container : Wire F → Bool
  | .list _ | .dict _ => true
  | _ => false

/-- `decode_bounded_json` for a text: nothing where it returns the default. -/
def decodeBoundedJson (fl : Wire.Floats F) (max_bytes : ℕ) (text : CodePoints) : Option (Wire F) :=
  if fitsBytes max_bytes text then do
    let parsed ← Wire.loads fl ⟨fun _ => none, Wire.rejectDuplicates⟩ text
    if container parsed then do
      let encoded ← Wire.dumps fl false (Wire.sortMembers parsed)
      if fitsBytes max_bytes encoded then some parsed else none
    else none
  else none

/-- Texts with the same characters, in any order, fit in the same number of octets. -/
theorem fitsBytes_perm {a b : CodePoints} (h : a.Perm b) : fitsBytes max_bytes a = fitsBytes max_bytes b := by
  have hle : ∀ {a b : CodePoints}, a.Perm b → fitsBytes max_bytes a = true → fitsBytes max_bytes b = true := by
    intro a b h ha
    unfold fitsBytes at ha ⊢
    cases hoctets : Utf8.encodeText a with
    | none =>
      rw [hoctets] at ha
      cases ha
    | some octets =>
      rw [hoctets] at ha
      obtain ⟨octets', hoctets', hsame⟩ := Utf8.encodeText_perm h hoctets
      rw [hoctets', Option.any_some, hsame]
      exact ha
  rw [Bool.eq_iff_iff]
  exact ⟨hle h, hle h.symm⟩

/-- A text that fits has no more characters than there may be octets. -/
theorem length_le_of_fitsBytes {text : CodePoints} (h : fitsBytes max_bytes text = true) :
    text.length ≤ max_bytes := by
  have hencode : ∀ c, 1 ≤ (Utf8.encode c).length := by
    intro c
    unfold Utf8.encode
    dsimp only
    split_ifs <;> simp
  have hall : ∀ chars : List Char, chars.length ≤ (Utf8.encodeAll chars).length := by
    intro chars
    induction chars with
    | nil => exact le_rfl
    | cons c chars ih =>
      have hc := hencode c
      unfold Utf8.encodeAll at ih ⊢
      rw [List.flatMap_cons, List.length_append, List.length_cons]
      omega
  have htext := hall (text.map Char.ofNat)
  unfold fitsBytes Utf8.encodeText at h
  split at h
  · rw [Option.any_some, decide_eq_true_eq] at h
    rw [List.length_map] at htext
    exact htext.trans h
  · cases h

/-- A list or a dictionary that was written is read back if its text fits, and otherwise nothing is. -/
theorem decodeBoundedJson_render {w : Wire F} (hcontainer : container w = true)
    (h : w.all (Wire.sound fl false) = true) :
    decodeBoundedJson fl max_bytes (Wire.render fl false w) =
      if fitsBytes max_bytes (Wire.render fl false w) then some w else none := by
  have hwritable : w.all (Wire.writable fl) = true := by
    refine Wire.all_imp ?_ h
    intro v hv
    unfold Wire.sound at hv
    rw [Bool.and_eq_true] at hv
    exact hv.1
  have hdumps : Wire.dumps fl false (Wire.sortMembers w) =
      some (Wire.render fl false (Wire.sortMembers w)) :=
    Wire.dumps_eq_some.mpr ⟨Wire.writable_sortMembers hwritable, rfl⟩
  unfold decodeBoundedJson
  split
  · next hfits =>
    have hencoded : fitsBytes max_bytes (Wire.render fl false (Wire.sortMembers w)) = true := by
      rw [fitsBytes_perm (Wire.render_sortMembers w)]
      exact hfits
    rw [Wire.loads_render (Wire.rejectDuplicates_keeps _) h]
    show (if container w then _ else none) = some w
    rw [if_pos hcontainer, hdumps]
    exact if_pos hencoded
  · rfl

end Bounded

/-! ## The columns -/

/-- `MAX_HISTORY_JSON_BYTES`. -/
def maxHistoryJsonBytes : ℕ := 256 * 1024

/-- `json.dumps(value, ensure_ascii=False, separators=(",", ":"))`. -/
def storedText (fl : Wire.Floats ℚ) (v : Json) : Except ChatError CodePoints :=
  match Wire.dumps fl false (wire v) with
  | some text => .ok text
  | none => .error .value

/-- The texts of a turn. -/
structure StoredTexts where
  response_json : CodePoints
  citations_json : CodePoints
  metadata_json : CodePoints

/-- The texts that `append` makes. -/
def storedTexts (fl : Wire.Floats ℚ) (r : SafeResponse) : Except ChatError StoredTexts := do
  let response_json ← storedText fl (.obj r.members)
  let citations_json ← storedText fl (.arr (r.citations.map .obj))
  let metadata_json ← storedText fl (.obj r.metadata)
  return ⟨response_json, citations_json, metadata_json⟩

/-- `_decode_json` gives a value for the text of this one. -/
def readable (fl : Wire.Floats ℚ) (v : Json) : Bool :=
  (decodeBoundedJson fl maxHistoryJsonBytes (Wire.render fl false (wire v))).isSome

/-- Which texts of the columns are read back. -/
def columnsOf (fl : Wire.Floats ℚ) : Columns where
  response r := readable fl (.obj r.members)
  citations cs := readable fl (.arr (cs.map .obj))
  metadata ms := readable fl (.obj ms)

/-- The text of the response takes at most `MAX_HISTORY_JSON_BYTES` octets. -/
def fits (fl : Wire.Floats ℚ) (r : SafeResponse) : Bool :=
  fitsBytes maxHistoryJsonBytes (Wire.render fl false (wire (.obj r.members)))

/-! ## What was cut down is read back -/

section Safe

variable {env : Env} {fl : Wire.Floats ℚ} {r : SafeResponse}

/-- A dictionary of scalars with different names. -/
def Flat (ms : Json.Members) : Prop := (ms.map Prod.fst).Nodup ∧ ∀ m ∈ ms, scalar m.2 = true

/-- The names of a dictionary that was picked are different, and its values were chosen. -/
theorem flat_pick {names : List String} (hnames : names.Nodup) {f : String → Option Json}
    (h : ∀ name v, f name = some v → scalar v = true) : Flat (Json.pick names f) := by
  have hsub : ((Json.pick names f).map Prod.fst).Sublist names := by
    unfold Json.pick
    induction names with
    | nil => exact .slnil
    | cons name names ih =>
      rw [List.filterMap_cons]
      cases f name with
      | none => exact (ih hnames.of_cons).cons name
      | some v => exact (ih hnames.of_cons).cons_cons name
  refine ⟨hnames.sublist hsub, ?_⟩
  intro m hm
  unfold Json.pick at hm
  obtain ⟨name, -, hvalue⟩ := List.mem_filterMap.mp hm
  obtain ⟨v, hv, rfl⟩ := Option.map_eq_some_iff.mp hvalue
  exact h name v hv

/-- The names that metadata may have are different. -/
theorem metadataNames_nodup : metadataNames.Nodup := by decide +kernel

/-- A citation that was kept is flat. -/
theorem flat_safeCitation {raw : Json} {c : Json.Members} (h : safeCitation raw = some c) : Flat c := by
  cases raw with
  | obj raw =>
    unfold safeCitation at h
    dsimp only at h
    split at h
    · cases h
      apply flat_pick (by decide +kernel)
      intro name v hv
      obtain ⟨w, -, hw⟩ := Option.bind_eq_some_iff.mp hv
      split at hw
      · next hscalar =>
        cases hw
        exact hscalar
      · cases hw
    · cases h
  | _ => cases h

/-- What is kept of a value of the metadata is a scalar. -/
theorem scalar_cleanMetadata {name : String} {v w : Json} (h : cleanMetadata env name v = some w) :
    scalar w = true := by
  unfold cleanMetadata at h
  split_ifs at h
  · split at h
    · split at h <;> cases h
      rfl
    · cases h
  · split at h
    · split at h <;> cases h
      rfl
    · cases h
  · obtain ⟨q, -, hq⟩ := Option.bind_eq_some_iff.mp h
    split at hq <;> cases hq
    rfl
  · obtain ⟨q, -, hq⟩ := Option.bind_eq_some_iff.mp h
    split at hq <;> cases hq
    rfl
  · split at h
    · cases h
      rfl
    · cases h

/-- Metadata that was kept is flat. -/
theorem flat_safeStreamMetadata (env : Env) (v : Json) : Flat (safeStreamMetadata env v) := by
  cases v with
  | obj ms =>
    apply flat_pick metadataNames_nodup
    intro name v hv
    obtain ⟨w, -, hw⟩ := Option.bind_eq_some_iff.mp hv
    exact scalar_cleanMetadata hw
  | _ => exact ⟨List.nodup_nil, fun _ hm => nomatch hm⟩

/-- A response that is not changed by being cut down has safe citations and safe metadata. -/
theorem safe_parts (h : safeChatResponse env 8000 r.members = .ok r) :
    safeCitations (.arr (r.citations.map .obj)) = r.citations ∧
      safeStreamMetadata env (.obj r.metadata) = r.metadata := by
  have hmembers : safeChatResponse env 8000 r.members =
      if validId r.conversation_id && validId r.message_id then
        if overflows env (.obj r.metadata) then .error .overflow
        else .ok ⟨r.conversation_id, r.message_id, cut 8000 r.answer,
          safeCitations (.arr (r.citations.map .obj)), safeStreamMetadata env (.obj r.metadata)⟩
      else .error .value := rfl
  rw [hmembers] at h
  split_ifs at h
  have hsame := Except.ok.inj h
  exact ⟨congrArg SafeResponse.citations hsame, congrArg SafeResponse.metadata hsame⟩

/-- Flat members make a well spelled document. -/
theorem Flat.wellSpelled {ms : Json.Members} (h : Flat ms) :
    (wire (.obj ms)).all (Wire.wellSpelled false) = true := by
  apply wellSpelled_obj h.1
  intro m hm
  have hscalar := h.2 m hm
  cases hvalue : m.2 with
  | null => rw [hvalue] at hscalar; cases hscalar
  | arr items => rw [hvalue] at hscalar; cases hscalar
  | obj members => rw [hvalue] at hscalar; cases hscalar
  | _ => rfl

/-- A response that was cut down makes a well spelled document. -/
theorem wellSpelled_safe (h : safeChatResponse env 8000 r.members = .ok r) :
    (wire (.obj r.members)).all (Wire.wellSpelled false) = true := by
  obtain ⟨hcitations, hmetadata⟩ := safe_parts h
  have hflat : ∀ c ∈ r.citations, Flat c := by
    intro c hc
    rw [← hcitations] at hc
    unfold safeCitations at hc
    obtain ⟨raw, -, hraw⟩ := List.mem_filterMap.mp hc
    exact flat_safeCitation hraw
  have hlist : (wire (.arr (r.citations.map .obj))).all (Wire.wellSpelled false) = true := by
    rw [wire, wireItems_eq]
    refine Wire.all_list.mpr ⟨rfl, ?_⟩
    intro w hw
    obtain ⟨v, hv, rfl⟩ := List.mem_map.mp hw
    obtain ⟨c, hc, rfl⟩ := List.mem_map.mp hv
    exact (hflat c hc).wellSpelled
  have hobject : (wire (.obj r.metadata)).all (Wire.wellSpelled false) = true := by
    rw [← hmetadata]
    exact (flat_safeStreamMetadata env _).wellSpelled
  have hnames : r.members.map Prod.fst =
      ["conversation_id", "message_id", "answer", "citations", "metadata"] := rfl
  apply wellSpelled_obj
  · rw [hnames]
    decide +kernel
  unfold SafeResponse.members
  simp only [List.forall_mem_cons]
  exact ⟨rfl, rfl, rfl, hlist, hobject, fun _ hm => absurd hm List.not_mem_nil⟩

/-- The response was written. -/
def Written (fl : Wire.Floats ℚ) (r : SafeResponse) : Prop :=
  (wire (.obj r.members)).all (Wire.writable fl) = true

/-- A response whose texts were made was written. -/
theorem written_of_texts {texts : StoredTexts} (h : storedTexts fl r = .ok texts) : Written fl r := by
  unfold storedTexts storedText at h
  cases hdumps : Wire.dumps fl false (wire (.obj r.members)) with
  | none =>
    rw [hdumps] at h
    cases h
  | some text => exact (Wire.dumps_eq_some.mp hdumps).1

/-- The column of a response that was written is read back if and only if its text fits. -/
theorem columns_response (hsafe : safeChatResponse env 8000 r.members = .ok r) (hwritten : Written fl r) :
    (columnsOf fl).response r = fits fl r := by
  have hsound : (wire (.obj r.members)).all (Wire.sound fl false) = true :=
    Wire.all_and hwritten (wellSpelled_safe hsafe)
  show (decodeBoundedJson fl maxHistoryJsonBytes (Wire.render fl false (wire (.obj r.members)))).isSome = _
  rw [decodeBoundedJson_render rfl hsound]
  unfold fits
  split
  · next hfits =>
    rw [hfits]
    rfl
  · next hlong =>
    rw [Bool.not_eq_true] at hlong
    rw [hlong]
    rfl

end Safe

end RickIntelligence.Chat
