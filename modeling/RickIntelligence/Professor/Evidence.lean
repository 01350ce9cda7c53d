import RickIntelligence.Lib.Json
import RickIntelligence.Lib.Text

/-!
# Trusted evidence

What the Professor takes of a retrieval result (`_trusted_evidence` of
`rick_professor/orchestration.py`): the items of the tenant and the workspace of the request, from the
collections that the request may read, as long as the limits leave room for them.

The scores of an item are floating-point numbers of its own. They are of any type `κ`, and how they are
read from an item is left open (`Scoring`).
-/

namespace RickIntelligence.Professor

open Lib

variable {κ : Type}

/-! ## Requests and limits -/

/-- `RetrievalContext`, as far as an answer depends on it. -/
structure RetrievalContext where
  tenant_id : String
  workspace_id : String
  allowed_collection_ids : List String
  deriving DecidableEq, Repr

/-- `ProfessorLimits`, as far as they are not times. A value that `__post_init__` refuses cannot be
built. -/
structure ProfessorLimits (κ : Type) where
  max_evidence_items : ℕ
  max_evidence_chars : ℕ
  max_evidence_item_chars : ℕ
  max_prompt_chars : ℕ
  max_answer_chars : ℕ
  approved_confidence : κ
  max_retrieval_rounds : ℕ
  max_tool_calls : ℕ
  max_provider_calls : ℕ
  max_tokens : ℕ
  positive : 1 ≤ max_evidence_items ∧ 1 ≤ max_evidence_chars ∧ 1 ≤ max_evidence_item_chars ∧
    1 ≤ max_prompt_chars ∧ 1 ≤ max_answer_chars ∧ 1 ≤ max_retrieval_rounds ∧
    1 ≤ max_provider_calls ∧ 1 ≤ max_tokens

/-! ## Fields of an item -/

/-- `s[:n]`. -/
def slice (n : ℕ) (s : String) : String := String.ofList (s.toList.take n)

/-- A character of an identifier after its first. -/
def isIdChar (c : Char) : Bool := isAlnumAscii c || c == '_' || c == '.' || c == ':' || c == '-'

/-- `_SAFE_ID.fullmatch`. -/
def safeId (s : String) : Bool := matchesRun isAlnumAscii isIdChar 127 s

/-- `_safe_optional_string`. -/
def safeOptionalString (max_chars : ℕ) (value : Option Json) : Option String :=
  match value.bind Json.text? with
  | none => none
  | some s => if strip s = "" then none else some (slice max_chars (strip s))

/-- `_safe_page`. -/
def safePage (value : Option Json) : Option ℕ := value.bind Json.nat?

/-- The scores of an item: `_fallback_confidence`, and `_bounded_float` of its fields. -/
structure Measures (κ : Type) where
  confidence : κ
  score : κ
  dense_score : κ
  sparse_score : κ
  deriving DecidableEq, Repr

/-- How the scores of an item are read. A whole number that is too large to be a float raises. -/
abbrev Scoring (κ : Type) := Json.Members → Option (Measures κ)

/-- What a `_TrustedEvidence` has besides its scores. -/
structure Excerpt where
  evidence_id : String
  document_id : String
  chunk_id : String
  tenant_id : String
  workspace_id : String
  collection_id : String
  text : String
  title : String
  source : String
  page_start : Option ℕ
  page_end : Option ℕ
  checksum : String
  document_version : Option String
  rank : ℕ
  deriving DecidableEq, Repr

/-- `_TrustedEvidence`. -/
structure TrustedEvidence (κ : Type) extends Excerpt where
  measures : Measures κ
  deriving DecidableEq, Repr

/-! ## Retrieval results -/

/-- What a retrieval returns. A value with `model_dump` stands for what it dumps, as do the items; any
other object has evidence if that attribute of it is a sequence. -/
inductive Retrieved where
  | value (v : Json)
  | object (evidence : Option (List Json))

/-- `_as_mapping`. -/
def asMapping : Json → Option Json.Members
  | .obj ms => some ms
  | _ => none

/-- `_retrieved_items`. -/
def retrievedItems : Retrieved → List Json
  | .value (.obj payload) => match Json.member? "evidence" payload with
    | some (.arr items) => items
    | _ => []
  | .value (.arr items) => items
  | .value _ => []
  | .object evidence => evidence.getD []

/-- The collections of a context allow one. -/
def RetrievalContext.allows (context : RetrievalContext) (collection_id : String) : Bool :=
  context.allowed_collection_ids.contains "*" ||
    context.allowed_collection_ids.contains collection_id

/-- The checks of `_trusted_evidence` on one item: its fields are well formed, and it is of the scope of
the request. -/
def admitItem (context : RetrievalContext) (limits : ProfessorLimits κ) (item : Json.Members) :
    Option Excerpt := do
  let document_id ← safeOptionalString 128 (Json.member? "document_id" item)
  let chunk_id ← safeOptionalString 128 (Json.member? "chunk_id" item)
  let tenant_id ← safeOptionalString 128 (Json.member? "tenant_id" item)
  let workspace_id ← safeOptionalString 128 (Json.member? "workspace_id" item)
  let collection_id ← safeOptionalString 128 (Json.member? "collection_id" item)
  let text ← safeOptionalString limits.max_evidence_item_chars (Json.member? "text" item)
  guard (safeId document_id && safeId chunk_id && safeId tenant_id)
  guard (safeId workspace_id && safeId collection_id)
  guard (tenant_id == context.tenant_id && workspace_id == context.workspace_id)
  guard (context.allows collection_id)
  let evidence_id := (safeOptionalString 128 (Json.member? "evidence_id" item)).getD ("ev-" ++ chunk_id)
  guard (safeId evidence_id)
  return {
    evidence_id
    document_id
    chunk_id
    tenant_id
    workspace_id
    collection_id
    text
    title := (safeOptionalString 512 (Json.member? "title" item)).getD ""
    source := (safeOptionalString 512 (Json.member? "source" item)).getD ""
    page_start := safePage (Json.member? "page_start" item)
    page_end := safePage (Json.member? "page_end" item)
    checksum := (safeOptionalString 256 (Json.member? "checksum" item)).getD ""
    document_version := safeOptionalString 128 (Json.member? "document_version" item)
    rank := (safePage (Json.member? "rank" item)).getD 0 }

/-- The loop of `_trusted_evidence`, with the items that it has trusted and their characters. It is
`none` where reading a score raises. -/
def trustedFrom (scoring : Scoring κ) (context : RetrievalContext) (limits : ProfessorLimits κ)
    (trusted : List (TrustedEvidence κ)) (used_chars : ℕ) :
    List Json → Option (List (TrustedEvidence κ))
  | [] => some trusted
  | raw :: rest =>
    match (asMapping raw).bind fun item => (admitItem context limits item).map (item, ·) with
    | none => trustedFrom scoring context limits trusted used_chars rest
    | some (item, excerpt) =>
      if trusted.any (·.evidence_id == excerpt.evidence_id) then
        trustedFrom scoring context limits trusted used_chars rest
      else if limits.max_evidence_chars ≤ used_chars then some trusted
      else
        let text := slice (limits.max_evidence_chars - used_chars) excerpt.text
        if text = "" then some trusted
        else match scoring item with
          | none => none
          | some measures =>
            let trusted := trusted ++ [{ excerpt with text, measures }]
            if limits.max_evidence_items ≤ trusted.length then some trusted
            else trustedFrom scoring context limits trusted (used_chars + text.length) rest

/-- `_trusted_evidence`. -/
def trustedEvidence (scoring : Scoring κ) (context : RetrievalContext) (limits : ProfessorLimits κ)
    (items : List Json) : Option (List (TrustedEvidence κ)) :=
  if context.allowed_collection_ids.isEmpty then some []
  else trustedFrom scoring context limits [] 0 items

/-! ## What is trusted -/

/-- An item is of the scope of a request. -/
structure InScope (context : RetrievalContext) (e : TrustedEvidence κ) : Prop where
  tenant : e.tenant_id = context.tenant_id
  workspace : e.workspace_id = context.workspace_id
  collection : context.allows e.collection_id = true
  id : safeId e.evidence_id = true

/-- What holds of the items that the loop has trusted. -/
structure Trusted (context : RetrievalContext) (limits : ProfessorLimits κ)
    (trusted : List (TrustedEvidence κ)) : Prop where
  scope : ∀ e ∈ trusted, InScope context e
  ids : (trusted.map (·.evidence_id)).Nodup
  items : trusted.length ≤ limits.max_evidence_items
  chars : (trusted.map (·.text.length)).sum ≤ limits.max_evidence_chars

section Trust

variable {scoring : Scoring κ} {context : RetrievalContext} {limits : ProfessorLimits κ}
  {trusted result : List (TrustedEvidence κ)}

/-- An item that passes the checks is of the scope of the request. -/
theorem admitItem_some {item : Json.Members} {x : Excerpt} (h : admitItem context limits item = some x) :
    x.tenant_id = context.tenant_id ∧ x.workspace_id = context.workspace_id ∧
      context.allows x.collection_id = true ∧ safeId x.evidence_id = true := by
  unfold admitItem at h
  simp only [Option.bind_eq_bind, Option.bind_eq_some_iff, Option.guard_eq_some', Bool.and_eq_true,
    beq_iff_eq, Option.pure_def, Option.some.injEq, exists_const] at h
  obtain ⟨_, -, _, -, _, -, _, -, _, -, _, -, -, -, ⟨htenant, hworkspace⟩, hallows, hid, rfl⟩ := h
  exact ⟨htenant, hworkspace, hallows, hid⟩

/-- A slice has no more characters than its bound. -/
theorem length_slice_le (n : ℕ) (s : String) : (slice n s).length ≤ n := by
  rw [slice, String.length_ofList, List.length_take]
  exact min_le_left _ _

/-- One more item, when there is room for it. -/
theorem Trusted.append (h : Trusted context limits trusted) {e : TrustedEvidence κ}
    (hscope : InScope context e) (hnew : trusted.any (·.evidence_id == e.evidence_id) = false)
    (hroom : trusted.length < limits.max_evidence_items)
    (hchars : (trusted.map (·.text.length)).sum + e.text.length ≤ limits.max_evidence_chars) :
    Trusted context limits (trusted ++ [e]) := by
  refine ⟨?_, ?_, ?_, ?_⟩
  · intro e' he'
    rcases List.mem_append.mp he' with he' | he'
    · exact h.scope e' he'
    · obtain rfl := List.mem_singleton.mp he'
      exact hscope
  · rw [List.map_append, List.map_singleton, List.nodup_append]
    refine ⟨h.ids, by simp, ?_⟩
    intro id hid id' hid' heq
    obtain ⟨e', he', rfl⟩ := List.mem_map.mp hid
    obtain rfl := List.mem_singleton.mp hid'
    have := List.any_eq_false.mp hnew e' he'
    simp [heq] at this
  · simp
    omega
  · simpa using hchars

/-- The loop keeps what holds of the items that it has trusted. -/
theorem trustedFrom_trusted {items : List Json} (ht : Trusted context limits trusted)
    (hroom : trusted.length < limits.max_evidence_items)
    (h : trustedFrom scoring context limits trusted (trusted.map (·.text.length)).sum items = some result) :
    Trusted context limits result := by
  induction items generalizing trusted with
  | nil =>
    obtain rfl := Option.some.inj h
    exact ht
  | cons raw rest ih =>
    unfold trustedFrom at h
    split at h
    · exact ih ht hroom h
    · next item x hitem =>
      obtain ⟨ms, -, hx⟩ := Option.bind_eq_some_iff.mp hitem
      obtain ⟨x', hx', heq⟩ := Option.map_eq_some_iff.mp hx
      obtain ⟨rfl, rfl⟩ := Prod.mk.inj heq
      obtain ⟨htenant, hworkspace, hallows, hid⟩ := admitItem_some hx'
      split at h
      · exact ih ht hroom h
      · next hnew =>
        split at h
        · obtain rfl := Option.some.inj h
          exact ht
        · next hused =>
          dsimp only at h
          split at h
          · obtain rfl := Option.some.inj h
            exact ht
          · cases hscore : scoring ms with
            | none =>
              rw [hscore] at h
              cases h
            | some measures =>
              rw [hscore] at h
              have hlen := length_slice_le (limits.max_evidence_chars -
                (trusted.map (·.text.length)).sum) x'.text
              have happend := ht.append (e := { x' with
                  text := slice (limits.max_evidence_chars - (trusted.map (·.text.length)).sum) x'.text
                  measures })
                ⟨htenant, hworkspace, hallows, hid⟩ (by simpa using hnew) hroom (by
                  show _ + (slice _ x'.text).length ≤ _
                  omega)
              dsimp only at h
              split at h
              · obtain rfl := Option.some.inj h
                exact happend
              · next hmore =>
                refine ih happend (by omega) ?_
                simpa using h

/-- **The evidence of a request**: its items are of the scope of the request, no two have one id, and
there are no more items and no more characters than the limits allow. -/
theorem trustedEvidence_trusted {items : List Json}
    (h : trustedEvidence scoring context limits items = some result) :
    Trusted context limits result := by
  have hnil : Trusted context limits ([] : List (TrustedEvidence κ)) := ⟨by simp, by simp, by simp, by simp⟩
  unfold trustedEvidence at h
  split at h
  · obtain rfl := Option.some.inj h
    exact hnil
  · exact trustedFrom_trusted hnil limits.positive.1 h

end Trust

end RickIntelligence.Professor
