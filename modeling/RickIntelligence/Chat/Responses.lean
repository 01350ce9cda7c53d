import RickIntelligence.Lib.Dict
import RickIntelligence.Lib.Text

/-!
# Chat responses

What `apps/api/src/services/chat_history.py` keeps of a response before it is stored or replayed. The
citations and the metadata are cut down to known names with values of known kinds (`safeCitations`,
`safeStreamMetadata`), and the response to five fields (`safeChatResponse`). A response that was cut down
is not changed by doing so again, so that what is replayed is what was stored (`safe_again`).

Numbers are finite. The conversions of whole numbers and of texts to numbers with a fraction are those of
the standard library, and an environment here.
-/

namespace RickIntelligence.Chat

open Lib

/-! ## Citations -/

/-- What the projection uses of the standard library. -/
structure Env where
  /-- `float(n)`, which raises for a number that is too large. -/
  intFloat : ℤ → Option ℚ
  /-- `float(s)`, if it is finite. -/
  parseFloat : String → Option ℚ

/-- The fields of a citation. -/
def citationNames : List String :=
  ["document_id", "chunk_id", "title", "collection_id", "page_start", "page_end", "checksum"]

/-- `isinstance(value, (str, int, float))`. -/
def scalar : Json → Bool
  | .str _ | .int _ | .float _ | .bool _ => true
  | _ => false

/-- One citation of a list. -/
def safeCitation : Json → Option Json.Members
  | .obj raw =>
    let item := Json.pick citationNames fun name =>
      (Json.member? name raw).bind fun v => if scalar v then some v else none
    if ((Json.member? "document_id" item).any Json.truthy) then some item else none
  | _ => none

/-- `_safe_citations`. -/
def safeCitations : Json → List Json.Members
  | .arr items => (items.take 32).filterMap safeCitation
  | _ => []

/-- A citation that was kept is kept as it is. -/
theorem safeCitation_obj {raw : Json} {item : Json.Members} (h : safeCitation raw = some item) :
    safeCitation (.obj item) = some item := by
  cases raw with
  | obj raw =>
    unfold safeCitation at h
    dsimp only at h
    split at h
    · next hdocument =>
      cases h
      unfold safeCitation
      dsimp only
      rw [Json.pick_pick, if_pos hdocument]
      intro n v hv
      obtain ⟨w, -, hw⟩ := Option.bind_eq_some_iff.mp hv
      split at hw
      · next hscalar =>
        cases hw
        rw [if_pos hscalar]
      · cases hw
    · cases h
  | _ => cases h

/-- Citations that were kept are kept as they are. -/
theorem safeCitations_again (v : Json) :
    safeCitations (.arr ((safeCitations v).map .obj)) = safeCitations v := by
  have hlength : (safeCitations v).length ≤ 32 := by
    unfold safeCitations
    split
    · exact (List.length_filterMap_le _ _).trans (List.length_take_le _ _)
    · exact Nat.zero_le 32
  have hitems : ∀ item ∈ safeCitations v, safeCitation (.obj item) = some item := by
    intro item hitem
    unfold safeCitations at hitem
    split at hitem
    · obtain ⟨raw, -, hraw⟩ := List.mem_filterMap.mp hitem
      exact safeCitation_obj hraw
    · cases hitem
  show (((safeCitations v).map Json.obj).take 32).filterMap safeCitation = safeCitations v
  rw [List.take_of_length_le (by rw [List.length_map]; exact hlength), List.filterMap_map]
  calc (safeCitations v).filterMap (safeCitation ∘ Json.obj)
      = (safeCitations v).filterMap some := List.filterMap_congr hitems
    _ = safeCitations v := List.filterMap_some

/-! ## Metadata -/

/-- `_SAFE_METADATA_STRINGS`. -/
def safeMetadataStrings : List String :=
  ["backend", "mode", "workspace_id", "stream_status", "stream_mode", "error_code", "evidence_status",
    "domain_acceptance", "evidence_collection_mode", "semantic_support_status", "decision_action",
    "decision_reason", "decision_initial_action", "retrieval_strategy", "evidence_bundle_id",
    "publication_validation", "publication_authorization", "request_policy_version",
    "request_policy_reason", "request_domain_risk", "request_intent", "request_intent_clarity",
    "request_policy_human_review_required", "finish_reason", "citation_support_status",
    "citation_support_source", "failure_stage"]

/-- `_SAFE_METADATA_COUNTS`. -/
def safeMetadataCounts : List String :=
  ["decision_attempt", "evidence_count", "citation_evaluated_claims"]

/-- `_SAFE_METADATA_SCORES`. -/
def safeMetadataScores : List String :=
  ["citation_precision", "citation_recall", "citation_completeness", "unsupported_claim_rate",
    "faithfulness"]

/-- `_SAFE_METADATA_DURATIONS`. -/
def safeMetadataDurations : List String := ["stream_ttft_ms", "stream_duration_ms"]

/-- The names that metadata may have. -/
def metadataNames : List String :=
  safeMetadataStrings ++ safeMetadataCounts ++ safeMetadataScores ++ safeMetadataDurations ++
    ["request_policy_allows_answer"]

/-- `_SAFE_METADATA_TOKEN.fullmatch`, without a scheme. -/
def safeToken (s : String) : Bool :=
  matchesRun isAlnumAscii (fun c => isAlnumAscii c || "._:/-".toList.contains c) 127 s &&
    !contains "://".toList s.toList

/-- `round(number, 3)`, to the even one of two that are as near. -/
def round3 (q : ℚ) : ℚ :=
  let n := ⌊q * 1000⌋
  let f := q * 1000 - n
  (if f < 1 / 2 then (n : ℚ) else if 1 / 2 < f then n + 1 else if n % 2 = 0 then n else n + 1) / 1000

/-- The number of a score. -/
def scoreValue (env : Env) : Json → Option ℚ
  | .int n => env.intFloat n
  | .float q => some q
  | _ => none

/-- The number of a duration. -/
def durationValue (env : Env) : Json → Option ℚ
  | .bool b => some (if b then 1 else 0)
  | .int n => env.intFloat n
  | .float q => some q
  | .str s => env.parseFloat s
  | _ => none

/-- What is kept of a value of the metadata. -/
def cleanMetadata (env : Env) (name : String) (v : Json) : Option Json :=
  if name ∈ safeMetadataStrings then
    match v with
    | .str s => if safeToken s then some v else none
    | _ => none
  else if name ∈ safeMetadataCounts then
    match v with
    | .int n => if 0 ≤ n ∧ n ≤ 10000 then some v else none
    | _ => none
  else if name ∈ safeMetadataScores then
    (scoreValue env v).bind fun q => if 0 ≤ q ∧ q ≤ 1 then some (.float q) else none
  else if name ∈ safeMetadataDurations then
    (durationValue env v).bind fun q => if 0 ≤ q then some (.float (round3 q)) else none
  else
    match v with
    | .bool _ => some v
    | _ => none

/-- `_safe_stream_metadata`, for numbers that are not too large. -/
def safeStreamMetadata (env : Env) : Json → Json.Members
  | .obj ms => Json.pick metadataNames fun name => (Json.member? name ms).bind (cleanMetadata env name)
  | _ => []

/-- A whole number that is too large raises. -/
def overflows (env : Env) : Json → Bool
  | .obj ms => (safeMetadataScores ++ safeMetadataDurations).any fun name =>
      match Json.member? name ms with
      | some (.int n) => (env.intFloat n).isNone
      | _ => false
  | _ => false

/-- A number that was rounded is not changed by doing so again. -/
theorem round3_round3 (q : ℚ) : round3 (round3 q) = round3 q := by
  have hround : ∀ n : ℤ, round3 ((n : ℚ) / 1000) = (n : ℚ) / 1000 := by
    intro n
    have hcancel : (n : ℚ) / 1000 * 1000 = n := by ring
    unfold round3
    rw [hcancel, Int.floor_intCast]
    simp
  have hint : ∃ n : ℤ, round3 q = (n : ℚ) / 1000 := by
    unfold round3
    dsimp only
    split_ifs
    · exact ⟨_, rfl⟩
    · exact ⟨⌊q * 1000⌋ + 1, by push_cast; rfl⟩
    · exact ⟨_, rfl⟩
    · exact ⟨⌊q * 1000⌋ + 1, by push_cast; rfl⟩
  obtain ⟨n, hn⟩ := hint
  rw [hn, hround]

/-- A number that is not negative is rounded to one that is not. -/
theorem round3_nonneg {q : ℚ} (h : 0 ≤ q) : 0 ≤ round3 q := by
  have hfloor : 0 ≤ ⌊q * 1000⌋ := Int.floor_nonneg.mpr (by positivity)
  have hcast : (0 : ℚ) ≤ ⌊q * 1000⌋ := by exact_mod_cast hfloor
  unfold round3
  dsimp only
  split_ifs <;> positivity

/-- A value of the metadata that was kept is kept as it is. -/
theorem cleanMetadata_again {env : Env} {name : String} {v w : Json}
    (h : cleanMetadata env name v = some w) : cleanMetadata env name w = some w := by
  unfold cleanMetadata at h ⊢
  split_ifs at h ⊢
  · split at h
    · next s =>
      split at h
      · next hsafe =>
        cases h
        exact if_pos hsafe
      · cases h
    · cases h
  · split at h
    · next n =>
      split at h
      · next hrange =>
        cases h
        exact if_pos hrange
      · cases h
    · cases h
  · obtain ⟨q, -, hq⟩ := Option.bind_eq_some_iff.mp h
    split at hq
    · next hrange =>
      cases hq
      exact if_pos hrange
    · cases hq
  · obtain ⟨q, -, hq⟩ := Option.bind_eq_some_iff.mp h
    split at hq
    · next hnonneg =>
      cases hq
      show (if 0 ≤ round3 q then some (Json.float (round3 (round3 q))) else none) = _
      rw [if_pos (round3_nonneg hnonneg), round3_round3]
    · cases hq
  · split at h
    · cases h
      rfl
    · cases h

/-- Metadata that was kept is kept as it is. -/
theorem safeStreamMetadata_again (env : Env) (v : Json) :
    safeStreamMetadata env (.obj (safeStreamMetadata env v)) = safeStreamMetadata env v := by
  have hpick : ∀ f : String → Option Json, (∀ n w, f n = some w → cleanMetadata env n w = some w) →
      safeStreamMetadata env (.obj (Json.pick metadataNames f)) = Json.pick metadataNames f :=
    fun f hf => Json.pick_pick hf
  cases v with
  | obj ms =>
    apply hpick
    intro n w hw
    obtain ⟨v, -, hv⟩ := Option.bind_eq_some_iff.mp hw
    exact cleanMetadata_again hv
  | _ => exact hpick (fun _ => none) fun _ _ hw => nomatch hw

/-- Metadata that was kept has no number that is too large. -/
theorem overflows_again (env : Env) (v : Json) :
    overflows env (.obj (safeStreamMetadata env v)) = false := by
  have hnames : ∀ name ∈ safeMetadataScores ++ safeMetadataDurations,
      name ∉ safeMetadataStrings ∧ name ∉ safeMetadataCounts ∧
        (name ∈ safeMetadataScores ∨ name ∈ safeMetadataDurations) := by decide +kernel
  unfold overflows
  rw [List.any_eq_false]
  intro name hname
  cases v with
  | obj ms =>
    unfold safeStreamMetadata
    rw [Json.member?_pick]
    split
    · next n heq =>
      exfalso
      split at heq
      · obtain ⟨v, -, hv⟩ := Option.bind_eq_some_iff.mp heq
        obtain ⟨hstrings, hcounts, hnumbers⟩ := hnames name hname
        unfold cleanMetadata at hv
        rw [if_neg hstrings, if_neg hcounts] at hv
        split_ifs at hv with hscore hduration
        · obtain ⟨q, -, hq⟩ := Option.bind_eq_some_iff.mp hv
          split at hq
          · cases hq
          · cases hq
        · obtain ⟨q, -, hq⟩ := Option.bind_eq_some_iff.mp hv
          split at hq
          · cases hq
          · cases hq
        · exact hnumbers.elim hscore hduration
      · cases heq
    · simp
  | _ => simp [safeStreamMetadata, Json.member?]

/-! ## Responses -/

/-- The errors of the stores: `ValueError`, `IdempotencyConflict`, `OverflowError`, and the error of a
constraint of the database. -/
inductive ChatError where
  | value
  | conflict
  | overflow
  | integrity
  deriving DecidableEq, Repr

/-- What is kept of a response. -/
structure SafeResponse where
  conversation_id : String
  message_id : String
  answer : String
  citations : List Json.Members
  metadata : Json.Members

/-- The response as a dictionary. -/
def SafeResponse.members (r : SafeResponse) : Json.Members :=
  [("conversation_id", .str r.conversation_id), ("message_id", .str r.message_id),
    ("answer", .str r.answer), ("citations", .arr (r.citations.map .obj)), ("metadata", .obj r.metadata)]

/-- An id of a conversation or of a message. -/
def validId (s : String) : Bool := strip s != "" && s.length ≤ 128

/-- The first characters of a text. -/
def cut (n : ℕ) (s : String) : String := String.ofList (s.toList.take n)

/-- Cutting twice is cutting once. -/
theorem cut_cut (n : ℕ) (s : String) : cut n (cut n s) = cut n s := by
  simp [cut, List.take_take]

/-- The answer of a response. -/
def safeAnswer (n : ℕ) : Option Json → String
  | some (.str answer) => cut n answer
  | _ => ""

/-- An answer that was cut is kept as it is. -/
theorem cut_safeAnswer (n : ℕ) (v : Option Json) : cut n (safeAnswer n v) = safeAnswer n v := by
  unfold safeAnswer
  split
  · exact cut_cut n _
  · simp [cut]

/-- `_safe_chat_response`. -/
def safeChatResponse (env : Env) (max_answer_chars : ℕ) (value : Json.Members) :
    Except ChatError SafeResponse :=
  match Json.member? "conversation_id" value, Json.member? "message_id" value with
  | some (.str conversation_id), some (.str message_id) =>
    if validId conversation_id && validId message_id then
      let metadata := (Json.member? "metadata" value).getD .null
      if overflows env metadata then .error .overflow
      else
        .ok {
          conversation_id := conversation_id
          message_id := message_id
          answer := safeAnswer max_answer_chars (Json.member? "answer" value)
          citations := safeCitations ((Json.member? "citations" value).getD .null)
          metadata := safeStreamMetadata env metadata }
    else .error .value
  | _, _ => .error .value

/-- A response that was cut down is not changed by doing so again. -/
theorem safe_again {env : Env} {n : ℕ} {value : Json.Members} {r : SafeResponse}
    (h : safeChatResponse env n value = .ok r) : safeChatResponse env n r.members = .ok r := by
  unfold safeChatResponse at h
  split at h
  · split at h
    · next hids =>
      dsimp only at h
      split at h
      · cases h
      · cases h
        have hmembers : ∀ (c m a : String) (cs : List Json.Members) (ms : Json.Members),
            safeChatResponse env n (SafeResponse.members ⟨c, m, a, cs, ms⟩) =
              if validId c && validId m then
                if overflows env (.obj ms) then .error .overflow
                else .ok ⟨c, m, cut n a, safeCitations (.arr (cs.map .obj)),
                  safeStreamMetadata env (.obj ms)⟩
              else .error .value := fun _ _ _ _ _ => rfl
        rw [hmembers, if_pos hids, overflows_again, safeCitations_again, safeStreamMetadata_again,
          cut_safeAnswer]
        rfl
    · cases h
  · cases h

end RickIntelligence.Chat
