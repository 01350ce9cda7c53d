import RickIntelligence.Lib.Validated
import RickIntelligence.Lib.Regex

/-!
# The bounded fields of the jobs contract

The field checks of `packages/jobs/src/rick_jobs/contracts.py`. Each normalises a text value and
returns it, or raises a `JobValidationError` that names the field. What they return they return
again unchanged (`identifier_idem`, `operation_idem`, `boundedMap_self`), which is what lets the
records of the contract be rebuilt from their own fields.
-/

namespace RickIntelligence.Jobs

open Lib

/-- The errors of the contract, with their messages. -/
inductive ContractError where
  | validation (message : String)
  | idempotencyConflict (message : String)
  | invalidTransition (message : String)
  deriving DecidableEq, Repr

/-! ## Limits and patterns -/

/-- `MAX_IDENTIFIER_LENGTH`. -/
def maxIdentifierLength : ℕ := 128

/-- `MAX_OPERATION_LENGTH`. -/
def maxOperationLength : ℕ := 64

/-- `MAX_ERROR_CODE_LENGTH`. -/
def maxErrorCodeLength : ℕ := 64

/-- `MAX_MESSAGE_LENGTH`. -/
def maxMessageLength : ℕ := 256

/-- `MAX_PAYLOAD_FIELDS`. -/
def maxPayloadFields : ℕ := 32

/-- `MAX_PAYLOAD_KEY_LENGTH`. -/
def maxPayloadKeyLength : ℕ := 64

/-- `MAX_PAYLOAD_VALUE_LENGTH`. -/
def maxPayloadValueLength : ℕ := 512

/-- `MAX_METADATA_FIELDS`. -/
def maxMetadataFields : ℕ := 32

/-- `MAX_ATTEMPTS`. -/
def maxAttempts : ℕ := 64

/-- `[A-Za-z0-9_.:-]`. -/
def isIdentifierChar (c : Char) : Bool := isAlnumAscii c || ['_', '.', ':', '-'].contains c

/-- `[a-z0-9_.:-]`. -/
def isFieldChar (c : Char) : Bool :=
  isLowerAscii c || isDigitAscii c || ['_', '.', ':', '-'].contains c

/-- The characters of a metadata reference after its first. -/
def isMetadataChar (c : Char) : Bool :=
  isAlnumAscii c ||
    ['_', '.', ':', '/', '@', '?', '=', '&', '%', '+', '~', ',', '-'].contains c

/-- `_IDENTIFIER`. -/
def identifierPattern : String → Bool := matchesRun isAlnumAscii isIdentifierChar 127

/-- `_OPERATION`. -/
def operationPattern : String → Bool := matchesRun isAlnumAscii isIdentifierChar 63

/-- `_FIELD`, and `_SAFE_ERROR`, which is the same pattern. -/
def fieldPattern : String → Bool := matchesRun isLowerAscii isFieldChar 63

/-- `_METADATA_VALUE`. -/
def metadataValuePattern : String → Bool := matchesRun isAlnumAscii isMetadataChar 511

/-- `_TRACE_PAYLOAD_FIELDS`. -/
def tracePayloadFields : List String := ["traceparent", "tracestate"]

/-- `_SAFE_METADATA_KEYS`. -/
def safeMetadataKeys : List String :=
  ["attempt_id", "byte_size", "bytes", "checksum", "chunk_id", "collection_id", "document_id",
    "etag", "filename", "hash", "index_version", "job_id", "lease_id", "mime_type", "model_id",
    "object_key", "operation", "page", "provider_id", "schema_version", "section", "size",
    "source_key", "stage", "state", "status", "tenant_id", "trace_id", "traceparent", "tracestate",
    "uri", "url", "version", "vector_id", "workspace_id"]

/-- The endings of an approved metadata key. -/
def metadataKeyEndings : List String :=
  ["_id", "_key", "_ref", "_version", "_hash", "_checksum", "_uri", "_url"]

/-- `_FORBIDDEN_FIELD_PARTS`. -/
def forbiddenFieldParts : List String :=
  ["api_key", "apikey", "authorization", "bearer", "credential", "content", "document_text",
    "password", "pem", "prompt", "private", "provider_response", "provider_result", "raw_content",
    "response", "result", "secret", "token", "text"]

/-! ## Values that look like a secret or like raw content -/

namespace Sensitive

open Regex

/-- A class of lower-case characters, in either case. -/
def clsI (p : Char → Bool) : Regex := cls fun c => p (lowerChar c)

/-- `[a-z0-9]`. -/
def isLowerAlnum (c : Char) : Bool := isLowerAscii c || isDigitAscii c

/-- `[^a-z0-9]`. -/
def notAlnum : Regex := clsI fun c => !isLowerAlnum c

/-- A key with the prefix of a known token format. -/
def tokenPrefix : Regex :=
  seqAll [alt bos notAlnum,
    altAll (wordI "sk") [wordI "pk", wordI "rk", wordI "ghp", wordI "glpat",
      seq (wordI "xox") (clsI fun c => "baprs".toList.contains c)],
    charI '_', star (clsI fun c => isLowerAlnum c || c == '_' || c == '-'), alt eos notAlnum]

/-- An HTTP authorization value. -/
def authorizationValue : Regex :=
  seqAll [alt (wordI "bearer") (wordI "basic"), plus (cls isSpace),
    atLeast 8 (clsI fun c => isLowerAlnum c || "._~+/=-".toList.contains c)]

/-- A named credential. -/
def namedCredential : Regex :=
  seqAll [altAll (seqAll [wordI "api", opt (oneOf "_-"), wordI "key"])
      [wordI "authorization", wordI "password", wordI "secret", wordI "token",
        seqAll [wordI "private", opt (oneOf "_ -"), wordI "key"]],
    star (cls isSpace), oneOf ":="]

/-- `(?:content|body|text)`. -/
def contentWord : Regex := altAll (wordI "content") [wordI "body", wordI "text"]

/-- Raw content. -/
def rawContent : Regex :=
  seqAll [wordI "raw", opt (oneOf "-_. "), opt (seq (wordI "document") (opt (oneOf "-_. "))),
    contentWord]

/-- Document content. -/
def documentContent : Regex :=
  seqAll [opt (seq (wordI "full") (opt (oneOf "-_. "))), wordI "document", opt (oneOf "-_. "),
    contentWord]

/-- A provider's response. -/
def providerResponse : Regex :=
  seqAll [wordI "provider", opt (oneOf "-_. "), alt (wordI "response") (wordI "result")]

/-- A PEM block. -/
def pemBlock : Regex :=
  seqAll [wordI "-----begin", star (oneOf "-_ "), opt (alt (wordI "private") (wordI "secret")),
    star (oneOf "-_ "), wordI "key-----"]

end Sensitive

/-- `_SENSITIVE_METADATA_VALUE`. -/
def sensitiveMetadataValue : Regex :=
  Regex.altAll Sensitive.tokenPrefix [Sensitive.authorizationValue, Sensitive.namedCredential,
    Sensitive.rawContent, Sensitive.documentContent, Sensitive.providerResponse, Sensitive.pemBlock]

/-! ## Field checks -/

/-- The control characters that `_text` refuses: all below `0x20` but the tab. -/
def isControl (c : Char) : Bool := c.toNat < 0x20 && c != '\t'

/-- The refusals of `_text`, on the stripped value. -/
def textChecks (field : String) (maximum : ℕ) (result : String) : List (Bool × ContractError) :=
  [(result.toList.isEmpty || decide (maximum < result.toList.length) ||
      result.toList.any (fun c => c.toNat == 0), .validation (field ++ " is invalid")),
    (result.toList.any isControl, .validation (field ++ " contains a control character"))]

/-- `_text`. -/
def text (field : String) (maximum : ℕ) (value : String) : Except ContractError String := do
  let result := strip value
  raiseFirst (textChecks field maximum result)
  return result

/-- `_identifier`. -/
def identifier (field value : String) : Except ContractError String := do
  let result ← text field maxIdentifierLength value
  raiseFirst [(!identifierPattern result, .validation (field ++ " is not a valid identifier"))]
  return result

/-- `_operation`. -/
def operation (value : String) : Except ContractError String := do
  let result ← text "operation" maxOperationLength value
  raiseFirst [(!operationPattern result, .validation "operation is not a valid identifier")]
  return result

/-- A field or an error code has a forbidden word in one of its dotted parts. -/
def hasForbiddenPart (s : String) : Bool :=
  (splitAt '.' s.toList).any fun part => forbiddenFieldParts.any fun w => contains w.toList part

/-- `_field_name`. -/
def fieldName (field value : String) : Except ContractError String := do
  let stripped ← text field maxPayloadKeyLength value
  let result := lower stripped
  raiseFirst [(!fieldPattern result, .validation (field ++ " is not a valid field name")),
    (hasForbiddenPart result, .validation (field ++ " is sensitive or untrusted"))]
  return result

/-- `key.endswith`. -/
def endsWith (key ending : String) : Bool := decide (ending.toList <:+ key.toList)

/-- A key is approved by name or by its ending. -/
def approvedMetadataKey (key : String) : Bool :=
  safeMetadataKeys.contains key || metadataKeyEndings.any (endsWith key)

/-- `_metadata_key`. -/
def metadataKey (field value : String) : Except ContractError String := do
  let key ← fieldName field value
  raiseFirst [(!approvedMetadataKey key,
    .validation (field ++ " is not an approved metadata field"))]
  return key

/-- The value checks of `_bounded_map`. -/
def metadataValue (field : String) (limit : ℕ) (value : String) : Except ContractError String := do
  let clean ← text field limit value
  raiseFirst [(!metadataValuePattern clean,
      .validation (field ++ " must be a compact metadata reference")),
    (sensitiveMetadataValue.search clean.toList,
      .validation (field ++ " looks like secret or raw content"))]
  return clean

/-- A mapping from text to text: its items in order. -/
abbrev Mapping := List (String × String)

/-- `clean[key] = value`: the key keeps its place, and a new one goes last. -/
def dictSet (key value : String) : Mapping → Mapping
  | [] => [(key, value)]
  | (k, v) :: rest => if k = key then (k, value) :: rest else (k, v) :: dictSet key value rest

/-- The order of `sorted` on items with distinct keys. -/
def keyLE (a b : String × String) : Prop := a.1 ≤ b.1

instance : DecidableRel keyLE := fun a b => inferInstanceAs (Decidable (a.1 ≤ b.1))

instance : Std.Total keyLE := ⟨fun a b => le_total a.1 b.1⟩

instance : IsTrans (String × String) keyLE := ⟨fun _ _ _ hab hbc => le_trans hab hbc⟩

/-- The loop of `_bounded_map` over the items. -/
def cleanItems (field : String) (limit : ℕ) : Mapping → Mapping → Except ContractError Mapping
  | [], clean => .ok clean
  | (rawKey, rawValue) :: rest, clean => do
    let key ← metadataKey (field ++ ".key") rawKey
    let value ← metadataValue (field ++ "." ++ key) limit rawValue
    cleanItems field limit rest (dictSet key value clean)

/-- `_bounded_map`. -/
def boundedMap (field : String) (maximumFields valueLimit : ℕ) (value : Mapping) :
    Except ContractError Mapping := do
  raiseFirst [(decide (maximumFields < value.length),
    .validation (field ++ " has too many fields"))]
  let clean ← cleanItems field valueLimit value []
  return clean.insertionSort keyLE

/-- `_idempotency_payload`: the items that identify a request. -/
def idempotencyPayload (payload : Mapping) : Mapping :=
  payload.filter fun item => !tracePayloadFields.contains item.1

/-! ## What the checks return -/

variable {c : Char} {field v r s key value : String} {maximum limit : ℕ} {m : Mapping}

/-- A letter or digit is between `0` and `z`. -/
theorem isAlnumAscii_toNat (h : isAlnumAscii c = true) :
    0x30 ≤ c.toNat ∧ c.toNat ≤ 0x7a := by
  simp only [isAlnumAscii, isLowerAscii, isUpperAscii, isDigitAscii, Bool.or_eq_true,
    Bool.and_eq_true, decide_eq_true_eq, Char.le_def, UInt32.le_iff_toNat_le] at h
  have e : ∀ d : Char, d.val.toNat = d.toNat := fun _ => rfl
  simp only [e] at h
  have ha : 'a'.toNat = 97 := rfl
  have hz : 'z'.toNat = 122 := rfl
  have hA : 'A'.toNat = 65 := rfl
  have hZ : 'Z'.toNat = 90 := rfl
  have h0 : '0'.toNat = 48 := rfl
  have h9 : '9'.toNat = 57 := rfl
  omega

/-- The characters of a metadata reference are printable ASCII characters. -/
theorem isMetadataChar_toNat (h : isMetadataChar c = true) :
    0x25 ≤ c.toNat ∧ c.toNat ≤ 0x7e := by
  simp only [isMetadataChar, Bool.or_eq_true, List.contains_iff_mem, List.mem_cons,
    List.not_mem_nil, or_false] at h
  rcases h with h | h
  · have := isAlnumAscii_toNat h
    omega
  · rcases h with rfl | rfl | rfl | rfl | rfl | rfl | rfl | rfl | rfl | rfl | rfl | rfl | rfl <;>
      decide

/-- The characters of an identifier are characters of a metadata reference. -/
theorem isMetadataChar_of_identifier (h : isIdentifierChar c = true) :
    isMetadataChar c = true := by
  simp only [isIdentifierChar, isMetadataChar, Bool.or_eq_true, List.contains_iff_mem,
    List.mem_cons, List.not_mem_nil, or_false] at h ⊢
  tauto

/-- The characters of a field name are characters of an identifier. -/
theorem isIdentifierChar_of_field (h : isFieldChar c = true) :
    isIdentifierChar c = true := by
  simp only [isFieldChar, isIdentifierChar, isAlnumAscii, Bool.or_eq_true] at h ⊢
  tauto

/-- A character outside `A` to `Z` and below the Kelvin sign is its own lower case. -/
theorem lowerChar_eq_self (h : c.toNat < 65 ∨ 90 < c.toNat) (hk : c.toNat < 0x212a) :
    lowerChar c = c := by
  have hA : 'A'.val.toNat = 65 := rfl
  have hZ : 'Z'.val.toNat = 90 := rfl
  have e : c.val.toNat = c.toNat := rfl
  rw [lowerChar, if_neg (by omega), Char.toLower, dif_neg]
  simp only [ge_iff_le, UInt32.le_iff_toNat_le]
  omega

/-- The characters of a field name are their own lower case. -/
theorem lowerChar_of_field (h : isFieldChar c = true) : lowerChar c = c := by
  have hn := isMetadataChar_toNat (isMetadataChar_of_identifier (isIdentifierChar_of_field h))
  refine lowerChar_eq_self ?_ (by omega)
  have e : ∀ d : Char, d.val.toNat = d.toNat := fun _ => rfl
  have ha : 'a'.toNat = 97 := rfl
  have h9 : '9'.toNat = 57 := rfl
  simp only [isFieldChar, isLowerAscii, isDigitAscii, Bool.or_eq_true, Bool.and_eq_true,
    decide_eq_true_eq, List.contains_iff_mem, List.mem_cons, List.not_mem_nil, or_false,
    Char.le_def, UInt32.le_iff_toNat_le, e] at h
  rcases h with (h | h) | rfl | rfl | rfl | rfl
  · omega
  · omega
  all_goals decide

/-- A text value that `_text` accepts: it is not empty, not too long, and without control
characters. -/
structure TextOk (maximum : ℕ) (s : String) : Prop where
  /-- The text has no space at its ends. -/
  stripped : strip s = s
  /-- The text is not empty. -/
  nonempty : s.toList ≠ []
  /-- The text is within its bound. -/
  length_le : s.toList.length ≤ maximum
  /-- The text has no control character. -/
  printable : ∀ c ∈ s.toList, c.toNat ≠ 0 ∧ isControl c = false

/-- `_text` returns the stripped value, when that is within its bounds. -/
theorem text_ok :
    text field maximum v = .ok r ↔ r = strip v ∧ TextOk maximum r := by
  simp only [text, except_bind_ok, raiseFirst_ok, textChecks, List.mem_cons, List.not_mem_nil,
    or_false, forall_eq_or_imp, forall_eq, Bool.or_eq_false_iff, decide_eq_false_iff_not, not_lt,
    List.any_eq_false, List.isEmpty_eq_false_iff, pure, Except.pure, Except.ok.injEq,
    exists_const]
  constructor
  · rintro ⟨⟨⟨⟨h1, h2⟩, h3⟩, h4⟩, rfl⟩
    refine ⟨rfl, strip_strip v, h1, h2, fun c hc => ⟨?_, ?_⟩⟩
    · simpa using h3 c hc
    · simpa using h4 c hc
  · rintro ⟨rfl, -, h1, h2, h3⟩
    refine ⟨⟨⟨⟨h1, h2⟩, fun c hc => ?_⟩, fun c hc => ?_⟩, rfl⟩
    · simpa using (h3 c hc).1
    · simpa using (h3 c hc).2

/-- Text of the characters of a metadata reference is accepted by `_text` within its length. -/
theorem textOk_of_metadata (hne : s.toList ≠ []) (hlen : s.toList.length ≤ maximum)
    (h : ∀ c ∈ s.toList, isMetadataChar c = true) :
    TextOk maximum s := by
  have hr : ∀ c ∈ s.toList, 0x25 ≤ c.toNat ∧ c.toNat ≤ 0x7e :=
    fun c hc => isMetadataChar_toNat (h c hc)
  refine ⟨strip_eq_self fun c hc => ?_, hne, hlen, fun c hc => ⟨?_, ?_⟩⟩
  · have := hr c hc
    simp only [isSpace, Bool.or_eq_false_iff, Bool.and_eq_false_iff, decide_eq_false_iff_not,
      beq_eq_false_iff_ne]
    omega
  · have := hr c hc
    omega
  · have := hr c hc
    simp only [isControl, Bool.and_eq_false_iff, decide_eq_false_iff_not]
    omega

/-- Text that a pattern over metadata characters matches is accepted by `_text`. -/
theorem textOk_of_matchesRun {head tail : Char → Bool} {max : ℕ}
    (hhead : ∀ c, head c = true → isMetadataChar c = true) (htail : ∀ c, tail c = true → isMetadataChar c = true)
    (hmax : max + 1 ≤ maximum) (h : matchesRun head tail max s = true) : TextOk maximum s := by
  have hlen := matchesRun_length h
  refine textOk_of_metadata ?_ (by omega) fun c hc => ?_
  · intro hnil
    simp [hnil] at hlen
  · rcases matchesRun_chars h c hc with hc | hc
    · exact hhead c hc
    · exact htail c hc

/-- Letters and digits are characters of a metadata reference. -/
theorem isMetadataChar_of_alnum (h : isAlnumAscii c = true) :
    isMetadataChar c = true := by
  simp [isMetadataChar, h]

/-- An identifier is accepted by `_text`. -/
theorem textOk_of_identifierPattern (h : identifierPattern s = true) :
    TextOk maxIdentifierLength s :=
  textOk_of_matchesRun (fun _ => isMetadataChar_of_alnum) (fun _ => isMetadataChar_of_identifier)
    le_rfl h

/-- `_identifier` returns the stripped value, when that is an identifier. -/
theorem identifier_ok :
    identifier field v = .ok r ↔ r = strip v ∧ identifierPattern r = true := by
  simp only [identifier, except_bind_ok, text_ok, raiseFirst_ok, List.mem_singleton, forall_eq,
    Bool.not_eq_false', pure, Except.pure, Except.ok.injEq, exists_const]
  constructor
  · rintro ⟨s, ⟨rfl, -⟩, hp, rfl⟩
    exact ⟨rfl, hp⟩
  · rintro ⟨rfl, hp⟩
    exact ⟨_, ⟨rfl, textOk_of_identifierPattern hp⟩, hp, rfl⟩

/-- An identifier is returned unchanged, whatever the field. -/
theorem identifier_idem {field' : String} (h : identifier field v = .ok r) :
    identifier field' r = .ok r := by
  obtain ⟨rfl, hp⟩ := identifier_ok.mp h
  exact identifier_ok.mpr ⟨(strip_strip v).symm, hp⟩

/-- `_operation` returns the stripped value, when that is an operation name. -/
theorem operation_ok :
    operation v = .ok r ↔ r = strip v ∧ operationPattern r = true := by
  simp only [operation, except_bind_ok, text_ok, raiseFirst_ok, List.mem_singleton, forall_eq,
    Bool.not_eq_false', pure, Except.pure, Except.ok.injEq, exists_const]
  constructor
  · rintro ⟨s, ⟨rfl, -⟩, hp, rfl⟩
    exact ⟨rfl, hp⟩
  · rintro ⟨rfl, hp⟩
    have ht : TextOk maxOperationLength (strip v) :=
      textOk_of_matchesRun (fun _ => isMetadataChar_of_alnum)
        (fun _ => isMetadataChar_of_identifier) le_rfl hp
    exact ⟨_, ⟨rfl, ht⟩, hp, rfl⟩

/-- An operation name is returned unchanged. -/
theorem operation_idem (h : operation v = .ok r) : operation r = .ok r := by
  obtain ⟨rfl, hp⟩ := operation_ok.mp h
  exact operation_ok.mpr ⟨(strip_strip v).symm, hp⟩

/-! ## Metadata mappings -/

/-- A key that `_metadata_key` returns. -/
structure KeyOk (key : String) : Prop where
  /-- The key is a field name. -/
  pattern : fieldPattern key = true
  /-- The key has no forbidden word. -/
  allowed : hasForbiddenPart key = false
  /-- The key is approved. -/
  approved : approvedMetadataKey key = true

/-- A value that `_bounded_map` keeps. -/
structure ValueOk (limit : ℕ) (value : String) : Prop where
  /-- The value is a compact reference. -/
  pattern : metadataValuePattern value = true
  /-- The value is within its bound. -/
  length_le : value.toList.length ≤ limit
  /-- The value does not look like a secret. -/
  harmless : sensitiveMetadataValue.search value.toList = false

/-- `_field_name` returns the lower case of the stripped value. -/
theorem fieldName_ok :
    fieldName field v = .ok r ↔ TextOk maxPayloadKeyLength (strip v) ∧ r = lower (strip v) ∧
      fieldPattern r = true ∧ hasForbiddenPart r = false := by
  simp only [fieldName, except_bind_ok, text_ok, raiseFirst_ok, List.mem_cons, List.not_mem_nil,
    or_false, forall_eq_or_imp, forall_eq, Bool.not_eq_false', pure, Except.pure,
    Except.ok.injEq, exists_const]
  constructor
  · rintro ⟨s, ⟨rfl, ht⟩, ⟨hp, hf⟩, rfl⟩
    exact ⟨ht, rfl, hp, hf⟩
  · rintro ⟨ht, rfl, hp, hf⟩
    exact ⟨_, ⟨rfl, ht⟩, ⟨hp, hf⟩, rfl⟩

/-- A field name is returned unchanged. -/
theorem fieldName_self (hp : fieldPattern key = true) (hf : hasForbiddenPart key = false) :
    fieldName field key = .ok key := by
  have hchars : ∀ c ∈ key.toList, isFieldChar c = true := by
    intro c hc
    rcases matchesRun_chars hp c hc with h | h
    · simp [isFieldChar, h]
    · exact h
  have ht : TextOk maxPayloadKeyLength key := by
    have hlen := matchesRun_length hp
    refine textOk_of_metadata ?_ hlen.2 fun c hc =>
      isMetadataChar_of_identifier (isIdentifierChar_of_field (hchars c hc))
    intro hnil
    simp [hnil] at hlen
  rw [fieldName_ok, ht.stripped, lower_eq_self fun c hc => lowerChar_of_field (hchars c hc)]
  exact ⟨ht, rfl, hp, hf⟩

/-- What `_metadata_key` returns is a key. -/
theorem metadataKey_keyOk (h : metadataKey field v = .ok r) : KeyOk r := by
  simp only [metadataKey, except_bind_ok, fieldName_ok, raiseFirst_ok, List.mem_singleton,
    forall_eq, Bool.not_eq_false', pure, Except.pure, Except.ok.injEq, exists_const] at h
  obtain ⟨k, ⟨-, -, hp, hf⟩, ha, rfl⟩ := h
  exact ⟨hp, hf, ha⟩

/-- A key is returned unchanged, whatever the field. -/
theorem metadataKey_self (h : KeyOk key) : metadataKey field key = .ok key := by
  simp only [metadataKey, except_bind_ok, raiseFirst_ok, List.mem_singleton, forall_eq,
    Bool.not_eq_false', pure, Except.pure, Except.ok.injEq, exists_const]
  exact ⟨key, fieldName_self h.pattern h.allowed, h.approved, rfl⟩

/-- What the value checks return is a value. -/
theorem metadataValue_valueOk (h : metadataValue field limit v = .ok r) : ValueOk limit r := by
  simp only [metadataValue, except_bind_ok, text_ok, raiseFirst_ok, List.mem_cons,
    List.not_mem_nil, or_false, forall_eq_or_imp, forall_eq, Bool.not_eq_false', pure,
    Except.pure, Except.ok.injEq, exists_const] at h
  obtain ⟨s, ⟨-, ht⟩, ⟨hp, hs⟩, rfl⟩ := h
  exact ⟨hp, ht.length_le, hs⟩

/-- A value is returned unchanged, whatever the field. -/
theorem metadataValue_self (h : ValueOk limit value) :
    metadataValue field limit value = .ok value := by
  have hchars : ∀ c ∈ value.toList, isMetadataChar c = true := by
    intro c hc
    rcases matchesRun_chars h.pattern c hc with hc | hc
    · exact isMetadataChar_of_alnum hc
    · exact hc
  have ht : TextOk limit value := by
    refine textOk_of_metadata ?_ h.length_le hchars
    intro hnil
    have hlen := matchesRun_length h.pattern
    simp [hnil] at hlen
  simp only [metadataValue, except_bind_ok, text_ok, raiseFirst_ok, List.mem_cons,
    List.not_mem_nil, or_false, forall_eq_or_imp, forall_eq, Bool.not_eq_false', pure,
    Except.pure, Except.ok.injEq, exists_const]
  exact ⟨value, ⟨ht.stripped.symm, ht⟩, ⟨h.pattern, h.harmless⟩, rfl⟩

/-- A new key goes last. -/
theorem dictSet_of_notMem (h : key ∉ m.map Prod.fst) :
    dictSet key value m = m ++ [(key, value)] := by
  induction m with
  | nil => rfl
  | cons kv m ih =>
    simp only [List.map_cons, List.mem_cons, not_or] at h
    rw [dictSet, if_neg (Ne.symm h.1), ih h.2]
    rfl

/-- Setting a key of a mapping does not change its keys. -/
theorem dictSet_keys_of_mem (h : key ∈ m.map Prod.fst) :
    (dictSet key value m).map Prod.fst = m.map Prod.fst := by
  induction m with
  | nil => simp at h
  | cons kv m ih =>
    rw [dictSet]
    split
    · rfl
    · next hne =>
      simp only [List.map_cons, List.mem_cons] at h
      rcases h with rfl | h
      · exact absurd rfl hne
      · simp [ih h]

/-- The keys of a mapping stay distinct. -/
theorem dictSet_nodup (h : (m.map Prod.fst).Nodup) :
    ((dictSet key value m).map Prod.fst).Nodup := by
  by_cases hk : key ∈ m.map Prod.fst
  · rw [dictSet_keys_of_mem hk]
    exact h
  · rw [dictSet_of_notMem hk, List.map_append]
    exact List.nodup_append.mpr ⟨h, by simp, by
      intro a ha b hb hab
      simp only [List.map_cons, List.map_nil, List.mem_singleton] at hb
      exact hk (by rw [← hb, ← hab]; exact ha)⟩

/-- The items of an updated mapping are old ones or the one that was set. -/
theorem mem_dictSet {item : String × String} (h : item ∈ dictSet key value m) : item ∈ m ∨ item = (key, value) := by
  induction m with
  | nil => exact .inr (List.mem_singleton.mp h)
  | cons kv m ih =>
    rw [dictSet] at h
    split at h
    · next heq =>
      rcases List.mem_cons.mp h with rfl | h
      · exact .inr (by rw [heq])
      · exact .inl (List.mem_cons_of_mem _ h)
    · rcases List.mem_cons.mp h with rfl | h
      · exact .inl List.mem_cons_self
      · rcases ih h with h | h
        · exact .inl (List.mem_cons_of_mem _ h)
        · exact .inr h

/-- A set item adds at most one item. -/
theorem dictSet_length_le :
    (dictSet key value m).length ≤ m.length + 1 := by
  induction m with
  | nil => simp [dictSet]
  | cons kv m ih =>
    rw [dictSet]
    split
    · simp
    · simpa using ih

/-- A mapping that `_bounded_map` returns: sorted, with distinct approved keys and compact
values. -/
structure NormalMap (maximumFields valueLimit : ℕ) (m : Mapping) : Prop where
  /-- The mapping has few fields. -/
  length_le : m.length ≤ maximumFields
  /-- The keys are distinct. -/
  nodup : (m.map Prod.fst).Nodup
  /-- The items are in the order of their keys. -/
  sorted : m.Pairwise keyLE
  /-- The keys and the values are accepted. -/
  items : ∀ item ∈ m, KeyOk item.1 ∧ ValueOk valueLimit item.2

/-- The loop of `_bounded_map` keeps the keys distinct and the items accepted. -/
theorem cleanItems_spec :
    ∀ {items clean out : Mapping}, cleanItems field limit items clean = .ok out →
      (clean.map Prod.fst).Nodup → (∀ item ∈ clean, KeyOk item.1 ∧ ValueOk limit item.2) →
      (out.map Prod.fst).Nodup ∧ (∀ item ∈ out, KeyOk item.1 ∧ ValueOk limit item.2) ∧
        out.length ≤ clean.length + items.length
  | [], clean, out, h, hn, hi => by
    cases h
    exact ⟨hn, hi, by simp⟩
  | (rawKey, rawValue) :: rest, clean, out, h, hn, hi => by
    simp only [cleanItems, except_bind_ok] at h
    obtain ⟨key, hkey, value, hvalue, h⟩ := h
    have hitem : ∀ item ∈ dictSet key value clean, KeyOk item.1 ∧ ValueOk limit item.2 := by
      intro item hmem
      rcases mem_dictSet hmem with hmem | rfl
      · exact hi item hmem
      · exact ⟨metadataKey_keyOk hkey, metadataValue_valueOk hvalue⟩
    obtain ⟨h1, h2, h3⟩ := cleanItems_spec h (dictSet_nodup hn) hitem
    have hlen : (dictSet key value clean).length ≤ clean.length + 1 := dictSet_length_le
    refine ⟨h1, h2, ?_⟩
    simp only [List.length_cons]
    omega

/-- Accepted items with new keys are appended as they are. -/
theorem cleanItems_self :
    ∀ {items clean : Mapping}, ((clean ++ items).map Prod.fst).Nodup →
      (∀ item ∈ items, KeyOk item.1 ∧ ValueOk limit item.2) →
      cleanItems field limit items clean = .ok (clean ++ items)
  | [], clean, _, _ => by simp [cleanItems]
  | (key, value) :: rest, clean, hn, hi => by
    have hkv := hi (key, value) List.mem_cons_self
    have hnew : key ∉ clean.map Prod.fst := by
      intro hmem
      rw [List.map_append] at hn
      exact (List.nodup_append.mp hn).2.2 key hmem key (by simp) rfl
    simp only [cleanItems, except_bind_ok]
    refine ⟨key, metadataKey_self hkv.1, value, metadataValue_self hkv.2, ?_⟩
    rw [dictSet_of_notMem hnew, cleanItems_self (by simpa using hn)
      fun item hmem => hi item (List.mem_cons_of_mem _ hmem)]
    simp

/-- What `_bounded_map` returns is a normal mapping. -/
theorem boundedMap_normal {maximumFields : ℕ} {value : Mapping}
    (h : boundedMap field maximumFields limit value = .ok m) : NormalMap maximumFields limit m := by
  simp only [boundedMap, except_bind_ok, raiseFirst_ok, List.mem_singleton, forall_eq,
    decide_eq_false_iff_not, not_lt, pure, Except.pure, Except.ok.injEq, exists_const] at h
  obtain ⟨hlen, clean, hclean, rfl⟩ := h
  obtain ⟨hn, hi, hl⟩ := cleanItems_spec hclean (by simp) (by simp)
  have hperm := List.perm_insertionSort keyLE clean
  refine ⟨?_, ?_, List.pairwise_insertionSort keyLE clean, fun item hmem =>
    hi item (hperm.mem_iff.mp hmem)⟩
  · rw [hperm.length_eq]
    simp only [List.length_nil, zero_add] at hl
    omega
  · exact (hperm.map Prod.fst).nodup_iff.mpr hn

/-- A normal mapping is returned unchanged, whatever the field. -/
theorem boundedMap_self {maximumFields : ℕ} (h : NormalMap maximumFields limit m) :
    boundedMap field maximumFields limit m = .ok m := by
  simp only [boundedMap, except_bind_ok, raiseFirst_ok, List.mem_singleton, forall_eq,
    decide_eq_false_iff_not, not_lt, pure, Except.pure, Except.ok.injEq, exists_const]
  refine ⟨h.length_le, m, cleanItems_self (by simpa using h.nodup) h.items, ?_⟩
  exact h.sorted.insertionSort_eq

end RickIntelligence.Jobs
