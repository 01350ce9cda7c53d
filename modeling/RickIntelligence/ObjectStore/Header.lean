import RickIntelligence.Lib.JsonText
import RickIntelligence.Lib.Validated
import RickIntelligence.ObjectStore.Identity

/-!
# The header of an object file

An object file starts with a header of fixed size: a magic text, then the metadata as JSON in ASCII,
then zeros. `encodeHeader` refuses metadata that does not fit, and `encodeHeader_ok` says which fit:
those whose `headerLength` is within the header. `decodeHeader_encodeHeader` is the round trip.

The length of the JSON is not the length of the identity: a character outside ASCII takes 6 or 12
characters there (`escapedWidth`), and 2 to 4 bytes in the bound that the identity was checked against.
-/

namespace RickIntelligence.ObjectStore

open Lib Lib.JsonText

/-! ## Encoding -/

/-- `_HEADER_BYTES`. -/
def headerBytes : ℕ := 4 * 1024

/-- `_FORMAT_VERSION`. -/
def formatVersion : ℕ := 1

/-- `_MAGIC`: `RICK-LOCAL-OBJECT` and a zero. -/
def magic : List UInt8 := [82, 73, 67, 75, 45, 76, 79, 67, 65, 76, 45, 79, 66, 74, 69, 67, 84, 0]

/-- `text.encode("ascii")`. -/
def encodeAscii (text : List Char) : List UInt8 := text.map fun c => UInt8.ofNat c.toNat

/-- `data.decode("ascii")`. -/
def decodeAscii (data : List UInt8) : Option (List Char) :=
  data.mapM fun b => if b.toNat < 0x80 then some (Char.ofNat b.toNat) else none

/-- The document of a header, before its keys are sorted. -/
def headerFields (metadata : ObjectMetadata) : List (String × Scalar) :=
  [("format", .whole formatVersion),
   ("tenant_id", .text metadata.scope.tenantId),
   ("workspace_id", .text metadata.scope.workspaceId),
   ("source_id", .text metadata.scope.sourceId),
   ("key", .text metadata.key),
   ("size", .whole metadata.size),
   ("checksum", .text metadata.checksum)]

/-- `sort_keys`. -/
def sortKeys (fields : List (String × Scalar)) : List (String × Scalar) :=
  fields.insertionSort fun a b => a.1 ≤ b.1

/-- The header up to its padding. -/
def headerText (metadata : ObjectMetadata) : List UInt8 :=
  magic ++ encodeAscii (dumps (sortKeys (headerFields metadata)))

/-- `_encode_header`. -/
def encodeHeader (metadata : ObjectMetadata) : Except ObjectStoreError (List UInt8) :=
  let encoded := headerText metadata
  if encoded.length > headerBytes then .error .objectStoreConfiguration
  else .ok (encoded ++ List.replicate (headerBytes - encoded.length) 0)

/-! ## Decoding -/

/-- A value that is equal to the format version: the whole number, the number with a fraction, and
the truth value are equal. -/
def isFormatVersion : Json → Bool
  | .int n => n == formatVersion
  | .float q => q == formatVersion
  | .bool b => b
  | _ => false

/-- A value that is a given text. -/
def isText (text : String) : Json → Bool
  | .str s => s == text
  | _ => false

/-- The checks of `_decode_header` on the document that it has read. -/
def decodeFields (raw : Json.Members) (scope : ObjectScope) (expectedKey : Option String) :
    Option ObjectMetadata := do
  if !(raw.lookup "format").any isFormatVersion then none
  if !(raw.lookup "tenant_id").any (isText scope.tenantId) then none
  if !(raw.lookup "workspace_id").any (isText scope.workspaceId) then none
  if !(raw.lookup "source_id").any (isText scope.sourceId) then none
  let key ← (raw.lookup "key").bind Json.text?
  if !validObjectKey key then none
  if expectedKey.any fun expected => key != expected then none
  let size ← (raw.lookup "size").bind Json.nat?
  let checksum ← (raw.lookup "checksum").bind Json.text?
  if !checksumPattern checksum then none
  let metadata : ObjectMetadata := ⟨scope, key, size, checksum⟩
  if metadata.valid then return metadata else none

/-- `_decode_header`. -/
def decodeHeader (header : List UInt8) (scope : ObjectScope) (expectedKey : Option String) :
    Except ObjectStoreError ObjectMetadata :=
  if header.length != headerBytes || !magic.isPrefixOf header then
    .error (.objectStoreCorruption "read")
  else
    let encoded := (header.drop magic.length).rdropWhile (· == 0)
    match (decodeAscii encoded).bind loads with
    | some (.obj raw) => match decodeFields raw scope expectedKey with
      | some metadata => .ok metadata
      | none => .error (.objectStoreCorruption "read")
    | _ => .error (.objectStoreCorruption "read")

/-! ## Which metadata fits -/

/-- The characters that one character takes inside a string of the header. -/
def escapedWidth (c : Char) : ℕ :=
  if (shortEscapes.map Prod.fst).contains c then 2
  else if 0x20 ≤ c.toNat ∧ c.toNat ≤ 0x7e then 1
  else if c.toNat < 0x10000 then 6
  else 12

/-- The characters that a text takes inside a string of the header. -/
def escapedLength (text : String) : ℕ := (text.toList.map escapedWidth).sum

/-- The length of a header up to its padding, from the identity and the size: the magic text and the
fixed text of the document take 180 bytes with the checksum. -/
def headerLength (scope : ObjectScope) (key : String) (size : ℕ) : ℕ :=
  180 + escapedLength scope.tenantId + escapedLength scope.workspaceId +
    escapedLength scope.sourceId + escapedLength key + (Nat.toDigits 10 size).length

/-- A key of a list of pairs is looked up in it. -/
theorem contains_fst_eq_isSome {α β : Type} [BEq α] (l : List (α × β)) (a : α) :
    (l.map Prod.fst).contains a = (l.lookup a).isSome := by
  induction l with
  | nil => rfl
  | cons e l ih =>
    obtain ⟨k, v⟩ := e
    simp only [List.map_cons, List.contains_cons, List.lookup, ih]
    cases a == k <;> rfl

/-- The width of an escape is its length. -/
theorem length_escapeChar (c : Char) : (escapeChar c).length = escapedWidth c := by
  unfold escapeChar escapedWidth
  rw [contains_fst_eq_isSome]
  cases hl : shortEscapes.lookup c with
  | some letter => rfl
  | none =>
    simp only [Option.isSome_none, Bool.false_eq_true, if_false]
    split_ifs <;> rfl

/-- The length of an escaped text. -/
theorem length_escape (text : String) : (escape text.toList).length = escapedLength text := by
  rw [escape, List.length_flatMap, escapedLength]
  congr 1
  exact List.map_congr_left fun c _ => length_escapeChar c

/-- The document of a header with its keys in order. -/
theorem sortKeys_headerFields (metadata : ObjectMetadata) :
    sortKeys (headerFields metadata) =
      [("checksum", .text metadata.checksum),
       ("format", .whole formatVersion),
       ("key", .text metadata.key),
       ("size", .whole metadata.size),
       ("source_id", .text metadata.scope.sourceId),
       ("tenant_id", .text metadata.scope.tenantId),
       ("workspace_id", .text metadata.scope.workspaceId)] := by
  simp only [sortKeys, headerFields, List.insertionSort, List.foldr, List.orderedInsert]
  simp

/-- The characters of a checksum need no escape. -/
theorem escapedLength_checksum {checksum : String} (h : checksumPattern checksum = true) :
    escapedLength checksum = 71 := by
  simp only [checksumPattern, Bool.and_eq_true, beq_iff_eq] at h
  obtain ⟨⟨hstart, hlen⟩, hdigits⟩ := h
  have hwidth : ∀ c ∈ checksum.toList.drop 7, escapedWidth c = 1 := by
    intro c hc
    have hdigit := List.all_eq_true.mp hdigits c hc
    simp only [isDigitAscii, Bool.or_eq_true, Bool.and_eq_true, decide_eq_true_eq] at hdigit
    rw [← Char.ofNat_toNat c]
    rcases hdigit with ⟨hlo, hhi⟩ | ⟨hlo, hhi⟩
    · have hlo : 48 ≤ c.toNat := hlo
      have hhi : c.toNat ≤ 57 := hhi
      generalize c.toNat = n at hlo hhi
      interval_cases n <;> decide
    · have hlo : 97 ≤ c.toNat := hlo
      have hhi : c.toNat ≤ 102 := hhi
      generalize c.toNat = n at hlo hhi
      interval_cases n <;> decide
  have hsplit : checksum.toList = checksumStart ++ checksum.toList.drop 7 := by
    rw [← hstart, List.take_append_drop]
  have hsum : ((checksum.toList.drop 7).map escapedWidth).sum = 64 := by
    rw [List.map_congr_left hwidth, List.map_const', List.sum_replicate, hlen]
    rfl
  have hseven : (checksumStart.map escapedWidth).sum = 7 := by decide
  rw [escapedLength, hsplit, List.map_append, List.sum_append, hseven, hsum]

/-- The length of a header up to its padding. -/
theorem length_headerText {metadata : ObjectMetadata}
    (h : checksumPattern metadata.checksum = true) :
    (headerText metadata).length = headerLength metadata.scope metadata.key metadata.size := by
  have hsum := escapedLength_checksum h
  have hnames : escapedLength "checksum" = 8 ∧ escapedLength "format" = 6 ∧
      escapedLength "key" = 3 ∧ escapedLength "size" = 4 ∧ escapedLength "source_id" = 9 ∧
      escapedLength "tenant_id" = 9 ∧ escapedLength "workspace_id" = 12 := by
    decide +kernel
  obtain ⟨h1, h2, h3, h4, h5, h6, h7⟩ := hnames
  have hmagic : magic.length = 18 := rfl
  have hformat : (Nat.toDigits 10 formatVersion).length = 1 := rfl
  rw [headerText, sortKeys_headerFields, List.length_append, encodeAscii, List.length_map]
  simp only [dumps, dumpMembers, dumpMember, dumpScalar, List.length_append, List.length_cons,
    List.length_nil, length_escape, headerLength]
  omega

/-- Metadata is encoded exactly when its header text fits. -/
theorem encodeHeader_ok {metadata : ObjectMetadata} (h : checksumPattern metadata.checksum = true)
    {header : List UInt8} :
    encodeHeader metadata = .ok header ↔
      headerLength metadata.scope metadata.key metadata.size ≤ headerBytes ∧
        header = headerText metadata ++
          List.replicate (headerBytes - (headerText metadata).length) 0 := by
  unfold encodeHeader
  rw [← length_headerText h]
  by_cases hfit : (headerText metadata).length ≤ headerBytes
  · rw [if_neg (by omega)]
    constructor
    · intro heq
      cases heq
      exact ⟨hfit, rfl⟩
    · rintro ⟨-, rfl⟩
      rfl
  · rw [if_pos (by omega)]
    constructor
    · intro heq
      cases heq
    · rintro ⟨hle, -⟩
      exact absurd hle hfit

/-! ## The round trip -/

/-- ASCII text is read back. -/
theorem decodeAscii_encodeAscii {text : List Char} (h : Ascii text) :
    decodeAscii (encodeAscii text) = some text := by
  induction text with
  | nil => rfl
  | cons c text ih =>
    rw [ascii_cons] at h
    have hbyte : (UInt8.ofNat c.toNat).toNat = c.toNat := by
      rw [UInt8.toNat_ofNat']
      omega
    have hrest := ih h.2
    simp only [decodeAscii, encodeAscii] at hrest
    simp only [decodeAscii, encodeAscii, List.map_cons, List.mapM_cons, hbyte, if_pos h.1,
      Char.ofNat_toNat, hrest, Option.bind_eq_bind, Option.bind_some, Option.pure_def]

/-- Zeros at the end of a list are removed. -/
theorem rdropWhile_zeros (l : List UInt8) (n : ℕ) :
    (l ++ List.replicate n 0).rdropWhile (· == 0) = l.rdropWhile (· == 0) := by
  induction n with
  | zero => simp
  | succ n ih =>
    rw [List.replicate_succ', ← List.append_assoc, List.rdropWhile_concat_pos _ _ _ (by decide), ih]

/-- The text of a document does not end in a zero. -/
theorem rdropWhile_dumps (ms : List (String × Scalar)) :
    (encodeAscii (dumps ms)).rdropWhile (· == 0) = encodeAscii (dumps ms) := by
  have hsplit : encodeAscii (dumps ms) =
      encodeAscii ('\x7b' :: dumpMembers ms) ++ [UInt8.ofNat '\x7d'.toNat] := by
    rw [dumps, encodeAscii, List.map_append]
    rfl
  rw [hsplit]
  exact List.rdropWhile_concat_neg _ _ _ (by decide)

/-- The fields of a header that was written from metadata are its own. -/
theorem decodeFields_headerFields {metadata : ObjectMetadata} (h : metadata.valid = true)
    {expectedKey : Option String} (he : ∀ key ∈ expectedKey, key = metadata.key) :
    decodeFields ((sortKeys (headerFields metadata)).map fun m => (m.1, m.2.json)) metadata.scope
      expectedKey = some metadata := by
  have hvalid := h
  simp only [ObjectMetadata.valid, Bool.and_eq_true] at hvalid
  obtain ⟨hkey, hsum⟩ := hvalid
  have hexpected : (expectedKey.any fun expected => metadata.key != expected) = false := by
    cases expectedKey with
    | none => rfl
    | some key => simp [he key rfl]
  rw [sortKeys_headerFields]
  simp [decodeFields, Scalar.json, isFormatVersion, isText, Json.text?, Json.nat?, hkey, hsum,
    hexpected, h, List.lookup]

/-- What was encoded is decoded, for the key that it was written under and for any. -/
theorem decodeHeader_encodeHeader {metadata : ObjectMetadata} (h : metadata.valid = true)
    {header : List UInt8} (hheader : encodeHeader metadata = .ok header)
    {expectedKey : Option String} (he : ∀ key ∈ expectedKey, key = metadata.key) :
    header.length = headerBytes ∧
      decodeHeader header metadata.scope expectedKey = .ok metadata := by
  have hsum : checksumPattern metadata.checksum = true := by
    simp only [ObjectMetadata.valid, Bool.and_eq_true] at h
    exact h.2
  obtain ⟨hfit, rfl⟩ := (encodeHeader_ok hsum).mp hheader
  rw [← length_headerText hsum] at hfit
  have hlength : (headerText metadata ++
      List.replicate (headerBytes - (headerText metadata).length) 0).length = headerBytes := by
    rw [List.length_append, List.length_replicate]
    omega
  have hmagic : magic.isPrefixOf (headerText metadata ++
      List.replicate (headerBytes - (headerText metadata).length) 0) = true := by
    rw [headerText, List.append_assoc, List.isPrefixOf_iff_prefix]
    exact List.prefix_append _ _
  have hnames : ((sortKeys (headerFields metadata)).map Prod.fst).Nodup := by
    rw [sortKeys_headerFields]
    simp only [List.map_cons, List.map_nil]
    decide
  have hencoded : ((headerText metadata ++
      List.replicate (headerBytes - (headerText metadata).length) 0).drop magic.length).rdropWhile
        (· == 0) = encodeAscii (dumps (sortKeys (headerFields metadata))) := by
    rw [headerText, List.append_assoc, List.drop_left, rdropWhile_zeros, rdropWhile_dumps]
  refine ⟨hlength, ?_⟩
  unfold decodeHeader
  simp only [hlength, hmagic, hencoded, bne_self_eq_false, Bool.not_true, Bool.or_self,
    Bool.false_eq_true, if_false, decodeAscii_encodeAscii (ascii_dumps _), Option.bind_some,
    loads_dumps hnames, decodeFields_headerFields h he]

end RickIntelligence.ObjectStore
