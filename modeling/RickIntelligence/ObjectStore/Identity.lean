import RickIntelligence.Lib.Text

/-!
# Identities of stored objects

`rick_storage.validation`, `rick_storage.models` and the failures of `rick_storage.errors`. A scope
component and an object key are bounded in bytes of UTF-8; the key is further split at its slashes.
A scope is checked when it is built, so `ObjectScope` carries the check.
-/

namespace RickIntelligence.ObjectStore

open Lib

/-- The failures of the store. -/
inductive ObjectStoreError where
  | invalidScope
  | invalidObjectKey
  | invalidObjectData
  | invalidLimit
  | objectTooLarge (limit observed : ℕ)
  | objectReadLimitExceeded (limit size : ℕ)
  | objectNotFound (operation : String)
  | objectStoreCorruption (operation : String)
  | objectIntegrity
  | objectStoreConfiguration
  | objectStorePermission (operation : String)
  | objectStoreIo (operation : String)
  deriving DecidableEq, Repr

/-! ## Validation -/

/-- `MAX_SCOPE_COMPONENT_BYTES`. -/
def maxScopeComponentBytes : ℕ := 128

/-- `MAX_OBJECT_KEY_BYTES`. -/
def maxObjectKeyBytes : ℕ := 1024

/-- `len(value.encode("utf-8"))`. -/
def utf8Length (value : List Char) : ℕ := (value.map Char.utf8Size).sum

/-- `_valid_text`: not empty, bounded in bytes, and without control characters. -/
def validText (value : String) (maximumBytes : ℕ) : Bool :=
  !value.toList.isEmpty && decide (utf8Length value.toList ≤ maximumBytes) &&
    !value.toList.any fun c => decide (c.toNat < 0x20) || c.toNat == 0x7f

/-- What `validate_scope_component` accepts. -/
def validScopeComponent (value : String) : Bool :=
  validText value maxScopeComponentBytes && value != "." && value != ".." &&
    !value.toList.any (fun c => c == '/' || c == '\\' || c == ':') &&
    !value.toList.getLast?.any (fun c => c == '.' || c == ' ')

/-- A part of a key between two slashes. -/
def validPart (part : List Char) : Bool :=
  !part.isEmpty && part != ['.'] && part != ['.', '.'] &&
    decide (utf8Length part ≤ maxScopeComponentBytes)

/-- What `validate_object_key` accepts. -/
def validObjectKey (value : String) : Bool :=
  validText value maxObjectKeyBytes &&
    !value.toList.head?.any (fun c => c == '/' || c == '\\') && value.toList.getLast? != some '/' &&
    !value.toList.any (fun c => c == '\\' || c == ':') && (splitAt '/' value.toList).all validPart

/-- `validate_object_key`. -/
def validateObjectKey (value : String) : Except ObjectStoreError String :=
  if validObjectKey value then .ok value else .error .invalidObjectKey

/-- The parts of a list prefix: a separator at its end makes no part. -/
def prefixParts (value : String) : List (List Char) :=
  let parts := splitAt '/' value.toList
  if parts.getLast? = some [] then parts.dropLast else parts

/-- What `validate_key_prefix` accepts. -/
def validKeyPrefix (value : String) : Bool :=
  value == "" ||
    (validText value maxObjectKeyBytes &&
      !value.toList.head?.any (fun c => c == '/' || c == '\\') &&
      !value.toList.any (fun c => c == '\\' || c == ':') && (prefixParts value).all validPart)

/-- `validate_key_prefix`. -/
def validateKeyPrefix (value : String) : Except ObjectStoreError String :=
  if validKeyPrefix value then .ok value else .error .invalidObjectKey

/-! ## Scopes and metadata -/

/-- The ownership boundary of an object. -/
structure ObjectScope where
  tenantId : String
  workspaceId : String
  sourceId : String
  tenant_valid : validScopeComponent tenantId = true
  workspace_valid : validScopeComponent workspaceId = true
  source_valid : validScopeComponent sourceId = true
  deriving DecidableEq

/-- `hashlib.sha256(data).hexdigest()`: 64 hexadecimal digits in lower case. -/
structure Sha256 where
  hexdigest : List UInt8 → String
  length : ∀ data, (hexdigest data).toList.length = 64
  digits : ∀ data, (hexdigest data).toList.all (fun c => isDigitAscii c || ('a' ≤ c && c ≤ 'f')) = true

/-- What a checksum starts with: `sha256:`. -/
def checksumStart : List Char := ['s', 'h', 'a', '2', '5', '6', ':']

/-- `_CHECKSUM`: `^sha256:[0-9a-f]{64}$`. -/
def checksumPattern (checksum : String) : Bool :=
  checksum.toList.take 7 == checksumStart && (checksum.toList.drop 7).length == 64 &&
    (checksum.toList.drop 7).all fun c => isDigitAscii c || ('a' ≤ c && c ≤ 'f')

/-- What a write, a head, and a listing return. -/
structure ObjectMetadata where
  scope : ObjectScope
  key : String
  size : ℕ
  checksum : String
  deriving DecidableEq

/-- What `ObjectMetadata.__post_init__` accepts. -/
def ObjectMetadata.valid (metadata : ObjectMetadata) : Bool :=
  validObjectKey metadata.key && checksumPattern metadata.checksum

/-- `metadata.sha256`: the digest without its prefix. -/
def ObjectMetadata.sha256 (metadata : ObjectMetadata) : String :=
  String.ofList (metadata.checksum.toList.drop 7)

/-- `f"sha256:{digest.hexdigest()}"`. -/
def Sha256.checksum (sha : Sha256) (data : List UInt8) : String :=
  String.ofList (checksumStart ++ (sha.hexdigest data).toList)

/-- A checksum that is made from a digest, as characters. -/
theorem toList_checksum (sha : Sha256) (data : List UInt8) :
    (sha.checksum data).toList = checksumStart ++ (sha.hexdigest data).toList := by
  rw [Sha256.checksum, String.toList_ofList]

/-- A checksum that is made from a digest has the form of one. -/
theorem checksumPattern_checksum (sha : Sha256) (data : List UInt8) :
    checksumPattern (sha.checksum data) = true := by
  have htake : (sha.checksum data).toList.take 7 = checksumStart := by
    rw [toList_checksum, List.take_left' (by rfl)]
  have hdrop : (sha.checksum data).toList.drop 7 = (sha.hexdigest data).toList := by
    rw [toList_checksum, List.drop_left' (by rfl)]
  simp only [checksumPattern, htake, hdrop, sha.length, sha.digits, beq_self_eq_true, Bool.and_self]

/-- The digest of a checksum that is made from one. -/
theorem sha256_checksum (sha : Sha256) {metadata : ObjectMetadata} {data : List UInt8}
    (h : metadata.checksum = sha.checksum data) : metadata.sha256 = sha.hexdigest data := by
  rw [ObjectMetadata.sha256, h, toList_checksum, List.drop_left' (by rfl), String.ofList_toList]

end RickIntelligence.ObjectStore
