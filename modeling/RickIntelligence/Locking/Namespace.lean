import RickIntelligence.Lib.Text

/-!
# Keys of a namespace

`RedisNamespace.key` makes the keys of a tenant's namespace: the fingerprint of the scope is the hash
tag of all of them, and the logical key enters as a fingerprint. Fingerprints are the first 32
hexadecimal digits of SHA-256. The hash is a parameter; that texts do not collide is
`Sha256.CollisionFree`.
-/

namespace RickIntelligence.Locking

open Lib

/-- `hashlib.sha256(text.encode("utf-8")).hexdigest()`: 64 hexadecimal digits. -/
structure Sha256 where
  hexdigest : String → String
  length : ∀ text, (hexdigest text).toList.length = 64
  digits : ∀ text, (hexdigest text).toList.all (fun c => isDigitAscii c || ('a' ≤ c && c ≤ 'f')) = true

/-- The digits of a hash that enter a key. -/
def Sha256.fingerprint (sha : Sha256) (text : String) : String :=
  String.ofList ((sha.hexdigest text).toList.take 32)

/-- No two of the texts have one fingerprint. -/
def Sha256.CollisionFree (sha : Sha256) (texts : Set String) : Prop :=
  Set.InjOn sha.fingerprint texts

/-- Texts with one hash have one fingerprint. -/
theorem Sha256.CollisionFree.hexdigest {sha : Sha256} {texts : Set String}
    (h : sha.CollisionFree texts) {a b : String} (ha : a ∈ texts) (hb : b ∈ texts)
    (hab : sha.hexdigest a = sha.hexdigest b) : a = b := by
  apply h ha hb
  rw [Sha256.fingerprint, hab]
  rfl

/-- The scope of a namespace. -/
inductive Scope where
  | tenant
  | global
  deriving DecidableEq, Repr

/-- The text of a scope. -/
def Scope.text : Scope → String
  | tenant => "tenant"
  | global => "global"

/-- The environments that a namespace may be for. -/
def environments : List String :=
  ["production", "prod", "live", "staging", "test", "testing", "development", "dev", "local"]

/-- `_IDENTIFIER`. -/
def identifierPattern : String → Bool :=
  matchesRun isAlnumAscii (fun c => isAlnumAscii c || ['_', '.', ':', '-'].contains c) 127

/-- `_PREFIX`. -/
def prefixPattern : String → Bool :=
  matchesRun (fun c => isLowerAscii c || isUpperAscii c)
    (fun c => isAlnumAscii c || ['_', '.', '-'].contains c) 31

/-- `_KEY_KIND`. -/
def keyKindPattern : String → Bool :=
  matchesRun isLowerAscii (fun c => isLowerAscii c || isDigitAscii c || ['_', '-'].contains c) 31

/-- What `__post_init__` checks. -/
def safeNamespace (tenant_id workspace_id collection_id : Option String)
    ( key_prefix environment : String) (scope : Scope) : Bool :=
  environments.contains environment && prefixPattern key_prefix &&
    tenant_id.all identifierPattern && workspace_id.all identifierPattern &&
    collection_id.all identifierPattern && !(scope == .tenant && tenant_id.isNone) &&
    !(scope == .global && (tenant_id.isSome || workspace_id.isSome || collection_id.isSome)) &&
    !(collection_id.isSome && workspace_id.isNone)

/-- `RedisNamespace`. -/
structure RedisNamespace where
  tenant_id : Option String
  workspace_id : Option String
  collection_id : Option String
  key_prefix : String
  environment : String
  scope : Scope
  safe : safeNamespace tenant_id workspace_id collection_id key_prefix environment scope = true

namespace RedisNamespace

/-- A namespace of the arguments, if they are safe. -/
def new (tenant_id workspace_id collection_id : Option String) ( key_prefix environment : String)
    (scope : Scope) : Option RedisNamespace :=
  if h : safeNamespace tenant_id workspace_id collection_id key_prefix (lower (strip environment))
      scope = true then
    some ⟨tenant_id, workspace_id, collection_id, key_prefix, lower (strip environment), scope, h⟩
  else none

/-- `scope_fingerprint`. -/
def scopeFingerprint (sha : Sha256) (ns : RedisNamespace) : String :=
  sha.fingerprint ("\x1f".intercalate [ns.environment, ns.scope.text, ns.tenant_id.getD "",
    ns.workspace_id.getD "", ns.collection_id.getD ""])

/-- The text of a key: the hash tag, the kind, and the fingerprint of the logical key. -/
def keyText (sha : Sha256) (ns : RedisNamespace) (kind logical_key : String) : String :=
  "\x7b" ++ ( ns.key_prefix ++ ":v1:" ++ ns.environment ++ ":s:" ++ ns.scopeFingerprint sha) ++
    "\x7d:" ++ kind ++ ":k:" ++ sha.fingerprint logical_key

/-- `key`. -/
def key (sha : Sha256) (ns : RedisNamespace) (kind logical_key : String) : Option String :=
  if keyKindPattern kind && decide (1 ≤ logical_key.toList.length) &&
      decide (logical_key.toList.length ≤ 512) &&
      logical_key.toList.all (fun c => !(c.toNat < 0x20 || c.toNat == 0x7f)) then
    some (ns.keyText sha kind logical_key)
  else none

/-- A key is its text. -/
theorem key_eq_some {sha : Sha256} {ns : RedisNamespace} {kind logical_key k : String}
    (h : ns.key sha kind logical_key = some k) : k = ns.keyText sha kind logical_key := by
  unfold key at h
  split at h
  · exact (Option.some.inj h).symm
  · cases h

/-- Keys of one kind are told apart by the fingerprints of their logical keys. -/
theorem keyText_inj (sha : Sha256) (ns : RedisNamespace) (kind a b : String) :
    ns.keyText sha kind a = ns.keyText sha kind b ↔ sha.fingerprint a = sha.fingerprint b := by
  simp only [keyText, ← String.toList_inj, String.toList_append, List.append_cancel_left_eq]

end RedisNamespace

end RickIntelligence.Locking
