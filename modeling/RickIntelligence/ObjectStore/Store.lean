import RickIntelligence.ObjectStore.Header

/-!
# The local object store

`LocalObjectStore` of `rick_storage.object_store` over an ideal file system: a directory exists or not,
holds files under distinct names, and nothing but the store touches it. There are no links, no other
kinds of file and no refused permissions, so the checks for these are left out. A scope has one
directory of objects, seven levels below the root of tenants; an object is the file there that is named
by the hash of its key.

`put` stages the file under a temporary name, whose random part is an argument, and renames it.
-/

namespace RickIntelligence.ObjectStore

open Lib

/-! ## The file system -/

/-- The names of a path below the root of tenants. -/
abbrev Path := List String

/-- The files of a directory. -/
abbrev Directory := List (String × List UInt8)

/-- The directories that exist, with their files. -/
abbrev Disk := Path → Option Directory

/-- The root of tenants, made by the constructor of the store. -/
def emptyDisk : Disk := fun path => if path = [] then some [] else none

/-- A directory with a file written: it takes the place of one with its name. -/
def Directory.write (files : Directory) (name : String) (content : List UInt8) : Directory :=
  (name, content) :: files.filter fun file => file.1 != name

/-- A directory without a file. -/
def Directory.unlink (files : Directory) (name : String) : Directory :=
  files.filter fun file => file.1 != name

/-- A directory with a file renamed over another: `os.replace`. -/
def Directory.replace (files : Directory) (source target : String) : Directory :=
  match files.lookup source with
  | some content => (files.unlink source).write target content
  | none => files

/-! ## Configuration and limits -/

/-- The limits of a store. -/
structure LocalObjectStore where
  maxObjectBytes : ℕ
  maxReadBytes : ℕ
  maxListItems : ℕ
  deriving DecidableEq

/-- `_COPY_CHUNK_BYTES`. -/
def copyChunkBytes : ℕ := 64 * 1024

/-- `_read_limit`. -/
def LocalObjectStore.readLimit (store : LocalObjectStore) (requested : Option ℤ) :
    Except ObjectStoreError ℕ :=
  match requested with
  | none => .ok store.maxReadBytes
  | some n => if n ≤ 0 then .error .invalidLimit else .ok (min n.toNat store.maxReadBytes)

/-- `_list_limit`. -/
def LocalObjectStore.listLimit (store : LocalObjectStore) (requested : Option ℤ) :
    Except ObjectStoreError ℕ :=
  match requested with
  | none => .ok store.maxListItems
  | some n => if n < 0 then .error .invalidLimit else .ok (min n.toNat store.maxListItems)

/-! ## Paths -/

/-- The directories of a scope, from the root of tenants down. -/
def scopeParts (scope : ObjectScope) : List Path :=
  [[],
   [scope.tenantId],
   [scope.tenantId, "workspaces"],
   [scope.tenantId, "workspaces", scope.workspaceId],
   [scope.tenantId, "workspaces", scope.workspaceId, "sources"],
   [scope.tenantId, "workspaces", scope.workspaceId, "sources", scope.sourceId],
   [scope.tenantId, "workspaces", scope.workspaceId, "sources", scope.sourceId, "objects"]]

/-- The directory of the objects of a scope. -/
def objectsDir (scope : ObjectScope) : Path :=
  [scope.tenantId, "workspaces", scope.workspaceId, "sources", scope.sourceId, "objects"]

/-- A directory that does not exist is made. -/
def mkdir (disk : Disk) (path : Path) : Disk :=
  match disk path with
  | some _ => disk
  | none => Function.update disk path (some [])

/-- `_scope_objects_dir` with `create`. -/
def makeScopeObjectsDir (disk : Disk) (scope : ObjectScope) : Disk :=
  (scopeParts scope).foldl mkdir disk

/-- `_scope_objects_dir` without `create`: the files of the scope, where all its directories exist. -/
def scopeObjectsDir (disk : Disk) (scope : ObjectScope) : Option Directory :=
  if (scopeParts scope).all fun path => (disk path).isSome then disk (objectsDir scope) else none

/-- `_OBJECT_SUFFIX`. -/
def objectSuffix : List Char := ['.', 'o', 'b', 'j', 'e', 'c', 't']

/-- What the name of a temporary file starts with. -/
def temporaryStart : List Char := ['.', 't', 'm', 'p', '-']

/-- The name of a temporary file. -/
def temporaryName (token : String) : String :=
  String.ofList (temporaryStart ++ token.toList ++ ['.', 'p', 'a', 'r', 't'])

/-- `_object_filename`. -/
def objectFilename (sha : Sha256) (key : String) : String :=
  String.ofList ((sha.hexdigest key.toUTF8.toList).toList ++ objectSuffix)

/-! ## Writing -/

/-- What a `read` of a stream ends in. -/
inductive ReadResult where
  /-- A piece of the payload. -/
  | chunk (bytes : List UInt8)
  /-- A value that is no bytes. -/
  | other
  /-- `PermissionError`. -/
  | permission
  /-- Any other exception. -/
  | failed
  deriving DecidableEq

/-- A payload. A stream is the results of its reads, after which it is at its end. -/
inductive ObjectPayload where
  | bytes (data : List UInt8)
  | reader (reads : List ReadResult)
  /-- A value that is neither bytes nor a stream. -/
  | other
  deriving DecidableEq

/-- A file that is being written, and the bytes that the digest has seen. -/
structure Copy where
  handle : List UInt8
  digest : List UInt8
  total : ℕ

/-- One piece is written, and the digest sees it. -/
def Copy.write (copy : Copy) (piece : List UInt8) : Copy :=
  { copy with handle := copy.handle ++ piece, digest := copy.digest ++ piece }

/-- The pieces `view[offset : offset + chunk]` for every `offset` of `range(0, total, chunk)`. -/
def slices (data : List UInt8) : List (List UInt8) :=
  (List.range ((data.length + copyChunkBytes - 1) / copyChunkBytes)).map fun i =>
    (data.drop (i * copyChunkBytes)).take copyChunkBytes

/-- The loop of `_copy_payload` over a stream. -/
def copyReads (limit : ℕ) : Copy → List ReadResult → Except ObjectStoreError Copy
  | copy, [] => .ok copy
  | copy, .chunk piece :: reads =>
    if piece.isEmpty then .ok copy
    else
      let total := copy.total + piece.length
      if total > limit then .error (.objectTooLarge limit total)
      else copyReads limit ({ copy with total := total }.write piece) reads
  | _, .other :: _ => .error .invalidObjectData
  | _, .permission :: _ => .error (.objectStorePermission "put")
  | _, .failed :: _ => .error (.objectStoreIo "put")

/-- `_copy_payload`. -/
def copyPayload (handle : List UInt8) (data : ObjectPayload) (limit : ℕ) :
    Except ObjectStoreError Copy :=
  match data with
  | .bytes data =>
    if data.length > limit then .error (.objectTooLarge limit data.length)
    else .ok ((slices data).foldl Copy.write ⟨handle, [], data.length⟩)
  | .reader reads => copyReads limit ⟨handle, [], 0⟩ reads
  | .other => .error .invalidObjectData

/-- The body of `put` between the temporary file and its renaming: the metadata and the content of the
file. -/
def stage (sha : Sha256) (store : LocalObjectStore) (scope : ObjectScope) (key : String)
    (data : ObjectPayload) : Except ObjectStoreError (ObjectMetadata × List UInt8) := do
  let copy ← copyPayload (List.replicate headerBytes 0) data store.maxObjectBytes
  let metadata : ObjectMetadata := ⟨scope, key, copy.total, sha.checksum copy.digest⟩
  -- The record refuses a key or a checksum that is not well formed, which is reported as a failure.
  if !metadata.valid then .error (.objectStoreIo "put")
  let header ← encodeHeader metadata
  return (metadata, header ++ copy.handle.drop header.length)

/-- The disk with the files of a scope changed. -/
def updateFiles (disk : Disk) (scope : ObjectScope) (f : Directory → Directory) : Disk :=
  Function.update disk (objectsDir scope) ((disk (objectsDir scope)).map f)

/-- `put`. -/
def put (sha : Sha256) (store : LocalObjectStore) (token : String) (scope : ObjectScope)
    (key : String) (data : ObjectPayload) (disk : Disk) :
    Except ObjectStoreError ObjectMetadata × Disk :=
  match validateObjectKey key with
  | .error e => (.error e, disk)
  | .ok key =>
    let disk := makeScopeObjectsDir disk scope
    let temporary := temporaryName token
    match stage sha store scope key data with
    | .error e => (.error e, updateFiles disk scope fun files =>
        (files.write temporary []).unlink temporary)
    | .ok (metadata, content) => (.ok metadata, updateFiles disk scope fun files =>
        (files.write temporary content).replace temporary (objectFilename sha key))

/-! ## Reading -/

/-- `_open_path` on a file that exists: the handle after its header, and the metadata. -/
def openPath (scope : ObjectScope) (file : List UInt8) (expectedKey : Option String) :
    Except ObjectStoreError (List UInt8 × ObjectMetadata) := do
  let metadata ← decodeHeader (file.take headerBytes) scope expectedKey
  if file.length != headerBytes + metadata.size then .error (.objectStoreCorruption "read")
  else .ok (file.drop headerBytes, metadata)

/-- `_open_object`. -/
def openObject (sha : Sha256) (scope : ObjectScope) (key : String) (disk : Disk) :
    Except ObjectStoreError (List UInt8 × ObjectMetadata) :=
  match scopeObjectsDir disk scope with
  | none => .error (.objectNotFound "get")
  | some files => match files.lookup (objectFilename sha key) with
    | none => .error (.objectNotFound "read")
    | some file => openPath scope file (some key)

/-- The loop of `get`: pieces are read until none of the payload remains. -/
def readPayload (handle : List UInt8) (remaining : ℕ) : Except ObjectStoreError (List UInt8) :=
  if remaining = 0 then .ok []
  else
    let chunk := handle.take (min copyChunkBytes remaining)
    if chunk.isEmpty then .error (.objectStoreCorruption "get")
    else do
      let rest ← readPayload (handle.drop chunk.length) (remaining - chunk.length)
      return chunk ++ rest
termination_by remaining
decreasing_by
  next hne hc =>
    have hpos : 0 < chunk.length := List.length_pos_iff.mpr (by simpa using hc)
    exact Nat.sub_lt (Nat.pos_of_ne_zero hne) hpos

/-- `get`. -/
def get (sha : Sha256) (store : LocalObjectStore) (scope : ObjectScope) (key : String)
    (maxBytes : Option ℤ) (disk : Disk) : Except ObjectStoreError (List UInt8) := do
  let key ← validateObjectKey key
  let limit ← store.readLimit maxBytes
  let (handle, metadata) ← openObject sha scope key disk
  if metadata.size > limit then .error (.objectReadLimitExceeded limit metadata.size)
  else
    let payload ← readPayload handle metadata.size
    if sha.hexdigest payload != metadata.sha256 then .error .objectIntegrity
    else return payload

/-- `head`. -/
def head (sha : Sha256) (scope : ObjectScope) (key : String) (disk : Disk) :
    Except ObjectStoreError ObjectMetadata := do
  let key ← validateObjectKey key
  let (_, metadata) ← openObject sha scope key disk
  return metadata

/-- The loop of `list` over the files of a directory. -/
def listEntries (sha : Sha256) (scope : ObjectScope) (start : String) :
    Directory → Except ObjectStoreError (List ObjectMetadata)
  | [] => .ok []
  | (name, file) :: entries => do
    if temporaryStart.isPrefixOf name.toList then listEntries sha scope start entries
    else if !objectSuffix.isSuffixOf name.toList then .error (.objectStoreCorruption "list")
    else
      let (_, metadata) ← openPath scope file none
      if name != objectFilename sha metadata.key then .error (.objectStoreCorruption "list")
      let items ← listEntries sha scope start entries
      return if start.toList.isPrefixOf metadata.key.toList then metadata :: items else items

/-- `list`. -/
def list (sha : Sha256) (store : LocalObjectStore) (scope : ObjectScope) (start : String)
    (limit : Option ℤ) (disk : Disk) : Except ObjectStoreError (List ObjectMetadata) := do
  let start ← validateKeyPrefix start
  let resultLimit ← store.listLimit limit
  if resultLimit = 0 then return []
  match scopeObjectsDir disk scope with
  | none => return []
  | some files =>
    let entries := files.insertionSort fun a b => a.1 ≤ b.1
    let items ← listEntries sha scope start entries
    return (items.insertionSort fun a b => a.key ≤ b.key).take resultLimit

/-- `delete`. -/
def delete (sha : Sha256) (scope : ObjectScope) (key : String) (disk : Disk) :
    Except ObjectStoreError Bool × Disk :=
  match validateObjectKey key with
  | .error e => (.error e, disk)
  | .ok key => match scopeObjectsDir disk scope with
    | none => (.ok false, disk)
    | some files => match files.lookup (objectFilename sha key) with
      | none => (.ok false, disk)
      | some _ => (.ok true, updateFiles disk scope fun files =>
          files.unlink (objectFilename sha key))

end RickIntelligence.ObjectStore
