import RickIntelligence.ObjectStore.Files

/-!
# The object store is a map

`Contents` says what the store is for: the bytes under each identity. `IsAnswer` is what a call of the
map returns, and `Contents.after` what it changes. The disk represents the contents of the map
(`Represents`): every file of a directory of objects is the file of one live identity.

A step on a disk that represents some contents answers as the map does exactly when the call fits
(`isAnswer_iff_fits`), and then the new disk represents the new contents (`represents_after`). So the
store answers as the map over a run exactly when every call of the run fits (`refines_map`).
-/

namespace RickIntelligence.ObjectStore

open Lib

/-! ## The map -/

/-- The bytes under each identity. -/
abbrev Contents := ObjectScope → String → Option (List UInt8)

/-- The map without objects. -/
def noContents : Contents := fun _ _ => none

/-- A call of the store. The token of a `put` is the random part of its temporary name. -/
inductive Call where
  | put (token : String) (scope : ObjectScope) (key : String) (data : ObjectPayload)
  | get (scope : ObjectScope) (key : String) (maxBytes : Option ℤ)
  | head (scope : ObjectScope) (key : String)
  | list (scope : ObjectScope) (start : String) (limit : Option ℤ)
  | delete (scope : ObjectScope) (key : String)

/-- What a call returns. -/
inductive Answer where
  | metadata (m : ObjectMetadata)
  | payload (data : List UInt8)
  | listing (items : List ObjectMetadata)
  | deleted (b : Bool)
  | error (e : ObjectStoreError)

/-- The key that a call names. -/
def Call.key? : Call → Option String
  | put _ _ key _ => some key
  | get _ key _ => some key
  | head _ key => some key
  | list _ _ _ => none
  | delete _ key => some key

/-- The metadata of the bytes under an identity. -/
def metadataOf (sha : Sha256) (scope : ObjectScope) (key : String) (data : List UInt8) :
    ObjectMetadata :=
  ⟨scope, key, data.length, sha.checksum data⟩

/-- The bytes that a `put` stores: those of a valid key and of a payload within the limit. -/
def accepted (store : LocalObjectStore) (key : String) (data : ObjectPayload) :
    Option (List UInt8) :=
  if validObjectKey key then
    data.payload?.filter fun bytes => decide (bytes.length ≤ store.maxObjectBytes)
  else none

/-- The contents after a call. -/
def Contents.after (store : LocalObjectStore) (contents : Contents) : Call → Contents
  | .put _ scope key data => match accepted store key data with
    | some bytes => Function.update contents scope (Function.update (contents scope) key (some bytes))
    | none => contents
  | .delete scope key =>
    Function.update contents scope (Function.update (contents scope) key none)
  | _ => contents

/-- The live objects of a scope under a prefix, in the order of their keys. -/
def IsListing (sha : Sha256) (contents : Contents) (scope : ObjectScope) (start : String)
    (items : List ObjectMetadata) : Prop :=
  items.Pairwise (fun m m' => m.key < m'.key) ∧
    ∀ m, m ∈ items ↔ ∃ key data, contents scope key = some data ∧
      start.toList <+: key.toList ∧ m = metadataOf sha scope key data

/-- An answer that is a failure. -/
def Answer.Fails (answer : Answer) : Prop := ∃ e, answer = .error e

/-- An answer that says that there is no object. -/
def Answer.NotFound (answer : Answer) : Prop :=
  ∃ operation, answer = .error (.objectNotFound operation)

/-- The answer about an identity: what is made of its bytes, or that there is no object. -/
def IsAbout (found : List UInt8 → Answer) : Option (List UInt8) → Answer → Prop
  | some data, answer => answer = found data
  | none, answer => answer.NotFound

/-- What the map returns for a `put`: the metadata of what is stored. -/
def IsPutAnswer (sha : Sha256) (scope : ObjectScope) (key : String) :
    Option (List UInt8) → Answer → Prop
  | some data, answer => answer = .metadata (metadataOf sha scope key data)
  | none, answer => answer.Fails

/-- What the map returns for a `list`: the start of the listing. -/
def IsListAnswer (sha : Sha256) (contents : Contents) (scope : ObjectScope) :
    Except ObjectStoreError String → Except ObjectStoreError ℕ → Answer → Prop
  | .ok start, .ok limit, answer =>
    ∃ items, IsListing sha contents scope start items ∧ answer = .listing (items.take limit)
  | _, _, answer => answer.Fails

/-- What the map returns for a call. A call with arguments that are not valid fails. -/
def IsAnswer (sha : Sha256) (store : LocalObjectStore) (contents : Contents) :
    Call → Answer → Prop
  | .put _ scope key data, answer => IsPutAnswer sha scope key (accepted store key data) answer
  | .get scope key maxBytes, answer =>
    if validObjectKey key = true ∧ (store.readLimit maxBytes).isOk = true then
      IsAbout .payload (contents scope key) answer
    else answer.Fails
  | .head scope key, answer =>
    if validObjectKey key = true then
      IsAbout (fun data => .metadata (metadataOf sha scope key data)) (contents scope key) answer
    else answer.Fails
  | .list scope start limit, answer =>
    IsListAnswer sha contents scope (validateKeyPrefix start) (store.listLimit limit) answer
  | .delete scope key, answer =>
    if validObjectKey key = true then answer = .deleted (contents scope key).isSome
    else answer.Fails

/-! ## The store -/

/-- A result as an answer. -/
def answerOf {α : Type} (found : α → Answer) : Except ObjectStoreError α → Answer
  | .ok a => found a
  | .error e => .error e

/-- A call of the store on a disk. -/
def perform (sha : Sha256) (store : LocalObjectStore) (call : Call) (disk : Disk) : Answer × Disk :=
  match call with
  | .put token scope key data =>
    (put sha store token scope key data disk).map (answerOf .metadata) id
  | .get scope key maxBytes => (answerOf .payload (get sha store scope key maxBytes disk), disk)
  | .head scope key => (answerOf .metadata (head sha scope key disk), disk)
  | .list scope start limit => (answerOf .listing (list sha store scope start limit disk), disk)
  | .delete scope key => (delete sha scope key disk).map (answerOf .deleted) id

/-- Over a run, every answer of the store is the answer of the map. -/
def AnswersAsMap (sha : Sha256) (store : LocalObjectStore) :
    Contents → Disk → List Call → Prop
  | _, _, [] => True
  | contents, disk, call :: calls =>
    IsAnswer sha store contents call (perform sha store call disk).1 ∧
      AnswersAsMap sha store (contents.after store call) (perform sha store call disk).2 calls

/-- A call fits: the header of what it stores is within its bound, and what it reads is within the
read limit. -/
def Fits (store : LocalObjectStore) (contents : Contents) : Call → Prop
  | .put _ scope key data =>
    ∀ bytes, accepted store key data = some bytes →
      headerLength scope key bytes.length ≤ headerBytes
  | .get scope key maxBytes =>
    ∀ limit bytes, store.readLimit maxBytes = .ok limit → contents scope key = some bytes →
      bytes.length ≤ limit
  | _ => True

/-- Over a run of the map, every call fits. -/
def AllFit (store : LocalObjectStore) : Contents → List Call → Prop
  | _, [] => True
  | contents, call :: calls => Fits store contents call ∧ AllFit store (contents.after store call) calls

/-! ## Representation -/

/-- The file of the bytes under an identity. -/
def fileOf (sha : Sha256) (scope : ObjectScope) (key : String) (data : List UInt8) : List UInt8 :=
  let text := headerText (metadataOf sha scope key data)
  text ++ List.replicate (headerBytes - text.length) 0 ++ data

/-- A disk represents contents: the directories above a directory of objects exist, and its files are
those of the live identities, whose keys are among the given ones. -/
structure Represents (sha : Sha256) (keys : Set String) (disk : Disk) (contents : Contents) :
    Prop where
  parents : ∀ scope, (disk (objectsDir scope)).isSome = true →
    ∀ path ∈ scopeParts scope, (disk path).isSome = true
  nodup : ∀ scope, (((disk (objectsDir scope)).getD []).map Prod.fst).Nodup
  files : ∀ scope file, file ∈ (disk (objectsDir scope)).getD [] ↔
    ∃ key data, contents scope key = some data ∧
      file = (objectFilename sha key, fileOf sha scope key data)
  live : ∀ scope key data, contents scope key = some data →
    validObjectKey key = true ∧ key ∈ keys ∧ headerLength scope key data.length ≤ headerBytes

/-- The disk of a new store represents no contents. -/
theorem represents_empty (sha : Sha256) (keys : Set String) :
    Represents sha keys emptyDisk noContents where
  parents := by
    intro scope h
    cases h
  nodup := by
    intro scope
    exact List.nodup_nil
  files := by
    intro scope file
    simp [noContents, emptyDisk, objectsDir]
  live := by
    intro scope key data h
    cases h

/-- Metadata of a valid key is well formed. -/
theorem valid_metadataOf (sha : Sha256) (scope : ObjectScope) {key : String}
    (h : validObjectKey key = true) (data : List UInt8) :
    (metadataOf sha scope key data).valid = true := by
  show (validObjectKey key && checksumPattern (sha.checksum data)) = true
  rw [h, checksumPattern_checksum, Bool.and_self]

/-- The file of live bytes opens, for its key and for any. -/
theorem openPath_fileOf (sha : Sha256) {scope : ObjectScope} {key : String} {data : List UInt8}
    (hkey : validObjectKey key = true) (hfit : headerLength scope key data.length ≤ headerBytes)
    {expectedKey : Option String} (he : ∀ k ∈ expectedKey, k = key) :
    openPath scope (fileOf sha scope key data) expectedKey =
      .ok (data, metadataOf sha scope key data) := by
  have hvalid := valid_metadataOf sha scope hkey data
  have hsum : checksumPattern (metadataOf sha scope key data).checksum = true :=
    checksumPattern_checksum sha data
  obtain ⟨hlength, hdecode⟩ := decodeHeader_encodeHeader hvalid
    ((encodeHeader_ok hsum).mpr ⟨hfit, rfl⟩) he
  have htake : (fileOf sha scope key data).take headerBytes =
      headerText (metadataOf sha scope key data) ++
        List.replicate (headerBytes - (headerText (metadataOf sha scope key data)).length) 0 :=
    List.take_left' hlength
  have hdrop : (fileOf sha scope key data).drop headerBytes = data := List.drop_left' hlength
  have hsize : (fileOf sha scope key data).length = headerBytes + data.length := by
    rw [fileOf, List.length_append, hlength]
  have hscope : (metadataOf sha scope key data).scope = scope := rfl
  have hlen : (metadataOf sha scope key data).size = data.length := rfl
  rw [hscope] at hdecode
  simp only [openPath, htake, hdecode, hdrop, hsize, bind, Except.bind, hlen, bne_self_eq_false,
    Bool.false_eq_true, if_false]

section Step

variable {sha : Sha256} {store : LocalObjectStore} {keys : Set String} {disk : Disk} {scope : ObjectScope}
  {key token : String} {data : ObjectPayload} {bytes : List UInt8} {n : ℕ}
  {contents : Contents}
  (hkeys : Set.InjOn (fun key : String => sha.hexdigest key.toUTF8.toList) keys)

/-- The files of a scope: those of its directory, if it exists. -/
theorem Represents.scopeObjectsDir (h : Represents sha keys disk contents) (scope : ObjectScope) :
    ObjectStore.scopeObjectsDir disk scope = disk (objectsDir scope) := by
  unfold ObjectStore.scopeObjectsDir
  cases hd : disk (objectsDir scope) with
  | none => split <;> rfl
  | some files =>
    have hall : (scopeParts scope).all (fun path => (disk path).isSome) = true := by
      rw [List.all_eq_true]
      exact h.parents scope (by rw [hd]; rfl)
    rw [if_pos hall]

include hkeys in
/-- The file under the name of a key is that of the bytes under the key. -/
theorem Represents.lookup (h : Represents sha keys disk contents) (scope : ObjectScope) (hk : key ∈ keys) :
    ((disk (objectsDir scope)).getD []).lookup (objectFilename sha key) =
      (contents scope key).map (fileOf sha scope key) := by
  cases hc : contents scope key with
  | some data =>
    rw [Option.map_some, Directory.lookup_eq_some (h.nodup scope)]
    exact (h.files scope _).mpr ⟨key, data, hc, rfl⟩
  | none =>
    rw [Option.map_none]
    cases hl : ((disk (objectsDir scope)).getD []).lookup (objectFilename sha key) with
    | none => rfl
    | some content =>
      have hmem := (Directory.lookup_eq_some (h.nodup scope)).mp hl
      obtain ⟨key', data, hlive, heq⟩ := (h.files scope _).mp hmem
      have hsame := objectFilename_inj hkeys hk (h.live _ _ _ hlive).2.1 (Prod.mk.inj heq).1
      rw [hsame, hlive] at hc
      cases hc

include hkeys in
/-- What opening a key gives: the bytes under it. -/
theorem Represents.openObject (h : Represents sha keys disk contents) (scope : ObjectScope) (hk : key ∈ keys) :
    match contents scope key with
    | some data => ObjectStore.openObject sha scope key disk =
        .ok (data, metadataOf sha scope key data)
    | none => ∃ operation, ObjectStore.openObject sha scope key disk =
        .error (.objectNotFound operation) := by
  have hlookup := h.lookup hkeys scope hk
  unfold ObjectStore.openObject
  rw [h.scopeObjectsDir]
  cases hd : disk (objectsDir scope) with
  | none =>
    rw [hd] at hlookup
    cases hc : contents scope key with
    | none => exact ⟨_, rfl⟩
    | some data =>
      rw [hc] at hlookup
      cases hlookup
  | some files =>
    rw [hd, Option.getD_some] at hlookup
    cases hc : contents scope key with
    | none =>
      rw [hc, Option.map_none] at hlookup
      simp only [hlookup]
      exact ⟨_, rfl⟩
    | some data =>
      rw [hc, Option.map_some] at hlookup
      obtain ⟨hkey, -, hfit⟩ := h.live scope key data hc
      simp only [hlookup]
      exact openPath_fileOf sha hkey hfit (by simp)

/-- A valid key is returned as it is. -/
theorem validateObjectKey_ok {key' : String} :
    validateObjectKey key = .ok key' ↔ validObjectKey key = true ∧ key' = key := by
  unfold validateObjectKey
  split
  · next h =>
    constructor
    · intro heq
      cases heq
      exact ⟨h, rfl⟩
    · rintro ⟨-, rfl⟩
      rfl
  · next h =>
    constructor
    · intro heq
      cases heq
    · rintro ⟨hvalid, -⟩
      exact absurd hvalid h

/-! ### Reading -/

variable {maxBytes : Option ℤ} {limit : ℕ} {files : Directory} {call : Call}

include hkeys in
/-- What `get` returns for live bytes: them, if they are within the limit. -/
theorem Represents.get_some (h : Represents sha keys disk contents) (hk : key ∈ keys)
    (hl : store.readLimit maxBytes = .ok limit) {data : List UInt8} (hc : contents scope key = some data) :
    ObjectStore.get sha store scope key maxBytes disk =
      if data.length > limit then .error (.objectReadLimitExceeded limit data.length)
      else .ok data := by
  have hopen := h.openObject hkeys scope hk
  rw [hc] at hopen
  have hv := validateObjectKey_ok.mpr ⟨(h.live scope key data hc).1, rfl⟩
  have hread : readPayload data data.length = .ok data := by
    rw [readPayload_eq _ le_rfl, List.take_length]
  have hdigest : (metadataOf sha scope key data).sha256 = sha.hexdigest data :=
    sha256_checksum sha rfl
  have hsize : (metadataOf sha scope key data).size = data.length := rfl
  simp only [ObjectStore.get, hv, hl, hopen, bind, Except.bind, hsize, hdigest, hread,
    bne_self_eq_false, Bool.false_eq_true, if_false, pure, Except.pure]

include hkeys in
/-- What `get` returns where nothing is live. -/
theorem Represents.get_none (h : Represents sha keys disk contents) (hk : key ∈ keys)
    (hvalid : validObjectKey key = true) (hl : store.readLimit maxBytes = .ok limit)
    (hc : contents scope key = none) :
    ∃ operation, ObjectStore.get sha store scope key maxBytes disk =
      .error (.objectNotFound operation) := by
  have hopen := h.openObject hkeys scope hk
  rw [hc] at hopen
  obtain ⟨operation, hopen⟩ := hopen
  refine ⟨operation, ?_⟩
  simp only [ObjectStore.get, validateObjectKey_ok.mpr ⟨hvalid, rfl⟩, hl, hopen, bind, Except.bind]

include hkeys in
/-- A `get` answers as the map exactly when it fits. -/
theorem isAnswer_get (h : Represents sha keys disk contents) (hk : key ∈ keys) (maxBytes : Option ℤ) :
    IsAnswer sha store contents (.get scope key maxBytes)
        (perform sha store (.get scope key maxBytes) disk).1 ↔
      Fits store contents (.get scope key maxBytes) := by
  show (if validObjectKey key = true ∧ (store.readLimit maxBytes).isOk = true then
      IsAbout .payload (contents scope key)
        (answerOf .payload (ObjectStore.get sha store scope key maxBytes disk))
    else (answerOf .payload (ObjectStore.get sha store scope key maxBytes disk)).Fails) ↔
      ∀ limit bytes, store.readLimit maxBytes = .ok limit → contents scope key = some bytes →
        bytes.length ≤ limit
  by_cases hvalid : validObjectKey key = true
  · cases hl : store.readLimit maxBytes with
    | error e =>
      have hget : ObjectStore.get sha store scope key maxBytes disk = .error e := by
        simp only [ObjectStore.get, validateObjectKey_ok.mpr ⟨hvalid, rfl⟩, hl, bind, Except.bind]
      rw [if_neg (fun hand => Bool.false_ne_true hand.2), hget]
      constructor
      · intro _ limit bytes hlimit
        cases hlimit
      · intro _
        exact ⟨e, rfl⟩
    | ok limit =>
      rw [if_pos ⟨hvalid, rfl⟩]
      cases hc : contents scope key with
      | none =>
        obtain ⟨operation, hget⟩ := h.get_none hkeys hk hvalid hl hc
        rw [hget]
        constructor
        · intro _ limit' bytes _ hbytes
          cases hbytes
        · intro _
          exact ⟨operation, rfl⟩
      | some data =>
        rw [h.get_some hkeys hk hl hc]
        constructor
        · intro hanswer limit' bytes hlimit hbytes
          cases hlimit
          cases hbytes
          by_contra hover
          rw [if_pos (Nat.lt_of_not_le hover)] at hanswer
          cases hanswer
        · intro hfit
          rw [if_neg (Nat.not_lt.mpr (hfit limit data rfl rfl))]
          rfl
  · rw [if_neg (fun hand => hvalid hand.1)]
    have hget : ObjectStore.get sha store scope key maxBytes disk = .error .invalidObjectKey := by
      simp only [ObjectStore.get, validateObjectKey, if_neg hvalid, bind, Except.bind]
    rw [hget]
    constructor
    · intro _ limit bytes _ hbytes
      exact absurd (h.live scope key bytes hbytes).1 hvalid
    · intro _
      exact ⟨_, rfl⟩

include hkeys in
/-- A `head` answers as the map. -/
theorem isAnswer_head (h : Represents sha keys disk contents) (hk : key ∈ keys) :
    IsAnswer sha store contents (.head scope key) (perform sha store (.head scope key) disk).1 := by
  have hopen := h.openObject hkeys scope hk
  show if validObjectKey key = true then
      IsAbout (fun data => .metadata (metadataOf sha scope key data)) (contents scope key)
        (answerOf .metadata (ObjectStore.head sha scope key disk))
    else (answerOf .metadata (ObjectStore.head sha scope key disk)).Fails
  by_cases hvalid : validObjectKey key = true
  · have hv := validateObjectKey_ok.mpr ⟨hvalid, rfl⟩
    rw [if_pos hvalid]
    cases hc : contents scope key with
    | none =>
      rw [hc] at hopen
      obtain ⟨operation, hopen⟩ := hopen
      simp only [ObjectStore.head, hv, hopen, bind, Except.bind]
      exact ⟨operation, rfl⟩
    | some data =>
      rw [hc] at hopen
      simp only [ObjectStore.head, hv, hopen, bind, Except.bind]
      rfl
  · rw [if_neg hvalid]
    simp only [ObjectStore.head, validateObjectKey, if_neg hvalid, bind, Except.bind]
    exact ⟨_, rfl⟩

/-- The entry of an identity in its directory. -/
def entryOf (sha : Sha256) (scope : ObjectScope) (object : String × List UInt8) :
    String × List UInt8 :=
  (objectFilename sha object.1, fileOf sha scope object.1 object.2)

/-- The loop of `list` over entries of identities gives the metadata of those under the prefix. -/
theorem listEntries_eq (sha : Sha256) (start : String) {objects : List (String × List UInt8)}
    (h : ∀ object ∈ objects, validObjectKey object.1 = true ∧ headerLength scope object.1 object.2.length ≤ headerBytes) :
    listEntries sha scope start (objects.map (entryOf sha scope)) =
      .ok ((objects.filter fun object => start.toList.isPrefixOf object.1.toList).map
        fun object => metadataOf sha scope object.1 object.2) := by
  induction objects with
  | nil => rfl
  | cons object objects ih =>
    obtain ⟨key, data⟩ := object
    obtain ⟨hvalid, hfit⟩ := h (key, data) List.mem_cons_self
    have hrest := ih fun object hobject => h object (List.mem_cons_of_mem _ hobject)
    have hopen : openPath scope (fileOf sha scope key data) none =
        .ok (data, metadataOf sha scope key data) := openPath_fileOf sha hvalid hfit (by simp)
    have hname : (metadataOf sha scope key data).key = key := rfl
    rw [List.map_cons, entryOf, listEntries]
    simp only [objectFilename_not_temporary, objectFilename_suffix, hopen, hrest, hname,
      bne_self_eq_false, Bool.not_true, Bool.false_eq_true, if_false, bind, Except.bind, pure,
      Except.pure, List.filter_cons]
    split <;> rfl

/-- The objects of a scope, one for each file of its directory. -/
theorem Represents.objects (h : Represents sha keys disk contents) (scope : ObjectScope)
    (entries : Directory) (he : ∀ file ∈ entries, file ∈ (disk (objectsDir scope)).getD []) :
    ∃ objects : List (String × List UInt8), objects.map (entryOf sha scope) = entries ∧
      ∀ object ∈ objects, contents scope object.1 = some object.2 := by
  induction entries with
  | nil => exact ⟨[], rfl, by simp⟩
  | cons file entries ih =>
    obtain ⟨objects, hmap, hall⟩ := ih fun f hf => he f (List.mem_cons_of_mem _ hf)
    obtain ⟨key, data, hlive, heq⟩ := (h.files scope file).mp (he file List.mem_cons_self)
    refine ⟨(key, data) :: objects, ?_, ?_⟩
    · rw [List.map_cons, hmap, heq]
      rfl
    · intro object hobject
      rcases List.mem_cons.mp hobject with rfl | hobject
      · exact hlive
      · exact hall object hobject

include hkeys in
/-- The listing of a scope. -/
theorem Represents.listing (h : Represents sha keys disk contents) (hd : disk (objectsDir scope) = some files)
    (start : String) :
    ∃ items, listEntries sha scope start (files.insertionSort fun a b => a.1 ≤ b.1) = .ok items ∧
      IsListing sha contents scope start (items.insertionSort fun a b => a.key ≤ b.key) := by
  have hperm := List.perm_insertionSort (fun a b : String × List UInt8 => a.1 ≤ b.1) files
  have hfiles := h.files scope
  have hnodup := h.nodup scope
  rw [hd, Option.getD_some] at hfiles hnodup
  obtain ⟨objects, hmap, hall⟩ := h.objects scope
    (files.insertionSort fun a b => a.1 ≤ b.1) (by
      intro file hfile
      rw [hd]
      exact hperm.mem_iff.mp hfile)
  have hgood : ∀ object ∈ objects, validObjectKey object.1 = true ∧
      headerLength scope object.1 object.2.length ≤ headerBytes := by
    intro object hobject
    obtain ⟨hvalid, -, hfit⟩ := h.live scope object.1 object.2 (hall object hobject)
    exact ⟨hvalid, hfit⟩
  have hmem : ∀ key data, contents scope key = some data → (key, data) ∈ objects := by
    intro key data hlive
    have hfile := (hfiles _).mpr ⟨key, data, hlive, rfl⟩
    rw [← hperm.mem_iff, ← hmap] at hfile
    obtain ⟨⟨key', data'⟩, hobject, heq⟩ := List.mem_map.mp hfile
    have hlive' := hall _ hobject
    have hkey : key' = key := objectFilename_inj hkeys (h.live _ _ _ hlive').2.1
      (h.live _ _ _ hlive).2.1 (Prod.mk.inj heq).1
    subst hkey
    rw [hlive] at hlive'
    cases hlive'
    exact hobject
  have hdistinct : (objects.map Prod.fst).Nodup := by
    have hnames : ((objects.map (entryOf sha scope)).map Prod.fst).Nodup := by
      rw [hmap]
      exact (hperm.map Prod.fst).nodup_iff.mpr hnodup
    have hcomp : (objects.map (entryOf sha scope)).map Prod.fst =
        (objects.map Prod.fst).map (objectFilename sha) := by
      rw [List.map_map, List.map_map]
      rfl
    rw [hcomp] at hnames
    exact hnames.of_map _
  refine ⟨_, by rw [← hmap, listEntries_eq sha start hgood], ?_, ?_⟩
  · -- The keys are in order and distinct, so they increase.
    generalize hitems : (objects.filter fun object => start.toList.isPrefixOf object.1.toList).map
      (fun object => metadataOf sha scope object.1 object.2) = items
    have hkeysOf : items.map ObjectMetadata.key =
        (objects.filter fun object => start.toList.isPrefixOf object.1.toList).map Prod.fst := by
      rw [← hitems, List.map_map]
      rfl
    have hsorted : (items.insertionSort fun a b => a.key ≤ b.key).map ObjectMetadata.key =
        (items.map ObjectMetadata.key).insertionSort (· ≤ ·) :=
      List.map_insertionSort _ _ _ _ fun a _ b _ => Iff.rfl
    have hnd : ((items.map ObjectMetadata.key).insertionSort (· ≤ ·)).Nodup := by
      rw [(List.perm_insertionSort _ _).nodup_iff, hkeysOf]
      exact hdistinct.sublist (List.Sublist.map _ List.filter_sublist)
    have hle := List.pairwise_insertionSort (· ≤ ·) (items.map ObjectMetadata.key)
    have hlt := hle.imp₂ (fun a b hab hne => lt_of_le_of_ne hab hne) hnd
    rw [← hsorted, List.pairwise_map] at hlt
    exact hlt
  · intro m
    rw [List.mem_insertionSort, List.mem_map]
    constructor
    · rintro ⟨⟨key, data⟩, hobject, rfl⟩
      obtain ⟨hobject, hstart⟩ := List.mem_filter.mp hobject
      exact ⟨key, data, hall _ hobject, List.isPrefixOf_iff_prefix.mp hstart, rfl⟩
    · rintro ⟨key, data, hlive, hstart, rfl⟩
      exact ⟨(key, data), List.mem_filter.mpr
        ⟨hmem key data hlive, List.isPrefixOf_iff_prefix.mpr hstart⟩, rfl⟩

/-- A scope without a directory has no objects. -/
theorem Represents.listing_nil (h : Represents sha keys disk contents) (hd : disk (objectsDir scope) = none)
    (start : String) :
    IsListing sha contents scope start [] := by
  refine ⟨List.Pairwise.nil, ?_⟩
  intro m
  constructor
  · intro hm
    cases hm
  · rintro ⟨key, data, hlive, -, -⟩
    have hfile := (h.files scope _).mpr ⟨key, data, hlive, rfl⟩
    rw [hd] at hfile
    cases hfile

include hkeys in
/-- A `list` answers as the map. -/
theorem isAnswer_list (h : Represents sha keys disk contents) (scope : ObjectScope)
    (start : String) (limit : Option ℤ) :
    IsAnswer sha store contents (.list scope start limit)
      (perform sha store (.list scope start limit) disk).1 := by
  show IsListAnswer sha contents scope (validateKeyPrefix start) (store.listLimit limit)
    (answerOf .listing (ObjectStore.list sha store scope start limit disk))
  cases hp : validateKeyPrefix start with
  | error e =>
    simp only [ObjectStore.list, hp, bind, Except.bind]
    exact ⟨e, rfl⟩
  | ok checked =>
    cases hl : store.listLimit limit with
    | error e =>
      simp only [ObjectStore.list, hp, hl, bind, Except.bind]
      exact ⟨e, rfl⟩
    | ok resultLimit =>
      -- The listing is cut at the limit, and a limit of zero cuts all of it.
      have hvalue : ∃ items, IsListing sha contents scope checked items ∧
          ObjectStore.list sha store scope start limit disk = .ok (items.take resultLimit) := by
        cases hd : disk (objectsDir scope) with
        | none =>
          refine ⟨[], h.listing_nil hd checked, ?_⟩
          simp only [ObjectStore.list, hp, hl, h.scopeObjectsDir, hd, bind, Except.bind, pure,
            Except.pure, List.take_nil, ite_self]
        | some files =>
          obtain ⟨items, hitems, hlisting⟩ := h.listing hkeys hd checked
          refine ⟨_, hlisting, ?_⟩
          simp only [ObjectStore.list, hp, hl, h.scopeObjectsDir, hd, hitems, bind, Except.bind,
            pure, Except.pure]
          split
          · next hzero => rw [hzero, List.take_zero]
          · rfl
      obtain ⟨items, hlisting, hvalue⟩ := hvalue
      rw [hvalue]
      exact ⟨items, hlisting, rfl⟩

/-! ### Writing -/

/-- No temporary name is the name of a file. -/
theorem Represents.temporary_not_mem (h : Represents sha keys disk contents) (scope : ObjectScope)
    (token : String) : temporaryName token ∉ ((disk (objectsDir scope)).getD []).map Prod.fst := by
  intro hmem
  obtain ⟨file, hfile, hname⟩ := List.mem_map.mp hmem
  obtain ⟨key, data, -, rfl⟩ := (h.files scope file).mp hfile
  exact objectFilename_ne_temporaryName sha key token hname

/-- Directories that are made represent what was represented. -/
theorem Represents.make (h : Represents sha keys disk contents) (scope : ObjectScope) :
    Represents sha keys (makeScopeObjectsDir disk scope) contents := by
  have hfiles : ∀ scope', (makeScopeObjectsDir disk scope (objectsDir scope')).getD [] =
      (disk (objectsDir scope')).getD [] := by
    intro scope'
    rw [makeScopeObjectsDir_objectsDir]
    split
    · next heq => rw [heq, Option.getD_some]
    · rfl
  refine ⟨?_, ?_, ?_, h.live⟩
  · intro scope' hsome path hpath
    rw [makeScopeObjectsDir_objectsDir] at hsome
    by_cases heq : scope' = scope
    · subst heq
      exact isSome_makeScopeObjectsDir scope' (.inr hpath)
    · rw [if_neg heq] at hsome
      exact isSome_makeScopeObjectsDir scope (.inl (h.parents scope' hsome path hpath))
  · intro scope'
    rw [hfiles]
    exact h.nodup scope'
  · intro scope' file
    rw [hfiles]
    exact h.files scope' file

include hkeys in
/-- A change of the files of a scope at the name of a key represents the change of the contents under
that key. -/
theorem Represents.update (h : Represents sha keys disk contents) (hk : key ∈ keys) {files' : Directory}
    (hd : disk (objectsDir scope) = some files) {f : Directory → Directory} (hf : f files = files')
    (hnodup : (files'.map Prod.fst).Nodup) (value : Option (List UInt8))
    (hmem : ∀ file, file ∈ files' ↔ (∃ data, value = some data ∧ file = (objectFilename sha key, fileOf sha scope key data)) ∨ file.1 ≠ objectFilename sha key ∧ file ∈ files)
    (hlive : ∀ data, value = some data → validObjectKey key = true ∧ headerLength scope key data.length ≤ headerBytes) :
    Represents sha keys (updateFiles disk scope f)
      (Function.update contents scope (Function.update (contents scope) key value)) := by
  have hself : updateFiles disk scope f (objectsDir scope) = some files' := by
    rw [updateFiles, Function.update_self, hd, Option.map_some, hf]
  have hother : ∀ path, path ≠ objectsDir scope → updateFiles disk scope f path = disk path := by
    intro path hpath
    exact Function.update_of_ne hpath _ _
  have hsome : ∀ path, (updateFiles disk scope f path).isSome = (disk path).isSome := by
    intro path
    by_cases hpath : path = objectsDir scope
    · rw [hpath, hself, hd]
      rfl
    · rw [hother path hpath]
  refine ⟨?_, ?_, ?_, ?_⟩
  · intro scope' hs path hpath
    rw [hsome] at hs ⊢
    exact h.parents scope' hs path hpath
  · intro scope'
    by_cases heq : scope' = scope
    · subst heq
      rw [hself, Option.getD_some]
      exact hnodup
    · rw [hother _ fun hp => heq (objectsDir_injective hp)]
      exact h.nodup scope'
  · intro scope' file
    by_cases heq : scope' = scope
    · subst heq
      have hold := h.files scope' file
      rw [hd, Option.getD_some] at hold
      rw [hself, Option.getD_some, hmem, Function.update_self]
      constructor
      · rintro (⟨data, hvalue, hfile⟩ | ⟨hne, hfile⟩)
        · exact ⟨key, data, by rw [Function.update_self, hvalue], hfile⟩
        · obtain ⟨key', data, hc, hfile'⟩ := hold.mp hfile
          have hkey : key' ≠ key := by
            rintro rfl
            exact hne (by rw [hfile'])
          exact ⟨key', data, by rw [Function.update_of_ne hkey, hc], hfile'⟩
      · rintro ⟨key', data, hc, hfile⟩
        by_cases hkey : key' = key
        · subst hkey
          rw [Function.update_self] at hc
          exact .inl ⟨data, hc, hfile⟩
        · rw [Function.update_of_ne hkey] at hc
          refine .inr ⟨?_, hold.mpr ⟨key', data, hc, hfile⟩⟩
          rw [hfile]
          intro hname
          exact hkey (objectFilename_inj hkeys (h.live _ _ _ hc).2.1 hk hname)
    · rw [hother _ fun hp => heq (objectsDir_injective hp), Function.update_of_ne heq]
      exact h.files scope' file
  · intro scope' key' data hc
    by_cases heq : scope' = scope
    · subst heq
      rw [Function.update_self] at hc
      by_cases hkey : key' = key
      · subst hkey
        rw [Function.update_self] at hc
        obtain ⟨hvalid, hfit⟩ := hlive data hc
        exact ⟨hvalid, hk, hfit⟩
      · rw [Function.update_of_ne hkey] at hc
        exact h.live _ _ _ hc
    · rw [Function.update_of_ne heq] at hc
      exact h.live _ _ _ hc

/-- What is staged for accepted bytes: their file, if its header fits. -/
theorem stage_accepted (h : accepted store key data = some bytes) :
    stage sha store scope key data =
      if headerLength scope key bytes.length ≤ headerBytes then
        .ok (metadataOf sha scope key bytes, fileOf sha scope key bytes)
      else .error .objectStoreConfiguration := by
  unfold accepted at h
  split at h
  · next hkey =>
    obtain ⟨hpayload, hlimit⟩ := Option.filter_eq_some_iff.mp h
    rw [decide_eq_true_eq] at hlimit
    have hcopy := copyPayload_ok (List.replicate headerBytes 0) hpayload hlimit
    have hvalid := valid_metadataOf sha scope hkey bytes
    have hsum : checksumPattern (metadataOf sha scope key bytes).checksum = true :=
      checksumPattern_checksum sha bytes
    have hmeta : (⟨scope, key, bytes.length, sha.checksum bytes⟩ : ObjectMetadata) =
        metadataOf sha scope key bytes := rfl
    unfold stage
    simp only [hcopy, bind, Except.bind, hmeta, hvalid, Bool.not_true, Bool.false_eq_true, if_false,
      pure, Except.pure]
    by_cases hfit : headerLength scope key bytes.length ≤ headerBytes
    · have hencode := (encodeHeader_ok hsum).mpr ⟨hfit, rfl⟩
      obtain ⟨hlength, -⟩ := @decodeHeader_encodeHeader _ hvalid _ hencode
        none (by simp)
      have hzeros : (List.replicate headerBytes (0 : UInt8)).length = headerBytes :=
        List.length_replicate
      have hdrop : (List.replicate headerBytes 0 ++ bytes).drop headerBytes = bytes :=
        List.drop_left' hzeros
      simp only [hencode, hlength, if_pos hfit, hdrop, fileOf]
    · have hencode : encodeHeader (metadataOf sha scope key bytes) =
          .error .objectStoreConfiguration := by
        rw [encodeHeader, if_pos]
        rw [length_headerText hsum]
        exact Nat.lt_of_not_le hfit
      simp only [hencode, if_neg hfit]
  · cases h

/-- Nothing is staged for a valid key and bytes that are not accepted. -/
theorem stage_error (h : accepted store key data = none) (hkey : validObjectKey key = true) :
    ∃ e, stage sha store scope key data = .error e := by
  have hlong : ∀ bytes, data.payload? = some bytes → store.maxObjectBytes < bytes.length := by
    intro bytes hbytes
    rw [accepted, if_pos hkey, hbytes, Option.filter_eq_none_iff] at h
    simpa using h bytes rfl
  obtain ⟨e, he⟩ := copyPayload_error (List.replicate headerBytes 0) hlong
  refine ⟨e, ?_⟩
  unfold stage
  simp only [he, bind, Except.bind]

/-- A `put` that fails leaves the files as they are. -/
theorem Represents.put_error (h : Represents sha keys disk contents) {e : ObjectStoreError} {disk' : Disk}
    (hput : ObjectStore.put sha store token scope key data disk = (.error e, disk')) :
    Represents sha keys disk' contents := by
  unfold ObjectStore.put at hput
  cases hv : validateObjectKey key with
  | error e' =>
    simp only [hv] at hput
    cases hput
    exact h
  | ok key' =>
    simp only [hv] at hput
    cases hs : stage sha store scope key' data with
    | ok staged =>
      obtain ⟨m, content⟩ := staged
      simp only [hs] at hput
      cases (Prod.mk.inj hput).1
    | error e' =>
      simp only [hs] at hput
      obtain ⟨-, rfl⟩ := Prod.mk.inj hput
      have hmade := h.make scope
      have hnot := hmade.temporary_not_mem scope token
      have hself : makeScopeObjectsDir disk scope (objectsDir scope) =
          some ((disk (objectsDir scope)).getD []) := by
        rw [makeScopeObjectsDir_objectsDir, if_pos rfl]
      rw [hself, Option.getD_some] at hnot
      have hsame : updateFiles (makeScopeObjectsDir disk scope) scope
          (fun files => (files.write (temporaryName token) []).unlink (temporaryName token)) =
            makeScopeObjectsDir disk scope := by
        rw [updateFiles, hself, Option.map_some, Directory.write_unlink hnot, ← hself,
          Function.update_eq_self]
      rw [hsame]
      exact hmade

include hkeys in
/-- A `put` of accepted bytes whose header fits stores them. -/
theorem Represents.put_accepted (h : Represents sha keys disk contents) (token : String) (hk : key ∈ keys)
    (ha : accepted store key data = some bytes) (hfit : headerLength scope key bytes.length ≤ headerBytes) :
    ∃ disk', ObjectStore.put sha store token scope key data disk =
        (.ok (metadataOf sha scope key bytes), disk') ∧
      Represents sha keys disk'
        (Function.update contents scope (Function.update (contents scope) key (some bytes))) := by
  have hvalid : validObjectKey key = true := by
    unfold accepted at ha
    split at ha
    · next hkey => exact hkey
    · cases ha
  have hmade := h.make scope
  have hnot := hmade.temporary_not_mem scope token
  have hnodup := hmade.nodup scope
  have hself : makeScopeObjectsDir disk scope (objectsDir scope) =
      some ((disk (objectsDir scope)).getD []) := by
    rw [makeScopeObjectsDir_objectsDir, if_pos rfl]
  rw [hself, Option.getD_some] at hnot hnodup
  unfold ObjectStore.put
  simp only [validateObjectKey_ok.mpr ⟨hvalid, rfl⟩, stage_accepted ha, if_pos hfit]
  refine ⟨_, rfl, ?_⟩
  apply hmade.update hkeys hk hself (Directory.write_replace hnot) (Directory.nodup_write hnodup)
  · intro file
    rw [Directory.mem_write]
    simp
  · intro data' hdata
    cases hdata
    exact ⟨hvalid, hfit⟩

/-- A `put` of bytes that are not accepted fails. -/
theorem put_not_accepted (ha : accepted store key data = none) :
    ∃ e, (ObjectStore.put sha store token scope key data disk).1 = .error e := by
  by_cases hvalid : validObjectKey key = true
  · obtain ⟨e, he⟩ := @stage_error sha _ scope _ _ ha hvalid
    simp only [ObjectStore.put, validateObjectKey_ok.mpr ⟨hvalid, rfl⟩, he]
    exact ⟨e, rfl⟩
  · simp only [ObjectStore.put, validateObjectKey, if_neg hvalid]
    exact ⟨_, rfl⟩

/-- A `put` of accepted bytes whose header does not fit fails. -/
theorem put_not_fitting (ha : accepted store key data = some bytes)
    (hfit : ¬ headerLength scope key bytes.length ≤ headerBytes) :
    (ObjectStore.put sha store token scope key data disk).1 =
      .error .objectStoreConfiguration := by
  have hvalid : validObjectKey key = true := by
    unfold accepted at ha
    split at ha
    · next hkey => exact hkey
    · cases ha
  simp only [ObjectStore.put, validateObjectKey_ok.mpr ⟨hvalid, rfl⟩, stage_accepted ha,
    if_neg hfit]

/-- A `put` of accepted bytes whose header does not fit does not answer as the map. -/
theorem not_isAnswer_put (ha : accepted store key data = some bytes)
    (hfit : ¬ headerLength scope key bytes.length ≤ headerBytes) :
    ¬ IsAnswer sha store contents (.put token scope key data)
      (perform sha store (.put token scope key data) disk).1 := by
  show ¬ IsPutAnswer sha scope key (accepted store key data)
    (answerOf .metadata (ObjectStore.put sha store token scope key data disk).1)
  rw [ha, put_not_fitting ha hfit]
  intro heq
  cases heq

/-! ### Steps -/

include hkeys in
/-- A `put` answers as the map exactly when it fits. -/
theorem isAnswer_put (h : Represents sha keys disk contents) (token : String) (hk : key ∈ keys)
    (data : ObjectPayload) :
    IsAnswer sha store contents (.put token scope key data)
        (perform sha store (.put token scope key data) disk).1 ↔
      Fits store contents (.put token scope key data) := by
  cases ha : accepted store key data with
  | some bytes =>
    by_cases hfit : headerLength scope key bytes.length ≤ headerBytes
    · obtain ⟨disk', hput, -⟩ := h.put_accepted hkeys token hk ha hfit
      refine iff_of_true ?_ ?_
      · show IsPutAnswer sha scope key (accepted store key data)
          (answerOf .metadata (ObjectStore.put sha store token scope key data disk).1)
        rw [ha, hput]
        rfl
      · intro bytes' heq
        rw [ha] at heq
        cases heq
        exact hfit
    · exact iff_of_false (not_isAnswer_put ha hfit) fun hall => hfit (hall bytes ha)
  | none =>
    show IsPutAnswer sha scope key (accepted store key data)
        (answerOf .metadata (ObjectStore.put sha store token scope key data disk).1) ↔
      ∀ bytes, accepted store key data = some bytes →
        headerLength scope key bytes.length ≤ headerBytes
    rw [ha]
    obtain ⟨e, he⟩ := @put_not_accepted sha _ disk scope _ token _ ha
    rw [he]
    refine iff_of_true ⟨e, rfl⟩ ?_
    intro bytes heq
    cases heq

include hkeys in
/-- A `delete` answers as the map. -/
theorem isAnswer_delete (h : Represents sha keys disk contents) (hk : key ∈ keys) :
    IsAnswer sha store contents (.delete scope key)
      (perform sha store (.delete scope key) disk).1 := by
  have hlookup := h.lookup hkeys scope hk
  show if validObjectKey key = true then
      answerOf .deleted (ObjectStore.delete sha scope key disk).1 =
        .deleted (contents scope key).isSome
    else (answerOf .deleted (ObjectStore.delete sha scope key disk).1).Fails
  by_cases hvalid : validObjectKey key = true
  · rw [if_pos hvalid]
    simp only [ObjectStore.delete, validateObjectKey_ok.mpr ⟨hvalid, rfl⟩, h.scopeObjectsDir]
    cases hd : disk (objectsDir scope) with
    | none =>
      rw [hd] at hlookup
      cases hc : contents scope key with
      | none => rfl
      | some data =>
        rw [hc] at hlookup
        cases hlookup
    | some files =>
      rw [hd, Option.getD_some] at hlookup
      simp only [hlookup]
      cases contents scope key <;> rfl
  · rw [if_neg hvalid]
    simp only [ObjectStore.delete, validateObjectKey, if_neg hvalid]
    exact ⟨_, rfl⟩

include hkeys in
/-- What a call answers on a disk that represents contents is the answer of the map exactly when the
call fits. -/
theorem isAnswer_iff_fits (h : Represents sha keys disk contents) {call : Call}
    (hk : ∀ key ∈ call.key?, key ∈ keys) :
    IsAnswer sha store contents call (perform sha store call disk).1 ↔
      Fits store contents call := by
  cases call with
  | put token scope key data => exact isAnswer_put hkeys h token (hk key rfl) data
  | get scope key maxBytes => exact isAnswer_get hkeys h (hk key rfl) maxBytes
  | head scope key => exact iff_of_true (isAnswer_head hkeys h (hk key rfl)) trivial
  | list scope start limit => exact iff_of_true (isAnswer_list hkeys h scope start limit) trivial
  | delete scope key => exact iff_of_true (isAnswer_delete hkeys h (hk key rfl)) trivial

/-- Contents without bytes under a key are not changed by removing them. -/
theorem update_none (h : contents scope key = none) :
    Function.update contents scope (Function.update (contents scope) key none) = contents := by
  rw [← h, Function.update_eq_self, Function.update_eq_self]

include hkeys in
/-- The disk after a call that fits represents the contents after it. -/
theorem represents_after (h : Represents sha keys disk contents) (hk : ∀ key ∈ call.key?, key ∈ keys)
    (hfits : Fits store contents call) :
    Represents sha keys (perform sha store call disk).2 (contents.after store call) := by
  cases call with
  | put token scope key data =>
    cases ha : accepted store key data with
    | some bytes =>
      obtain ⟨disk', hput, hrep⟩ := h.put_accepted hkeys token (hk key rfl) ha
        (hfits bytes ha)
      simp only [perform, hput, Contents.after, ha]
      exact hrep
    | none =>
      obtain ⟨e, he⟩ := @put_not_accepted sha _ disk scope _ token _ ha
      simp only [Contents.after, ha]
      exact h.put_error (Prod.ext he rfl)
  | get scope key maxBytes => exact h
  | head scope key => exact h
  | list scope start limit => exact h
  | delete scope key =>
    have hlookup := h.lookup hkeys scope (hk key rfl)
    cases hc : contents scope key with
    | none =>
      -- Nothing is live under the key, so that neither the contents nor the files change.
      rw [hc, Option.map_none] at hlookup
      simp only [Contents.after, update_none hc, perform, ObjectStore.delete, h.scopeObjectsDir]
      cases hv : validateObjectKey key with
      | error e => exact h
      | ok key' =>
        obtain ⟨-, rfl⟩ := validateObjectKey_ok.mp hv
        cases hd : disk (objectsDir scope) with
        | none => exact h
        | some files =>
          rw [hd, Option.getD_some] at hlookup
          simp only [hlookup]
          exact h
    | some data =>
      have hvalid := (h.live scope key data hc).1
      rw [hc, Option.map_some] at hlookup
      simp only [Contents.after, perform, ObjectStore.delete, validateObjectKey_ok.mpr ⟨hvalid, rfl⟩,
        h.scopeObjectsDir]
      cases hd : disk (objectsDir scope) with
      | none =>
        rw [hd] at hlookup
        cases hlookup
      | some files =>
        have hnodup := h.nodup scope
        rw [hd, Option.getD_some] at hlookup hnodup
        simp only [hlookup]
        apply h.update hkeys (hk key rfl) hd rfl (Directory.nodup_unlink hnodup)
        · intro file
          show file ∈ Directory.unlink files (objectFilename sha key) ↔ _
          rw [Directory.mem_unlink]
          simp
        · intro data' hdata
          cases hdata

end Step

/-! ## Runs -/

/-- The keys that the calls of a run name. -/
def keysOf (calls : List Call) : Set String := {key | ∃ call ∈ calls, key ∈ call.key?}

variable {sha : Sha256} {store : LocalObjectStore} {n : ℕ}

/-- From a disk that represents contents, the store answers as the map exactly when every call of the
run fits. -/
theorem answersAsMap_iff {keys : Set String}
    (hkeys : Set.InjOn (fun key : String => sha.hexdigest key.toUTF8.toList) keys) {calls : List Call}
    (hcalls : keysOf calls ⊆ keys) {disk : Disk} {contents : Contents} (h : Represents sha keys disk contents) :
    AnswersAsMap sha store contents disk calls ↔ AllFit store contents calls := by
  induction calls generalizing disk contents with
  | nil => exact Iff.rfl
  | cons call calls ih =>
    have hk : ∀ key ∈ call.key?, key ∈ keys := fun key hkey =>
      hcalls ⟨call, List.mem_cons_self, hkey⟩
    have hrest : keysOf calls ⊆ keys := by
      rintro key ⟨c, hc, hkey⟩
      exact hcalls ⟨c, List.mem_cons_of_mem _ hc, hkey⟩
    have hstep := @isAnswer_iff_fits _ store _ _ _ hkeys h _ hk
    constructor
    · rintro ⟨hanswer, hrun⟩
      have hfits := hstep.mp hanswer
      exact ⟨hfits, (ih hrest (represents_after hkeys h hk hfits)).mp hrun⟩
    · rintro ⟨hfits, hrun⟩
      exact ⟨hstep.mpr hfits, (ih hrest (represents_after hkeys h hk hfits)).mpr hrun⟩

/-- Over every run of a new store whose keys do not collide, the store answers as the map exactly when
every call of the run fits. -/
theorem refines_map (sha : Sha256) (store : LocalObjectStore) (calls : List Call)
    (hkeys : Set.InjOn (fun key : String => sha.hexdigest key.toUTF8.toList) (keysOf calls)) :
    AnswersAsMap sha store noContents emptyDisk calls ↔ AllFit store noContents calls :=
  answersAsMap_iff hkeys subset_rfl (represents_empty sha (keysOf calls))

/-- A hash as far as it is known: that of the letter `a`, and that of nothing. -/
def hashOfLetter : Sha256 where
  hexdigest data := if data = [97] then
      "ca978112ca1bbdcafac231b39a23dc4da786eff8147c4e72b9807785afee48bb"
    else "e3b0c44298fc1c149afbf4c8996fb92427ae41e4649b934ca495991b7852b855"
  length := by
    intro data
    split <;> decide +kernel
  digits := by
    intro data
    split <;> decide +kernel

/-- A scope of three letters. -/
def letterScope : ObjectScope :=
  ⟨"t", "w", "s", by decide +kernel, by decide +kernel, by decide +kernel⟩

/-- A letter that is written under its own name is read back, and is gone after it was deleted. -/
theorem refines_map_letter :
    AnswersAsMap hashOfLetter ⟨8, 8, 100⟩ noContents emptyDisk
      [.put "x" letterScope "a" (.bytes [97]), .get letterScope "a" none,
        .delete letterScope "a", .head letterScope "a"] := by
  refine (refines_map hashOfLetter ⟨8, 8, 100⟩ _ ?_).mpr ?_
  · -- The calls name one key.
    have hone : ∀ key ∈ keysOf [.put "x" letterScope "a" (.bytes [97]), .get letterScope "a" none,
        .delete letterScope "a", .head letterScope "a"], key = "a" := by
      rintro key ⟨call, hcall, hkey⟩
      simp only [List.mem_cons, List.not_mem_nil, or_false] at hcall
      rcases hcall with rfl | rfl | rfl | rfl <;> exact (Option.mem_some_iff.mp hkey).symm
    intro key hkey key' hkey' _
    rw [hone key hkey, hone key' hkey']
  · have hvalid : validObjectKey "a" = true := by decide +kernel
    have hfit : headerLength letterScope "a" 1 ≤ headerBytes := by decide +kernel
    refine ⟨?_, ?_, trivial, trivial, trivial⟩
    · intro bytes hbytes
      rw [accepted, if_pos hvalid] at hbytes
      cases hbytes
      exact hfit
    · intro limit bytes hlimit hbytes
      cases hlimit
      have haccepted : accepted ⟨8, 8, 100⟩ "a" (.bytes [97]) = some [97] := by
        rw [accepted, if_pos hvalid]
        rfl
      simp only [Contents.after, haccepted, Function.update_self, Option.some.injEq] at hbytes
      rw [← hbytes]
      decide

/-- A run that starts with a `put` of accepted bytes whose header does not fit does not answer as the
map. -/
theorem not_answersAsMap_put {token : String} {scope : ObjectScope} {key : String} {data : ObjectPayload}
    {bytes : List UInt8} (ha : accepted store key data = some bytes)
    (hfit : ¬ headerLength scope key bytes.length ≤ headerBytes) (calls : List Call) :
    ¬ AnswersAsMap sha store noContents emptyDisk (.put token scope key data :: calls) :=
  fun hall => not_isAnswer_put ha hfit hall.1

/-! ## An identity without a header -/

/-- A number of letters outside ASCII. -/
def letters (n : ℕ) : List Char := List.replicate n 'ж'

/-- Letters take two bytes each. -/
theorem utf8Length_letters (n : ℕ) : utf8Length (letters n) = n * 2 := by
  have hsize : 'ж'.utf8Size = 2 := by decide
  rw [utf8Length, letters, List.map_replicate, List.sum_replicate, hsize, smul_eq_mul]

/-- Letters take six characters each in a header. -/
theorem escapedWidth_letters (n : ℕ) : ((letters n).map escapedWidth).sum = n * 6 := by
  have hwidth : escapedWidth 'ж' = 6 := by decide
  rw [letters, List.map_replicate, List.sum_replicate, hwidth, smul_eq_mul]

/-- Every character of letters is the letter. -/
theorem eq_of_mem_letters {c : Char} (h : c ∈ letters n) : c = 'ж' :=
  List.eq_of_mem_replicate h

/-- Letters are not a shorter text. -/
theorem letters_bne {s : List Char} (h : s.length < n) : (letters n != s) = true := by
  rw [bne_iff_ne]
  rintro rfl
  rw [letters, List.length_replicate] at h
  omega

/-- A list whose characters are the letter or a slash has none that `p` refuses, where `p` refuses
neither. -/
theorem any_eq_false {p : Char → Bool} {l : List Char} (hl : ∀ c ∈ l, c = 'ж' ∨ c = '/')
    (hletter : p 'ж' = false) (hslash : '/' ∈ l → p '/' = false) : l.any p = false := by
  rw [List.any_eq_false]
  intro c hc
  rcases hl c hc with rfl | rfl
  · simp [hletter]
  · simp [hslash hc]

/-- A scope component of up to 64 letters is valid. -/
theorem validScopeComponent_letters (hlo : 2 < n) (hhi : n ≤ 64) :
    validScopeComponent (String.ofList (letters n)) = true := by
  have hne : ∀ s : String, s.toList.length < n → (String.ofList (letters n) != s) = true := by
    intro s hs
    rw [bne_iff_ne]
    rintro rfl
    rw [String.toList_ofList, letters, List.length_replicate] at hs
    omega
  have hall : ∀ c ∈ letters n, c = 'ж' ∨ c = '/' := fun c hc => .inl (eq_of_mem_letters hc)
  have hslash : '/' ∉ letters n := fun hc => absurd (eq_of_mem_letters hc) (by decide)
  have hempty : (letters n).isEmpty = false := by
    rw [List.isEmpty_eq_false_iff, ← List.length_pos_iff, letters, List.length_replicate]
    omega
  have hlast : (letters n).getLast?.any (fun c => c == '.' || c == ' ') = false := by
    rw [letters, List.getLast?_replicate, if_neg (by omega)]
    decide
  have hlen : utf8Length (letters n) ≤ maxScopeComponentBytes := by
    rw [utf8Length_letters, maxScopeComponentBytes]
    omega
  rw [validScopeComponent, hne "." (by simpa using by omega), hne ".." (by simpa using by omega),
    validText, String.toList_ofList, hempty, hlast, decide_eq_true hlen,
    any_eq_false hall (by decide) (fun h => absurd h hslash),
    any_eq_false hall (by decide) (fun h => absurd h hslash)]
  rfl

/-- A scope of three such components. -/
def longScope : ObjectScope :=
  ⟨String.ofList (letters 64), String.ofList (letters 64), String.ofList (letters 64),
    validScopeComponent_letters (by omega) le_rfl, validScopeComponent_letters (by omega) le_rfl,
    validScopeComponent_letters (by omega) le_rfl⟩

/-- Eight parts of letters between slashes. -/
def eightParts (n : ℕ) : List Char :=
  letters n ++ '/' :: (letters n ++ '/' :: (letters n ++ '/' :: (letters n ++ '/' ::
    (letters n ++ '/' :: (letters n ++ '/' :: (letters n ++ '/' :: letters n))))))

/-- Eight parts of up to 63 letters are a valid key. -/
theorem validObjectKey_eightParts (hlo : 2 < n) (hhi : n ≤ 63) :
    validObjectKey (String.ofList (eightParts n)) = true := by
  have hslashSize : '/'.utf8Size = 1 := by decide
  have hnot : '/' ∉ letters n := fun hc => absurd (eq_of_mem_letters hc) (by decide)
  have hall : ∀ c ∈ eightParts n, c = 'ж' ∨ c = '/' := by
    have hletter : ∀ c ∈ letters n, c = 'ж' ∨ c = '/' := fun c hc => .inl (eq_of_mem_letters hc)
    simp only [eightParts, List.mem_append, List.mem_cons]
    rintro c (h | rfl | h | rfl | h | rfl | h | rfl | h | rfl | h | rfl | h | rfl | h)
    all_goals first | exact hletter _ h | exact .inr rfl
  have hlen : utf8Length (letters n) ≤ maxScopeComponentBytes := by
    rw [utf8Length_letters, maxScopeComponentBytes]
    omega
  have htotal : utf8Length (eightParts n) ≤ maxObjectKeyBytes := by
    have hadd : ∀ s t : List Char, utf8Length (s ++ '/' :: t) = utf8Length s + 1 + utf8Length t := by
      intro s t
      simp only [utf8Length, List.map_append, List.map_cons, List.sum_append, List.sum_cons,
        hslashSize]
      omega
    simp only [eightParts, hadd, utf8Length_letters, maxObjectKeyBytes]
    omega
  obtain ⟨m, rfl⟩ : ∃ m, n = m + 1 := ⟨n - 1, by omega⟩
  have hempty : (letters (m + 1)).isEmpty = false := rfl
  have hpart : validPart (letters (m + 1)) = true := by
    rw [validPart, letters_bne (by simpa using by omega), letters_bne (by simpa using by omega),
      hempty, decide_eq_true hlen]
    rfl
  have hparts : (splitAt '/' (eightParts (m + 1))).all validPart = true := by
    rw [eightParts, splitAt_append hnot, splitAt_append hnot, splitAt_append hnot,
      splitAt_append hnot, splitAt_append hnot, splitAt_append hnot, splitAt_append hnot,
      splitAt_eq_self hnot]
    simp only [List.all_cons, List.all_nil, hpart, Bool.and_self]
  have hhead : (eightParts (m + 1)).head? = some 'ж' := rfl
  have hlast : (eightParts (m + 1)).getLast? = some 'ж' := by
    have hlastLetters : (letters (m + 1)).getLast? = some 'ж' := by
      rw [letters, List.getLast?_replicate, if_neg (by omega)]
    simp [eightParts, List.getLast?_append, List.getLast?_cons, hlastLetters]
  have hnonempty : (eightParts (m + 1)).isEmpty = false := rfl
  rw [validObjectKey, validText, String.toList_ofList, hparts, hnonempty, hhead, hlast,
    decide_eq_true htotal, any_eq_false hall (by decide) (fun _ => by decide),
    any_eq_false hall (by decide) (fun _ => by decide)]
  decide

/-- Letters in a header. -/
theorem escapedLength_letters (n : ℕ) : escapedLength (String.ofList (letters n)) = n * 6 := by
  rw [escapedLength, String.toList_ofList, escapedWidth_letters]

/-- Eight parts of letters in a header. -/
theorem escapedLength_eightParts (n : ℕ) :
    escapedLength (String.ofList (eightParts n)) = 8 * (n * 6) + 7 := by
  have hslash : escapedWidth '/' = 1 := by decide
  rw [escapedLength, String.toList_ofList]
  simp only [eightParts, List.map_append, List.map_cons, List.sum_append, List.sum_cons, hslash,
    escapedWidth_letters]
  omega

/-- A key of eight parts of 63 letters, 1015 bytes. -/
def longKey : String := String.ofList (eightParts 63)

/-- The key is valid, and its header does not fit in the scope: storing nothing under it fails. -/
theorem put_longKey_fails :
    validObjectKey longKey = true ∧ ∀ sha store token,
      (put sha store token longScope longKey (.bytes []) emptyDisk).1 =
          .error .objectStoreConfiguration ∧
        ¬ AnswersAsMap sha store noContents emptyDisk
          [.put token longScope longKey (.bytes [])] := by
  have hvalid : validObjectKey longKey = true := validObjectKey_eightParts (by omega) le_rfl
  have hlength : ¬ headerLength longScope longKey ([] : List UInt8).length ≤ headerBytes := by
    have htenant : escapedLength longScope.tenantId = 64 * 6 := escapedLength_letters 64
    have hworkspace : escapedLength longScope.workspaceId = 64 * 6 := escapedLength_letters 64
    have hsource : escapedLength longScope.sourceId = 64 * 6 := escapedLength_letters 64
    have hkey : escapedLength longKey = 8 * (63 * 6) + 7 := escapedLength_eightParts 63
    rw [headerLength, htenant, hworkspace, hsource, hkey, headerBytes]
    omega
  refine ⟨hvalid, ?_⟩
  intro sha store token
  have haccepted : accepted store longKey (.bytes []) = some [] := by
    rw [accepted, if_pos hvalid]
    rfl
  exact ⟨put_not_fitting haccepted hlength, not_answersAsMap_put haccepted hlength []⟩

end RickIntelligence.ObjectStore
