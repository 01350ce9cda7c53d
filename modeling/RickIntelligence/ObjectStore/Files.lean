import RickIntelligence.ObjectStore.Store

/-!
# What the operations do to files

The loops of the store in closed form: writing a payload in pieces writes the payload
(`copyPayload_spec`), reading it in pieces reads it (`readPayload_eq`), and staging a file under a
temporary name and renaming it writes the file (`Directory.write_replace`).
-/

namespace RickIntelligence.ObjectStore

open Lib

/-! ## Directories -/

variable {files : Directory} {name : String} {content : List UInt8} {limit : ℕ}

variable {file : String × List UInt8} {reads : List ReadResult} {copy : Copy} {data : ObjectPayload}

/-- The files of a directory after one was written. -/
theorem Directory.mem_write :
    file ∈ files.write name content ↔
      file = (name, content) ∨ file.1 ≠ name ∧ file ∈ files := by
  simp [Directory.write, and_comm]

/-- The files of a directory after one was removed. -/
theorem Directory.mem_unlink :
    file ∈ files.unlink name ↔ file.1 ≠ name ∧ file ∈ files := by
  simp [Directory.unlink, and_comm]

/-- Names stay distinct when a file is removed. -/
theorem Directory.nodup_unlink (h : (files.map Prod.fst).Nodup) : ((files.unlink name).map Prod.fst).Nodup :=
  h.sublist (List.Sublist.map _ List.filter_sublist)

/-- Names stay distinct when a file is written. -/
theorem Directory.nodup_write (h : (files.map Prod.fst).Nodup) : ((files.write name content).map Prod.fst).Nodup := by
  show (name :: (files.unlink name).map Prod.fst).Nodup
  refine List.nodup_cons.mpr ⟨?_, Directory.nodup_unlink h⟩
  intro hmem
  obtain ⟨file, hfile, hname⟩ := List.mem_map.mp hmem
  exact (Directory.mem_unlink.mp hfile).1 hname

/-- A file that is written and removed again leaves the directory as it is. -/
theorem Directory.write_unlink (h : name ∉ files.map Prod.fst) : (files.write name content).unlink name = files := by
  have hne : ∀ file ∈ files, (file.1 != name) = true := by
    intro file hfile
    rw [bne_iff_ne]
    rintro rfl
    exact h (List.mem_map_of_mem hfile)
  simp only [Directory.unlink, Directory.write, List.filter_cons, bne_self_eq_false,
    Bool.false_eq_true, if_false, List.filter_filter, Bool.and_self]
  exact List.filter_eq_self.mpr hne

/-- A file that is written under a new name and renamed is written under the other name. -/
theorem Directory.write_replace {source target : String} (h : source ∉ files.map Prod.fst) :
    (files.write source content).replace source target = files.write target content := by
  have hlookup : (files.write source content).lookup source = some content := by
    simp [Directory.write]
  simp only [Directory.replace, hlookup, Directory.write_unlink h]

/-- With distinct names, the file that is found under a name is the one of the directory. -/
theorem Directory.lookup_eq_some (h : (files.map Prod.fst).Nodup) :
    files.lookup name = some content ↔ (name, content) ∈ files := by
  constructor
  · intro hl
    obtain ⟨l, l', heq, -⟩ := List.lookup_eq_some_iff.mp hl
    rw [heq]
    simp
  · intro hmem
    induction files with
    | nil => cases hmem
    | cons file files ih =>
      obtain ⟨hnot, hnodup⟩ := List.nodup_cons.mp h
      rcases List.mem_cons.mp hmem with rfl | hrest
      · simp [List.lookup]
      · have hne : name ≠ file.1 := by
          intro heq
          have hmap : name ∈ files.map Prod.fst := List.mem_map.mpr ⟨(name, content), hrest, rfl⟩
          exact hnot (heq ▸ hmap)
        obtain ⟨n, f⟩ := file
        rw [List.lookup_cons, beq_eq_false_iff_ne.mpr hne]
        exact ih hnodup hrest

/-! ## Making directories -/

/-- A path after directories were made. -/
theorem foldl_mkdir (paths : List Path) (disk : Disk) (path : Path) :
    (paths.foldl mkdir disk) path =
      (disk path).or (if path ∈ paths then some [] else none) := by
  induction paths generalizing disk with
  | nil => simp
  | cons p paths ih =>
    rw [List.foldl_cons, ih]
    unfold mkdir
    cases hp : disk p with
    | some files =>
      by_cases heq : path = p
      · subst heq
        simp [hp]
      · simp [heq]
    | none =>
      by_cases heq : path = p
      · subst heq
        simp [hp]
      · simp [heq]

/-- The directory of a scope determines it. -/
theorem objectsDir_injective : Function.Injective objectsDir := by
  intro scope scope' h
  simp only [objectsDir, List.cons.injEq, true_and, and_true] at h
  obtain ⟨ht, hw, hs⟩ := h
  cases scope
  cases scope'
  simp only at ht hw hs
  subst ht hw hs
  rfl

/-- Of the directories of a scope, only its own is a directory of objects. -/
theorem objectsDir_mem_scopeParts {scope scope' : ObjectScope} :
    objectsDir scope' ∈ scopeParts scope ↔ scope' = scope := by
  constructor
  · intro h
    simp only [scopeParts, objectsDir, List.mem_cons, List.cons.injEq, reduceCtorEq, and_false,
      List.not_mem_nil, or_false, false_or, true_and, and_true] at h
    apply objectsDir_injective
    simp only [objectsDir, h]
  · rintro rfl
    simp [scopeParts, objectsDir]

/-- The directory of a scope after its directories were made. -/
theorem makeScopeObjectsDir_objectsDir (disk : Disk) (scope scope' : ObjectScope) :
    makeScopeObjectsDir disk scope (objectsDir scope') =
      if scope' = scope then some ((disk (objectsDir scope)).getD []) else disk (objectsDir scope') := by
  rw [makeScopeObjectsDir, foldl_mkdir]
  by_cases h : scope' = scope
  · subst h
    rw [if_pos (objectsDir_mem_scopeParts.mpr rfl), if_pos rfl]
    cases disk (objectsDir scope') <;> rfl
  · rw [if_neg (fun hmem => h (objectsDir_mem_scopeParts.mp hmem)), if_neg h, Option.or_none]

/-- Directories that exist are kept when others are made. -/
theorem isSome_makeScopeObjectsDir {disk : Disk} {path : Path} (scope : ObjectScope)
    (h : (disk path).isSome = true ∨ path ∈ scopeParts scope) :
    (makeScopeObjectsDir disk scope path).isSome = true := by
  rw [makeScopeObjectsDir, foldl_mkdir]
  rcases h with h | h
  · obtain ⟨files, hfiles⟩ := Option.isSome_iff_exists.mp h
    rw [hfiles]
    rfl
  · rw [if_pos h]
    cases disk path <;> rfl

/-! ## Names of files -/

/-- The name of an object file starts with a hexadecimal digit. -/
theorem objectFilename_head (sha : Sha256) (key : String) :
    ∃ c rest, (objectFilename sha key).toList = c :: rest ∧ c ≠ '.' := by
  have hlen := sha.length key.toUTF8.toList
  have hdigits := sha.digits key.toUTF8.toList
  rw [objectFilename, String.toList_ofList]
  cases hd : (sha.hexdigest key.toUTF8.toList).toList with
  | nil =>
    rw [hd] at hlen
    cases hlen
  | cons c rest =>
    refine ⟨c, rest ++ objectSuffix, rfl, ?_⟩
    rintro rfl
    rw [hd, List.all_cons, Bool.and_eq_true] at hdigits
    exact absurd hdigits.1 (by decide)

/-- The name of an object file is not one of a temporary file. -/
theorem objectFilename_ne_temporaryName (sha : Sha256) (key token : String) :
    objectFilename sha key ≠ temporaryName token := by
  obtain ⟨c, rest, hname, hc⟩ := objectFilename_head sha key
  intro h
  rw [h, temporaryName, String.toList_ofList] at hname
  exact hc (List.cons.inj hname).1.symm

/-- The name of an object file does not start as one of a temporary file. -/
theorem objectFilename_not_temporary (sha : Sha256) (key : String) :
    temporaryStart.isPrefixOf (objectFilename sha key).toList = false := by
  obtain ⟨c, rest, hname, hc⟩ := objectFilename_head sha key
  rw [hname, temporaryStart, List.isPrefixOf_cons_cons, beq_eq_false_iff_ne.mpr hc.symm,
    Bool.false_and]

/-- The name of an object file has the suffix of one. -/
theorem objectFilename_suffix (sha : Sha256) (key : String) :
    objectSuffix.isSuffixOf (objectFilename sha key).toList = true := by
  rw [objectFilename, String.toList_ofList, List.isSuffixOf_iff_suffix]
  exact List.suffix_append _ _

/-- The key of an object file, where the hashes of two keys do not collide. -/
theorem objectFilename_inj {sha : Sha256} {keys : Set String}
    (h : Set.InjOn (fun key : String => sha.hexdigest key.toUTF8.toList) keys) {key key' : String}
    (hk : key ∈ keys) (hk' : key' ∈ keys) (heq : objectFilename sha key = objectFilename sha key') :
    key = key' := by
  apply h hk hk'
  have hlists := congrArg String.toList heq
  simp only [objectFilename, String.toList_ofList] at hlists
  exact String.toList_inj.mp (List.append_cancel_right hlists)

/-! ## Payloads -/

/-- The bytes of a stream: its pieces up to the first without bytes. -/
def readAll : List ReadResult → Option (List UInt8)
  | [] => some []
  | .chunk piece :: reads => if piece.isEmpty then some [] else (readAll reads).map (piece ++ ·)
  | _ :: _ => none

/-- The bytes of a payload. -/
def ObjectPayload.payload? : ObjectPayload → Option (List UInt8)
  | .bytes data => some data
  | .reader reads => readAll reads
  | .other => none

/-- The loop over a stream writes its bytes, where they are within the limit. -/
theorem copyReads_ok {data : List UInt8} (h : readAll reads = some data) (hlimit : copy.total + data.length ≤ limit) :
    copyReads limit copy reads =
      .ok ⟨copy.handle ++ data, copy.digest ++ data, copy.total + data.length⟩ := by
  induction reads generalizing copy data with
  | nil =>
    cases h
    simp [copyReads]
  | cons read reads ih =>
    cases read with
    | other => cases h
    | permission => cases h
    | failed => cases h
    | chunk piece =>
      unfold readAll at h
      unfold copyReads
      by_cases hempty : piece.isEmpty = true
      · rw [if_pos hempty] at h ⊢
        cases h
        simp
      · rw [if_neg hempty] at h ⊢
        obtain ⟨rest, hrest, rfl⟩ := Option.map_eq_some_iff.mp h
        rw [List.length_append] at hlimit
        rw [if_neg (by omega), ih hrest (by simp only [Copy.write]; omega)]
        simp [Copy.write, Nat.add_assoc]

/-- The loop over a stream fails, where it has no bytes within the limit. -/
theorem copyReads_error (hcopy : copy.total ≤ limit)
    (h : ∀ data, readAll reads = some data → limit < copy.total + data.length) :
    ∃ e, copyReads limit copy reads = .error e := by
  induction reads generalizing copy with
  | nil =>
    have hlt := h [] rfl
    simp only [List.length_nil] at hlt
    omega
  | cons read reads ih =>
    cases read with
    | other => exact ⟨_, rfl⟩
    | permission => exact ⟨_, rfl⟩
    | failed => exact ⟨_, rfl⟩
    | chunk piece =>
      unfold copyReads
      by_cases hempty : piece.isEmpty = true
      · have hlt := h [] (by rw [readAll, if_pos hempty])
        simp only [List.length_nil] at hlt
        omega
      · rw [if_neg hempty]
        by_cases hover : copy.total + piece.length > limit
        · exact ⟨_, if_pos hover⟩
        · rw [if_neg hover]
          apply ih
          · simp only [Copy.write]
            omega
          · intro data hdata
            have hlt := h (piece ++ data) (by rw [readAll, if_neg hempty, hdata]; rfl)
            rw [List.length_append] at hlt
            simp only [Copy.write]
            omega

/-- The pieces of a payload are the payload. -/
theorem flatten_slices (data : List UInt8) : (slices data).flatten = data := by
  have htake : ∀ n : ℕ, ((List.range n).map fun i =>
      (data.drop (i * copyChunkBytes)).take copyChunkBytes).flatten =
        data.take (n * copyChunkBytes) := by
    intro n
    induction n with
    | zero => simp
    | succ n ih =>
      rw [List.range_succ, List.map_append, List.flatten_append, ih, Nat.succ_mul, List.take_add]
      simp
  rw [slices, htake, List.take_of_length_le]
  unfold copyChunkBytes
  omega

/-- Writing pieces one after the other. -/
theorem foldl_write (pieces : List (List UInt8)) (copy : Copy) :
    pieces.foldl Copy.write copy =
      ⟨copy.handle ++ pieces.flatten, copy.digest ++ pieces.flatten, copy.total⟩ := by
  induction pieces generalizing copy with
  | nil => simp
  | cons piece pieces ih =>
    rw [List.foldl_cons, ih]
    simp [Copy.write]

/-- A payload is written, where its bytes are within the limit. -/
theorem copyPayload_ok (handle : List UInt8) {bytes : List UInt8} (h : data.payload? = some bytes)
    (hlimit : bytes.length ≤ limit) :
    copyPayload handle data limit = .ok ⟨handle ++ bytes, bytes, bytes.length⟩ := by
  cases data with
  | other => cases h
  | bytes data =>
    cases h
    rw [copyPayload, if_neg (by omega), foldl_write, flatten_slices, List.nil_append]
  | reader reads =>
    rw [copyPayload, copyReads_ok h (by simpa using hlimit), List.nil_append, Nat.zero_add]

/-- Writing a payload fails, where it has no bytes within the limit. -/
theorem copyPayload_error (handle : List UInt8) (h : ∀ bytes, data.payload? = some bytes → limit < bytes.length) :
    ∃ e, copyPayload handle data limit = .error e := by
  cases data with
  | other => exact ⟨_, rfl⟩
  | bytes data => exact ⟨_, if_pos (h data rfl)⟩
  | reader reads =>
    apply copyReads_error (Nat.zero_le limit)
    intro bytes hbytes
    rw [Nat.zero_add]
    exact h bytes hbytes

/-- A payload is read in pieces. -/
theorem readPayload_eq (handle : List UInt8) {remaining : ℕ} (h : remaining ≤ handle.length) :
    readPayload handle remaining = .ok (handle.take remaining) := by
  induction remaining using Nat.strong_induction_on generalizing handle with
  | _ remaining ih =>
    rw [readPayload]
    by_cases hzero : remaining = 0
    · rw [if_pos hzero, hzero, List.take_zero]
    · rw [if_neg hzero]
      have hchunk : (handle.take (min copyChunkBytes remaining)).length =
          min copyChunkBytes remaining := by
        rw [List.length_take]
        omega
      have hpos : 0 < min copyChunkBytes remaining := by
        unfold copyChunkBytes
        omega
      have hne : (handle.take (min copyChunkBytes remaining)).isEmpty = false := by
        rw [List.isEmpty_eq_false_iff, ← List.length_pos_iff, hchunk]
        exact hpos
      have hrest := ih (remaining - min copyChunkBytes remaining) (by omega)
        (handle.drop (min copyChunkBytes remaining)) (by rw [List.length_drop]; omega)
      simp only [hne, Bool.false_eq_true, if_false, hchunk, hrest]
      show Except.ok _ = _
      congr 1
      calc handle.take (min copyChunkBytes remaining) ++
            (handle.drop (min copyChunkBytes remaining)).take
              (remaining - min copyChunkBytes remaining)
          = handle.take (min copyChunkBytes remaining +
              (remaining - min copyChunkBytes remaining)) := List.take_add.symm
        _ = handle.take remaining := by
            congr 1
            omega

end RickIntelligence.ObjectStore
