import RickIntelligence.Ingestion.Filename

/-!
# Admission of archives

`_safe_archive_member_name` and `validate_archive` of `rick_ingestion/parsers.py`. What `zipfile` reports of a
container is data here: the members with their headers, and for each one the stream that reading it gives,
piece by piece. NFKC, the folding of cases and the division that gives a ratio are functions of the
environment.

`Admitted` is what an archive that was returned is meant to be. A member whose name ends in a slash or a
backslash is not measured, and a last component that is a dot is not seen to be an alias;
`archive_admitted_iff` says that nothing else is missed.
-/

namespace RickIntelligence.Ingestion

open Lib Lib.Percent

/-- What `validate_archive` raises: a `ParseError`, or an exception of a library that it does not catch. -/
inductive ArchiveRaised where
  | parse (e : ParseError)
  | other
  deriving DecidableEq, Repr

namespace Archive

open Filename (slash backslash colon points toSlashes isDriveRoot)

/-! ## The container -/

/-- An exception of `zipfile`: one of those that are caught, or another one. -/
inductive Failure where
  | caught
  | other
  deriving DecidableEq, Repr

/-- The stream of a member: whether it cannot be opened, the sizes of the pieces that are read, and whether
an exception stands at their end. -/
structure Stream where
  opening : Option Failure
  chunks : List ℕ
  ending : Option Failure
  pos : ∀ n ∈ chunks, 0 < n

/-- A `ZipInfo`, and its stream. -/
structure Member where
  filename : Points
  file_size : ℤ
  compress_size : ℤ
  flag_bits : ℕ
  external_attr : ℕ
  stream : Stream

/-- The bytes that a member decompresses to. -/
def Member.actual (m : Member) : ℕ := m.stream.chunks.sum

/-- A container: whether it is a regular file and its size, if `lstat` says, and the members, if it can be
opened. -/
structure Container where
  stat : Option (Bool × ℤ)
  infos : Option (List Member)

/-- The functions that a validation calls, and the clock: whether the deadline has passed at a check. -/
structure Env where
  nfkc : Points → Points
  casefold : Points → Points
  quotient : ℤ → ℤ → ℚ
  expired : ℕ → Bool

/-! ## Names -/

/-- A component of a path that is empty, or a dot, or two. -/
def isAlias (part : Points) : Bool := part == [] || part == points "." || part == points ".."

/-- A round of the loop of `posixpath.normpath` over the components. -/
def pushComponent (rooted : Bool) (comps : List Points) (comp : Points) : List Points :=
  if comp = [] ∨ comp = points "." then comps
  else if comp ≠ points ".." ∨ (rooted = false ∧ comps = []) ∨ comps.getLast? = some (points "..") then
    comps ++ [comp]
  else comps.dropLast

/-- The slashes that `posixpath.normpath` keeps at the beginning: one, or two if there are just two. -/
def initialSlashes (path : Points) : ℕ :=
  match (path.takeWhile fun c => c == slash).length with
  | 0 => 0
  | 2 => 2
  | _ => 1

/-- `posixpath.normpath`. -/
def normpath (path : Points) : Points :=
  let comps := (path.splitOn slash).foldl (pushComponent (initialSlashes path != 0)) []
  let joined := List.replicate (initialSlashes path) slash ++ [slash].intercalate comps
  if joined = [] then points "." else joined

/-- The error of a name. -/
def invalidName : ParseError := ⟨"validation_error", "Archive member name is invalid."⟩

/-- The path of a member: NFKC, and backslashes as slashes. -/
def folded (env : Env) (name : Points) : Points := toSlashes (env.nfkc name)

/-- `_safe_archive_member_name`. -/
def safeArchiveMemberName (env : Env) (name : Points) : Except ParseError Points :=
  if name = [] ∨ 0 ∈ name then .error invalidName
  else if (folded env name).head? = some slash ∨ isDriveRoot (folded env name) then .error invalidName
  else if ((folded env name).splitOn slash).dropLast.any isAlias ∨
      points ".." ∈ (folded env name).splitOn slash then .error invalidName
  else if normpath (folded env name) = points "." ∨ normpath (folded env name) = points ".." ∨
      points "../" <+: normpath (folded env name) then .error invalidName
  else .ok ((folded env name).rdropWhile fun c => c == slash)

/-! ## Members -/

/-- What the loop over the members has found. -/
structure State where
  checks : ℕ
  seen_names : List Points
  required_names : List Points
  total_compressed : ℤ
  total_uncompressed : ℤ
  largest_member : ℤ
  largest_ratio : ℚ
  actual_total_uncompressed : ℕ

/-- A `ParseError` of the validation. -/
def refuse (code message : String) : ArchiveRaised := .parse ⟨code, message⟩

/-- `ArchiveLimitError`. -/
def tooLarge : ArchiveRaised := .parse .archiveLimit

/-- The error of a stream that does not have the size that its header says. -/
def inconsistent : ArchiveRaised := refuse "validation_error" "Archive member size is inconsistent."

/-- An exception while a member is decompressed. -/
def undecompressed : Failure → ArchiveRaised
  | .caught => refuse "validation_error" "Could not safely decompress archive."
  | .other => .other

/-- The member is named as a directory: `info.is_dir() or info.filename.endswith(("/", "\\"))`. -/
def Member.isDirectory (m : Member) : Bool :=
  m.filename.getLast? == some slash || m.filename.getLast? == some backslash

/-- `stat.S_ISLNK((info.external_attr >> 16) & 0xFFFF)`. -/
def Member.isLink (m : Member) : Bool := (m.external_attr >>> 16) &&& 0xffff &&& 0o170000 == 0o120000

/-- `info.file_size / max(info.compress_size, 1)`. -/
def Member.ratio (env : Env) (m : Member) : ℚ := env.quotient m.file_size (max m.compress_size 1)

/-- The loop over the pieces of a stream: the checks of the deadline that were made, the bytes of the member,
and those of all members. -/
def readStream (env : Env) (limits : ParserLimits) (m : Member) :
    List ℕ → ℕ → ℕ → ℕ → Except ArchiveRaised (ℕ × ℕ × ℕ)
  | chunks, checks, actual_size, total =>
    if env.expired checks then .error (.parse .parserTimeout)
    else match chunks with
      | [] => match m.stream.ending with
        | some failure => .error (undecompressed failure)
        | none => .ok (checks + 1, actual_size, total)
      | chunk :: chunks =>
        if limits.max_archive_member_bytes < actual_size + chunk then .error tooLarge
        else if limits.max_archive_uncompressed_bytes < total + chunk then .error tooLarge
        else if m.file_size < (actual_size + chunk : ℕ) then .error inconsistent
        else readStream env limits m chunks (checks + 1) (actual_size + chunk) (total + chunk)

/-- The checks of the sizes of a member that is not named as a directory. -/
def measureMember (env : Env) (limits : ParserLimits) (st : State) (m : Member) :
    Except ArchiveRaised State :=
  if (limits.max_archive_member_bytes : ℤ) < m.file_size then .error tooLarge
  else if (limits.max_archive_uncompressed_bytes : ℤ) < st.total_uncompressed + m.file_size then
    .error tooLarge
  else if limits.max_archive_compression_ratio < m.ratio env then .error tooLarge
  else match m.stream.opening with
    | some failure => .error (undecompressed failure)
    | none => do
      let read ← readStream env limits m m.stream.chunks st.checks 0 st.actual_total_uncompressed
      if (read.2.1 : ℤ) ≠ m.file_size then .error inconsistent
      else return { st with
        checks := read.1
        total_compressed := st.total_compressed + m.compress_size
        total_uncompressed := st.total_uncompressed + m.file_size
        largest_member := max st.largest_member m.file_size
        largest_ratio := max st.largest_ratio (m.ratio env)
        actual_total_uncompressed := read.2.2 }

/-- A round of the loop over the members. -/
def checkMember (env : Env) (limits : ParserLimits) (require_docx : Bool) (st : State) (m : Member) :
    Except ArchiveRaised State :=
  if env.expired st.checks then .error (.parse .parserTimeout)
  else match safeArchiveMemberName env m.filename with
    | .error e => .error (.parse e)
    | .ok safe_name =>
      if env.casefold safe_name ∈ st.seen_names then
        .error (refuse "validation_error" "Archive contains duplicate member names.")
      else if m.flag_bits % 2 = 1 then
        .error (refuse "validation_error" "Encrypted archive members are not supported.")
      else if m.isLink then .error (refuse "validation_error" "Archive links are not supported.")
      else if m.file_size < 0 ∨ m.compress_size < 0 then
        .error (refuse "validation_error" "Archive member size is invalid.")
      else
        let named : State := { st with
          checks := st.checks + 1
          seen_names := env.casefold safe_name :: st.seen_names
          required_names := if require_docx then st.required_names.erase safe_name else st.required_names }
        if m.isDirectory then .ok named else measureMember env limits named m

/-- The loop over the members. -/
def checkMembers (env : Env) (limits : ParserLimits) (require_docx : Bool) :
    State → List Member → Except ArchiveRaised State
  | st, [] => .ok st
  | st, m :: members => do
    let st ← checkMember env limits require_docx st m
    checkMembers env limits require_docx st members

/-- `ArchiveInspection`. -/
structure Inspection where
  member_count : ℕ
  compressed_bytes : ℤ
  uncompressed_bytes : ℕ
  max_member_bytes : ℤ
  max_compression_ratio : ℚ
  deriving DecidableEq, Repr

/-- The members that a DOCX container must have. -/
def requiredNames : List Points := [points "[Content_Types].xml", points "word/document.xml"]

/-- `validate_archive`. -/
def validateArchive (env : Env) (limits : ParserLimits) (require_docx : Bool) (container : Container) :
    Except ArchiveRaised Inspection :=
  if env.expired 0 then .error (.parse .parserTimeout)
  else match container.stat with
    | none => .error (refuse "ingestion_failed" "Could not read archive container.")
    | some (regular, st_size) =>
      if !regular then .error (refuse "validation_error" "Archive container must be a regular file.")
      else if st_size ≤ 0 then .error (refuse "validation_error" "Archive container is empty.")
      else if (limits.max_file_bytes : ℤ) < st_size then
        .error (refuse "request_too_large" "Archive container exceeds size limit.")
      else match container.infos with
        | none => .error (refuse "validation_error" "Could not open archive container.")
        | some infos =>
          if limits.max_archive_members < infos.length then .error tooLarge
          else do
            let st ← checkMembers env limits require_docx
              ⟨1, [], if require_docx then requiredNames else [], 0, 0, 0, 0, 0⟩ infos
            if st.required_names ≠ [] then
              .error (refuse "validation_error" "DOCX container is incomplete.")
            else return ⟨infos.length, st.total_compressed, st.actual_total_uncompressed,
              st.largest_member, st.largest_ratio⟩

/-! ## What an admitted archive is meant to be -/

/-- The canonical path of a member. -/
def canonicalPath (env : Env) (m : Member) : Points := normpath (folded env m.filename)

/-- A path that begins with a drive and is rooted there. -/
def DriveRooted (path : Points) : Prop :=
  ∃ c rest, path = c :: colon :: rest ∧ ((0x41 ≤ c ∧ c ≤ 0x5a) ∨ (0x61 ≤ c ∧ c ≤ 0x7a)) ∧
    (rest = [] ∨ rest.head? = some slash)

/-- A path that goes above its beginning. -/
def Escapes (path : Points) : Prop := path = points ".." ∨ points "../" <+: path

/-- The sizes of a member: within the limit, and as its header says. -/
structure Measured (env : Env) (limits : ParserLimits) (m : Member) : Prop where
  declared : m.file_size ≤ limits.max_archive_member_bytes
  actual : (m.actual : ℤ) = m.file_size
  ratio : m.ratio env ≤ limits.max_archive_compression_ratio

/-- What admission promises of the members. -/
structure Admitted (env : Env) (limits : ParserLimits) (require_docx : Bool) (members : List Member) :
    Prop where
  distinct : (members.map fun m => env.casefold (canonicalPath env m)).Nodup
  inside : ∀ m ∈ members, (canonicalPath env m).head? ≠ some slash ∧
    ¬ DriveRooted (canonicalPath env m) ∧ ¬ Escapes (canonicalPath env m)
  count : members.length ≤ limits.max_archive_members
  declared : ∀ m ∈ members, m.file_size ≤ limits.max_archive_member_bytes
  actual : ∀ m ∈ members, m.actual ≤ limits.max_archive_member_bytes
  total_declared : (members.map Member.file_size).sum ≤ limits.max_archive_uncompressed_bytes
  total_actual : (members.map Member.actual).sum ≤ limits.max_archive_uncompressed_bytes
  agree : ∀ m ∈ members, (m.actual : ℤ) = m.file_size
  ratio : ∀ m ∈ members, m.ratio env ≤ limits.max_archive_compression_ratio
  required : require_docx = true → ∀ name ∈ requiredNames, ∃ m ∈ members, canonicalPath env m = name

/-! ## Paths -/

section Paths

variable {path part : Points} {parts : List Points}

/-- The components of a path have no slash. -/
theorem not_mem_component (h : part ∈ path.splitOn slash) : slash ∉ part := by
  induction path generalizing part with
  | nil =>
    rw [List.splitOn_nil, List.mem_singleton] at h
    rw [h]
    exact List.not_mem_nil
  | cons c path ih =>
    rw [List.splitOn_cons_eq_if_modifyHead] at h
    split at h
    · rcases List.mem_cons.mp h with rfl | hrest
      · exact List.not_mem_nil
      · exact ih hrest
    · next hc =>
      have hne : slash ≠ c := fun heq => hc (by rw [heq]; exact beq_self_eq_true c)
      obtain ⟨p, ps, hparts⟩ := List.exists_cons_of_ne_nil (List.splitOn_ne_nil slash path)
      rw [hparts, List.modifyHead_cons] at h
      rcases List.mem_cons.mp h with rfl | hrest
      · rw [List.mem_cons, not_or]
        exact ⟨hne, ih (by rw [hparts]; exact List.mem_cons_self ..)⟩
      · exact ih (by rw [hparts]; exact List.mem_cons_of_mem p hrest)

/-- Components that are no aliases are kept in their order. -/
theorem foldl_pushComponent {rooted : Bool} (h : ∀ p ∈ parts, isAlias p = false) (comps : List Points) :
    parts.foldl (pushComponent rooted) comps = comps ++ parts := by
  induction parts generalizing comps with
  | nil => simp
  | cons p parts ih =>
    have hp := h p (List.mem_cons_self ..)
    unfold isAlias at hp
    simp only [Bool.or_eq_false_iff, beq_eq_false_iff_ne] at hp
    have hpush : pushComponent rooted comps p = comps ++ [p] := by
      unfold pushComponent
      rw [if_neg (not_or.mpr ⟨hp.1.1, hp.1.2⟩), if_pos (.inl hp.2)]
    rw [List.foldl_cons, hpush, ih fun q hq => h q (List.mem_cons_of_mem p hq)]
    simp

/-- The path of some components. -/
def join (parts : List Points) : Points := [slash].intercalate parts

/-- The path of components and one more. -/
theorem join_snoc (h : parts ≠ []) (part : Points) :
    join (parts ++ [part]) = join parts ++ slash :: part := by
  unfold join
  induction parts with
  | nil => exact absurd rfl h
  | cons p parts ih =>
    by_cases hparts : parts = []
    · subst hparts
      rw [List.singleton_append, List.intercalate_cons_cons, List.intercalate_singleton,
        List.intercalate_singleton, List.append_assoc, List.singleton_append]
    · rw [List.cons_append, List.intercalate_cons_of_ne_nil (List.append_ne_nil_of_left_ne_nil hparts _),
        ih hparts, List.intercalate_cons_of_ne_nil hparts]
      simp

/-- A path that ends in a component with characters does not end in a slash. -/
theorem join_last (hne : part ≠ []) (hslash : slash ∉ part) :
    (join (parts ++ [part])).rdropWhile (fun c => c == slash) = join (parts ++ [part]) := by
  have hsplit : ∃ pre, join (parts ++ [part]) = pre ++ part := by
    by_cases hparts : parts = []
    · subst hparts
      exact ⟨[], List.intercalate_singleton⟩
    · exact ⟨join parts ++ [slash], by rw [join_snoc hparts]; simp⟩
  obtain ⟨pre, hpre⟩ := hsplit
  rw [List.rdropWhile_eq_self_iff]
  intro hjoin hlast
  have hend : (join (parts ++ [part])).getLast hjoin = part.getLast hne := by
    rw [List.getLast_congr hjoin (List.append_ne_nil_of_right_ne_nil pre hne) hpre,
      List.getLast_append_of_ne_nil _ hne]
  rw [hend, beq_iff_eq] at hlast
  exact hslash (hlast ▸ List.getLast_mem hne)

/-- A path that is not empty has a normal form that is not. -/
theorem join_ne_nil (hne : part ≠ []) : join (parts ++ [part]) ≠ [] := by
  by_cases hparts : parts = []
  · subst hparts
    rw [List.nil_append, join, List.intercalate_singleton]
    exact hne
  · rw [join_snoc hparts]
    exact List.append_ne_nil_of_right_ne_nil _ (List.cons_ne_nil _ _)

/-- The normal form of a path that is not rooted, and whose components but for the last one are no
aliases. -/
theorem normpath_eq {last : Points} {init : List Points} (hroot : path.head? ≠ some slash)
    (hparts : path.splitOn slash = init ++ [last]) (hinit : ∀ p ∈ init, isAlias p = false)
    (hlast : last ≠ points "..") :
    normpath path =
      if join (init ++ if last = [] ∨ last = points "." then [] else [last]) = [] then points "."
      else join (init ++ if last = [] ∨ last = points "." then [] else [last]) := by
  have hslashes : initialSlashes path = 0 := by
    have hnone : path.takeWhile (fun c => c == slash) = [] := by
      cases path with
      | nil => rfl
      | cons c path =>
        have hc : c ≠ slash := fun heq => hroot (by rw [heq]; rfl)
        exact List.takeWhile_cons_of_neg (by simpa using hc)
    unfold initialSlashes
    rw [hnone]
    rfl
  have hcomps : (path.splitOn slash).foldl (pushComponent (initialSlashes path != 0)) [] =
      init ++ if last = [] ∨ last = points "." then [] else [last] := by
    rw [hparts, List.foldl_append, foldl_pushComponent hinit, List.nil_append, List.foldl_cons,
      List.foldl_nil]
    unfold pushComponent
    split
    · rw [List.append_nil]
    · rw [if_pos (.inl hlast)]
  unfold normpath
  rw [hcomps, hslashes]
  rfl

/-- The last component of a path is a dot. -/
def Dotted (path : Points) : Prop := (path.splitOn slash).getLast? = some (points ".")

/-- The normal form of an accepted path, and what it leaves away: nothing, or the slash or the slash and the
dot at the end. Unless it leaves the dot away, it is the path without the slash. -/
theorem normpath_accepted (hroot : path.head? ≠ some slash)
    (hinit : (path.splitOn slash).dropLast.any isAlias = false) (hup : points ".." ∉ path.splitOn slash)
    (hdot : normpath path ≠ points ".") :
    (normpath path ≠ [] ∧ ∃ rest, path = normpath path ++ rest ∧
        (rest = [] ∨ rest = [slash] ∨ rest = [slash, 0x2e])) ∧
      ((Dotted path ∧ (path.rdropWhile fun c => c == slash) = path) ∨
        normpath path = path.rdropWhile fun c => c == slash) := by
  obtain ⟨init, last, hparts⟩ : ∃ init last, path.splitOn slash = init ++ [last] :=
    ⟨_, _, (List.dropLast_append_getLast (List.splitOn_ne_nil slash path)).symm⟩
  have hpath : path = join (init ++ [last]) := by
    rw [← hparts]
    exact (List.intercalate_splitOn slash).symm
  rw [hparts, List.dropLast_concat, List.any_eq_false] at hinit
  have hinit' : ∀ p ∈ init, isAlias p = false := fun p hp => by simpa using hinit p hp
  have hlast : last ≠ points ".." := by
    intro heq
    apply hup
    rw [hparts, heq]
    simp
  have hnorm := normpath_eq hroot hparts hinit' hlast
  by_cases hregular : last = [] ∨ last = points "."
  · -- The last component is left away, so there are others.
    rw [if_pos hregular, List.append_nil] at hnorm
    by_cases hnil : init = []
    · subst hnil
      exact absurd hnorm hdot
    · obtain ⟨before, part, rfl⟩ : ∃ before part, init = before ++ [part] :=
        ⟨_, _, (List.dropLast_append_getLast hnil).symm⟩
      have hpart : part ≠ [] := by
        intro heq
        have halias := hinit' part (by simp)
        rw [heq] at halias
        cases halias
      have hslash : slash ∉ part := not_mem_component (by rw [hparts]; simp)
      rw [if_neg (join_ne_nil hpart)] at hnorm
      have hsplit : path = normpath path ++ slash :: last := by
        rw [hnorm, hpath, join_snoc hnil]
      refine ⟨⟨hnorm ▸ join_ne_nil hpart, slash :: last, hsplit, ?_⟩, ?_⟩
      · rcases hregular with rfl | rfl
        · exact .inr (.inl rfl)
        · exact .inr (.inr rfl)
      · rcases hregular with rfl | rfl
        · right
          conv_rhs => rw [hsplit]
          rw [List.rdropWhile_concat_pos _ _ _ (by simp), hnorm, join_last hpart hslash]
        · refine .inl ⟨?_, ?_⟩
          · unfold Dotted
            rw [hparts, List.getLast?_concat]
          · rw [hpath]
            exact join_last (by decide) (by decide)
  · rw [if_neg hregular] at hnorm
    rw [not_or] at hregular
    have hslash : slash ∉ last := not_mem_component (by rw [hparts]; simp)
    rw [if_neg (join_ne_nil hregular.1), ← hpath] at hnorm
    refine ⟨⟨?_, [], by rw [hnorm, List.append_nil], .inl rfl⟩, .inr ?_⟩
    · rw [hnorm, hpath]
      exact join_ne_nil hregular.1
    · rw [hnorm, hpath, join_last hregular.1 hslash]

end Paths

/-! ## What is accepted -/

section Accepted

variable {env : Env} {limits : ParserLimits} {require_docx : Bool}

/-- The last component of the name of a member is a dot. -/
def Member.Dotted (env : Env) (m : Member) : Prop := Archive.Dotted (folded env m.filename)

variable {m : Member} {st st' : State}

/-- What the check of a name says of the canonical path: it stays inside, and it is the name that is looked
for among the others unless the last component is a dot. -/
theorem safeName_ok {s : Points} (h : safeArchiveMemberName env m.filename = .ok s) :
    ((canonicalPath env m).head? ≠ some slash ∧ ¬ DriveRooted (canonicalPath env m) ∧
      ¬ Escapes (canonicalPath env m)) ∧
    ((m.Dotted env ∧ s = folded env m.filename) ∨ canonicalPath env m = s) := by
  unfold canonicalPath Member.Dotted
  unfold safeArchiveMemberName at h
  generalize folded env m.filename = path at h ⊢
  split at h
  · cases h
  · split at h
    · cases h
    · next hroot =>
      split at h
      · cases h
      · next halias =>
        split at h
        · cases h
        · next hdots =>
          cases h
          rw [not_or] at hroot halias
          rw [not_or, not_or] at hdots
          obtain ⟨⟨hne, rest, hsplit, hrest⟩, hname⟩ :=
            normpath_accepted hroot.1 (by simpa using halias.1) halias.2 hdots.1
          have hhead : path.head? = (normpath path).head? := by
            conv_lhs => rw [hsplit]
            exact List.head?_append_of_ne_nil _ hne
          refine ⟨⟨hhead ▸ hroot.1, ?_, ?_⟩, ?_⟩
          · rintro ⟨c, tail, hdrive, hletter, htail⟩
            apply hroot.2
            rw [hsplit, hdrive, List.cons_append, List.cons_append]
            -- What was left away follows the drive, or what follows it already.
            have hbehind : tail ++ rest = [] ∨ (tail ++ rest).head? = some slash := by
              rcases htail with rfl | htail
              · rcases hrest with rfl | rfl | rfl
                · exact .inl rfl
                · exact .inr rfl
                · exact .inr rfl
              · right
                rw [List.head?_append, htail]
                rfl
            unfold isDriveRoot
            rcases hbehind with hnil | hslash
            · simp [hnil, hletter]
            · simp [hslash, hletter]
          · rintro (hup | hup)
            · exact hdots.2.1 hup
            · exact hdots.2.2 hup
          · rcases hname with ⟨hdotted, hsame⟩ | hsame
            · exact .inl ⟨hdotted, hsame⟩
            · exact .inr hsame

/-- The stream of a member that is read to its end has the bytes of its pieces. -/
theorem readStream_ok {chunks : List ℕ} {checks actual_size total : ℕ} {read : ℕ × ℕ × ℕ}
    (h : readStream env limits m chunks checks actual_size total = .ok read) :
    read.2.1 = actual_size + chunks.sum := by
  induction chunks generalizing checks actual_size total with
  | nil =>
    simp only [readStream] at h
    split at h
    · cases h
    · split at h
      · cases h
      · cases h
        rfl
  | cons chunk chunks ih =>
    simp only [readStream] at h
    split at h
    · cases h
    · split at h
      · cases h
      · split at h
        · cases h
        · split at h
          · cases h
          · rw [ih h, List.sum_cons]
            omega

/-- A member that is measured has sizes within the limits, as its header says. -/
theorem measureMember_ok (h : measureMember env limits st m = .ok st') :
    Measured env limits m ∧ st'.seen_names = st.seen_names ∧ st'.required_names = st.required_names := by
  unfold measureMember at h
  split at h
  · cases h
  · next hdeclared =>
    split at h
    · cases h
    · split at h
      · cases h
      · next hratio =>
        split at h
        · cases h
        · obtain ⟨read, hread, h⟩ := except_bind_ok.mp h
          split at h
          · cases h
          · next hsame =>
            cases h
            have hbytes := readStream_ok hread
            rw [Nat.zero_add] at hbytes
            have hactual : (m.actual : ℤ) = m.file_size := by
              rw [not_not, hbytes] at hsame
              exact hsame
            exact ⟨⟨not_lt.mp hdeclared, hactual, not_lt.mp hratio⟩, rfl, rfl⟩

/-- What a round of the loop says of a member: its name is accepted and new, and it is measured unless it is
named as a directory. -/
theorem checkMember_ok (h : checkMember env limits require_docx st m = .ok st') :
    ∃ s, safeArchiveMemberName env m.filename = .ok s ∧ env.casefold s ∉ st.seen_names ∧
      st'.seen_names = env.casefold s :: st.seen_names ∧
      st'.required_names = (if require_docx then st.required_names.erase s else st.required_names) ∧
      (m.isDirectory = false → Measured env limits m) := by
  unfold checkMember at h
  split at h
  · cases h
  · split at h
    · cases h
    · next s hs =>
      split at h
      · cases h
      · next hnew =>
        split at h
        · cases h
        · split at h
          · cases h
          · split at h
            · cases h
            · simp only at h
              split at h
              · next hdirectory =>
                cases h
                refine ⟨s, hs, hnew, rfl, rfl, fun hfile => ?_⟩
                rw [hdirectory] at hfile
                cases hfile
              · obtain ⟨hmeasured, hseen, hrequired⟩ := measureMember_ok h
                exact ⟨s, hs, hnew, hseen, hrequired, fun _ => hmeasured⟩

/-- What the loop says of the members: their names are accepted, and folded to different ones; those that
are not named as directories are measured; and a required name that is no longer looked for is that of a
member. -/
structure Passed (env : Env) (limits : ParserLimits) (members : List Member) (st st' : State) : Prop where
  names : ∀ m ∈ members, ∃ s, safeArchiveMemberName env m.filename = .ok s ∧ env.casefold s ∉ st.seen_names
  distinct : members.Pairwise fun m n => ∀ s t, safeArchiveMemberName env m.filename = .ok s →
    safeArchiveMemberName env n.filename = .ok t → env.casefold s ≠ env.casefold t
  measured : ∀ m ∈ members, m.isDirectory = false → Measured env limits m
  required : ∀ name ∈ st.required_names, name ∉ st'.required_names →
    ∃ m ∈ members, safeArchiveMemberName env m.filename = .ok name

/-- The loop, by induction on the members. -/
theorem checkMembers_ok {members : List Member} (h : checkMembers env limits require_docx st members = .ok st') :
    Passed env limits members st st' := by
  induction members generalizing st with
  | nil =>
    cases h
    exact ⟨by simp, .nil, by simp, fun name hname hgone => absurd hname hgone⟩
  | cons m members ih =>
    obtain ⟨st₁, hstep, hrest⟩ := except_bind_ok.mp h
    obtain ⟨s, hs, hnew, hseen, hrequired, hmeasured⟩ := checkMember_ok hstep
    obtain ⟨hnames, hdistinct, hall, hfound⟩ := ih hrest
    rw [hseen] at hnames
    refine ⟨?_, ?_, ?_, ?_⟩
    · intro n hn
      rcases List.mem_cons.mp hn with rfl | hn
      · exact ⟨s, hs, hnew⟩
      · obtain ⟨t, ht, hfresh⟩ := hnames n hn
        exact ⟨t, ht, fun hmem => hfresh (List.mem_cons_of_mem _ hmem)⟩
    · refine List.pairwise_cons.mpr ⟨?_, hdistinct⟩
      intro n hn s' t hs' ht heq
      obtain ⟨t', ht', hfresh⟩ := hnames n hn
      rw [hs] at hs'
      rw [ht] at ht'
      cases hs'
      cases ht'
      exact hfresh (by rw [← heq]; exact List.mem_cons_self ..)
    · intro n hn
      rcases List.mem_cons.mp hn with rfl | hn
      · exact hmeasured
      · exact hall n hn
    · intro name hname hgone
      by_cases hhere : name = s
      · exact ⟨m, List.mem_cons_self .., hhere ▸ hs⟩
      · have hkept : name ∈ st₁.required_names := by
          rw [hrequired]
          split
          · exact (List.mem_erase_of_ne hhere).mpr hname
          · exact hname
        obtain ⟨n, hn, hok⟩ := hfound name hkept hgone
        exact ⟨n, List.mem_cons_of_mem m hn, hok⟩

end Accepted

/-! ## When an accepted archive is admitted -/

section Admission

variable {env : Env} {limits : ParserLimits} {require_docx : Bool} {members : List Member}

/-- The declared sizes of the members that are named as directories, or of the others. -/
def declaredBy (directories : Bool) (members : List Member) : ℤ :=
  ((members.filter fun m => m.isDirectory == directories).map Member.file_size).sum

/-- The members that are named as directories have sizes within the limits, as their headers say, and fit
together in what the others leave of the total. -/
structure DirectoriesFit (env : Env) (limits : ParserLimits) (members : List Member) : Prop where
  measured : ∀ m ∈ members, m.isDirectory = true → Measured env limits m
  total : declaredBy true members ≤ limits.max_archive_uncompressed_bytes - declaredBy false members

/-- No member whose name ends in a dot as its last component has the canonical path of another one. -/
def NoDotAlias (env : Env) (members : List Member) : Prop :=
  members.Pairwise fun m n => m.Dotted env ∨ n.Dotted env →
    env.casefold (canonicalPath env m) ≠ env.casefold (canonicalPath env n)

/-- Every member is named as a directory or not. -/
theorem sum_declared (members : List Member) :
    (members.map Member.file_size).sum = declaredBy true members + declaredBy false members := by
  unfold declaredBy
  induction members with
  | nil => rfl
  | cons m members ih =>
    rw [List.map_cons, List.sum_cons, ih]
    cases hm : m.isDirectory <;> simp [hm] <;> omega

/-- Members whose sizes agree with their headers have their totals. -/
theorem sum_actual (h : ∀ m ∈ members, (m.actual : ℤ) = m.file_size) :
    (((members.map Member.actual).sum : ℕ) : ℤ) = (members.map Member.file_size).sum := by
  induction members with
  | nil => rfl
  | cons m members ih =>
    rw [List.map_cons, List.sum_cons, List.map_cons, List.sum_cons, Nat.cast_add, h m (List.mem_cons_self ..),
      ih fun n hn => h n (List.mem_cons_of_mem m hn)]

/-- What a validation that returns says of the members. -/
theorem validateArchive_ok {container : Container} {inspection : Inspection}
    (hinfos : container.infos = some members)
    (h : validateArchive env limits require_docx container = .ok inspection) :
    members.length ≤ limits.max_archive_members ∧
      ∃ st st' : State, st.required_names = (if require_docx then requiredNames else []) ∧
        st'.required_names = [] ∧ Passed env limits members st st' := by
  unfold validateArchive at h
  split at h
  · cases h
  · split at h
    · cases h
    · split at h
      · cases h
      · split at h
        · cases h
        · split at h
          · cases h
          · rw [hinfos] at h
            simp only at h
            split at h
            · cases h
            · next hcount =>
              obtain ⟨st', hloop, h⟩ := except_bind_ok.mp h
              split at h
              · cases h
              · next hfound =>
                exact ⟨Nat.le_of_not_lt hcount, _, st', rfl, not_not.mp hfound, checkMembers_ok hloop⟩

/-- Members that have passed, with directories that fit and no alias by a dot, are admitted. -/
theorem admitted_of_passed {st st' : State} (hcount : members.length ≤ limits.max_archive_members)
    (hrequired : st.required_names = if require_docx then requiredNames else [])
    (hfound : st'.required_names = []) (hpassed : Passed env limits members st st')
    (hfit : DirectoriesFit env limits members) (halias : NoDotAlias env members) :
    Admitted env limits require_docx members := by
  have hmeasured : ∀ m ∈ members, Measured env limits m := by
    intro m hm
    cases hdirectory : m.isDirectory with
    | true => exact hfit.measured m hm hdirectory
    | false => exact hpassed.measured m hm hdirectory
  have hagree : ∀ m ∈ members, (m.actual : ℤ) = m.file_size := fun m hm => (hmeasured m hm).actual
  have htotal : (members.map Member.file_size).sum ≤ limits.max_archive_uncompressed_bytes := by
    have hsum := sum_declared members
    have hbound := hfit.total
    omega
  refine ⟨?_, ?_, hcount, fun m hm => (hmeasured m hm).declared, ?_, htotal, ?_, hagree,
    fun m hm => (hmeasured m hm).ratio, ?_⟩
  · rw [List.Nodup, List.pairwise_map]
    refine (halias.and hpassed.distinct).imp_of_mem ?_
    intro m n hm hn hpair
    obtain ⟨s, hs, -⟩ := hpassed.names m hm
    obtain ⟨t, ht, -⟩ := hpassed.names n hn
    rcases (safeName_ok hs).2 with ⟨hdotted, -⟩ | hsame
    · exact hpair.1 (.inl hdotted)
    · rcases (safeName_ok ht).2 with ⟨hdotted, -⟩ | hsame'
      · exact hpair.1 (.inr hdotted)
      · rw [hsame, hsame']
        exact hpair.2 s t hs ht
  · intro m hm
    obtain ⟨s, hs, -⟩ := hpassed.names m hm
    exact (safeName_ok hs).1
  · intro m hm
    have hle := (hmeasured m hm).declared
    rw [← hagree m hm] at hle
    exact_mod_cast hle
  · have hsum := sum_actual hagree
    rw [← hsum] at htotal
    exact_mod_cast htotal
  · intro hdocx name hname
    rw [hdocx, if_pos rfl] at hrequired
    obtain ⟨m, hm, hs⟩ := hpassed.required name (hrequired ▸ hname) (by rw [hfound]; exact List.not_mem_nil)
    refine ⟨m, hm, ?_⟩
    rcases (safeName_ok hs).2 with ⟨hdotted, hpath⟩ | hsame
    · -- A required name does not end in a dot as its component.
      unfold Member.Dotted at hdotted
      rw [← hpath] at hdotted
      have hplain : ∀ name ∈ requiredNames, ¬ Dotted name := by
        unfold Dotted
        decide
      exact absurd hdotted (hplain name hname)
    · exact hsame

/-- What is admitted has directories that fit, and no alias by a dot. -/
theorem fit_of_admitted (h : Admitted env limits require_docx members) :
    DirectoriesFit env limits members ∧ NoDotAlias env members := by
  refine ⟨⟨fun m hm _ => ⟨h.declared m hm, h.agree m hm, h.ratio m hm⟩, ?_⟩, ?_⟩
  · have hsum := sum_declared members
    have htotal := h.total_declared
    omega
  · have hdistinct := h.distinct
    rw [List.Nodup, List.pairwise_map] at hdistinct
    refine hdistinct.imp ?_
    intro m n hne _
    exact hne

/-- An archive on which `validate_archive` returns is what admission promises exactly when its members that
are named as directories have sizes within the limits, as their headers say, and fit in what the others
leave of the total, and no member whose name ends in a dot as its last component has the canonical path of
another one. -/
theorem archive_admitted_iff (env : Env) (limits : ParserLimits) (require_docx : Bool) (container : Container)
    (members : List Member) (inspection : Inspection) (hinfos : container.infos = some members)
    (h : validateArchive env limits require_docx container = .ok inspection) :
    Admitted env limits require_docx members ↔ DirectoriesFit env limits members ∧ NoDotAlias env members := by
  obtain ⟨hcount, st, st', hrequired, hfound, hpassed⟩ := validateArchive_ok hinfos h
  exact ⟨fit_of_admitted, fun hfit => admitted_of_passed hcount hrequired hfound hpassed hfit.1 hfit.2⟩

end Admission

/-! ## Two archives -/

section Samples

/-- A clock that does not run out, names that are not changed by NFKC or folding, and exact division. -/
def plainEnv : Env := ⟨id, id, fun n d => n / d, fun _ => false⟩

/-- A member that is stored with a size, and read in one piece. -/
def storedMember (name : String) (size : ℕ) (hsize : 0 < size) : Member :=
  ⟨points name, size, size, 0, 0, ⟨none, [size], none, by simpa using hsize⟩⟩

/-- A container with these members. -/
def containerOf (members : List Member) : Container := ⟨some (true, 100), some members⟩

/-- An archive of two members is admitted just when its conditions hold. -/
theorem archive_admitted_iff_two :
    Admitted plainEnv defaultParserLimits false [storedMember "a/b" 1 (by decide), storedMember "c" 2 (by decide)] ↔
      DirectoriesFit plainEnv defaultParserLimits
          [storedMember "a/b" 1 (by decide), storedMember "c" 2 (by decide)] ∧
        NoDotAlias plainEnv [storedMember "a/b" 1 (by decide), storedMember "c" 2 (by decide)] :=
  archive_admitted_iff plainEnv defaultParserLimits false
    (containerOf [storedMember "a/b" 1 (by decide), storedMember "c" 2 (by decide)]) _ ⟨2, 3, 3, 2, 1⟩ rfl
    (by decide +kernel)

/-- A member that is named as a directory is accepted with more bytes than the limit allows. -/
theorem directory_unmeasured :
    ∃ container members inspection, container.infos = some members ∧
      validateArchive plainEnv defaultParserLimits false container = .ok inspection ∧
      ¬ Admitted plainEnv defaultParserLimits false members := by
  refine ⟨containerOf [storedMember "d/" 30000000 (by decide)], _, ⟨1, 0, 0, 0, 0⟩, rfl, by decide +kernel, ?_⟩
  intro h
  exact absurd (h.declared _ (List.mem_singleton_self _)) (by decide +kernel)

end Samples

end Archive

end RickIntelligence.Ingestion
