import RickIntelligence.Lib.Text
import RickIntelligence.Lib.Utf8
import RickIntelligence.Providers.Chunk

/-!
# Server-sent events

`_iter_bounded_sse_lines` and `_iter_bounded_sse_data` of `rick_providers/client.py`. The bytes of a
response come in chunks, cut anywhere. The first generator decodes them and yields lines; the second one
yields the data of the events, and consumes the first one line by line, so what it yields or raises is
decided by the lines before the first error.

`chunks_irrelevant` says that for a response in UTF-8 the chunks do not matter, and that the events are
those of the line rules (`ruledData`), which are stated on the whole text. In between stands a machine that
reads the text character by character (`scan`).
-/

namespace RickIntelligence.Providers.Sse

open Lib

/-- A text. -/
abbrev Text := List Char

/-! ## Errors -/

/-- `ProviderError`. -/
structure ProviderError where
  code : ErrorCode
  operation : String
  correlation_id : String
  attempt : ℕ
  status : Option ℕ
  deriving DecidableEq, Repr

/-- The call that a response belongs to, and the status of the response. -/
structure Call where
  operation : String
  correlation_id : String
  attempt : ℕ
  status_code : ℕ

/-- `provider_error("malformed_response", …)`, with the status or without. -/
def Call.malformed (call : Call) (status : Option ℕ) : ProviderError :=
  ⟨.malformed_response, call.operation, call.correlation_id, call.attempt, status⟩

/-! ## Lines -/

/-- Lines and a rest that some characters stand before. -/
def prepend (line : Text) : List Text × Text → List Text × Text
  | ([], rest) => ([], line ++ rest)
  | (l :: ls, rest) => ((line ++ l) :: ls, rest)

/-- The separators that `_SSE_LINE_END.finditer` finds in a text: the lines that they end, and the rest. -/
def splitLines : Text → List Text × Text
  | [] => ([], [])
  | '\r' :: '\n' :: s => ([] :: (splitLines s).1, (splitLines s).2)
  | c :: s =>
    if c = '\r' ∨ c = '\n' then ([] :: (splitLines s).1, (splitLines s).2)
    else prepend [c] (splitLines s)

/-- What `_iter_bounded_sse_lines` keeps between two chunks. -/
structure LineState where
  total_bytes : ℕ
  decoder : Utf8.State
  pending : List Text
  at_start : Bool
  skip_lf : Bool

/-- The byte order mark. -/
def bom : Char := '\ufeff'

/-- `text.removeprefix("\ufeff")`. -/
def removeBom : Text → Text
  | c :: s => if c = bom then s else c :: s
  | [] => []

/-- The text without a line feed at its beginning that belongs to the line ending before. -/
def skipLf (skip_lf : Bool) : Text → Text
  | '\n' :: s => if skip_lf then s else '\n' :: s
  | s => s

/-- `text.endswith("\r")`. -/
def endsCr (text : Text) : Bool := text.getLast? == some '\r'

/-- The loop over the separators of a text: the lines that are yielded, and what is pending then. -/
def takeLines (pending : List Text) (text : Text) : List Text × List Text :=
  match splitLines text with
  | ([], rest) => ([], if rest = [] then pending else pending ++ [rest])
  | (l :: ls, rest) => ((pending ++ [l]).flatten :: ls, if rest = [] then [] else [rest])

/-- A round of the loop over the chunks. -/
def takeChunk (call : Call) (st : LineState) (chunk : List ℕ) :
    Except ProviderError (List Text × LineState) :=
  if maxResponseBytes - st.total_bytes < chunk.length then .error (call.malformed none)
  else
    let total := st.total_bytes + chunk.length
    match Utf8.decode st.decoder chunk with
    | none => .error (call.malformed (some call.status_code))
    | some (text, decoder) =>
      if text = [] then .ok ([], { st with total_bytes := total, decoder := decoder })
      else
        let text := skipLf st.skip_lf (if st.at_start then removeBom text else text)
        let taken := takeLines st.pending text
        .ok (taken.1, ⟨total, decoder, taken.2, false, endsCr text⟩)

/-- The loop over the chunks, and what follows it: the lines that are yielded, and the error if it
raises. -/
def linesFrom (call : Call) (st : LineState) : List (List ℕ) → List Text × Option ProviderError
  | [] =>
    if st.decoder ≠ .start then ([], some (call.malformed (some call.status_code)))
    else (if st.pending = [] then [] else [st.pending.flatten], none)
  | chunk :: chunks =>
    match takeChunk call st chunk with
    | .error e => ([], some e)
    | .ok (lines, st) => (lines ++ (linesFrom call st chunks).1, (linesFrom call st chunks).2)

/-- `_iter_bounded_sse_lines`. -/
def iterLines (call : Call) (chunks : List (List ℕ)) : List Text × Option ProviderError :=
  linesFrom call ⟨0, .start, [], true, false⟩ chunks

/-! ## Data -/

/-- `"\n".join(data)`. -/
def joinData (data : List Text) : Text := ['\n'].intercalate data

/-- `line.partition(":")`: the field, and the value if there is a separator. -/
def partition (line : Text) : Text × Option Text :=
  match line.dropWhile (· != ':') with
  | [] => (line, none)
  | _ :: value => (line.takeWhile (· != ':'), some value)

/-- `value.removeprefix(" ")`. -/
def removeSpace : Text → Text
  | ' ' :: s => s
  | s => s

/-- The names of the fields. -/
def dataField : Text := "data".toList

/-- The fields that are read over. -/
def metadataFields : List Text := ["event".toList, "id".toList, "retry".toList]

/-- The loop of `_iter_bounded_sse_data` over the lines, and how these end: the events that are yielded, and
the error if it raises. -/
def dataFrom (call : Call) (ending : Option ProviderError) :
    List Text → List Text → List Text × Option ProviderError
  | data, [] =>
    match ending with
    | some e => ([], some e)
    | none => ([], if data ≠ [] then some (call.malformed none) else none)
  | data, line :: lines =>
    if line = [] then
      if data ≠ [] then
        (joinData data :: (dataFrom call ending [] lines).1, (dataFrom call ending [] lines).2)
      else dataFrom call ending data lines
    else if line.head? = some ':' then dataFrom call ending data lines
    else if (partition line).1 = dataField then
      dataFrom call ending (data ++ [((partition line).2.map removeSpace).getD []]) lines
    else if (partition line).1 ∉ metadataFields then ([], some (call.malformed none))
    else dataFrom call ending data lines

/-- `_iter_bounded_sse_data`. -/
def iterData (call : Call) (chunks : List (List ℕ)) : List Text × Option ProviderError :=
  dataFrom call (iterLines call chunks).2 [] (iterLines call chunks).1

/-! ## The line rules -/

/-- Every line ending as a line feed. -/
def unify : Text → Text
  | [] => []
  | '\r' :: '\n' :: s => '\n' :: unify s
  | c :: s => (if c = '\r' then '\n' else c) :: unify s

/-- The lines of a text without its byte order mark: the last one counts if it is not empty. -/
def ruledLines (text : Text) : List Text :=
  let parts := splitAt '\n' (unify (removeBom text))
  parts.dropLast ++ parts.getLast?.toList.filter (· ≠ [])

/-- The value of a data field, if the line is one. -/
def dataOf (line : Text) : Option Text :=
  if line.head? ≠ some ':' ∧ (partition line).1 = dataField then
    some (((partition line).2.map removeSpace).getD [])
  else none

/-- The line is blank, a comment, or a field that is known. -/
def known (line : Text) : Bool :=
  line.isEmpty || line.head? == some ':' || (partition line).1 == dataField ||
    metadataFields.contains (partition line).1

/-- The events of some lines: the data fields between two blank lines, joined. What follows the last blank
line is no event. An unknown field, and data that no blank line follows, are errors. -/
def ruledData (call : Call) (lines : List Text) : List Text × Option ProviderError :=
  let good := lines.takeWhile known
  let blocks := (good.splitOnP List.isEmpty).map fun block => block.filterMap dataOf
  ((blocks.dropLast.filter (· ≠ [])).map joinData,
    if good ≠ lines ∨ blocks.getLast? ≠ some [] then some (call.malformed none) else none)

/-! ## Reading character by character -/

/-- The lines that some characters complete, from whether a line feed is to be skipped and the line so
far; and the two after them. -/
def scan : Bool → Text → Text → List Text × Bool × Text
  | skip, line, [] => ([], skip, line)
  | skip, line, c :: s =>
    if c = '\n' ∧ skip then scan false line s
    else if c = '\r' ∨ c = '\n' then (line :: (scan (c == '\r') [] s).1, (scan (c == '\r') [] s).2)
    else scan false (line ++ [c]) s

/-- The first of some characters. -/
theorem scan_cons (skip : Bool) (line : Text) (c : Char) (s : Text) :
    scan skip line (c :: s) = if c = '\n' ∧ skip then scan false line s
      else if c = '\r' ∨ c = '\n' then (line :: (scan (c == '\r') [] s).1, (scan (c == '\r') [] s).2)
      else scan false (line ++ [c]) s := rfl

/-- Characters that come in two pieces are read as if they came together. -/
theorem scan_append (skip : Bool) (line a b : Text) :
    scan skip line (a ++ b) =
      ((scan skip line a).1 ++ (scan (scan skip line a).2.1 (scan skip line a).2.2 b).1,
        (scan (scan skip line a).2.1 (scan skip line a).2.2 b).2) := by
  induction a generalizing skip line with
  | nil => simp [scan]
  | cons c a ih =>
    rw [List.cons_append, scan_cons skip line c a, scan_cons skip line c (a ++ b)]
    split
    · exact ih false line
    · split
      · simp only [ih]
        rfl
      · exact ih false (line ++ [c])

/-- A line feed to be skipped is one at the beginning. -/
theorem scan_skip {skip : Bool} {text : Text} (h : skip = true → text ≠ []) (line : Text) :
    scan skip line text = scan false line (skipLf skip text) := by
  cases skip with
  | false =>
    have hkeep : skipLf false text = text := by
      unfold skipLf
      split <;> rfl
    rw [hkeep]
  | true =>
    cases text with
    | nil => exact absurd rfl (h rfl)
    | cons c s =>
      by_cases hc : c = '\n'
      · subst hc
        rfl
      · have hkeep : skipLf true (c :: s) = c :: s := by
          unfold skipLf
          split
          · next heq => exact absurd (List.cons.inj heq).1 hc
          · rfl
        rw [hkeep, scan_cons, scan_cons]
        simp [hc]

/-- Characters before characters. -/
theorem prepend_prepend (a b : Text) (r : List Text × Text) : prepend a (prepend b r) = prepend (a ++ b) r := by
  obtain ⟨ls, rest⟩ := r
  cases ls <;> simp [prepend]

/-- No characters. -/
theorem prepend_nil (r : List Text × Text) : prepend [] r = r := by
  obtain ⟨ls, rest⟩ := r
  cases ls <;> rfl

/-- The last character of a text that has more than one. -/
theorem endsCr_cons (c : Char) (s : Text) : endsCr (c :: s) = if s = [] then c == '\r' else endsCr s := by
  unfold endsCr
  cases s with
  | nil => rfl
  | cons d s => rw [if_neg (List.cons_ne_nil d s), List.getLast?_cons_cons]

/-- A text that is read from within a line is cut at its separators. -/
theorem scan_splitLines (line text : Text) :
    scan false line text =
      ((prepend line (splitLines text)).1, endsCr text, (prepend line (splitLines text)).2) := by
  fun_induction splitLines text generalizing line with
  | case1 => simp [scan, prepend, endsCr]
  | case2 s ih =>
    have hskip : scan true [] ('\n' :: s) = scan false [] s := rfl
    have hends : endsCr ('\r' :: '\n' :: s) = endsCr s := by
      rw [endsCr_cons, if_neg (List.cons_ne_nil _ _), endsCr_cons]
      split
      · next hnil => rw [hnil]; rfl
      · rfl
    rw [scan_cons, if_neg (by decide), if_pos (.inl rfl), hends]
    show (line :: (scan true [] ('\n' :: s)).1, (scan true [] ('\n' :: s)).2) = _
    rw [hskip, ih, prepend_nil]
    simp [prepend]
  | case3 c s hne hc ih =>
    have hskip : scan (c == '\r') [] s = if s = [] then ([], c == '\r', []) else scan false [] s := by
      split
      · next hnil =>
        rw [hnil]
        rfl
      · next hs =>
        -- A line feed that follows a carriage return has been taken with it.
        have hkeep : skipLf (c == '\r') s = s := by
          unfold skipLf
          split
          · next t =>
            have hcr : (c == '\r') = false := by
              rw [beq_eq_false_iff_ne]
              intro heq
              exact hne t heq rfl
            rw [hcr]
            rfl
          · rfl
        rw [scan_skip (fun _ => hs), hkeep]
    rw [scan_cons, if_neg (by simp), if_pos hc, hskip, endsCr_cons]
    by_cases hs : s = []
    · subst hs
      simp [splitLines, prepend]
    · rw [if_neg hs, if_neg hs, ih, prepend_nil]
      simp [prepend]
  | case4 c s hne hc ih =>
    rw [not_or] at hc
    have hends : endsCr (c :: s) = endsCr s := by
      rw [endsCr_cons]
      split
      · next hnil =>
        rw [hnil]
        simpa [endsCr] using hc.1
      · rfl
    rw [scan_cons, if_neg (by simp), if_neg (by simp [hc.1, hc.2]), ih, prepend_prepend, hends]

/-- The loop over the separators yields what the machine reads; what is pending is the line so far, in
pieces that are not empty. -/
theorem takeLines_scan {pending : List Text} (h : [] ∉ pending) (text : Text) :
    scan false pending.flatten text =
        ((takeLines pending text).1, endsCr text, (takeLines pending text).2.flatten) ∧
      [] ∉ (takeLines pending text).2 := by
  rw [scan_splitLines]
  unfold takeLines
  obtain ⟨ls, rest⟩ := splitLines text
  cases ls with
  | nil =>
    by_cases hrest : rest = []
    · simp [prepend, hrest, h]
    · simp [prepend, hrest, h, Ne.symm hrest]
  | cons l ls =>
    by_cases hrest : rest = []
    · simp [prepend, hrest]
    · simp [prepend, hrest, Ne.symm hrest]

/-- The byte order mark is at the beginning of a text that is not empty. -/
theorem removeBom_append {a : Text} (h : a ≠ []) (b : Text) : removeBom (a ++ b) = removeBom a ++ b := by
  cases a with
  | nil => exact absurd rfl h
  | cons c a =>
    show (if c = bom then a ++ b else c :: (a ++ b)) = (if c = bom then a else c :: a) ++ b
    split <;> rfl

/-- What is yielded of a text at its end: the lines, and the last one if it is not empty. -/
def closed (r : List Text × Bool × Text) : List Text := r.1 ++ if r.2.2 = [] then [] else [r.2.2]

/-- The state between two chunks is one that chunks lead to: nothing empty is pending, and at the start no
line feed is to be skipped. -/
structure LineState.Sound (st : LineState) : Prop where
  pending : [] ∉ st.pending
  start : st.at_start = true → st.skip_lf = false

/-- Chunks that complete a text are read as the machine reads the text: by induction on the chunks, with
the state of the machine in the state of the loop. -/
theorem linesFrom_eq (call : Call) {chunks : List (List ℕ)} {st : LineState} (hsound : st.Sound)
    {text : Text} (hdecode : Utf8.decode st.decoder chunks.flatten = some (text, .start))
    (hbytes : st.total_bytes + chunks.flatten.length ≤ maxResponseBytes) :
    linesFrom call st chunks =
      (closed (scan st.skip_lf st.pending.flatten (if st.at_start then removeBom text else text)), none) := by
  induction chunks generalizing st text with
  | nil =>
    simp only [List.flatten_nil, Utf8.decode, Option.some.injEq, Prod.mk.injEq] at hdecode
    obtain ⟨rfl, hstart⟩ := hdecode
    have hempty : (if st.at_start = true then removeBom [] else []) = ([] : Text) := by split <;> rfl
    have hflat : st.pending.flatten = [] ↔ st.pending = [] := by
      rw [List.flatten_eq_nil_iff]
      constructor
      · intro hall
        exact List.eq_nil_iff_forall_not_mem.mpr fun l hl => hsound.pending (hall l hl ▸ hl)
      · intro hnil l hl
        rw [hnil] at hl
        cases hl
    unfold linesFrom
    rw [if_neg (not_not_intro hstart), hempty]
    simp only [scan, closed, hflat, List.nil_append]
  | cons chunk chunks ih =>
    rw [List.flatten_cons] at hdecode hbytes
    rw [List.length_append] at hbytes
    rw [Utf8.decode_append] at hdecode
    obtain ⟨⟨piece, decoder⟩, hpiece, hdecode⟩ := Option.bind_eq_some_iff.mp hdecode
    obtain ⟨⟨more, last⟩, hmore, hdecode⟩ := Option.map_eq_some_iff.mp hdecode
    simp only [Prod.mk.injEq] at hdecode
    obtain ⟨rfl, rfl⟩ := hdecode
    have hfits : ¬ maxResponseBytes - st.total_bytes < chunk.length := by omega
    have hrest : st.total_bytes + chunk.length + chunks.flatten.length ≤ maxResponseBytes := by omega
    by_cases hpieceNil : piece = []
    · subst hpieceNil
      have hchunk : takeChunk call st chunk =
          .ok ([], { st with total_bytes := st.total_bytes + chunk.length, decoder := decoder }) := by
        unfold takeChunk
        rw [if_neg hfits]
        simp only [hpiece, if_pos]
      have hkept : LineState.Sound
          { st with total_bytes := st.total_bytes + chunk.length, decoder := decoder } :=
        ⟨hsound.pending, hsound.start⟩
      have hnext := ih hkept hmore hrest
      unfold linesFrom
      simp only [hchunk, hnext, List.nil_append]
    · -- The piece goes through the machine from where the chunks before have left it.
      generalize hread : (if st.at_start = true then removeBom piece else piece) = read
      have hsplit : (if st.at_start = true then removeBom (piece ++ more) else piece ++ more) =
          read ++ more := by
        rw [← hread]
        split
        · exact removeBom_append hpieceNil more
        · rfl
      have hskip : st.skip_lf = true → read ≠ [] := by
        intro hlf
        have hlater : st.at_start = false := by
          cases hstart : st.at_start with
          | false => rfl
          | true =>
            rw [hsound.start hstart] at hlf
            cases hlf
        rw [← hread, hlater]
        exact hpieceNil
      obtain ⟨hscan, hpending⟩ := takeLines_scan hsound.pending (skipLf st.skip_lf read)
      rw [← scan_skip hskip] at hscan
      have hchunk : takeChunk call st chunk =
          .ok ((takeLines st.pending (skipLf st.skip_lf read)).1,
            ⟨st.total_bytes + chunk.length, decoder, (takeLines st.pending (skipLf st.skip_lf read)).2, false,
              endsCr (skipLf st.skip_lf read)⟩) := by
        unfold takeChunk
        rw [if_neg hfits]
        simp only [hpiece, if_neg hpieceNil, hread]
      have hkept : LineState.Sound ⟨st.total_bytes + chunk.length, decoder,
          (takeLines st.pending (skipLf st.skip_lf read)).2, false, endsCr (skipLf st.skip_lf read)⟩ :=
        ⟨hpending, fun hstart => Bool.noConfusion hstart⟩
      have hnext := ih hkept hmore hrest
      unfold linesFrom
      simp only [hchunk, hnext, hsplit, scan_append, hscan, closed]
      simp

/-- The parts of a text with unified line endings are its lines and the rest. -/
theorem splitAt_unify (text : Text) :
    splitAt '\n' (unify text) = (splitLines text).1 ++ [(splitLines text).2] := by
  fun_induction splitLines text with
  | case1 => rfl
  | case2 s ih =>
    show splitAt '\n' ('\n' :: unify s) = _
    rw [splitAt, if_pos rfl, ih]
    rfl
  | case3 c s hne hc ih =>
    have hunify : unify (c :: s) = '\n' :: unify s := by
      rw [unify.eq_3 c s hne]
      rcases hc with rfl | rfl <;> rfl
    rw [hunify, splitAt, if_pos rfl, ih]
    rfl
  | case4 c s hne hc ih =>
    rw [not_or] at hc
    have hunify : unify (c :: s) = c :: unify s := by rw [unify.eq_3 c s hne, if_neg hc.1]
    rw [hunify, splitAt, if_neg hc.2, ih]
    obtain ⟨ls, rest⟩ := splitLines s
    cases ls <;> rfl

/-- The lines that the machine reads of a text are those of the rules. -/
theorem closed_scan (text : Text) :
    closed (scan false [] (removeBom text)) = ruledLines text := by
  have hrest : ∀ rest : Text, (if rest = [] then [] else [rest]) = [rest].filter (· ≠ []) := by
    intro rest
    by_cases h : rest = [] <;> simp [h]
  unfold closed ruledLines
  simp only [scan_splitLines, prepend_nil, splitAt_unify, List.dropLast_concat, List.getLast?_concat, hrest]
  rfl

/-- The lines of a response in UTF-8, in whatever chunks it comes. -/
theorem iterLines_eq (call : Call) {chunks : List (List ℕ)} {text : Text}
    (htext : chunks.flatten = Utf8.encodeAll text) (hbytes : chunks.flatten.length ≤ maxResponseBytes) :
    iterLines call chunks = (ruledLines text, none) := by
  have hsound : LineState.Sound ⟨0, .start, [], true, false⟩ := ⟨List.not_mem_nil, fun _ => rfl⟩
  have hdecode : Utf8.decode .start chunks.flatten = some (text, .start) := by
    rw [htext]
    exact Utf8.decode_encodeAll text
  have hlines := linesFrom_eq call hsound hdecode (by rwa [Nat.zero_add])
  unfold iterLines
  rw [hlines, ← closed_scan]
  rfl

/-! ## The events -/

/-- A line that is not blank goes on with the block, with its data field if it is one. -/
theorem dataFrom_field (call : Call) {line : Text} (hne : line ≠ []) (hknown : known line = true)
    (data lines : List Text) :
    dataFrom call none data (line :: lines) = dataFrom call none (data ++ (dataOf line).toList) lines := by
  conv_lhs => unfold dataFrom
  unfold known at hknown
  unfold dataOf
  rw [if_neg hne]
  by_cases hcomment : line.head? = some ':'
  · simp [hcomment]
  · rw [if_neg hcomment]
    by_cases hdata : (partition line).1 = dataField
    · simp [hcomment, hdata]
    · have hmeta : (partition line).1 ∈ metadataFields := by
        simpa [hne, hcomment, hdata] using hknown
      simp [hcomment, hdata, hmeta]

/-- The loop over lines yields the data of the blocks that end, with the data of the lines before: by
induction on the lines, with the lines of the block so far. -/
theorem dataFrom_eq (call : Call) (lines before : List Text) {blocks : List (List Text)}
    (hblocks : ((lines.takeWhile known).splitOnPPrepend List.isEmpty before).map
      (fun block => block.filterMap dataOf) = blocks) :
    dataFrom call none (before.reverse.filterMap dataOf) lines =
      ((blocks.dropLast.filter (· ≠ [])).map joinData,
        if lines.takeWhile known ≠ lines ∨ blocks.getLast? ≠ some [] then
          some (call.malformed none) else none) := by
  induction lines generalizing before blocks with
  | nil =>
    subst hblocks
    simp [dataFrom, List.splitOnPPrepend_nil]
  | cons line lines ih =>
    by_cases hknown : known line = true
    · rw [List.takeWhile_cons_of_pos hknown, List.splitOnPPrepend_cons_eq_if] at hblocks
      rw [List.takeWhile_cons_of_pos hknown]
      by_cases hblank : line = []
      · -- A blank line ends the block, whose data is dispatched if there is some.
        subst hblank
        rw [if_pos List.isEmpty_nil, List.map_cons] at hblocks
        generalize hdata : before.reverse.filterMap dataOf = data at hblocks ⊢
        have hne : ((lines.takeWhile known).splitOnP List.isEmpty).map
            (fun block => block.filterMap dataOf) ≠ [] := by
          rw [ne_eq, List.map_eq_nil_iff]
          exact List.splitOnP_ne_nil _ _
        have hnext := ih [] rfl
        rw [List.splitOnPPrepend_nil_right, List.reverse_nil, List.filterMap_nil] at hnext
        generalize ((lines.takeWhile known).splitOnP List.isEmpty).map
          (fun block => block.filterMap dataOf) = rest at hblocks hne hnext
        subst hblocks
        obtain ⟨b, bs, rfl⟩ := List.exists_cons_of_ne_nil hne
        have hkept : ([] :: lines.takeWhile known ≠ [] :: lines) ↔ lines.takeWhile known ≠ lines := by simp
        unfold dataFrom
        rw [if_pos rfl]
        by_cases hnone : data = []
        · subst hnone
          rw [if_neg (not_not_intro rfl), hnext]
          simp only [hkept, List.dropLast_cons_cons, List.getLast?_cons_cons]
          rfl
        · rw [if_pos hnone, hnext]
          simp only [hkept, List.dropLast_cons_cons, List.getLast?_cons_cons]
          rw [List.filter_cons_of_pos (by simpa using hnone)]
          rfl
      · have hempty : line.isEmpty = false := by simpa using hblank
        rw [hempty, if_neg Bool.false_ne_true] at hblocks
        have hnext := ih (line :: before) hblocks
        have hfield : [line].filterMap dataOf = (dataOf line).toList := by
          cases hdata : dataOf line <;> simp [hdata]
        rw [List.reverse_cons, List.filterMap_append, hfield] at hnext
        rw [dataFrom_field call hblank hknown, hnext]
        simp
    · -- An unknown field is an error at once.
      have hline : line ≠ [] ∧ line.head? ≠ some ':' ∧ (partition line).1 ≠ dataField ∧
          (partition line).1 ∉ metadataFields := by
        unfold known at hknown
        simpa [not_or, and_assoc] using hknown
      have hmore : ([] : List Text) ≠ line :: lines := (List.cons_ne_nil line lines).symm
      rw [List.takeWhile_cons_of_neg hknown] at hblocks ⊢
      subst hblocks
      unfold dataFrom
      rw [if_neg hline.1, if_neg hline.2.1, if_neg hline.2.2.1, if_pos hline.2.2.2, if_pos (.inl hmore)]
      simp

/-- The events of lines are those of the rules. -/
theorem iterData_lines (call : Call) (lines : List Text) : dataFrom call none [] lines = ruledData call lines := by
  exact dataFrom_eq call lines [] rfl

/-- A response in UTF-8 of at most `MAX_RESPONSE_BYTES` has the same events, or the same error, in whatever
chunks it comes, and they are those of the line rules. -/
theorem chunks_irrelevant (call : Call) (text : Text) (chunks : List (List ℕ))
    (htext : chunks.flatten = Utf8.encodeAll text) (hbytes : chunks.flatten.length ≤ maxResponseBytes) :
    iterData call chunks = iterData call [chunks.flatten] ∧
      iterData call chunks = ruledData call (ruledLines text) := by
  have hrules : ∀ parts : List (List ℕ), parts.flatten = chunks.flatten →
      iterData call parts = ruledData call (ruledLines text) := by
    intro parts hparts
    have hlines := iterLines_eq call (hparts.trans htext) (by rwa [hparts])
    unfold iterData
    rw [hlines]
    exact iterData_lines call (ruledLines text)
  have hwhole : [chunks.flatten].flatten = chunks.flatten := by simp
  exact ⟨(hrules chunks rfl).trans (hrules [chunks.flatten] hwhole).symm, hrules chunks rfl⟩

/-- A call, and a response that is cut inside its byte order mark, inside a character, and between the two
characters of a line ending. -/
theorem chunks_irrelevant_cut :
    iterData ⟨"chat_completion", "c", 1, 200⟩
      [[0xef], [0xbb, 0xbf, 0x64, 0x61, 0x74, 0x61, 0x3a, 0xc3], [], [0xa9, 0x0d], [0x0a, 0x0d, 0x0a]] =
      (["é".toList], none) := by
  have hrules := (chunks_irrelevant ⟨"chat_completion", "c", 1, 200⟩ "\ufeffdata:é\r\n\r\n".toList
    [[0xef], [0xbb, 0xbf, 0x64, 0x61, 0x74, 0x61, 0x3a, 0xc3], [], [0xa9, 0x0d], [0x0a, 0x0d, 0x0a]]
    (by decide) (by decide)).2
  rw [hrules]
  decide

end RickIntelligence.Providers.Sse
