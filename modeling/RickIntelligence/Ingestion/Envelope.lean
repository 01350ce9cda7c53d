import RickIntelligence.Ingestion.ParsedDocument
import RickIntelligence.Lib.WireSound
import RickIntelligence.Lib.Utf8

/-!
# The envelope of a parser process

`_encode_parser_envelope` and `_decode_parser_envelope` of `rick_ingestion/parsers.py`, with the conversions of
a parsed document to its JSON form and back. The numbers with a fraction are of a type whose reading and
writing are given. What a deep recursion would raise is left out: an accepted document nests at most eight
levels of lists and dictionaries.

`envelopes_round_trip` is the claim of the boundary: what the child writes is what the parent reads, with
tuples as lists, and what the parent reads can be written again.
-/

namespace RickIntelligence.Ingestion

open Lib Lib.Wire

/-- What goes over the boundary: a result, which is meant to be a document, or the code of an error; and what
is neither. -/
inductive Envelope (F : Type) where
  | ok (value : Option (ParsedDocument F))
  | error (code : CodePoints)
  | other

namespace Envelope

variable {F : Type}

/-- `MAX_PARSER_RESULT_BYTES`. -/
def maxParserResultBytes : ℕ := 32 * 1024 * 1024

/-- `PARSER_WIRE_VERSION`. -/
def parserWireVersion : ℤ := 1

/-! ## To the wire -/

mutual

/-- `_parser_auxiliary_to_wire`: nothing if it raises `ValueError`. -/
def parserAuxiliaryToWire (fl : Floats F) : Value F → Option (Wire F)
  | .str s => some (.str s)
  | .null => some .null
  | .bool b => some (.bool b)
  | .int n => some (.int n)
  | .float x => if fl.finite x then some (.float x) else none
  | .mapping _ items => (fieldsToWire fl [] items).map .dict
  | .sequence _ items => (itemsToWire fl items).map .list
  | .other => none

/-- The loop over the fields of a mapping, with those that have been converted. -/
def fieldsToWire (fl : Floats F) (wire : List (CodePoints × Wire F)) :
    List (Key F × Value F) → Option (List (CodePoints × Wire F))
  | [] => some wire
  | (.str key, item) :: items =>
    if key ∈ wire.map Prod.fst then none
    else (parserAuxiliaryToWire fl item).bind fun w => fieldsToWire fl (wire ++ [(key, w)]) items
  | _ :: _ => none

/-- The items of a list or a tuple. -/
def itemsToWire (fl : Floats F) : List (Value F) → Option (List (Wire F))
  | [] => some []
  | item :: items =>
    (parserAuxiliaryToWire fl item).bind fun w => (itemsToWire fl items).map fun ws => w :: ws

end

/-- A page as a dictionary. -/
def pageWire (page : Wire F × Wire F) : Wire F :=
  .dict [(codePoints "page_number", page.1), (codePoints "text", page.2)]

/-- The number and the text of each page. -/
def pagesToWire (fl : Floats F) : List (PageItem F) → Option (List (Wire F × Wire F))
  | [] => some []
  | .other :: _ => none
  | .page page_number text :: pages => do
    let number ← Value.jsonForm fl Value.unsorted page_number
    let text ← Value.jsonForm fl Value.unsorted text
    let rest ← pagesToWire fl pages
    return (number, text) :: rest

/-- A document as a dictionary. -/
def documentWire (text : Wire F) (pages : List (Wire F × Wire F)) (sections : List (Wire F))
    (metadata : Wire F) : Wire F :=
  .dict [(codePoints "text", text), (codePoints "pages", .list (pages.map pageWire)),
    (codePoints "sections", .list sections), (codePoints "metadata", metadata)]

/-- The elements of `pages`. -/
def pageItems : Pages F → List (PageItem F)
  | .sequence _ items => items
  | .other => []

/-- The elements of `sections`. -/
def sectionItems : Value F → List (Value F)
  | .sequence _ items => items
  | _ => []

/-- `_parsed_document_to_wire`: a `ParseError` of the validation, or nothing if it raises `ValueError`. -/
def parsedDocumentToWire (fl : Floats F) (value : Option (ParsedDocument F)) :
    Except ParseError (Option (Wire F)) :=
  (ParsedDocument.validateParsedDocument fl value).map fun document => do
    let text ← Value.jsonForm fl Value.unsorted document.text
    let pages ← pagesToWire fl (pageItems document.pages)
    let sections ← itemsToWire fl (sectionItems document.sections)
    let metadata ← parserAuxiliaryToWire fl document.metadata
    return documentWire text pages sections metadata

/-- An envelope with a status, and a document or a code. -/
def envelopeWire (status field : String) (w : Wire F) : Wire F :=
  .dict [(codePoints "version", .int parserWireVersion), (codePoints "status", .str (codePoints status)),
    (codePoints field, w)]

/-- The body of an envelope. -/
def envelopeBody (fl : Floats F) : Envelope F → Except ParseError (Option (Wire F))
  | .ok value => (parsedDocumentToWire fl value).map fun wire => wire.map (envelopeWire "ok" "document")
  | .error code => .ok (if code.length ≤ 64 then some (envelopeWire "error" "code" (.str code)) else none)
  | .other => .ok none

/-- The octets of a body: `json.dumps`, and `encode("ascii")`. -/
def envelopeText (fl : Floats F) (envelope : Envelope F) : Except ParseError (Option (List ℕ)) :=
  (envelopeBody fl envelope).map fun body =>
    (body.bind (dumps fl true)).bind fun payload => if payload.all (· < 0x80) then some payload else none

/-- `_encode_parser_envelope`. -/
def encodeParserEnvelope (fl : Floats F) (envelope : Envelope F) : Except ParseError (Option (List ℕ)) :=
  (envelopeText fl envelope).map fun payload =>
    payload.bind fun payload => if maxParserResultBytes < payload.length then none else some payload

/-! ## From the wire -/

/-- The members of a dictionary have just these names. -/
def hasNames (members : List (CodePoints × Wire F)) (names : List CodePoints) : Bool :=
  members.all (fun m => names.contains m.1) && names.all fun name => (members.map Prod.fst).contains name

/-- A page, with its fields as they are. -/
def wireToPage : Wire F → Option (PageItem F)
  | .dict members =>
    if hasNames members [codePoints "page_number", codePoints "text"] then do
      let page_number ← members.lookup (codePoints "page_number")
      let text ← members.lookup (codePoints "text")
      return .page (Value.ofWire page_number) (Value.ofWire text)
    else none
  | _ => none

/-- The loop over the pages. -/
def wireToPages : List (Wire F) → Option (List (PageItem F))
  | [] => some []
  | w :: ws => (wireToPage w).bind fun page => (wireToPages ws).map fun pages => page :: pages

/-- The items of a list. -/
def list? : Wire F → Option (List (Wire F))
  | .list items => some items
  | _ => none

/-- `_wire_to_parsed_document`: nothing if it raises `ValueError`. -/
def wireToParsedDocument : Wire F → Option (ParsedDocument F)
  | .dict members =>
    if hasNames members [codePoints "text", codePoints "pages", codePoints "sections", codePoints "metadata"]
    then do
      let raw_pages ← (members.lookup (codePoints "pages")).bind list?
      let raw_sections ← (members.lookup (codePoints "sections")).bind list?
      let pages ← wireToPages raw_pages
      let text ← members.lookup (codePoints "text")
      let metadata ← members.lookup (codePoints "metadata")
      return ⟨Value.ofWire text, .sequence false pages, .sequence false (raw_sections.map Value.ofWire),
        Value.ofWire metadata⟩
    else none
  | _ => none

/-- A value that is equal to the version: `1`, `True` and `1.0`. -/
def isVersion (fl : Floats F) : Wire F → Bool
  | .int n => n == parserWireVersion
  | .bool b => b
  | .float x => fl.equals x parserWireVersion
  | _ => false

/-- A value that is equal to a text. -/
def isText (s : String) : Wire F → Bool
  | .str t => t == codePoints s
  | _ => false

/-- The envelope of a document that was read. -/
def readEnvelope (fl : Floats F) : Wire F → Option (Envelope F)
  | .dict members =>
    if !((members.lookup (codePoints "version")).any (isVersion fl)) then none
    else if (members.lookup (codePoints "status")).any (isText "error") then
      if !hasNames members [codePoints "version", codePoints "status", codePoints "code"] then none
      else match members.lookup (codePoints "code") with
        | some (.str code) => some (.error code)
        | _ => none
    else if (members.lookup (codePoints "status")).any (isText "ok") then
      if !hasNames members [codePoints "version", codePoints "status", codePoints "document"] then none
      else ((members.lookup (codePoints "document")).bind wireToParsedDocument).map fun d => .ok (some d)
    else none
  | _ => none

/-- The hooks of the reader: constants and repeated names are refused. -/
def parserHooks : Hooks F := ⟨fun _ => none, rejectDuplicates⟩

/-- `_decode_parser_envelope`: nothing if it raises `ValueError`. -/
def decodeParserEnvelope (fl : Floats F) (payload : List ℕ) : Option (Envelope F) :=
  if maxParserResultBytes < payload.length then none
  else do
    let text ← Utf8.decodeText payload
    let envelope ← loads fl parserHooks text
    readEnvelope fl envelope

/-! ## What is converted -/

section Converted

variable {fl : Floats F}

/-- A text without halves of surrogate pairs. -/
def isClean (s : CodePoints) : Bool := s.all fun c => decide c.isValidChar

/-- A text without halves of surrogate pairs can be spelled. -/
theorem spelled_of_isClean {s : CodePoints} (h : isClean s = true) : spelled true s = true := by
  unfold isClean at h
  have hpoints : ∀ c ∈ s, isHigh c = false ∧ isLow c = false ∧ c < 0x110000 := by
    intro c hc
    exact not_surrogate (of_decide_eq_true (List.all_eq_true.mp h c hc))
  have hrange : s.all (· < 0x110000) = true := by
    rw [List.all_eq_true]
    intro c hc
    exact decide_eq_true (hpoints c hc).2.2
  have hpair : noPair s = true := by
    clear h hrange
    induction s with
    | nil => rfl
    | cons c s ih =>
      refine noPair_cons (ih fun d hd => hpoints d (List.mem_cons_of_mem c hd)) ?_
      intro l _
      rw [(hpoints c (List.mem_cons_self ..)).1, Bool.false_and]
  unfold spelled
  rw [hrange, hpair]
  rfl

/-- What a conversion gives: the value as it is read, finite numbers, and texts that can be spelled if those of
the value have no surrogates. -/
structure Converted (fl : Floats F) (v : Value F) (w : Wire F) : Prop where
  value : Value.ofWire w = v.asRead
  finite : w.all (finiteNumbers fl) = true
  texts : v.allTexts isClean = true → w.all (wellSpelled true) = true

variable {items : List (Value F)} {ws : List (Wire F)}

/-- The items of a list are converted one by one. -/
theorem itemsToWire_converted (h : ∀ v ∈ items, ∀ w, parserAuxiliaryToWire fl v = some w → Converted fl v w)
    (hws : itemsToWire fl items = some ws) : List.Forall₂ (Converted fl) items ws := by
  induction items generalizing ws with
  | nil =>
    cases hws
    exact .nil
  | cons v items ih =>
    rw [itemsToWire] at hws
    obtain ⟨w, hw, hrest⟩ := Option.bind_eq_some_iff.mp hws
    obtain ⟨ws', hws', rfl⟩ := Option.map_eq_some_iff.mp hrest
    exact .cons (h v (List.mem_cons_self ..) w hw) (ih (fun u hu => h u (List.mem_cons_of_mem v hu)) hws')

/-- The items of a list that is converted. -/
theorem converted_list (h : List.Forall₂ (Converted fl) items ws) :
    ws.map Value.ofWire = items.map Value.asRead ∧ (∀ w ∈ ws, w.all (finiteNumbers fl) = true) ∧
      ((∀ v ∈ items, v.allTexts isClean = true) → ∀ w ∈ ws, w.all (wellSpelled true) = true) := by
  refine ⟨?_, ?_, ?_⟩
  · induction h with
    | nil => rfl
    | cons hvw _ ih => rw [List.map_cons, List.map_cons, hvw.value, ih]
  · intro w hw
    obtain ⟨v, -, hvw⟩ := related_right h hw
    exact hvw.finite
  · intro hclean w hw
    obtain ⟨v, hv, hvw⟩ := related_right h hw
    exact hvw.texts (hclean v hv)

/-- A field is converted: its key is a text. -/
def ConvertedField (fl : Floats F) (field : Key F × Value F) (m : CodePoints × Wire F) : Prop :=
  field.1 = .str m.1 ∧ Converted fl field.2 m.2

/-- The fields of a mapping are converted one by one, and their names are different. -/
theorem fieldsToWire_converted {items : List (Key F × Value F)}
    (h : ∀ m ∈ items, ∀ w, parserAuxiliaryToWire fl m.2 = some w → Converted fl m.2 w)
    {before ms : List (CodePoints × Wire F)} (hms : fieldsToWire fl before items = some ms)
    (hnodup : (before.map Prod.fst).Nodup) :
    ∃ new, ms = before ++ new ∧ List.Forall₂ (ConvertedField fl) items new ∧ (ms.map Prod.fst).Nodup := by
  induction items generalizing before with
  | nil =>
    cases hms
    exact ⟨[], by rw [List.append_nil], .nil, hnodup⟩
  | cons m items ih =>
    obtain ⟨key, v⟩ := m
    cases key with
    | str key =>
      rw [fieldsToWire] at hms
      split at hms
      · cases hms
      · next hnew =>
        obtain ⟨w, hw, hrest⟩ := Option.bind_eq_some_iff.mp hms
        have hnodup' : ((before ++ [(key, w)]).map Prod.fst).Nodup := by
          rw [List.map_append, List.map_singleton]
          refine List.nodup_append.mpr ⟨hnodup, List.nodup_singleton key, ?_⟩
          intro name hname key' hkey' heq
          rw [heq, List.mem_singleton.mp hkey'] at hname
          exact hnew hname
        obtain ⟨new, rfl, hnew, hall⟩ := ih (fun u hu => h u (List.mem_cons_of_mem _ hu)) hrest hnodup'
        refine ⟨(key, w) :: new, ?_, .cons ⟨rfl, h (.str key, v) (List.mem_cons_self ..) w hw⟩ hnew, hall⟩
        rw [List.append_assoc, List.singleton_append]
    | _ => cases hms

/-- What is converted. -/
theorem parserAuxiliaryToWire_converted {v : Value F} {w : Wire F}
    (h : parserAuxiliaryToWire fl v = some w) : Converted fl v w := by
  induction v generalizing w with
  | null =>
    cases h
    exact ⟨rfl, rfl, fun _ => rfl⟩
  | bool b =>
    cases h
    exact ⟨rfl, rfl, fun _ => rfl⟩
  | int n =>
    cases h
    exact ⟨rfl, rfl, fun _ => rfl⟩
  | float x =>
    rw [parserAuxiliaryToWire] at h
    split at h
    · next hfinite =>
      cases h
      exact ⟨rfl, hfinite, fun _ => rfl⟩
    · cases h
  | str s =>
    cases h
    exact ⟨rfl, rfl, fun hclean => spelled_of_isClean hclean⟩
  | other => cases h
  | sequence isTuple items ih =>
    rw [parserAuxiliaryToWire] at h
    obtain ⟨ws, hws, rfl⟩ := Option.map_eq_some_iff.mp h
    obtain ⟨hvalue, hfinite, htexts⟩ := converted_list (itemsToWire_converted (fun v hv w => ih v hv) hws)
    refine ⟨?_, all_list.mpr ⟨rfl, hfinite⟩, ?_⟩
    · rw [Value.ofWire, Value.ofItems_eq, Value.asRead, Value.itemsAsRead_eq, hvalue]
    · intro hclean
      rw [Value.allTexts, Value.itemsTexts_eq_true] at hclean
      exact all_list.mpr ⟨rfl, htexts hclean⟩
  | mapping isDict items ih =>
    rw [parserAuxiliaryToWire] at h
    obtain ⟨ms, hms, rfl⟩ := Option.map_eq_some_iff.mp h
    obtain ⟨new, hnew, hfields, hnodup⟩ :=
      fieldsToWire_converted (fun m hm w => ih m hm) hms List.nodup_nil
    rw [List.nil_append] at hnew
    subst hnew
    refine ⟨?_, all_dict.mpr ⟨rfl, ?_⟩, ?_⟩
    · rw [Value.ofWire, Value.ofMembers_eq, Value.asRead, Value.fieldsAsRead_eq]
      congr 1
      clear ih hms hnodup h
      induction hfields with
      | nil => rfl
      | cons hfield _ ih =>
        rw [List.map_cons, List.map_cons, ih, ← hfield.1, ← hfield.2.value]
    · intro m hm
      obtain ⟨field, -, hfield⟩ := related_right hfields hm
      exact hfield.2.finite
    · intro hclean
      rw [Value.allTexts, Value.fieldsTexts_eq_true] at hclean
      refine all_dict.mpr ⟨?_, ?_⟩
      · show ((ms.map Prod.fst).all (spelled true) && decide (ms.map Prod.fst).Nodup) = true
        rw [Bool.and_eq_true, decide_eq_true_eq, List.all_eq_true]
        refine ⟨?_, hnodup⟩
        intro name hname
        obtain ⟨m, hm, rfl⟩ := List.mem_map.mp hname
        obtain ⟨field, hmem, hfield⟩ := related_right hfields hm
        exact spelled_of_isClean ((hclean field hmem).1 m.1 hfield.1)
      · intro m hm
        obtain ⟨field, hmem, hfield⟩ := related_right hfields hm
        exact hfield.2.texts (hclean field hmem).2

end Converted

/-! ## What is validated -/

section Validated

variable {fl : Floats F}

/-- A document that is accepted: its text and pages, its sections and the fields of its metadata. -/
structure Accepted (fl : Floats F) (document : ParsedDocument F) (text : CodePoints)
    (pages : List (ℤ × CodePoints)) (sections : List (Value F)) (fields : List (Key F × Value F)) : Prop where
  text_eq : document.text = .str text
  pages_eq : ∃ isTuple, document.pages = .sequence isTuple (pages.map fun p => .page (.int p.1) (.str p.2))
  sections_eq : ∃ isTuple, document.sections = .sequence isTuple sections
  metadata_eq : ∃ isDict, document.metadata = .mapping isDict fields
  each : ∃ b b', ParsedDocument.validateEach fl b sections = .ok b'
  metadata : ∃ b b', ParsedDocument.validateParserAuxiliary fl 0 b document.metadata = .ok b'

/-- Pages that are accepted have numbers and texts. -/
theorem validatePages_ok {page_chars : ℕ} {items : List (PageItem F)}
    (h : ParsedDocument.validatePages page_chars items = .ok ()) :
    ∃ pages : List (ℤ × CodePoints), items = pages.map fun p => .page (.int p.1) (.str p.2) := by
  induction items generalizing page_chars with
  | nil => exact ⟨[], rfl⟩
  | cons item items ih =>
    cases item with
    | other => cases h
    | page page_number text =>
      rw [ParsedDocument.validatePages.eq_def] at h
      simp only at h
      split at h
      · cases h
      · next hnumber =>
        split at h
        · next s =>
          split at h
          · cases h
          · obtain ⟨pages, rfl⟩ := ih h
            cases page_number with
            | int n => exact ⟨(n, s) :: pages, rfl⟩
            | _ => exact absurd rfl hnumber
        · cases h

/-- A document that is accepted has the form of one. -/
theorem validateParsedDocument_ok {document : ParsedDocument F}
    (h : ParsedDocument.validateParsedDocument fl (some document) = .ok document) :
    ∃ text pages sections fields, Accepted fl document text pages sections fields := by
  unfold ParsedDocument.validateParsedDocument at h
  simp only at h
  obtain ⟨_, htext, h⟩ := except_bind_ok.mp h
  obtain ⟨_, hpages, h⟩ := except_bind_ok.mp h
  obtain ⟨budget, hsections, h⟩ := except_bind_ok.mp h
  obtain ⟨budget', hmetadata, -⟩ := except_bind_ok.mp h
  obtain ⟨text, pages, sections, metadata⟩ := document
  simp only at htext hpages hsections hmetadata
  cases text with
  | str s =>
    cases pages with
    | other => cases hpages
    | sequence isTuple items =>
      simp only [ParsedDocument.validateAllPages] at hpages
      split at hpages
      · cases hpages
      · obtain ⟨pages, rfl⟩ := validatePages_ok hpages
        cases sections with
        | sequence isTuple' sections =>
          simp only [ParsedDocument.validateSections] at hsections
          split at hsections
          · cases hsections
          · cases metadata with
            | mapping isDict fields =>
              exact ⟨s, pages, sections, fields, rfl, ⟨isTuple, rfl⟩, ⟨isTuple', rfl⟩, ⟨isDict, rfl⟩,
                ⟨_, _, hsections⟩, ⟨_, _, hmetadata⟩⟩
            | _ => cases hmetadata
        | _ => cases hsections
  | _ => cases htext

variable {depth : ℕ} {b b' : ParsedDocument.Budget}

/-- The items of a list that is validated have been validated. -/
theorem validateItems_ok {items : List (Value F)} (h : ParsedDocument.validateItems fl depth b items = .ok b') :
    ∀ v ∈ items, ∃ c c', ParsedDocument.validateParserAuxiliary fl (depth + 1) c v = .ok c' := by
  induction items generalizing b with
  | nil => simp
  | cons v items ih =>
    rw [ParsedDocument.validateItems] at h
    obtain ⟨c, hv, hrest⟩ := except_bind_ok.mp h
    intro u hu
    rcases List.mem_cons.mp hu with rfl | hu
    · exact ⟨b, c, hv⟩
    · exact ih hrest u hu

/-- The values of a mapping that is validated have been validated. -/
theorem validateFields_ok {items : List (Key F × Value F)}
    (h : ParsedDocument.validateFields fl depth b items = .ok b') :
    ∀ m ∈ items, ∃ c c', ParsedDocument.validateParserAuxiliary fl (depth + 1) c m.2 = .ok c' := by
  induction items generalizing b with
  | nil => simp
  | cons m items ih =>
    obtain ⟨key, v⟩ := m
    rw [ParsedDocument.validateFields] at h
    obtain ⟨c, -, hrest⟩ := except_bind_ok.mp h
    obtain ⟨c', hv, hrest⟩ := except_bind_ok.mp hrest
    intro u hu
    rcases List.mem_cons.mp hu with rfl | hu
    · exact ⟨c, c', hv⟩
    · exact ih hrest u hu

/-- Sections that are validated have been validated one by one. -/
theorem validateEach_ok {sections : List (Value F)} (h : ParsedDocument.validateEach fl b sections = .ok b') :
    ∀ v ∈ sections, ∃ c c', ParsedDocument.validateParserAuxiliary fl 0 c v = .ok c' := by
  induction sections generalizing b with
  | nil => simp
  | cons v sections ih =>
    rw [ParsedDocument.validateEach] at h
    obtain ⟨c, hv, hrest⟩ := except_bind_ok.mp h
    intro u hu
    rcases List.mem_cons.mp hu with rfl | hu
    · exact ⟨b, c, hv⟩
    · exact ih hrest u hu

/-- What was read and is validated has finite numbers. -/
theorem finite_of_validated {w : Wire F}
    (h : ParsedDocument.validateParserAuxiliary fl depth b (Value.ofWire w) = .ok b') :
    w.all (finiteNumbers fl) = true := by
  induction w generalizing depth b b' with
  | float x =>
    rw [Value.ofWire, ParsedDocument.validateParserAuxiliary] at h
    obtain ⟨_, -, h⟩ := except_bind_ok.mp h
    split at h
    · next hfinite => exact hfinite
    · cases h
  | list items ih =>
    rw [Value.ofWire, Value.ofItems_eq, ParsedDocument.validateParserAuxiliary] at h
    obtain ⟨_, -, h⟩ := except_bind_ok.mp h
    split at h
    · cases h
    · have hitems := validateItems_ok h
      refine all_list.mpr ⟨rfl, ?_⟩
      intro w hw
      obtain ⟨c, c', hvalid⟩ := hitems (Value.ofWire w) (List.mem_map_of_mem hw)
      exact ih w hw hvalid
  | dict members ih =>
    rw [Value.ofWire, Value.ofMembers_eq, ParsedDocument.validateParserAuxiliary] at h
    obtain ⟨_, -, h⟩ := except_bind_ok.mp h
    split at h
    · cases h
    · have hfields := validateFields_ok h
      refine all_dict.mpr ⟨rfl, ?_⟩
      intro m hm
      obtain ⟨c, c', hvalid⟩ := hfields (.str m.1, Value.ofWire m.2) (List.mem_map.mpr ⟨m, hm, rfl⟩)
      exact ih m hm hvalid
  | _ => rfl

/-- Items that are converted to what they were read from. -/
theorem itemsToWire_ofWire {ws : List (Wire F)}
    (h : ∀ w ∈ ws, parserAuxiliaryToWire fl (Value.ofWire w) = some w) :
    itemsToWire fl (ws.map Value.ofWire) = some ws := by
  induction ws with
  | nil => rfl
  | cons w ws ih =>
    rw [List.map_cons, itemsToWire, h w (List.mem_cons_self ..), Option.bind_some,
      ih fun u hu => h u (List.mem_cons_of_mem w hu)]
    rfl

/-- Fields with different names are converted to what they were read from. -/
theorem fieldsToWire_ofWire {members before : List (CodePoints × Wire F)}
    (h : ∀ m ∈ members, parserAuxiliaryToWire fl (Value.ofWire m.2) = some m.2)
    (hnodup : ((before ++ members).map Prod.fst).Nodup) :
    fieldsToWire fl before (members.map fun m => (.str m.1, Value.ofWire m.2)) = some (before ++ members) := by
  induction members generalizing before with
  | nil => rw [List.map_nil, fieldsToWire, List.append_nil]
  | cons m members ih =>
    obtain ⟨name, w⟩ := m
    have hsplit : before ++ (name, w) :: members = before ++ [(name, w)] ++ members := by
      rw [List.append_assoc, List.singleton_append]
    have hnew : name ∉ before.map Prod.fst := by
      rw [List.map_append, List.nodup_append] at hnodup
      intro hmem
      exact hnodup.2.2 name hmem name (by simp) rfl
    rw [List.map_cons, fieldsToWire, if_neg hnew, h (name, w) (List.mem_cons_self ..), Option.bind_some,
      hsplit]
    exact ih (fun u hu => h u (List.mem_cons_of_mem _ hu)) (hsplit ▸ hnodup)

/-- What was read, with finite numbers, is converted to what it was read from. -/
theorem parserAuxiliaryToWire_ofWire {w : Wire F} (hread : w.all readBack = true)
    (hfinite : w.all (finiteNumbers fl) = true) : parserAuxiliaryToWire fl (Value.ofWire w) = some w := by
  induction w with
  | float x =>
    rw [Value.ofWire, parserAuxiliaryToWire]
    exact if_pos hfinite
  | list items ih =>
    have hitems := (all_list.mp hread).2
    have hitems' := (all_list.mp hfinite).2
    rw [Value.ofWire, Value.ofItems_eq, parserAuxiliaryToWire,
      itemsToWire_ofWire fun w hw => ih w hw (hitems w hw) (hitems' w hw)]
    rfl
  | dict members ih =>
    obtain ⟨hself, hmembers⟩ := all_dict.mp hread
    have hmembers' := (all_dict.mp hfinite).2
    have hnodup : (members.map Prod.fst).Nodup := by
      have hnames : ((members.map Prod.fst).all (spelled true) && decide (members.map Prod.fst).Nodup) = true :=
        hself
      rw [Bool.and_eq_true, decide_eq_true_eq] at hnames
      exact hnames.2
    rw [Value.ofWire, Value.ofMembers_eq, parserAuxiliaryToWire,
      fieldsToWire_ofWire (fun m hm => ih m hm (hmembers m hm) (hmembers' m hm)) (by simpa using hnodup)]
    rfl
  | _ => rfl

end Validated

/-! ## What is decoded -/

section Decoded

variable {fl : Floats F}

/-- The document of some wires. -/
def documentOf (text : Wire F) (pages : List (Wire F × Wire F)) (sections : List (Wire F))
    (metadata : Wire F) : ParsedDocument F where
  text := Value.ofWire text
  pages := .sequence false (pages.map fun p => .page (Value.ofWire p.1) (Value.ofWire p.2))
  sections := .sequence false (sections.map Value.ofWire)
  metadata := Value.ofWire metadata

/-- Pages that were written are read. -/
theorem wireToPages_pageWire (pages : List (Wire F × Wire F)) :
    wireToPages (pages.map pageWire) =
      some (pages.map fun p => .page (Value.ofWire p.1) (Value.ofWire p.2)) := by
  induction pages with
  | nil => rfl
  | cons p pages ih =>
    have hpage : wireToPage (pageWire p) = some (.page (Value.ofWire p.1) (Value.ofWire p.2)) := rfl
    rw [List.map_cons, wireToPages, hpage, Option.bind_some, ih]
    rfl

/-- A document that was written is read. -/
theorem wireToParsedDocument_documentWire (text : Wire F) (pages : List (Wire F × Wire F))
    (sections : List (Wire F)) (metadata : Wire F) :
    wireToParsedDocument (documentWire text pages sections metadata) =
      some (documentOf text pages sections metadata) := by
  show (wireToPages (pages.map pageWire)).bind _ = _
  rw [wireToPages_pageWire]
  rfl

/-- The envelope of a document is read. -/
theorem readEnvelope_document (text : Wire F) (pages : List (Wire F × Wire F)) (sections : List (Wire F))
    (metadata : Wire F) :
    readEnvelope fl (envelopeWire "ok" "document" (documentWire text pages sections metadata)) =
      some (.ok (some (documentOf text pages sections metadata))) := by
  show ((wireToParsedDocument (documentWire text pages sections metadata)).map _) = _
  rw [wireToParsedDocument_documentWire]
  rfl

/-- The envelope of an error is read. -/
theorem readEnvelope_error (code : CodePoints) :
    readEnvelope fl (envelopeWire "error" "code" (.str code)) = some (.error code) := rfl

variable {body w : Wire F} {envelope : Envelope F} {payload : List ℕ} {p : Wire F → Bool}
  {document : ParsedDocument F}

/-- The body of an envelope that is written and sound is what is decoded. -/
theorem decode_render (h : body.all (sound fl true) = true)
    (hlength : (render fl true body).length ≤ maxParserResultBytes) :
    decodeParserEnvelope fl (render fl true body) = readEnvelope fl body := by
  have hwritable : body.all (writable fl) = true :=
    all_imp (fun w hw => (Bool.and_eq_true _ _ ▸ hw).1) h
  unfold decodeParserEnvelope
  rw [if_neg (Nat.not_lt.mpr hlength), Utf8.decodeText_ascii (render_ascii hwritable)]
  have hkeeps : Hooks.KeepsDistinct (parserHooks : Hooks F) := rejectDuplicates_keeps _
  show (loads fl parserHooks (render fl true body)).bind _ = _
  rw [loads_render hkeeps h, Option.bind_some]

/-- The text of a body whose numbers can be written. -/
theorem envelopeText_of_body (hbody : envelopeBody fl envelope = .ok (some body))
    (h : body.all (writable fl) = true) :
    envelopeText fl envelope = .ok (some (render fl true body)) := by
  have hascii : (render fl true body).all (· < 0x80) = true := by
    rw [List.all_eq_true]
    intro c hc
    exact decide_eq_true (render_ascii h c hc)
  unfold envelopeText
  rw [hbody]
  show Except.ok ((dumps fl true body).bind _) = _
  rw [dumps_eq_some.mpr ⟨h, rfl⟩, Option.bind_some, if_pos hascii]

/-- An envelope that is encoded: its body, whose numbers can be written. -/
theorem encodeParserEnvelope_some (h : encodeParserEnvelope fl envelope = .ok (some payload)) :
    ∃ body, envelopeBody fl envelope = .ok (some body) ∧ body.all (writable fl) = true ∧
      render fl true body = payload ∧ payload.length ≤ maxParserResultBytes := by
  unfold encodeParserEnvelope envelopeText at h
  obtain ⟨text, htext, h⟩ := except_map_ok.mp h
  obtain ⟨body, hbody, rfl⟩ := except_map_ok.mp htext
  obtain ⟨text, htext, hlimit⟩ := Option.bind_eq_some_iff.mp h
  obtain ⟨dumped, hdumped, hascii⟩ := Option.bind_eq_some_iff.mp htext
  obtain ⟨wire, hwire, hdumps⟩ := Option.bind_eq_some_iff.mp hdumped
  obtain ⟨hwritable, hrender⟩ := dumps_eq_some.mp hdumps
  rw [hwire] at hbody
  split at hascii
  · cases hascii
    split at hlimit
    · cases hlimit
    · next hlength =>
      cases hlimit
      exact ⟨wire, hbody, hwritable, hrender, Nat.le_of_not_lt hlength⟩
  · cases hascii

/-- The names of the dictionaries in the envelope of a document. -/
def envelopeNames : List (List CodePoints) :=
  [[codePoints "version", codePoints "status", codePoints "document"],
    [codePoints "text", codePoints "pages", codePoints "sections", codePoints "metadata"],
    [codePoints "page_number", codePoints "text"]]

/-- A check that the wires of a document pass, and the dictionaries and lists around them, is passed by the
envelope of the document. -/
theorem all_envelope {text metadata : Wire F} {pages : List (Wire F × Wire F)} {sections : List (Wire F)}
    (hversion : p (.int parserWireVersion) = true) (hstatus : p (.str (codePoints "ok")) = true)
    (hlist : ∀ items, p (.list items) = true)
    (hdict : ∀ members, members.map Prod.fst ∈ envelopeNames → p (.dict members) = true) (htext : text.all p = true)
    (hpages : ∀ q ∈ pages, q.1.all p = true ∧ q.2.all p = true) (hsections : ∀ s ∈ sections, s.all p = true)
    (hmetadata : metadata.all p = true) :
    (envelopeWire "ok" "document" (documentWire text pages sections metadata)).all p = true := by
  have hpage : ∀ w ∈ pages.map pageWire, w.all p = true := by
    intro w hw
    obtain ⟨q, hq, rfl⟩ := List.mem_map.mp hw
    refine all_dict.mpr ⟨hdict _ ?_, ?_⟩
    · exact List.mem_cons_of_mem _ (List.mem_cons_of_mem _ (List.mem_cons_self ..))
    · simp only [List.forall_mem_cons, List.not_mem_nil, false_implies, implies_true, and_true]
      exact hpages q hq
  have hdocument : (documentWire text pages sections metadata).all p = true := by
    refine all_dict.mpr ⟨hdict _ ?_, ?_⟩
    · exact List.mem_cons_of_mem _ (List.mem_cons_self ..)
    · simp only [List.forall_mem_cons, List.not_mem_nil, false_implies, implies_true, and_true]
      exact ⟨htext, all_list.mpr ⟨hlist _, hpage⟩, all_list.mpr ⟨hlist _, hsections⟩, hmetadata⟩
  refine all_dict.mpr ⟨hdict _ (List.mem_cons_self ..), ?_⟩
  simp only [List.forall_mem_cons, List.not_mem_nil, false_implies, implies_true, and_true]
  exact ⟨hversion, hstatus, hdocument⟩

/-- The value of a name in a dictionary is one of its documents. -/
theorem lookup_all {members : List (CodePoints × Wire F)} (h : (Wire.dict members).all p = true) {name : CodePoints}
    (hw : members.lookup name = some w) : w.all p = true := by
  obtain ⟨before, after, heq, -⟩ := List.lookup_eq_some_iff.mp hw
  have hmem : (name, w) ∈ members := by
    rw [heq]
    simp
  exact (all_dict.mp h).2 _ hmem

/-- Pages that are read have numbers and texts that were read. -/
theorem wireToPages_some {ws : List (Wire F)} (h : ∀ w ∈ ws, w.all p = true) {items : List (PageItem F)}
    (hread : wireToPages ws = some items) :
    ∃ pages : List (Wire F × Wire F),
      items = pages.map (fun q => .page (Value.ofWire q.1) (Value.ofWire q.2)) ∧
        ∀ q ∈ pages, q.1.all p = true ∧ q.2.all p = true := by
  induction ws generalizing items with
  | nil =>
    cases hread
    exact ⟨[], rfl, by simp⟩
  | cons w ws ih =>
    rw [wireToPages] at hread
    obtain ⟨item, hitem, hread⟩ := Option.bind_eq_some_iff.mp hread
    obtain ⟨items', hitems, rfl⟩ := Option.map_eq_some_iff.mp hread
    obtain ⟨pages, rfl, hpages⟩ := ih (fun u hu => h u (List.mem_cons_of_mem w hu)) hitems
    have hw := h w (List.mem_cons_self ..)
    cases w with
    | dict members =>
      rw [wireToPage] at hitem
      split at hitem
      · obtain ⟨number, hnumber, hitem⟩ := Option.bind_eq_some_iff.mp hitem
        obtain ⟨text, htext, hitem⟩ := Option.bind_eq_some_iff.mp hitem
        cases hitem
        refine ⟨(number, text) :: pages, rfl, ?_⟩
        intro q hq
        rcases List.mem_cons.mp hq with rfl | hq
        · exact ⟨lookup_all hw hnumber, lookup_all hw htext⟩
        · exact hpages q hq
      · cases hitem
    | _ => cases hitem

/-- A list that was read. -/
theorem list?_some {w : Option (Wire F)} {items : List (Wire F)} (h : w.bind list? = some items) :
    w = some (.list items) := by
  obtain ⟨v, rfl, hv⟩ := Option.bind_eq_some_iff.mp h
  cases v with
  | list items' =>
    cases hv
    rfl
  | _ => cases hv

/-- A document that is read is that of wires that were read. -/
theorem wireToParsedDocument_some (h : w.all p = true) (hread : wireToParsedDocument w = some document) :
    ∃ text pages sections metadata, document = documentOf text pages sections metadata ∧
      text.all p = true ∧ (∀ q ∈ pages, q.1.all p = true ∧ q.2.all p = true) ∧
      (∀ s ∈ sections, s.all p = true) ∧ metadata.all p = true := by
  cases w with
  | dict members =>
    rw [wireToParsedDocument] at hread
    split at hread
    · obtain ⟨raw_pages, hpages, hread⟩ := Option.bind_eq_some_iff.mp hread
      obtain ⟨sections, hsections, hread⟩ := Option.bind_eq_some_iff.mp hread
      obtain ⟨items, hitems, hread⟩ := Option.bind_eq_some_iff.mp hread
      obtain ⟨text, htext, hread⟩ := Option.bind_eq_some_iff.mp hread
      obtain ⟨metadata, hmetadata, hread⟩ := Option.bind_eq_some_iff.mp hread
      cases hread
      have hraw := (all_list.mp (lookup_all h (list?_some hpages))).2
      obtain ⟨pages, rfl, hall⟩ := wireToPages_some hraw hitems
      exact ⟨text, pages, sections, metadata, rfl, lookup_all h htext, hall,
        (all_list.mp (lookup_all h (list?_some hsections))).2, lookup_all h hmetadata⟩
    · cases hread
  | _ => cases hread

/-- A document that is decoded is that of wires that can be spelled and have no whole number that is too
long. -/
theorem decodeParserEnvelope_ok (h : decodeParserEnvelope fl payload = some (.ok (some document))) :
    ∃ text pages sections metadata, document = documentOf text pages sections metadata ∧
      text.all readBack = true ∧ (∀ q ∈ pages, q.1.all readBack = true ∧ q.2.all readBack = true) ∧
      (∀ s ∈ sections, s.all readBack = true) ∧ metadata.all readBack = true := by
  unfold decodeParserEnvelope at h
  split at h
  · cases h
  · obtain ⟨text, htext, h⟩ := Option.bind_eq_some_iff.mp h
    obtain ⟨envelope, henvelope, h⟩ := Option.bind_eq_some_iff.mp h
    have hgives : Hooks.GivesDistinct (parserHooks : Hooks F) := rejectDuplicates_distinct _
    have hread := loads_readBack hgives (Utf8.decodeText_valid htext) henvelope
    cases envelope with
    | dict members =>
      rw [readEnvelope] at h
      split at h
      · cases h
      · split at h
        · split at h
          · cases h
          · split at h
            · cases h
            · cases h
        · split at h
          · split at h
            · cases h
            · obtain ⟨d, hd, heq⟩ := Option.map_eq_some_iff.mp h
              cases heq
              obtain ⟨w, hw, hdocument⟩ := Option.bind_eq_some_iff.mp hd
              exact wireToParsedDocument_some (lookup_all hread hw) hdocument
          · cases h
    | _ => cases h

end Decoded

/-! ## The boundary is lossless -/

section RoundTrip

variable {fl : Floats F}

/-- The number and the text of a page as wires. -/
def pageWires (p : ℤ × CodePoints) : Wire F × Wire F := (.int p.1, .str p.2)

/-- Pages with numbers and texts are converted. -/
theorem pagesToWire_pages (pages : List (ℤ × CodePoints)) :
    pagesToWire fl (pages.map fun p => .page (.int p.1) (.str p.2)) = some (pages.map pageWires) := by
  induction pages with
  | nil => rfl
  | cons p pages ih =>
    rw [List.map_cons, pagesToWire, ih]
    rfl

variable {document : ParsedDocument F} {pages : List (ℤ × CodePoints)}

variable {text : CodePoints} {payload : List ℕ}

/-- The body of the envelope of a document that is accepted, and converted. -/
theorem envelopeBody_ok {sections : List (Value F)} {fields : List (Key F × Value F)}
    (hvalid : ParsedDocument.validateParsedDocument fl (some document) = .ok document)
    (h : Accepted fl document text pages sections fields) :
    envelopeBody fl (.ok (some document)) = .ok
      ((itemsToWire fl sections).bind fun ws => (parserAuxiliaryToWire fl document.metadata).map fun m =>
        envelopeWire "ok" "document" (documentWire (.str text) (pages.map pageWires) ws m)) := by
  obtain ⟨isTuple, hpages⟩ := h.pages_eq
  obtain ⟨isTuple', hsections⟩ := h.sections_eq
  rw [envelopeBody, parsedDocumentToWire, hvalid]
  simp only [Except.map, h.text_eq, hpages, hsections, pageItems, sectionItems, pagesToWire_pages,
    Value.jsonForm]
  cases itemsToWire fl sections with
  | none => rfl
  | some ws => cases parserAuxiliaryToWire fl document.metadata <;> rfl

/-- The text and the pages of a document that is accepted are spelled if they have no surrogates. -/
theorem body_wellSpelled {sections : List (Wire F)} {metadata : Wire F} (htext : spelled true text = true)
    (hpages : ∀ p ∈ pages, spelled true p.2 = true) (hsections : ∀ s ∈ sections, s.all (wellSpelled true) = true)
    (hmetadata : metadata.all (wellSpelled true) = true) :
    (envelopeWire "ok" "document" (documentWire (.str text) (pages.map pageWires) sections metadata)).all
      (wellSpelled true) = true := by
  have hok : spelled true (codePoints "ok") = true := by decide
  refine all_envelope rfl hok (fun _ => rfl) ?_ htext ?_ hsections hmetadata
  · intro members hnames
    have hall : ∀ names ∈ envelopeNames, (names.all (spelled true) && decide names.Nodup) = true := by decide
    exact hall _ hnames
  · intro q hq
    obtain ⟨p, hp, rfl⟩ := List.mem_map.mp hq
    exact ⟨rfl, hpages p hp⟩

/-- A document that is accepted, without surrogates, is decoded from what is encoded, with its tuples as
lists. -/
theorem decode_encode_document (hvalid : ParsedDocument.validateParsedDocument fl (some document) = .ok document)
    (hclean : document.allTexts isClean = true)
    (hencode : encodeParserEnvelope fl (.ok (some document)) = .ok (some payload)) :
    decodeParserEnvelope fl payload = some (.ok (some document.asRead)) := by
  obtain ⟨text, pages, sections, fields, haccepted⟩ := validateParsedDocument_ok hvalid
  obtain ⟨isTuple, hpages⟩ := haccepted.pages_eq
  obtain ⟨isTuple', hsections⟩ := haccepted.sections_eq
  obtain ⟨body, hbody, hwritable, rfl, hlength⟩ := encodeParserEnvelope_some hencode
  rw [envelopeBody_ok hvalid haccepted, Except.ok.injEq] at hbody
  obtain ⟨ws, hws, hbody⟩ := Option.bind_eq_some_iff.mp hbody
  obtain ⟨m, hm, rfl⟩ := Option.map_eq_some_iff.mp hbody
  -- What the texts of the document say of its parts.
  unfold ParsedDocument.allTexts at hclean
  rw [haccepted.text_eq, hpages, hsections, Bool.and_eq_true, Bool.and_eq_true, Bool.and_eq_true,
    List.all_eq_true, Value.allTexts, Value.allTexts, Value.itemsTexts_eq_true] at hclean
  obtain ⟨⟨⟨hcleanText, hcleanPages⟩, hcleanSections⟩, hcleanMetadata⟩ := hclean
  have hconverted := converted_list
    (itemsToWire_converted (fun v _ w hw => parserAuxiliaryToWire_converted hw) hws)
  have hmetadata := parserAuxiliaryToWire_converted hm
  have hspelled : ∀ p ∈ pages, spelled true p.2 = true := by
    intro p hp
    have hitem := hcleanPages _ (List.mem_map_of_mem hp)
    exact spelled_of_isClean hitem
  have hsound := all_and hwritable (body_wellSpelled (spelled_of_isClean hcleanText) hspelled
    (hconverted.2.2 hcleanSections) (hmetadata.texts hcleanMetadata))
  rw [decode_render hsound hlength, readEnvelope_document]
  congr 3
  unfold documentOf ParsedDocument.asRead
  rw [hconverted.1, hmetadata.value, haccepted.text_eq, hpages, hsections, ParsedDocument.pagesAsRead,
    Value.asRead, Value.itemsAsRead_eq, List.map_map, List.map_map]
  rfl

/-- The envelope of an error is decoded from what is encoded, unless the two halves of a surrogate pair follow
each other in its code. -/
theorem decode_encode_error {code : CodePoints} (hlength : code.length ≤ 64)
    (hspelled : spelled true code = true) :
    ∃ payload, encodeParserEnvelope fl (.error code) = .ok (some payload) ∧
      decodeParserEnvelope fl payload = some (.error code) := by
  have hbody : envelopeBody fl (.error code) = .ok (some (envelopeWire "error" "code" (.str code))) := by
    rw [envelopeBody, if_pos hlength]
  have hwritable : (envelopeWire "error" "code" (.str code)).all (writable fl) = true := rfl
  have hnames : wellSpelled true (envelopeWire "error" "code" (.str code) : Wire F) = true := rfl
  have hsound : (envelopeWire "error" "code" (.str code)).all (sound fl true) = true := by
    refine all_and hwritable (all_dict.mpr ⟨hnames, ?_⟩)
    simp only [List.forall_mem_cons, List.not_mem_nil, false_implies, implies_true, and_true]
    exact ⟨rfl, rfl, hspelled⟩
  have hsize : (render fl true (envelopeWire "error" "code" (.str code))).length ≤ maxParserResultBytes := by
    have hescape := (escape_ascii code).1
    have hrender : render fl true (envelopeWire "error" "code" (.str code)) =
        codePoints "\x7b\"version\":1,\"status\":\"error\",\"code\":\"" ++
          ((escape true code ++ [0x22]) ++ [] ++ [0x7d]) := rfl
    have hfixed : (codePoints "\x7b\"version\":1,\"status\":\"error\",\"code\":\"").length = 38 := by decide
    rw [hrender, List.length_append, hfixed]
    simp only [List.length_append, List.length_cons, List.length_nil]
    unfold maxParserResultBytes
    omega
  refine ⟨render fl true (envelopeWire "error" "code" (.str code)), ?_, ?_⟩
  · unfold encodeParserEnvelope
    rw [envelopeText_of_body hbody hwritable]
    show Except.ok (if _ then _ else _) = _
    rw [if_neg (Nat.not_lt.mpr hsize)]
  · rw [decode_render hsound hsize, readEnvelope_error]

/-- Pages with numbers and texts that were read from wires have the wires of these. -/
theorem pages_of_wires {items : List (Wire F × Wire F)}
    (h : (items.map fun q => PageItem.page (Value.ofWire q.1) (Value.ofWire q.2)) = pages.map fun p => .page (.int p.1) (.str p.2)) :
    items = pages.map pageWires := by
  induction items generalizing pages with
  | nil =>
    cases pages with
    | nil => rfl
    | cons p pages => cases h
  | cons q items ih =>
    cases pages with
    | nil => cases h
    | cons p pages =>
      rw [List.map_cons, List.map_cons, List.cons.injEq, PageItem.page.injEq] at h
      obtain ⟨⟨hnumber, htext⟩, hrest⟩ := h
      obtain ⟨number, text⟩ := q
      rw [List.map_cons, ih hrest]
      cases number with
      | int n =>
        cases text with
        | str s =>
          cases hnumber
          cases htext
          rfl
        | _ => cases htext
      | _ => cases hnumber

/-- What is read can be spelled. -/
theorem wellSpelled_of_readBack {w : Wire F} (h : w.all readBack = true) : w.all (wellSpelled true) = true := by
  refine all_imp ?_ h
  intro v hv
  cases v with
  | int n => rfl
  | _ => exact hv

/-- A document that is decoded and accepted can be encoded again, and what is encoded is decoded to it. -/
theorem decode_again (hdecode : decodeParserEnvelope fl payload = some (.ok (some document)))
    (hvalid : ParsedDocument.validateParsedDocument fl (some document) = .ok document) :
    ∃ text, envelopeText fl (.ok (some document)) = .ok (some text) ∧
      (text.length ≤ maxParserResultBytes →
        encodeParserEnvelope fl (.ok (some document)) = .ok (some text) ∧
          decodeParserEnvelope fl text = some (.ok (some document))) := by
  obtain ⟨text, items, sections, metadata, hdocument, htext, hitems, hsections, hmetadata⟩ :=
    decodeParserEnvelope_ok hdecode
  obtain ⟨s, pages, values, fields, haccepted⟩ := validateParsedDocument_ok hvalid
  -- The text and the pages that were accepted are those that were read.
  have hs : text = .str s := by
    have heq : Value.ofWire text = .str s := by
      rw [← haccepted.text_eq, hdocument]
      rfl
    cases text with
    | str t =>
      cases heq
      rfl
    | _ => cases heq
  obtain ⟨isTuple, hpages⟩ := haccepted.pages_eq
  have hwires : items = pages.map pageWires := by
    rw [hdocument] at hpages
    injection hpages with _ hpages
    exact pages_of_wires hpages
  obtain ⟨isTuple', hvalues⟩ := haccepted.sections_eq
  have hsectionValues : values = sections.map Value.ofWire := by
    rw [hdocument] at hvalues
    injection hvalues with _ hvalues
    exact hvalues.symm
  have hmetadataValue : document.metadata = Value.ofWire metadata := by rw [hdocument]; rfl
  obtain ⟨b, b', heach⟩ := haccepted.each
  rw [hsectionValues] at heach
  have hfinite : ∀ w ∈ sections, w.all (finiteNumbers fl) = true := by
    intro w hw
    obtain ⟨c, c', hvalidated⟩ := validateEach_ok heach _ (List.mem_map_of_mem hw)
    exact finite_of_validated hvalidated
  obtain ⟨c, c', hvalidated⟩ := haccepted.metadata
  rw [hmetadataValue] at hvalidated
  have hfiniteMetadata := finite_of_validated hvalidated
  -- So the body is the one that the document was read from.
  have hbody : envelopeBody fl (.ok (some document)) =
      .ok (some (envelopeWire "ok" "document" (documentWire (.str s) (pages.map pageWires) sections metadata))) := by
    rw [envelopeBody_ok hvalid haccepted, hsectionValues, hmetadataValue,
      itemsToWire_ofWire fun w hw => parserAuxiliaryToWire_ofWire (hsections w hw) (hfinite w hw),
      parserAuxiliaryToWire_ofWire hmetadata hfiniteMetadata]
    rfl
  have hspelled : ∀ p ∈ pages, spelled true p.2 = true := by
    intro p hp
    have hread := (hitems (pageWires p) (by rw [hwires]; exact List.mem_map_of_mem hp)).2
    exact hread
  rw [hs] at htext
  have hwell := body_wellSpelled htext hspelled (fun w hw => wellSpelled_of_readBack (hsections w hw))
    (wellSpelled_of_readBack hmetadata)
  have hwritableOf : ∀ w : Wire F, w.all readBack = true → w.all (finiteNumbers fl) = true →
      w.all (writable fl) = true := fun w hread hfin =>
    all_imp (fun v hv => (Bool.and_eq_true _ _ ▸ hv).1) (sound_of_readBack hread hfin)
  have hwritable : (envelopeWire "ok" "document" (documentWire (.str s) (pages.map pageWires) sections
      metadata)).all (writable fl) = true := by
    refine all_envelope rfl rfl (fun _ => rfl) (fun _ _ => rfl) rfl ?_
      (fun w hw => hwritableOf w (hsections w hw) (hfinite w hw)) (hwritableOf _ hmetadata hfiniteMetadata)
    intro q hq
    rw [← hwires] at hq
    refine ⟨hwritableOf _ (hitems q hq).1 ?_, hwritableOf _ (hitems q hq).2 ?_⟩
    · rw [hwires] at hq
      obtain ⟨p, -, rfl⟩ := List.mem_map.mp hq
      rfl
    · rw [hwires] at hq
      obtain ⟨p, -, rfl⟩ := List.mem_map.mp hq
      rfl
  refine ⟨_, envelopeText_of_body hbody hwritable, ?_⟩
  intro hlength
  refine ⟨?_, ?_⟩
  · unfold encodeParserEnvelope
    rw [envelopeText_of_body hbody hwritable]
    show Except.ok (if _ then _ else _) = _
    rw [if_neg (Nat.not_lt.mpr hlength)]
  · rw [decode_render (all_and hwritable hwell) hlength, readEnvelope_document, hdocument, hs, hwires]

/-- The boundary of the parser process is lossless: a document that is accepted, without surrogates, is decoded
from what is encoded, with its tuples as lists, and accepted again; an error code of at most 64 characters is
decoded from what is encoded, unless the two halves of a surrogate pair follow each other in it; and a document
that is decoded, accepted and small enough is decoded from what is encoded again. -/
theorem envelopes_round_trip (fl : Floats F) :
    (∀ (document : ParsedDocument F) (payload : List ℕ),
      ParsedDocument.validateParsedDocument fl (some document) = .ok document →
      document.allTexts isClean = true →
      encodeParserEnvelope fl (.ok (some document)) = .ok (some payload) →
        decodeParserEnvelope fl payload = some (.ok (some document.asRead)) ∧
          ParsedDocument.validateParsedDocument fl (some document.asRead) = .ok document.asRead) ∧
    (∀ code : CodePoints, code.length ≤ 64 → spelled true code = true →
      ∃ payload, encodeParserEnvelope fl (.error code) = .ok (some payload) ∧
        decodeParserEnvelope fl payload = some (.error code)) ∧
    (∀ (payload : List ℕ) (document : ParsedDocument F),
      decodeParserEnvelope fl payload = some (.ok (some document)) →
      ParsedDocument.validateParsedDocument fl (some document) = .ok document →
        ∃ text, envelopeText fl (.ok (some document)) = .ok (some text) ∧
          (text.length ≤ maxParserResultBytes →
            encodeParserEnvelope fl (.ok (some document)) = .ok (some text) ∧
              decodeParserEnvelope fl text = some (.ok (some document)))) := by
  refine ⟨?_, fun code hlength hspelled => decode_encode_error hlength hspelled,
    fun payload document hdecode hvalid => decode_again hdecode hvalid⟩
  intro document payload hvalid hclean hencode
  exact ⟨decode_encode_document hvalid hclean hencode, ParsedDocument.validateParsedDocument_asRead hvalid⟩

end RoundTrip

/-- Two halves of a surrogate pair in the code of an error are decoded as one character. -/
theorem error_code_joined :
    ¬ ∃ payload, encodeParserEnvelope wholeFloats (.error [0xd83d, 0xde00]) = .ok (some payload) ∧
      decodeParserEnvelope wholeFloats payload = some (.error [0xd83d, 0xde00]) := by
  rintro ⟨payload, hencode, hdecode⟩
  have hpayload : encodeParserEnvelope wholeFloats (.error [0xd83d, 0xde00]) = .ok (some (codePoints
      "\x7b\"version\":1,\"status\":\"error\",\"code\":\"\\ud83d\\ude00\"\x7d")) := rfl
  rw [hpayload, Except.ok.injEq, Option.some.injEq] at hencode
  subst hencode
  have hjoined : decodeParserEnvelope wholeFloats (codePoints
      "\x7b\"version\":1,\"status\":\"error\",\"code\":\"\\ud83d\\ude00\"\x7d") =
        some (.error [0x1f600]) := rfl
  rw [hjoined] at hdecode
  cases hdecode

end Envelope

end RickIntelligence.Ingestion
