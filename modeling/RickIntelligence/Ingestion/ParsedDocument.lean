import RickIntelligence.Ingestion.Limits
import RickIntelligence.Lib.PyValue
import RickIntelligence.Lib.Validated

/-!
# Validation of parsed documents

`_validate_parser_auxiliary` and `_validate_parsed_document` of `rick_ingestion/parsers.py`. A parser may
return anything: the fields of a document are arbitrary values until they are validated.

A validation does not tell a tuple from a list, nor a dictionary from another mapping
(`validateParsedDocument_asRead`).
-/

namespace RickIntelligence.Ingestion

open Lib

/-- `MAX_PARSED_TEXT_CHARS`, and `MAX_PARSER_AUX_CHARS`. -/
def maxParsedTextChars : ℕ := 8000000

/-- `MAX_PARSED_PAGES`. -/
def maxParsedPages : ℕ := 10000

/-- `MAX_PARSER_AUX_NODES`. -/
def maxParserAuxNodes : ℕ := 4 * (maxParsedSections + maxParsedPages) + 1024

/-- An element of `pages`: a `ParsedPage`, or something else. -/
inductive PageItem (F : Type) where
  | page (page_number text : Value F)
  | other

/-- What stands in `pages`: a list or a tuple, or something else. -/
inductive Pages (F : Type) where
  | sequence (isTuple : Bool) (items : List (PageItem F))
  | other

/-- `ParsedDocument`. -/
structure ParsedDocument (F : Type) where
  text : Value F
  pages : Pages F
  sections : Value F
  metadata : Value F

namespace ParsedDocument

variable {F : Type}

/-! ## Metadata -/

/-- The characters and the nodes that are left. -/
structure Budget where
  chars : ℤ
  nodes : ℤ
  deriving DecidableEq, Repr

/-- A result that is too large. -/
def exceeded : ParseError := ⟨"request_too_large", "Parser metadata exceeds the result limit."⟩

/-- A field whose name is not a text of 1 to 128 characters. -/
def invalidField : ParseError := ⟨"validation_error", "Parser metadata contains an invalid field."⟩

/-- The checks that are made of every value: its depth, and the number of values. -/
def enter (depth : ℕ) (budget : Budget) : Except ParseError Budget :=
  if 4 < depth then .error ⟨"validation_error", "Parser metadata is too deeply nested."⟩
  else if budget.nodes - 1 < 0 then .error exceeded
  else .ok { budget with nodes := budget.nodes - 1 }

/-- The check that is made of a text. -/
def spend (budget : Budget) (s : CodePoints) : Except ParseError Budget :=
  if budget.chars - s.length < 0 then .error exceeded
  else .ok { budget with chars := budget.chars - s.length }

/-- The name of a field, as a value of its own. -/
def validateName (depth : ℕ) (budget : Budget) : Key F → Except ParseError Budget
  | .str s =>
    if s = [] ∨ 128 < s.length then .error invalidField
    else (enter depth budget).bind fun budget => spend budget s
  | _ => .error invalidField

mutual

/-- `_validate_parser_auxiliary`: the budget that is left. -/
def validateParserAuxiliary (fl : Wire.Floats F) (depth : ℕ) (budget : Budget) :
    Value F → Except ParseError Budget
  | .str s => (enter depth budget).bind fun budget => spend budget s
  | .null => enter depth budget
  | .bool _ => enter depth budget
  | .int _ => enter depth budget
  | .float x => (enter depth budget).bind fun budget =>
    if fl.finite x then .ok budget
    else .error ⟨"validation_error", "Parser metadata contains a non-finite number."⟩
  | .mapping _ items => (enter depth budget).bind fun budget =>
    if 64 < items.length then .error ⟨"request_too_large", "Parser metadata contains too many fields."⟩
    else validateFields fl depth budget items
  | .sequence _ items => (enter depth budget).bind fun budget =>
    if 64 < items.length then .error ⟨"request_too_large", "Parser metadata contains too many values."⟩
    else validateItems fl depth budget items
  | .other => (enter depth budget).bind fun _ =>
    .error ⟨"validation_error", "Parser metadata contains an unsupported value."⟩

/-- The loop over the fields of a mapping. -/
def validateFields (fl : Wire.Floats F) (depth : ℕ) (budget : Budget) :
    List (Key F × Value F) → Except ParseError Budget
  | [] => .ok budget
  | (key, item) :: items => (validateName (depth + 1) budget key).bind fun budget =>
    (validateParserAuxiliary fl (depth + 1) budget item).bind fun budget =>
      validateFields fl depth budget items

/-- The loop over the items of a list or a tuple. -/
def validateItems (fl : Wire.Floats F) (depth : ℕ) (budget : Budget) :
    List (Value F) → Except ParseError Budget
  | [] => .ok budget
  | item :: items => (validateParserAuxiliary fl (depth + 1) budget item).bind fun budget =>
    validateItems fl depth budget items

end

/-! ## Documents -/

/-- A page number: a whole number that is no truth value, from 1 to the greatest number of pages. -/
def isPageNumber : Value F → Bool
  | .int n => 1 ≤ n && n ≤ maxParsedPages
  | _ => false

/-- The loop over the pages, after pages with some characters. -/
def validatePages : ℕ → List (PageItem F) → Except ParseError Unit
  | _, [] => .ok ()
  | _, .other :: _ => .error ⟨"validation_error", "Parser returned an invalid page."⟩
  | page_chars, .page page_number text :: pages =>
    if !isPageNumber page_number then
      .error ⟨"validation_error", "Parser returned an invalid page number."⟩
    else match text with
      | .str s =>
        if maxParsedTextChars < page_chars + s.length then
          .error ⟨"request_too_large", "Parsed pages exceed the text limit."⟩
        else validatePages (page_chars + s.length) pages
      | _ => .error ⟨"validation_error", "Parser returned invalid page text."⟩

/-- The checks of the text. -/
def validateText : Value F → Except ParseError Unit
  | .str s =>
    if maxParsedTextChars < s.length then
      .error ⟨"request_too_large", "Parsed document exceeds the text limit."⟩
    else .ok ()
  | _ => .error ⟨"validation_error", "Parser returned invalid text."⟩

/-- The checks of the pages. -/
def validateAllPages : Pages F → Except ParseError Unit
  | .sequence _ items =>
    if maxParsedPages < items.length then
      .error ⟨"request_too_large", "Parsed document contains too many pages."⟩
    else validatePages 0 items
  | .other => .error ⟨"request_too_large", "Parsed document contains too many pages."⟩

/-- The loop over the sections. -/
def validateEach (fl : Wire.Floats F) (budget : Budget) : List (Value F) → Except ParseError Budget
  | [] => .ok budget
  | s :: sections => (validateParserAuxiliary fl 0 budget s).bind fun budget =>
    validateEach fl budget sections

/-- The checks of the sections: the budget that is left. -/
def validateSections (fl : Wire.Floats F) : Value F → Except ParseError Budget
  | .sequence _ items =>
    if maxParsedSections < items.length then
      .error ⟨"request_too_large", "Parser returned too many sections."⟩
    else validateEach fl ⟨maxParsedTextChars, maxParserAuxNodes⟩ items
  | _ => .error ⟨"request_too_large", "Parser returned too many sections."⟩

/-- The checks of the metadata. -/
def validateMetadata (fl : Wire.Floats F) (budget : Budget) : Value F → Except ParseError Budget
  | .mapping isDict items => validateParserAuxiliary fl 0 budget (.mapping isDict items)
  | _ => .error ⟨"validation_error", "Parser returned invalid metadata."⟩

/-- `_validate_parsed_document`, for a value that may be no `ParsedDocument`. -/
def validateParsedDocument (fl : Wire.Floats F) (value : Option (ParsedDocument F)) :
    Except ParseError (ParsedDocument F) :=
  match value with
  | none => .error .default
  | some document => do
    validateText document.text
    validateAllPages document.pages
    let budget ← validateSections fl document.sections
    let _ ← validateMetadata fl budget document.metadata
    return document

/-! ## Tuples and mappings -/

/-- An element of `pages` with its tuples as lists. -/
def itemAsRead : PageItem F → PageItem F
  | .page page_number text => .page page_number.asRead text.asRead
  | .other => .other

/-- What stands in `pages`, with its tuples as lists. -/
def pagesAsRead : Pages F → Pages F
  | .sequence _ items => .sequence false (items.map itemAsRead)
  | .other => .other

/-- A document with its tuples as lists and its mappings as dictionaries. -/
def asRead (document : ParsedDocument F) : ParsedDocument F where
  text := document.text.asRead
  pages := pagesAsRead document.pages
  sections := document.sections.asRead
  metadata := document.metadata.asRead

/-- Every text of an element of `pages` passes a check. -/
def itemTexts (p : CodePoints → Bool) : PageItem F → Bool
  | .page page_number text => page_number.allTexts p && text.allTexts p
  | .other => true

/-- Every text of a document passes a check. -/
def allTexts (p : CodePoints → Bool) (document : ParsedDocument F) : Bool :=
  document.text.allTexts p &&
    (match document.pages with
      | .sequence _ items => items.all (itemTexts p)
      | .other => true) &&
    document.sections.allTexts p && document.metadata.allTexts p

section AsRead

variable {fl : Wire.Floats F}

/-- The loop over items that are validated alike. -/
theorem validateItems_asRead {items : List (Value F)}
    (h : ∀ v ∈ items, ∀ depth budget, validateParserAuxiliary fl depth budget v.asRead =
      validateParserAuxiliary fl depth budget v) (depth : ℕ) (budget : Budget) :
    validateItems fl depth budget (items.map Value.asRead) = validateItems fl depth budget items := by
  induction items generalizing budget with
  | nil => rfl
  | cons v items ih =>
    rw [List.map_cons, validateItems, validateItems, h v (List.mem_cons_self ..)]
    congr 1
    funext budget
    exact ih (fun u hu => h u (List.mem_cons_of_mem v hu)) budget

/-- The loop over fields that are validated alike. -/
theorem validateFields_asRead {items : List (Key F × Value F)}
    (h : ∀ m ∈ items, ∀ depth budget, validateParserAuxiliary fl depth budget m.2.asRead =
      validateParserAuxiliary fl depth budget m.2) (depth : ℕ) (budget : Budget) :
    validateFields fl depth budget (items.map fun m => (m.1, m.2.asRead)) =
      validateFields fl depth budget items := by
  induction items generalizing budget with
  | nil => rfl
  | cons m items ih =>
    obtain ⟨key, v⟩ := m
    have hrest : ∀ b, validateFields fl depth b (items.map fun m => (m.1, m.2.asRead)) =
        validateFields fl depth b items := ih fun u hu => h u (List.mem_cons_of_mem _ hu)
    have hvalue := h (key, v) (List.mem_cons_self ..)
    rw [List.map_cons, validateFields, validateFields]
    simp only [hvalue, hrest]

/-- A value is validated alike with its tuples as lists. -/
theorem validateParserAuxiliary_asRead (v : Value F) (depth : ℕ) (budget : Budget) :
    validateParserAuxiliary fl depth budget v.asRead = validateParserAuxiliary fl depth budget v := by
  induction v generalizing depth budget with
  | sequence isTuple items ih =>
    rw [Value.asRead, Value.itemsAsRead_eq, validateParserAuxiliary, validateParserAuxiliary, List.length_map]
    simp only [validateItems_asRead ih]
  | mapping isDict items ih =>
    rw [Value.asRead, Value.fieldsAsRead_eq, validateParserAuxiliary, validateParserAuxiliary,
      List.length_map]
    simp only [validateFields_asRead ih]
  | _ => rfl

/-- Pages are validated alike with their tuples as lists. -/
theorem validatePages_asRead (page_chars : ℕ) (items : List (PageItem F)) :
    validatePages page_chars (items.map itemAsRead) = validatePages page_chars items := by
  induction items generalizing page_chars with
  | nil => rfl
  | cons item items ih =>
    cases item with
    | other => rfl
    | page page_number text =>
      have hnumber : isPageNumber page_number.asRead = isPageNumber page_number := by
        cases page_number <;> rfl
      cases text with
      | str s => simp only [List.map_cons, itemAsRead, Value.asRead, validatePages, hnumber, ih]
      | _ => simp only [List.map_cons, itemAsRead, Value.asRead, validatePages, hnumber]

/-- The loop over sections that are validated alike. -/
theorem validateEach_asRead (budget : Budget) (sections : List (Value F)) :
    validateEach fl budget (sections.map Value.asRead) = validateEach fl budget sections := by
  induction sections generalizing budget with
  | nil => rfl
  | cons s sections ih =>
    rw [List.map_cons, validateEach, validateEach, validateParserAuxiliary_asRead]
    simp only [ih]

/-- A document that is accepted is accepted with its tuples as lists. -/
theorem validateParsedDocument_asRead {document : ParsedDocument F}
    (h : validateParsedDocument fl (some document) = .ok document) :
    validateParsedDocument fl (some document.asRead) = .ok document.asRead := by
  have htext : validateText document.text.asRead = validateText document.text := by
    cases document.text <;> rfl
  have hpages : validateAllPages (pagesAsRead document.pages) = validateAllPages document.pages := by
    cases document.pages with
    | other => rfl
    | sequence isTuple items =>
      simp only [pagesAsRead, validateAllPages, List.length_map, validatePages_asRead]
  have hsections : validateSections fl document.sections.asRead = validateSections fl document.sections := by
    cases document.sections with
    | sequence isTuple items =>
      simp only [Value.asRead, Value.itemsAsRead_eq, validateSections, List.length_map, validateEach_asRead]
    | _ => rfl
  have hmetadata : ∀ budget, validateMetadata fl budget document.metadata.asRead =
      validateMetadata fl budget document.metadata := by
    intro budget
    cases document.metadata with
    | mapping isDict items =>
      exact validateParserAuxiliary_asRead (.mapping isDict items) 0 budget
    | _ => rfl
  unfold validateParsedDocument at h ⊢
  simp only [asRead, htext, hpages, hsections, hmetadata] at h ⊢
  obtain ⟨_, h1, h⟩ := except_bind_ok.mp h
  obtain ⟨_, h2, h⟩ := except_bind_ok.mp h
  obtain ⟨budget, h3, h⟩ := except_bind_ok.mp h
  obtain ⟨_, h4, _⟩ := except_bind_ok.mp h
  rw [h1, h2, h3]
  show (validateMetadata fl budget document.metadata >>= fun _ => _) = _
  rw [h4]
  rfl

end AsRead

end ParsedDocument

end RickIntelligence.Ingestion
