import RickIntelligence.Chunking.Spans

/-!
# The recursive chunking strategy

`RecursiveChunkingStrategy` of `packages/ingestion/src/rick_ingestion/chunking.py`. The page texts are
joined with a newline after each; the paragraphs of the whole are put together while they fit, with the end
of a chunk at the start of the next one, and a paragraph that is too long is put together from its sentences.
Every character is carried with its position in the whole text, in a list of its own.

The checksum of a text is an argument.
-/

namespace RickIntelligence.Chunking

open Lib

/-- `ChunkPlan`. -/
structure ChunkPlan where
  text : List Char
  chunk_index : ℕ
  page_start : Option ℤ
  page_end : Option ℤ
  checksum : String

/-- A page: its number and its text. -/
abbrev PageText := ℤ × List Char

/-- The page texts, each with a newline after it. -/
def allText (pages : List PageText) : List Char := pages.flatMap fun page => page.2 ++ ['\n']

/-- Where the pages start, from a position on. -/
def boundariesFrom (char_pos : ℕ) : List PageText → List (ℕ × ℤ)
  | [] => []
  | (number, text) :: pages => (char_pos, number) :: boundariesFrom (char_pos + (text.length + 1)) pages

/-- `_page_hint`. -/
def pageHint (char_pos : ℕ) : List (ℕ × ℤ) → Option ℤ
  | [] => none
  | [(_, page)] => some page
  | (start, page) :: (stop, next) :: boundaries =>
    if start ≤ char_pos ∧ char_pos < stop then some page else pageHint char_pos ((stop, next) :: boundaries)

/-- `_page_span`. -/
def pageSpan (char_positions : List ℕ) (boundaries : List (ℕ × ℤ)) : Option ℤ × Option ℤ :=
  match char_positions.min?, char_positions.max? with
  | some first, some last => (pageHint first boundaries, pageHint last boundaries)
  | _, _ => (none, none)

/-- The positions of the characters that `strip` leaves. -/
def cleanPositions (chunk_text : List Char) (char_positions : List ℕ) : List ℕ :=
  let left := chunk_text.length - (lstrip chunk_text).length
  let right := chunk_text.length - (rstrip chunk_text).length
  (char_positions.take (char_positions.length - right)).drop left

/-- `append_plan`. -/
def appendPlan (content_checksum : List Char → String) (boundaries : List (ℕ × ℤ))
    (plans : List ChunkPlan) (chunk_text : List Char) (char_positions : List ℕ) : List ChunkPlan :=
  if stripList chunk_text = [] then plans
  else
    let span := pageSpan (cleanPositions chunk_text char_positions) boundaries
    plans ++ [⟨stripList chunk_text, plans.length, span.1, span.2, content_checksum (stripList chunk_text)⟩]

/-- The variables of the loop. -/
structure Buffer where
  plans : List ChunkPlan
  current_text : List Char
  current_positions : List ℕ

namespace Buffer

/-- The current text is empty. -/
def clear (b : Buffer) : Buffer := { b with current_text := [], current_positions := [] }

/-- `flush`. -/
def flush (content_checksum : List Char → String) (boundaries : List (ℕ × ℤ)) (b : Buffer) : Buffer :=
  if stripList b.current_text = [] then b
  else
    let plans := appendPlan content_checksum boundaries b.plans b.current_text b.current_positions
    { b with plans := plans }.clear

/-- `start_with_overlap`. Without an overlap nothing is left of the text. -/
def startWithOverlap (overlap : ℕ) (b : Buffer) (prev_text : List Char) (prev_positions : List ℕ) :
    Buffer :=
  let overlap_text := prev_text.drop (prev_text.length - overlap)
  let positions := prev_positions.drop (prev_positions.length - overlap_text.length)
  { b with current_text := overlap_text, current_positions := positions }

end Buffer

/-- The loop of `_split_sentences_with_positions`, with the text and the positions of the running chunk. -/
def packSentences (chunk_size : ℕ) (current : List Char) (current_positions : List ℕ) :
    List (List Char × ℕ × ℕ) → List (List Char × List ℕ)
  | [] => if stripList current = [] then [] else [(stripList current, current_positions)]
  | (sentence, start, stop) :: sentences =>
    let positions := List.range' start (stop - start)
    if current.length + sentence.length + 1 ≤ chunk_size then
      if current = [] then packSentences chunk_size sentence (current_positions ++ positions) sentences
      else
        packSentences chunk_size (current ++ ' ' :: sentence)
          (current_positions ++ (start - 1) :: positions) sentences
    else if current = [] then packSentences chunk_size sentence positions sentences
    else (current, current_positions) :: packSentences chunk_size sentence positions sentences

/-- `_split_sentences_with_positions`. -/
def splitSentences (text : List Char) (text_start chunk_size : ℕ) : List (List Char × List ℕ) :=
  packSentences chunk_size [] [] (sentenceSpans text text_start)

/-- `_SEPARATOR_PATTERN.match`: three or more of one of the characters, and whitespace around them. -/
def isSeparator (s : List Char) : Bool :=
  3 ≤ (stripList s).length &&
    ((stripList s).all (· == '-') || (stripList s).all (· == '*') || (stripList s).all (· == '_'))

/-- The arguments of `chunk` besides the pages. -/
structure Options where
  content_checksum : List Char → String
  chunk_size : ℕ
  overlap : ℕ

/-- A paragraph that is too long: the current text is flushed, and a chunk is made of each group of
sentences. -/
def addLong (o : Options) (boundaries : List (ℕ × ℤ)) (b : Buffer) (start : ℕ) (para_text : List Char) :
    Buffer :=
  let flushed := if b.current_text = [] then b
    else ((b.flush o.content_checksum boundaries).startWithOverlap o.overlap b.current_text
      b.current_positions).clear
  let plans := (splitSentences para_text start o.chunk_size).foldl
    (fun plans piece => appendPlan o.content_checksum boundaries plans piece.1 piece.2) flushed.plans
  { flushed with plans := plans }

/-- The paragraph after the current text. -/
def Buffer.join (b : Buffer) (start stop : ℕ) (para_text : List Char) : Buffer :=
  let positions := List.range' start (stop - start)
  if b.current_text = [] then { b with current_text := para_text, current_positions := positions }
  else
    { b with
      current_text := b.current_text ++ '\n' :: para_text
      current_positions := b.current_positions ++ (start - 1) :: positions }

/-- A paragraph that is short enough: the current text is flushed if they do not fit together, and its end
is kept. -/
def addShort (o : Options) (boundaries : List (ℕ × ℤ)) (b : Buffer) (start stop : ℕ)
    (para_text : List Char) : Buffer :=
  let flushed :=
    if o.chunk_size < b.current_text.length + para_text.length + 1 ∧ b.current_text ≠ [] then
      (b.flush o.content_checksum boundaries).startWithOverlap o.overlap b.current_text b.current_positions
    else b
  flushed.join start stop para_text

/-- One round of the loop over the paragraphs. -/
def addParagraph (o : Options) (boundaries : List (ℕ × ℤ)) (b : Buffer) (para : ℕ × List Char) : Buffer :=
  let (start, stop) := trimmedSpan para.1 para.2
  let para_text := stripList para.2
  if para_text = [] then b
  else if isSeparator para_text then
    if stripList b.current_text = [] then b
    else
      ((b.flush o.content_checksum boundaries).startWithOverlap o.overlap b.current_text
        b.current_positions).clear
  else if o.chunk_size < para_text.length then addLong o boundaries b start para_text
  else addShort o boundaries b start stop para_text

/-- `chunk`. -/
def chunk (o : Options) (pages : List PageText) : List ChunkPlan :=
  let boundaries := boundariesFrom 0 pages
  let b := (paragraphs (allText pages)).foldl (addParagraph o boundaries) ⟨[], [], []⟩
  if stripList b.current_text = [] then b.plans else (b.flush o.content_checksum boundaries).plans

end RickIntelligence.Chunking
