import Mathlib

/-!
# Errors and limits of the parsers

`ParseError` with its subclasses, and `ParserLimits`, of `rick_ingestion/parsers.py`. The limits can only be
lower than their ceilings, which the structure carries; the fields that no modelled function reads are left
out.
-/

namespace RickIntelligence.Ingestion

/-- `ParseError`. -/
structure ParseError where
  code : String
  message : String
  deriving DecidableEq, Repr

namespace ParseError

/-- `ParseError()`, with its default code and message. -/
def default : ParseError := ⟨"ingestion_failed", "Could not parse document."⟩

/-- `FilenameValidationError`. -/
def filename : ParseError := ⟨"validation_error", "Filename is invalid."⟩

/-- `ArchiveLimitError`. -/
def archiveLimit : ParseError := ⟨"request_too_large", "Archive exceeds the configured safety limits."⟩

/-- `ParserTimeoutError`. -/
def parserTimeout : ParseError := ⟨"parser_timeout", "Document parser exceeded its time limit."⟩

end ParseError

/-- `MAX_FILE_BYTES`. -/
def maxFileBytes : ℕ := 50 * 1024 * 1024

/-- `MAX_PARSED_SECTIONS`. -/
def maxParsedSections : ℕ := 100000

/-- `MAX_ARCHIVE_MEMBERS`. -/
def maxArchiveMembers : ℕ := 512

/-- `MAX_ARCHIVE_MEMBER_BYTES`. -/
def maxArchiveMemberBytes : ℕ := 20 * 1024 * 1024

/-- `MAX_ARCHIVE_UNCOMPRESSED_BYTES`. -/
def maxArchiveUncompressedBytes : ℕ := 100 * 1024 * 1024

/-- `MAX_ARCHIVE_COMPRESSION_RATIO`. -/
def maxArchiveCompressionRatio : ℚ := 1000

/-- `ParserLimits`. -/
structure ParserLimits where
  max_file_bytes : ℕ
  max_sections : ℕ
  max_archive_members : ℕ
  max_archive_member_bytes : ℕ
  max_archive_uncompressed_bytes : ℕ
  max_archive_compression_ratio : ℚ
  file_bytes_range : 0 < max_file_bytes ∧ max_file_bytes ≤ maxFileBytes
  sections_range : 0 < max_sections ∧ max_sections ≤ maxParsedSections
  members_range : 0 < max_archive_members ∧ max_archive_members ≤ maxArchiveMembers
  member_bytes_range : 0 < max_archive_member_bytes ∧ max_archive_member_bytes ≤ maxArchiveMemberBytes
  uncompressed_range :
    0 < max_archive_uncompressed_bytes ∧ max_archive_uncompressed_bytes ≤ maxArchiveUncompressedBytes
  member_le_total : max_archive_member_bytes ≤ max_archive_uncompressed_bytes
  ratio_range :
    0 < max_archive_compression_ratio ∧ max_archive_compression_ratio ≤ maxArchiveCompressionRatio

/-- `DEFAULT_PARSER_LIMITS`: the ceilings meet the checks. -/
def defaultParserLimits : ParserLimits where
  max_file_bytes := maxFileBytes
  max_sections := maxParsedSections
  max_archive_members := maxArchiveMembers
  max_archive_member_bytes := maxArchiveMemberBytes
  max_archive_uncompressed_bytes := maxArchiveUncompressedBytes
  max_archive_compression_ratio := maxArchiveCompressionRatio
  file_bytes_range := by decide
  sections_range := by decide
  members_range := by decide
  member_bytes_range := by decide
  uncompressed_range := by decide
  member_le_total := by decide
  ratio_range := by
    unfold maxArchiveCompressionRatio
    norm_num

end RickIntelligence.Ingestion
