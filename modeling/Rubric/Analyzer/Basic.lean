/-
  Rubric — linguistic analyzers, one for each source language.

  * `Analyzer`: what the commands for phonetic transcription, transliteration
    and abbreviations ask for;
  * `Dictionary`: replacement tables and abbreviations, and the analyzer that
    works by them (`Dictionary.analyzer`).
-/
import Rubric.Analyzer.Table
import Rubric.Index
import Rubric.Language.Basic

namespace Rubric

open Text

/-- The linguistic operations on texts of one language. -/
structure Analyzer where
  /-- The text in the phonetic alphabet. -/
  transcribe : String → String
  /-- The text in the script of a target language, its syllables separated by the given
      text; there may be no way to that script. -/
  transliterate? : String → Language → Option String → Option String
  /-- The expansion of an abbreviation, or its abbreviated form if that is to be kept. -/
  abbreviation? : String → Bool → Option String

/-! ## Tables -/

/-- An abbreviation with its two forms. -/
structure Abbreviation where
  expanded : String
  abbreviated : String
  deriving DecidableEq, Repr

/-- Replacement tables and abbreviations of one language. -/
structure Dictionary where
  ipa : Table := {}
  /-- A table for each language whose script is a target. -/
  transliterations : Index KnownLanguage Table := .empty
  /-- The abbreviations by key in lowercase. -/
  abbreviations : Index String Abbreviation := .empty

namespace Dictionary

/-- Adds the table for a target, in place of any other. -/
def withTransliteration (d : Dictionary) (target : KnownLanguage) (table : Table) : Dictionary :=
  { d with transliterations := d.transliterations.insert target table }

/-- Adds an abbreviation, in place of any other with its key. -/
def withAbbreviation (d : Dictionary) (key expanded abbreviated : String) : Dictionary :=
  { d with abbreviations := d.abbreviations.insert (lowercaseText key) { expanded, abbreviated } }

/-- The analyzer that works letter by letter, so that syllables are not separated. -/
def analyzer (d : Dictionary) : Analyzer where
  transcribe := d.ipa.apply
  transliterate? text target _ :=
    (d.transliterations.get? target.known).map fun table => table.apply text
  abbreviation? key keep :=
    (d.abbreviations.get? (lowercaseText key)).map fun entry =>
      if keep then entry.abbreviated else entry.expanded

end Dictionary

end Rubric
