/-
  Rubric — what may be set for the resolution of texts.
-/
import Rubric.Language.Equivalence

namespace Rubric

/-- The settings of a context. -/
structure Settings where
  /-- Separates lines where neither the command nor a definition gives a separator. -/
  lineSeparator : String := " / "
  /-- Separates syllables where a transliteration gives no separator. -/
  syllableSeparator : Option String := none
  /-- How languages are compared when a multilingual value is looked up. -/
  equivalence : Equivalence := .standard
  /-- Resolution nested deeper than this fails; without a limit it may be endless. -/
  depthLimit : Option Nat := none
  deriving DecidableEq, Repr

end Rubric
