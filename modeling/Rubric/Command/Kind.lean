/-
  Rubric — the kinds of command.  Every command name stands for one of them.

  * `CommandKind.resolvesOwnParameters`: of the other kinds, the parameters are
    executed before the command itself.
-/

namespace Rubric

/-- What a command does. -/
inductive CommandKind where
  /-- Inserts another definition. -/
  | definition
  /-- Inserts a shared truth value. -/
  | boolean
  /-- Chooses between two branches. -/
  | ternary
  /-- Joins lines with a separator. -/
  | lines
  /-- Numbers a footnote. -/
  | footnote
  /-- Expands an abbreviation. -/
  | abbreviation
  /-- Transcribes into the phonetic alphabet. -/
  | ipaTranscribe
  /-- Transliterates into another script. -/
  | transliterate
  /-- Tags text with a language. -/
  | language
  deriving DecidableEq, Repr

/-- The command decides itself which parameters are executed, and under which tags. -/
def CommandKind.resolvesOwnParameters : CommandKind → Bool
  | ternary | language => true
  | _ => false

end Rubric
