/-
  Rubric — the commands that a text may use, by name.

  * `Commands.builtIn`: the built-in commands; some have two names;
  * `Commands.kind`: what a name stands for, or the cause of the error with the
    names that are spelled alike;
  * `Commands.closeNames`: the names within a small edit distance, the closest
    first and equally close ones in order.
-/
import Rubric.Command.Kind
import Rubric.Command.Manual
import Rubric.Error.Basic
import Rubric.Index
import Rubric.Text.EditDistance

namespace Rubric

open Text

/-- A command with its documentation. -/
structure BuiltIn where
  kind : CommandKind
  doc : Option String
  deriving Repr

/-- The commands by name. -/
structure Commands where
  index : Index String BuiltIn

namespace Commands

/-- No commands. -/
def empty : Commands :=
  ⟨.empty⟩

/-- The built-in commands. -/
def builtIn : Commands :=
  let entry (name : String) (kind : CommandKind) (doc : String) : String × BuiltIn :=
    (name, { kind, doc := some doc })
  ⟨.ofList
    [entry "def" .definition Manual.definition,
     entry "true" .boolean Manual.trueCommand,
     entry "false" .boolean Manual.falseCommand,
     entry "ternary" .ternary Manual.ternary,
     entry "if" .ternary Manual.ternary,
     entry "lines" .lines Manual.lines,
     entry "footnote" .footnote Manual.footnote,
     entry "abv" .abbreviation Manual.abbreviation,
     entry "abbreviation" .abbreviation Manual.abbreviation,
     entry "ipa" .ipaTranscribe Manual.phonetic,
     entry "trslit" .transliterate Manual.transliteration,
     entry "transliterate" .transliterate Manual.transliteration,
     entry "language" .language Manual.language,
     entry "lang" .language Manual.language]⟩

/-- Adds a command, in place of any other of its name. -/
def insert (commands : Commands) (name : String) (command : BuiltIn) : Commands :=
  ⟨commands.index.insert name command⟩

/-- The command of a name. -/
def get? (commands : Commands) (name : String) : Option BuiltIn :=
  commands.index.get? name

/-- The number of names. -/
def size (commands : Commands) : Nat :=
  commands.index.size

/-- All names in ascending order. -/
def names (commands : Commands) : List String :=
  commands.index.keys.mergeSort fun a b => decide (a ≤ b)

/-! ## Unknown names -/

/-- The greatest edit distance of a name that is spelled like `name`. -/
def tolerance (name : String) : Nat :=
  max 2 (name.length / 3)

/-- Names with their distance: ascending by distance, then by name. -/
def closer (a b : Nat × String) : Bool :=
  decide (a.1 < b.1) || (a.1 == b.1 && decide (a.2 ≤ b.2))

/-- The names spelled like `name`, the closest first. -/
def closeNames (commands : Commands) (name : String) : List String :=
  let distances := commands.names.map fun other =>
    (editDistance name.toList other.toList, other)
  ((distances.filter fun entry => entry.1 ≤ tolerance name).mergeSort closer).map (·.2)

/-- The kind that a name stands for. -/
def kind (commands : Commands) (name : String) : Except Cause CommandKind :=
  match commands.get? name with
  | some command => .ok command.kind
  | none => .error (.unknownCommand name (commands.closeNames name))

end Commands

end Rubric
