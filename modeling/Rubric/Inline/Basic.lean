/-
  Rubric — parsed text.

  An inline is a run of literal text, a span of inlines, or a command with one
  inline per parameter.  Execution does not replace a command; it records what
  the command evaluates to beside it.

  * `Inline`, with `Output` and `Evaluation`;
  * `Run` and `Footnote`: the literal text that multilingual values are made
    of, and the numbered text that leaves its place;
  * `Evaluation.output?`, `Evaluation.footnote?`.
-/
import Rubric.Inline.Tags
import Rubric.Command.Kind

namespace Rubric

/-- The place of a definition in its context. -/
structure DefinitionId where
  index : Nat
  deriving DecidableEq, Repr

/-- A definition is named by its number behind a hash sign. -/
def DefinitionId.toString (id : DefinitionId) : String :=
  s!"#{id.index}"

mutual

/-- A piece of parsed text. -/
inductive Inline where
  /-- Literal text. -/
  | run (text : String) (tags : Tags)
  /-- Inlines in order. -/
  | span (inlines : List Inline) (tags : Tags)
  /-- A command by its name as written, with its parameters. -/
  | command (name : String) (kind : CommandKind) (parameters : List Inline) (tags : Tags)
      (evaluation : Evaluation)

/-- How far a command is evaluated. -/
inductive Evaluation where
  /-- Not executed yet. -/
  | pending
  /-- Executed. -/
  | evaluated (output : Output)
  /-- Executed, with a footnote of the given number and body. -/
  | noted (output : Output) (number : Nat) (body : Inline)

/-- What an executed command stands for. -/
inductive Output where
  /-- The text of a definition. -/
  | definition (id : DefinitionId)
  /-- One of the command's own parameters, counted from zero. -/
  | parameter (index : Nat)
  /-- An inline of its own. -/
  | inline (inline : Inline)

end

/-! ## Runs and footnotes -/

/-- Literal text with its tags. -/
structure Run where
  text : String
  tags : Tags := {}
  deriving DecidableEq, Repr

/-- A run as a piece of parsed text. -/
def Run.toInline (r : Run) : Inline :=
  .run r.text r.tags

/-- A numbered text that is placed elsewhere. -/
structure Footnote where
  number : Nat
  body : Inline

/-! ## Parts -/

namespace Evaluation

/-- What the command stands for, once executed. -/
def output? : Evaluation → Option Output
  | pending => none
  | evaluated output => some output
  | noted output _ _ => some output

/-- The footnote of the command, if it has one. -/
def footnote? : Evaluation → Option Footnote
  | pending | evaluated _ => none
  | noted _ number body => some { number, body }

/-- The evaluation of an executed command. -/
def of (output : Output) : Option Footnote → Evaluation
  | none => evaluated output
  | some footnote => noted output footnote.number footnote.body

end Evaluation

namespace Inline

/-- Literal text without tags. -/
def text (s : String) : Inline :=
  run s .unset

/-- Literal Unicode text. -/
def unicode (s : String) (language : Option Language) : Inline :=
  run s (.unicode language)

/-- The tags of an inline. -/
def tags : Inline → Tags
  | run _ tags | span _ tags | command _ _ _ tags _ => tags

end Inline

end Rubric
