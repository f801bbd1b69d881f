/-
  Rubric — commands where they stand: what a command knows of its place, and
  what it can ask of it.

  * `Invocation`: the command's name, the node it stands in, and the tags in
    effect at it; `Effect`: what it stands for, with its footnote;
  * `Engine.text`, `Engine.normalizedText`: the texts of its parameters;
  * `readTruth`: the truth value that a text denotes;
  * `Invocation.lookup?`, `Invocation.use`, `Invocation.reject`.
-/
import Rubric.Context.Rendering
import Rubric.Resolution.Engine
import Rubric.Text.Blank
import Rubric.Text.Decimal

namespace Rubric

open Text

/-! ## Invocations -/

/-- A node whose text is being resolved, with its document. -/
structure Scope where
  owner : DefinitionId
  document : Option DocumentId

/-- A command in the text of a node, with the tags in effect. -/
structure Invocation where
  name : String
  scope : Scope
  tags : Tags

/-- What a command stands for, and its footnote. -/
structure Effect where
  output : Output
  footnote : Option Footnote := none

namespace Effect

/-- The text of a definition. -/
def definition (id : DefinitionId) : Effect :=
  { output := .definition id }

/-- An inline of the command's own. -/
def inline (i : Inline) : Effect :=
  { output := .inline i }

end Effect

/-! ## Texts -/

namespace Engine

/-- The text of an inline. -/
def text (inline : Inline) : Engine String := do
  ofOption ((← get).inlineText? inline)

/-- The Unicode text of segments; fonts that are not registered give warnings. -/
def normalize (segments : List Segment) : Engine String := do
  let c ← get
  set (c.warnAll (c.fonts.warnings segments))
  return c.fonts.normalize segments

/-- The Unicode text of an inline inside text with the tags `enclosing`. -/
def normalizedText (enclosing : Tags) (inline : Inline) : Engine String := do
  normalize (← ofOption ((← get).inlineSegments? enclosing inline))

end Engine

/-- The truth value that a text denotes: `true` and `false` in any case, integers by being
    other than zero. -/
def readTruth (s : String) : Option Bool :=
  let s := trim s
  if eqIgnoringAsciiCase s "true" then some true
  else if eqIgnoringAsciiCase s "false" then some false
  else (readInteger s).map (· != 0)

namespace Invocation

variable (call : Invocation)

/-- The command got a wrong number of parameters. -/
def wrongCount {α : Type} (expected : String) (parameters : List Inline) : Engine α :=
  Engine.fail (.wrongCount call.name expected parameters.length)

/-- The command cannot work with a parameter. -/
def reject {α : Type} (title : String) (notes : List String) : Engine α :=
  Engine.fail (.argument call.name title notes)

/-- The definition under a key, seen from the command. -/
def lookup? (key : String) : Engine (Option DefinitionId) := do
  return (← get).lookup? key call.scope.document

/-- Records that the command's node uses a definition. -/
def use (target : DefinitionId) : Engine Unit :=
  modify fun c => c.addReference target call.scope.owner

end Invocation

end Rubric
