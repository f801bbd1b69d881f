/-
  Rubric — what each kind of command does, once its parameters are executed.

  * `Invocation.run`: the effect of a command by its kind.
-/
import Rubric.Resolution.Insertion
import Rubric.Resolution.Linguistic

namespace Rubric.Invocation

variable (handle : DefinitionId → Engine Unit) (call : Invocation)

/-- What a command does with its executed parameters.  The kinds that execute their own
    parameters do not come here. -/
def run (kind : CommandKind) (parameters : List Inline) : Engine Effect :=
  match kind with
  | .definition => call.insertDefinition handle parameters
  | .boolean => call.insertBoolean
  | .lines => call.joinLines handle parameters
  | .footnote => call.addFootnote parameters
  | .abbreviation => call.expandAbbreviation parameters
  | .ipaTranscribe => call.transcribe parameters
  | .transliterate => call.transliterate parameters
  | .ternary => call.wrongCount "exactly 3" parameters
  | .language => call.wrongCount "exactly 2" parameters

end Rubric.Invocation
