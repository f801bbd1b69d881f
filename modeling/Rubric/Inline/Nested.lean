/-
  Rubric — the inlines inside an inline.

  * `Inline.nested i`: the inline itself and all inlines in it, each before
    those inside it: parts of a span, parameters, the output a command made,
    the body of its footnote;
  * `targets`: the definitions that executed commands stand for;
  * `footnotes`: the footnotes of executed commands.
-/
import Rubric.Inline.Basic

namespace Rubric.Inline

mutual

/-- The inline and all inlines in it. -/
def nested : Inline → List Inline
  | run text tags => [run text tags]
  | span inlines tags => span inlines tags :: nestedList inlines
  | command name kind parameters tags evaluation =>
    command name kind parameters tags evaluation ::
      (nestedList parameters ++ nestedEvaluation evaluation)

/-- The inlines of a list and all inlines in them. -/
def nestedList : List Inline → List Inline
  | [] => []
  | inline :: rest => inline.nested ++ nestedList rest

/-- The inlines in the output and in the footnote of an executed command. -/
def nestedEvaluation : Evaluation → List Inline
  | .pending => []
  | .evaluated output => nestedOutput output
  | .noted output _ body => nestedOutput output ++ body.nested

/-- The inlines in an output. -/
def nestedOutput : Output → List Inline
  | .definition _ | .parameter _ => []
  | .inline inline => inline.nested

end

/-- The definition that an executed command stands for. -/
def target? : Inline → Option DefinitionId
  | command _ _ _ _ evaluation =>
    match evaluation.output? with
    | some (.definition id) => some id
    | _ => none
  | _ => none

/-- The footnote of an executed command. -/
def footnote? : Inline → Option Footnote
  | command _ _ _ _ evaluation => evaluation.footnote?
  | _ => none

/-- The definitions that executed commands in the inlines stand for. -/
def targets (inlines : List Inline) : List DefinitionId :=
  (nestedList inlines).filterMap target?

/-- The footnotes of executed commands in the inlines. -/
def footnotes (inlines : List Inline) : List Footnote :=
  (nestedList inlines).filterMap footnote?

end Rubric.Inline
