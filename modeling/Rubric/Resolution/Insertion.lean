/-
  Rubric — the commands that put text together: definitions, truth values,
  lines and footnotes.

  Each function takes the executed parameters of its command; `handle` is the
  command pass of another node.

  * `insertDefinition`, `insertBoolean`, `joinLines`, `addFootnote`;
  * `selectRun`: the run of a multilingual value for the language in effect;
  * `conditionValue`: the truth value of an executed condition.
-/
import Rubric.Context.Build
import Rubric.Inline.Nested
import Rubric.Resolution.Invocation

namespace Rubric.Invocation

open Text

variable (handle : DefinitionId → Engine Unit) (call : Invocation)

/-! ## Definitions -/

/-- The run of a multilingual value for the language in effect; it is Unicode unless it names
    a font of its own. -/
def selectRun (runs : RunCollection) (equivalence : Equivalence) : Option Run :=
  let run := match call.tags.language with
    | none => runs.findKnown? .default
    | some language => runs.find? equivalence language
  run.map fun run =>
    match run.tags.font with
    | .inherit => { run with tags := { run.tags with font := .cleared } }
    | .named _ | .cleared => run

/-- Inserts the definition under a key. -/
def insertDefinition : List Inline → Engine Effect
  | [parameter] => do
    let key := trim (← Engine.text parameter)
    let target ← Engine.ofExcept ((← get).lookup key call.scope.document)
    call.use target
    match (← Engine.definition target).kind with
    | .multilingual runs =>
      match call.selectRun runs (← get).settings.equivalence with
      | some run => return .inline run.toInline
      | none =>
        let language := (call.tags.language.map Language.toString).getD "default"
        Engine.fail (.definitionNotFound key (some
          s!"the definition has no value for language `{language}` and no default value"))
    | _ =>
      handle target
      return .definition target
  | parameters => call.wrongCount "exactly 1" parameters

/-! ## Truth values -/

/-- Inserts the shared definition of a truth value, which is made where there is none. -/
def insertBoolean : Engine Effect := do
  let value := eqIgnoringAsciiCase call.name "true"
  let key := if value then "True" else "False"
  let target ← shared key value (← call.lookup? key)
  call.use target
  return .definition target
where
  /-- The definition found under the key if it is a boolean, else a new global one. -/
  shared (key : String) (value : Bool) (found : Option DefinitionId) : Engine DefinitionId := do
    let c ← get
    match found with
    | some id =>
      match (c.definition? id).map Definition.kind with
      | some (.boolean _) => return id
      | _ => make key value
    | none => make key value
  /-- Adds a global boolean. -/
  make (key : String) (value : Bool) : Engine DefinitionId :=
    modifyGet fun c => c.addBoolean none key value

/-- The truth value of an executed condition: that of the boolean it stands for, else the one
    that its text denotes. -/
def conditionValue (condition : Inline) : Engine Bool := do
  match ← booleanOf condition with
  | some value => return value
  | none =>
    let text ← Engine.text condition
    match readTruth text with
    | some value => return value
    | none =>
      call.reject s!"the condition `{trim text}` is not a boolean"
        ["conditions are \\true, \\false, `true`, `false` or an integer"]
where
  /-- The value of the boolean definition that a command stands for. -/
  booleanOf (condition : Inline) : Engine (Option Bool) := do
    match condition.target? with
    | none => return none
    | some id =>
      match (← Engine.definition id).kind with
      | .boolean value => return some value
      | _ => return none

/-! ## Lines -/

/-- The key of the definition that separates lines. -/
def separatorKey : String :=
  "defaultLineSeparator"

/-- The separator where the command gives none. -/
def defaultSeparator : Engine Inline := do
  match ← call.lookup? separatorKey with
  | none => return fallback (← get)
  | some target =>
    call.use target
    match (← Engine.definition target).kind with
    | .multilingual runs =>
      let c ← get
      return ((call.selectRun runs c.settings.equivalence).map Run.toInline).getD (fallback c)
    | _ =>
      handle target
      let segments ← Engine.ofOption ((← get).segments? target)
      return .unicode (← Engine.normalize segments) none
where
  /-- The separator of the settings. -/
  fallback (c : Context) : Inline :=
    .unicode c.settings.lineSeparator none

/-- Joins lines with a separator. -/
def joinLines : List Inline → Engine Effect
  | separator :: lines => do
    let separator ← if (← Engine.text separator).isEmpty then call.defaultSeparator handle
      else pure separator
    return .inline (.span (lines.intersperse separator) .unset)
  | [] => call.wrongCount "at least 1" []

/-! ## Footnotes -/

/-- Numbers a footnote: the annotated text and the mark stay, the body leaves its place with
    the tags in effect there. -/
def addFootnote : List Inline → Engine Effect
  | [body] => note [] body
  | [annotated, body] => note [annotated] body
  | parameters => call.wrongCount "1 or 2" parameters
where
  /-- Takes the next number for a body behind the annotated text. -/
  note (annotated : List Inline) (body : Inline) : Engine Effect := do
    modify fun c => c.modifyFootnotes call.scope.document fun list =>
      { list with counter := list.counter + 1 }
    let number := ((← get).footnoteList call.scope.document).counter
    return {
      output := .inline (.span (annotated ++ [.unicode s!"[{number}]" none]) .unset)
      footnote := some { number, body := .span [body] call.tags } }

end Rubric.Invocation
