/-
  Rubric — the command pass.

  The command pass of a node reads its source, executes every command in it,
  and goes on to whatever the node depends on.  A command is executed once;
  its parameters first, except that the ternary and the language command
  execute their parameters themselves.

  * `Inline.execute`: executes the commands of an inline and gives the inline
    with their evaluations and the footnotes they made, in order; `handle` is
    the command pass of another node;
  * `Engine.commandPass`: the pass of one node over those of others;
  * `Engine.handleCommands n`: the pass of a node whose passes are nested at
    most `n` deep; deeper ones have no answer.
-/
import Rubric.Markup
import Rubric.Resolution.Effects

namespace Rubric

/-! ## Inlines -/

namespace Inline

mutual

/-- Executes the pending commands of an inline inside text with the tags `enclosing`. -/
def execute (handle : DefinitionId → Engine Unit) (scope : Scope) (enclosing : Tags) :
    Inline → Engine (Inline × List Footnote)
  | run text own => return (run text own, [])
  | span inlines own => do
    let (inlines, notes) ← executeList handle scope (own.inherit enclosing) inlines
    return (span inlines own, notes)
  | command name kind parameters own .pending =>
    let call : Invocation := { name, scope, tags := own.inherit enclosing }
    Engine.within (.command name) <|
      match kind, parameters with
      | .ternary, [condition, yes, no] => do
        let (condition, notes) ← condition.execute handle scope call.tags
        if ← call.conditionValue condition then
          let (yes, more) ← yes.execute handle scope call.tags
          return (command name .ternary [condition, yes, no] own (.evaluated (.parameter 1)),
            notes ++ more)
        else
          let (no, more) ← no.execute handle scope call.tags
          return (command name .ternary [condition, yes, no] own (.evaluated (.parameter 2)),
            notes ++ more)
      | .language, [tag, body] => do
        let (tag, notes) ← tag.execute handle scope call.tags
        let language ← call.languageOf (← Engine.text tag)
        let (body, more) ←
          body.execute handle scope { call.tags with language := some language }
        let output : Output := .inline (span [body] { language := some language })
        return (command name .language [tag, body] own (.evaluated output), notes ++ more)
      | .ternary, parameters => call.wrongCount "exactly 3" parameters
      | .language, parameters => call.wrongCount "exactly 2" parameters
      | kind, parameters => do
        let (parameters, notes) ← executeList handle scope call.tags parameters
        let effect ← call.run handle kind parameters
        return (command name kind parameters own (.of effect.output effect.footnote),
          notes ++ effect.footnote.toList)
  | command name kind parameters own evaluation =>
    return (command name kind parameters own evaluation, [])

/-- Executes the pending commands of inlines in order. -/
def executeList (handle : DefinitionId → Engine Unit) (scope : Scope) (enclosing : Tags) :
    List Inline → Engine (List Inline × List Footnote)
  | [] => return ([], [])
  | inline :: rest => do
    let (inline, notes) ← inline.execute handle scope enclosing
    let (rest, more) ← executeList handle scope enclosing rest
    return (inline :: rest, notes ++ more)

end

end Inline

/-! ## Nodes -/

namespace Context

/-- Changes the content of a stanza or a paragraph, or the title of a section. -/
def modifyContent (c : Context) (id : DefinitionId) (f : Content → Content) : Context :=
  c.modifyDefinition id fun d => { d with kind := match d.kind with
    | .stanza content => .stanza (f content)
    | .paragraph content => .paragraph (f content)
    | .section body => .section { body with title := body.title.map f }
    | other => other }

/-- Sets the target of a part reference. -/
def setTarget (c : Context) (id target : DefinitionId) : Context :=
  c.modifyDefinition id fun d => { d with kind := match d.kind with
    | .partReference reference => .partReference { reference with target := some target }
    | other => other }

end Context

namespace Engine

/-- Reads a source that belongs to a node and executes its commands.  The footnotes leave
    their place if all commands succeed. -/
def resolveSource (handle : DefinitionId → Engine Unit) (owner : DefinitionId)
    (source : String) : Engine (List Inline) := do
  let c ← get
  let inlines ← ofExcept (Markup.parse c.commands source)
  let tags ← ofOption (c.effectiveTags? owner)
  let document := (← definition owner).document
  let (inlines, notes) ← Inline.executeList handle { owner, document } tags inlines
  modify fun c => c.routeFootnotes document notes
  return inlines

/-- The command pass of a content that belongs to a node. -/
def resolveContent (handle : DefinitionId → Engine Unit) (id : DefinitionId)
    (content : Content) : Engine Unit :=
  match content.stage with
  | .unparsed => do
    let inlines ← resolveSource handle id content.source
    modify fun c => c.modifyContent id fun content => content.resolveCommands inlines
  | .commandsResolved _ | .fullyResolved _ => pure ()

/-- The command pass of a node, where `handle` is the pass of other nodes. -/
def commandPass (handle : DefinitionId → Engine Unit) (id : DefinitionId) : Engine Unit := do
  match (← definition id).kind with
  | .stanza content | .paragraph content => resolveContent handle id content
  | .section body =>
    runAll (body.title.toList.map (resolveContent handle id) ++ body.children.map handle)
  | .partReference reference =>
    match reference.target with
    | some target => handle target
    | none =>
      let target ← ofExcept
        ((← get).lookup reference.targetKey (← definition id).document)
      modify fun c => (c.addReference target id).setTarget id target
      handle target
  | .boolean _ | .integer _ | .multilingual _ => pure ()

/-- The command pass of a node, nested at most `n` deep. -/
def handleCommands : Nat → DefinitionId → Engine Unit
  | 0, _ => endless
  | n + 1, id => do
    nested (.commands id (← definition id).key) (commandPass (handleCommands n) id)

end Engine

end Rubric
