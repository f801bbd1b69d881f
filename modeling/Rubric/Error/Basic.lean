/-
  Rubric — what can go wrong while a text is resolved.

  An error is a cause and the frames it passed through: the node passes and
  the commands that were under way, the outermost first.

  * `Cause`, with its `kind` and its `title`;
  * `Frame`, with what was being done (`Frame.action`);
  * `Error.within`: the error seen from one frame further out.
-/
import Rubric.Inline.Basic

namespace Rubric

/-! ## Causes -/

/-- The kinds of cause. -/
inductive ErrorKind where
  | parse
  | definitionNotFound
  | argument
  | unsupportedLanguage
  | unknownCommand
  | ordering
  | depthExceeded
  deriving DecidableEq, Repr

/-- The name of a kind. -/
def ErrorKind.toString : ErrorKind → String
  | parse => "parse error"
  | definitionNotFound => "definition not found"
  | argument => "argument error"
  | unsupportedLanguage => "unsupported language"
  | unknownCommand => "unknown command"
  | ordering => "ordering error"
  | depthExceeded => "depth exceeded"

/-- What went wrong. -/
inductive Cause where
  /-- The markup is malformed at a byte offset of the source. -/
  | parse (source : String) (position : Nat) (message : String)
  /-- Nothing is defined under the key. -/
  | definitionNotFound (key : String) (detail : Option String)
  /-- The command cannot work with its parameters. -/
  | argument (command : String) (title : String) (notes : List String)
  /-- No linguistic analyzer serves the language, or none of its tables the target. -/
  | unsupportedLanguage (language : String) (target : Option String)
  /-- No command has the name; some have a similar one, the closest first. -/
  | unknownCommand (name : String) (closeNames : List String)
  /-- The fonts of a node were to be converted before its commands were handled. -/
  | ordering (node : DefinitionId)
  /-- Resolution is nested deeper than the limit. -/
  | depthExceeded (limit : Nat)
  deriving DecidableEq, Repr

namespace Cause

/-- The kind of a cause. -/
def kind : Cause → ErrorKind
  | parse .. => .parse
  | definitionNotFound .. => .definitionNotFound
  | argument .. => .argument
  | unsupportedLanguage .. => .unsupportedLanguage
  | unknownCommand .. => .unknownCommand
  | ordering .. => .ordering
  | depthExceeded .. => .depthExceeded

/-- The one-line statement of a cause. -/
def title : Cause → String
  | parse _ _ message => message
  | definitionNotFound key _ => s!"no definition with key `{key}`"
  | argument _ title _ => title
  | unsupportedLanguage language none =>
    s!"no linguistic analyzer is registered for language `{language}`"
  | unsupportedLanguage language (some target) =>
    s!"no mapping from language `{language}` to language `{target}` is registered"
  | unknownCommand name _ => "unknown command \\" ++ name
  | ordering node =>
    s!"cannot remap fonts in node {node.toString}: its commands have not been handled"
  | depthExceeded limit => s!"resolution nested more than {limit} levels deep"

/-- A command got a number of parameters that it does not take. -/
def wrongCount (command expected : String) (actual : Nat) : Cause :=
  argument command s!"the \\{command} command expects {expected} parameters, got {actual}" []

end Cause

/-! ## Frames -/

/-- What was being done when an error passed. -/
inductive Frame where
  /-- The command pass of a node, with the node's key. -/
  | commands (node : DefinitionId) (key : Option String)
  /-- The font pass of a node, with the node's key. -/
  | fonts (node : DefinitionId) (key : Option String)
  /-- The execution of a command. -/
  | command (name : String)
  deriving DecidableEq, Repr

/-- A node by its number and key. -/
def Frame.describeNode (node : DefinitionId) : Option String → String
  | none => s!"node {node.toString}"
  | some key => s!"node {node.toString} (key `{key}`)"

/-- What was being done. -/
def Frame.action : Frame → String
  | commands node key => "handling commands in " ++ describeNode node key
  | fonts node key => "remapping fonts in " ++ describeNode node key
  | command name => "executing the command \\" ++ name

/-! ## Errors -/

/-- A cause and the frames it passed through, the outermost first. -/
structure Error where
  cause : Cause
  frames : List Frame
  deriving DecidableEq, Repr

namespace Error

/-- An error where it arises. -/
def ofCause (cause : Cause) : Error where
  cause := cause
  frames := []

/-- The error behind one more frame. -/
def within (e : Error) (frame : Frame) : Error :=
  { e with frames := frame :: e.frames }

end Error

end Rubric
