/-
  Rubric — reading markup.

      text     := (literal | command)*
      command  := backslash name group*
      name     := (alphanumeric | '_')+
      group    := '{' parameter ('|' parameter)* '}'
      parameter := (literal | command | '{' nested '}')*

  Consecutive groups give their command more parameters.  Inside a parameter,
  braces that do not follow a command are literal and hide the bars between
  them.  A backslash before any other character is literal; nothing is escaped.

  The reader takes one character after the other.  Its state holds the passage
  being read and, for each parameter group that is still open, the command it
  belongs to and the passage around that command.

  * `Reader.step` reads one character, `Reader.finish` ends the text;
  * `parse` reads a whole text: the first unknown name is an error, and so is
    a group that is open at the end; the innermost one is reported.
-/
import Rubric.Command.Registry
import Rubric.Text.Alphanumeric

namespace Rubric.Markup

open Text

/-- A character of a command name. -/
def isNameChar (c : Char) : Bool :=
  isAlphanumeric c || c == '_'

/-- The inline of one parameter: a command alone stays as it is. -/
def parameter : List Inline → Inline
  | [] => .text ""
  | [.command name kind parameters tags evaluation] =>
    .command name kind parameters tags evaluation
  | inlines => .span inlines .unset

/-! ## State -/

/-- What is read of a text or of a parameter. -/
structure Passage where
  /-- The inlines that are complete. -/
  inlines : Array Inline := #[]
  /-- The literal text behind them. -/
  literal : String := ""
  /-- The number of literal braces that are open. -/
  depth : Nat := 0

/-- The inlines of a passage with its literal text as one of them. -/
def Passage.inlinesWithLiteral (p : Passage) : Array Inline :=
  if p.literal.isEmpty then p.inlines else p.inlines.push (.text p.literal)

/-- The inlines of a passage that has ended. -/
def Passage.close (p : Passage) : List Inline :=
  p.inlinesWithLiteral.toList

/-- The passage with one more literal character. -/
def Passage.push (p : Passage) (c : Char) : Passage :=
  { p with literal := p.literal.push c }

/-- The passage with a command behind it. -/
def Passage.append (p : Passage) (inline : Inline) : Passage :=
  { p with inlines := p.inlinesWithLiteral.push inline, literal := "" }

/-- A parameter group that is open. -/
structure Group where
  /-- The byte offset of its brace. -/
  offset : Nat
  name : String
  kind : CommandKind
  /-- The parameters of the command that are complete. -/
  parameters : List Inline
  /-- The passage that the command stands in. -/
  outer : Passage

/-- What the reader expects. -/
inductive Mode where
  /-- Literal text or a command. -/
  | text
  /-- A name, behind a backslash. -/
  | backslash
  /-- The rest of a name. -/
  | name (letters : String)
  /-- A further group, behind a command. -/
  | command (name : String) (kind : CommandKind) (parameters : List Inline)

/-- The state of the reader. -/
structure Reader where
  mode : Mode := .text
  /-- What is read of the innermost open parameter, or of the text. -/
  passage : Passage := {}
  /-- The open groups, the innermost first. -/
  groups : List Group := []
  /-- The number of bytes read. -/
  offset : Nat := 0

namespace Reader

/-! ## One character -/

/-- Reads a literal character. -/
def literal (r : Reader) (c : Char) : Reader :=
  { r with mode := .text, passage := r.passage.push c }

/-- Reads a literal brace, after which `depth` literal braces are open. -/
def brace (r : Reader) (c : Char) (depth : Nat) : Reader :=
  { r with mode := .text, passage := { r.passage.push c with depth } }

/-- Ends a command. -/
def endCommand (r : Reader) (name : String) (kind : CommandKind) (parameters : List Inline) :
    Reader :=
  { r with mode := .text
           passage := r.passage.append (.command name kind parameters .unset .pending) }

/-- Reads a character of text. -/
def readText (r : Reader) (c : Char) : Reader :=
  if c = '\\' then { r with mode := .backslash }
  else match r.groups with
    | [] => r.literal c
    | group :: outer =>
      if c = '{' then
        r.brace c (r.passage.depth + 1)
      else if r.passage.depth > 0 then
        if c = '}' then r.brace c (r.passage.depth - 1) else r.literal c
      else if c = '|' then
        { r with
          passage := {}
          groups :=
            { group with parameters := group.parameters ++ [parameter r.passage.close] } :: outer }
      else if c = '}' then
        { r with
          mode := .command group.name group.kind
            (group.parameters ++ [parameter r.passage.close])
          passage := group.outer
          groups := outer }
      else r.literal c

/-- Reads a character behind a command: a brace opens a group of it. -/
def readCommand (r : Reader) (name : String) (kind : CommandKind) (parameters : List Inline)
    (c : Char) : Reader :=
  if c = '{' then
    { r with
      mode := .text
      passage := {}
      groups := { offset := r.offset, name, kind, parameters, outer := r.passage } :: r.groups }
  else (r.endCommand name kind parameters).readText c

/-- Reads a character, its size aside. -/
def read (commands : Commands) (r : Reader) (c : Char) : Except Cause Reader :=
  match r.mode with
  | .text => pure (r.readText c)
  | .backslash =>
    if isNameChar c then pure { r with mode := .name (String.singleton c) }
    else pure ((r.literal '\\').readText c)
  | .name letters =>
    if isNameChar c then pure { r with mode := .name (letters.push c) }
    else do
      let kind ← commands.kind letters
      pure (r.readCommand letters kind [] c)
  | .command name kind parameters => pure (r.readCommand name kind parameters c)

/-- Reads a character. -/
def step (commands : Commands) (r : Reader) (c : Char) : Except Cause Reader := do
  let offset := r.offset + c.utf8Size
  let next ← r.read commands c
  pure { next with offset }

/-! ## The end -/

/-- Ends what can end with the text. -/
def settle (commands : Commands) (r : Reader) : Except Cause Reader :=
  match r.mode with
  | .text => pure r
  | .backslash => pure (r.literal '\\')
  | .name letters => do
    let kind ← commands.kind letters
    pure (r.endCommand letters kind [])
  | .command name kind parameters => pure (r.endCommand name kind parameters)

/-- The inlines of a text that has ended. -/
def finish (commands : Commands) (source : String) (r : Reader) : Except Cause (List Inline) := do
  let r ← r.settle commands
  match r.groups with
  | [] => pure r.passage.close
  | group :: _ =>
    throw (.parse source group.offset
      s!"unterminated parameter group for the command \\{group.name}")

end Reader

/-- The inlines of a text. -/
def parse (commands : Commands) (source : String) : Except Cause (List Inline) := do
  let r ← source.toList.foldlM (Reader.step commands) {}
  r.finish commands source

end Rubric.Markup
