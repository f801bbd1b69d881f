/-
  Rubric — what the program answers to a request.

  A text is resolved as the last stanza of a document with one version;
  the definitions given with it are stanzas before it.  Its footnotes are
  printed behind it, one a line.

  * `Request.source?`: where the text of a request comes from;
  * `Request.answer?`: the answer, given the text of the source; there is none
    if the resolution is endless;
  * `answer?`: the answer to the arguments.
-/
import Rubric.CommandLine.Request
import Rubric.CommandLine.Source
import Rubric.Error.Report
import Rubric.Resolution.Fonts

namespace Rubric.CommandLine

open Text

/-! ## Sources -/

/-- The source of the text to resolve. -/
def ResolveRequest.source (r : ResolveRequest) : Source :=
  match r.text, r.file with
  | some text, _ => .given text
  | none, some path => .file path
  | none, none => .standardInput

/-! ## Answers -/

/-- The exit code and what is written to both streams. -/
structure Answer where
  code : Nat
  output : String := ""
  errors : String := ""
  deriving DecidableEq, Repr

namespace Answer

/-- A line of output. -/
def ofOutput (output : String) : Answer :=
  { code := 0, output := output ++ "\n" }

/-- A failure with a line on the stream of errors. -/
def failure (message : String) : Answer :=
  { code := 1, errors := message ++ "\n" }

/-- Refused arguments. -/
def refused : Answer :=
  { code := 2, errors := "The arguments are not understood; try --help\n" }

end Answer

/-- How the program is called. -/
def usage : String :=
  "Resolve liturgical texts with commands in them\n"
    ++ "\n"
    ++ "Usage:\n"
    ++ "  doc [NAME]      print the documentation of a command\n"
    ++ "  resolve [FILE]  resolve a text and print it with its footnotes\n"
    ++ "\n"
    ++ "Options of resolve:\n"
    ++ "  -t, --text TEXT          the text\n"
    ++ "  -d, --define KEY=VALUE   a definition; may be repeated\n"
    ++ "  -l, --language TAG       the language of the text\n"
    ++ "  -f, --font NAME          the font that the text is typed in\n"
    ++ "  --line-separator TEXT    separates lines\n"
    ++ "  --max-depth NUMBER       the limit of nested definitions"

/-! ## Documentation -/

/-- A line on each command, with an empty line where the first letter changes. -/
def overviewFrom (palette : Palette) (commands : Commands) (letter : Option Char) :
    List String → String
  | [] => ""
  | name :: names =>
    let doc := ((commands.get? name).bind BuiltIn.doc).getD ""
    let summary := String.ofList (doc.toList.takeWhile (· != '\n'))
    let first := name.toList.head?
    (if letter.isSome && letter != first then "\n" else "")
      ++ "\\" ++ palette.bold name ++ "  " ++ summary ++ "\n"
      ++ overviewFrom palette commands first names

/-- The documentation of all commands or of one, whose name may have backslashes before it. -/
def docAnswer (palette : Palette) : Option String → Answer
  | none => { code := 0, output := overviewFrom palette .builtIn none Commands.builtIn.names }
  | some name =>
    let name := String.ofList (name.toList.dropWhile (· == '\\'))
    match Commands.builtIn.get? name with
    | none => .failure ("Unknown command \\" ++ name)
    | some command =>
      .ofOutput ("\\" ++ palette.bold name ++ "  " ++ command.doc.getD "")

/-! ## Resolution -/

namespace ResolveRequest

/-- The settings of a request. -/
def settings (r : ResolveRequest) : Settings :=
  let standard : Settings := {}
  { standard with
    lineSeparator := r.lineSeparator.getD standard.lineSeparator
    depthLimit := r.depthLimit }

/-- The document, the stanza that holds the text, and the context they are in. -/
def load (r : ResolveRequest) (language : Language) (text : String) :
    DocumentId × DefinitionId × Context :=
  let (document, c) := (Context.new r.settings).addDocument "command-line" "Command line"
  let (root, c) := c.addVersion document language r.font
  let c := r.definitions.foldl (fun c (key, value) => (c.addStanza root (some key) value).2) c
  let (stanza, c) := c.addStanza root none (trimNewlines text)
  (document, stanza, c)

/-- Resolves the stanza and prints it with the footnotes of the document. -/
def print (document : DocumentId) (stanza : DefinitionId) : Engine String := do
  Engine.handleCommands Engine.ampleDepth stanza
  Engine.handleFonts Engine.ampleDepth stanza
  let c ← get
  let text ← Engine.ofOption (c.text? stanza)
  let notes ← (c.footnotes (some document)).mapM fun note => do
    return s!"\n[{note.number}] " ++ (← Engine.ofOption (c.inlineText? note.body))
  return text ++ String.join notes

/-- The answer to a request for resolution of the given text. -/
def answer? (palette : Palette) (r : ResolveRequest) (text : String) : Option Answer :=
  let tag := r.language.getD "en"
  match Language.read? tag with
  | none => some (.failure s!"`{tag}` is not a language tag")
  | some language =>
    let (document, stanza, c) := r.load language text
    match (print document stanza).answer? c with
    | none => none
    | some (.ok output, _) => some (.ofOutput output)
    | some (.error e, _) => (e.report? palette).map Answer.failure

end ResolveRequest

/-! ## The program -/

/-- Where the text of a request comes from, if it asks for the resolution of one. -/
def Request.source? : Request → Option Source
  | resolve r => some r.source
  | usage | doc _ => none

/-- The answer to a request, given what reading its source yields. -/
def Request.answer? (palette : Palette) (read : Source → Except ReadFailure String) :
    Request → Option Answer
  | usage => some (.ofOutput CommandLine.usage)
  | doc name => some (docAnswer palette name)
  | resolve r =>
    match read r.source with
    | .ok text => r.answer? palette text
    | .error e => some (.failure (r.source.failure e))

/-- The answer to the arguments, given what reading each source yields. -/
def answer? (palette : Palette) (read : Source → Except ReadFailure String)
    (arguments : List String) : Option Answer :=
  match Request.read? arguments with
  | some request => request.answer? palette read
  | none => some .refused

end Rubric.CommandLine
