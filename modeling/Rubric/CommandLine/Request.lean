/-
  Rubric — what is asked for on the command line.

      doc [NAME]
      resolve [FILE] [-t TEXT] [-d KEY=VALUE]... [-l TAG] [-f FONT]
              [--line-separator TEXT] [--max-depth NUMBER]

  An option takes its value from the next argument, or from its own argument
  behind `=` or, for the one-letter name, directly behind the letter.  A value
  in an argument of its own starts with no hyphen, unless it is one hyphen.
  Options other than definitions are given once.  Behind `--` there are no
  options.

  * `OptionName.ofLong?`, `OptionName.ofShort?`: the options by name;
  * `ResolveRequest.set?`: a request with one more option, unless its value is
    refused;
  * `Request.read?`: the request of the arguments, unless they are refused.
-/
import Rubric.Text.Blank
import Rubric.Text.Decimal

namespace Rubric.CommandLine

open Text

/-! ## Requests -/

/-- A text to resolve, and what is known of it. -/
structure ResolveRequest where
  text : Option String := none
  file : Option String := none
  /-- Keys with the source texts they stand for. -/
  definitions : List (String × String) := []
  language : Option String := none
  font : Option String := none
  lineSeparator : Option String := none
  depthLimit : Option Nat := none
  deriving DecidableEq, Repr

/-- What is asked for. -/
inductive Request where
  /-- How the program is called. -/
  | usage
  /-- The documentation of all commands or of one. -/
  | doc (name : Option String)
  /-- The resolution of a text. -/
  | resolve (request : ResolveRequest)
  deriving DecidableEq, Repr

/-! ## Options -/

/-- An option with a value. -/
inductive OptionName where
  | text
  | define
  | language
  | font
  | lineSeparator
  | maxDepth
  deriving DecidableEq, Repr

/-- The option of a long name. -/
def OptionName.ofLong? : String → Option OptionName
  | "text" => some text
  | "define" => some define
  | "language" => some language
  | "font" => some font
  | "line-separator" => some lineSeparator
  | "max-depth" => some maxDepth
  | _ => none

/-- The option of a letter. -/
def OptionName.ofShort? : Char → Option OptionName
  | 't' => some text
  | 'd' => some define
  | 'l' => some language
  | 'f' => some font
  | _ => none

/-- A key and the source text it stands for.  Blank characters around the key do not count,
    and there has to be a key. -/
def readDefinition? (s : String) : Option (String × String) :=
  let key := trim (String.ofList (s.toList.takeWhile (· != '=')))
  match s.toList.dropWhile (· != '=') with
  | [] => none
  | _ :: value => if key.isEmpty then none else some (key, String.ofList value)

/-- A value where there is none yet. -/
def setOnce? {α : Type} (old : Option α) (value : α) : Option (Option α) :=
  if old.isSome then none else some (some value)

namespace ResolveRequest

/-- The request with one more option. -/
def set? (r : ResolveRequest) (name : OptionName) (value : String) : Option ResolveRequest :=
  match name with
  | .text => (setOnce? r.text value).map fun text => { r with text }
  | .define => (readDefinition? value).map fun d => { r with definitions := r.definitions ++ [d] }
  | .language => (setOnce? r.language value).map fun language => { r with language }
  | .font => (setOnce? r.font value).map fun font => { r with font }
  | .lineSeparator =>
    (setOnce? r.lineSeparator value).map fun lineSeparator => { r with lineSeparator }
  | .maxDepth => do
    let limit ← readNatural value
    return { r with depthLimit := ← setOnce? r.depthLimit limit }

/-- The request with a file, which has a name. -/
def setFile? (r : ResolveRequest) (path : String) : Option ResolveRequest :=
  if path.isEmpty then none else (setOnce? r.file path).map fun file => { r with file }

/-- A text is given in one way only. -/
def consistent (r : ResolveRequest) : Bool :=
  r.text.isNone || r.file.isNone

end ResolveRequest

/-! ## Arguments -/

/-- An argument by its form. -/
inductive Argument where
  /-- A value. -/
  | plain (value : String)
  /-- Two hyphens. -/
  | separator
  /-- Two hyphens and a name, and what stands behind an equals sign. -/
  | long (name : String) (value : Option String)
  /-- A hyphen and a letter, and what stands behind them. -/
  | short (letter : Char) (rest : List Char)
  deriving DecidableEq, Repr

/-- The form of an argument. -/
def Argument.ofString (s : String) : Argument :=
  match s.toList with
  | ['-', '-'] => separator
  | '-' :: '-' :: cs =>
    let name := String.ofList (cs.takeWhile (· != '='))
    match cs.dropWhile (· != '=') with
    | [] => long name none
    | _ :: value => long name (some (String.ofList value))
  | '-' :: letter :: rest => short letter rest
  | _ => plain s

/-- The value behind an option's letter: an equals sign before it does not count. -/
def attached? : List Char → Option String
  | [] => none
  | '=' :: value => some (String.ofList value)
  | value => some (String.ofList value)

namespace Request

/-- The arguments of `resolve`, where `awaiting` is the option whose value comes next, and
    `bare` says that there are no more options. -/
def readResolve (r : ResolveRequest) (bare : Bool) (awaiting : Option OptionName) :
    List String → Option Request
  | [] => if awaiting.isNone && r.consistent then some (.resolve r) else none
  | argument :: rest =>
    let set (name : OptionName) : Option String → Option Request
      | some value => (r.set? name value).bind fun r => readResolve r bare none rest
      | none => readResolve r bare (some name) rest
    let file : Option Request :=
      (r.setFile? argument).bind fun r => readResolve r bare none rest
    if bare then file
    else match awaiting, Argument.ofString argument with
      | some name, .plain value => set name (some value)
      | some _, _ => none
      | none, .plain _ => file
      | none, .separator => readResolve r true none rest
      | none, .long "help" none => some .usage
      | none, .long name value => (OptionName.ofLong? name).bind fun name => set name value
      | none, .short 'h' _ => some .usage
      | none, .short letter value =>
        (OptionName.ofShort? letter).bind fun name => set name (attached? value)

/-- The arguments of `doc`, where `bare` says that there are no more options. -/
def readDoc (name : Option String) (bare : Bool) : List String → Option Request
  | [] => some (.doc name)
  | argument :: rest =>
    let next : Option Request :=
      (setOnce? name argument).bind fun name => readDoc name bare rest
    if bare then next
    else match Argument.ofString argument with
      | .plain _ => next
      | .separator => readDoc name true rest
      | .long "help" none => some .usage
      | .long _ _ => none
      | .short 'h' _ => some .usage
      | .short _ _ => none

/-- The request of the arguments. -/
def read? : List String → Option Request
  | "doc" :: arguments => readDoc none false arguments
  | "resolve" :: arguments => readResolve {} false none arguments
  | ["help"] | ["help", "doc"] | ["help", "resolve"] | ["help", "help"] => some .usage
  | argument :: _ =>
    match Argument.ofString argument with
    | .long "help" none | .long "version" none | .short 'h' _ | .short 'V' _ => some .usage
    | _ => none
  | [] => none

end Request

end Rubric.CommandLine
