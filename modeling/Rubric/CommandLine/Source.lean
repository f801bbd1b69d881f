/-
  Rubric — where a text comes from, and what reading it yields.

  A path is walked name by name: from the root if it starts with a slash, else
  from the working folder.  An empty name and `.` stay, `..` goes one folder up,
  any other name has to be in the folder that is reached, and only the last name
  of a path may be that of a file.

  * `Source`: the places a text comes from; `ReadFailure`: why it cannot be read;
  * `Files.find`: the text at a path; `Files.read`: the text of a source.
-/
import Rubric.Text.Quoted

namespace Rubric.CommandLine

open Text

/-! ## Sources -/

/-- Where a text comes from. -/
inductive Source where
  | given (text : String)
  | file (path : String)
  | standardInput
  deriving DecidableEq, Repr

/-- Why a source cannot be read. -/
inductive ReadFailure where
  /-- There is no file or folder of that name. -/
  | missing
  /-- A name of the path stands behind that of a file. -/
  | notFolder
  /-- The path is that of a folder. -/
  | folder
  /-- The path or one of its names is too long. -/
  | nameTooLong
  /-- The bytes are not those of a text. -/
  | notText
  | other (reason : String)
  deriving DecidableEq, Repr

/-- The reason in words. -/
def ReadFailure.message : ReadFailure → String
  | missing => "No such file or directory (os error 2)"
  | notFolder => "Not a directory (os error 20)"
  | folder => "Is a directory (os error 21)"
  | nameTooLong => "File name too long (os error 36)"
  | notText => "stream did not contain valid UTF-8"
  | other reason => reason

/-- What is said of a source that cannot be read. -/
def Source.failure (e : ReadFailure) : Source → String
  | given _ => e.message
  | file path => s!"Failed to open file {quote path}: {e.message}"
  | standardInput => s!"Failed to read standard input: {e.message}"

/-! ## Files -/

/-- The files there are.  A file has a path: the names of the folders that lead to it from
    the root, and its own. -/
structure Files where
  texts : List (List String × String)
  /-- The path of the working folder. -/
  working : List String

namespace Files

/-- The bytes that a name may have. -/
def nameLimit : Nat := 255

/-- The bytes that a path may have. -/
def pathLimit : Nat := 4095

/-- A folder is the working folder, or it leads to that or to a file. -/
def isFolder (files : Files) (path : List String) : Bool :=
  path.isPrefixOf files.working || files.texts.any fun (other, _) => path.isPrefixOf other

/-- The text at the end of a walk from the folder `place`. -/
def walk (files : Files) (place : List String) : List String → Except ReadFailure String
  | [] => .error .folder
  | name :: names =>
    let next := place ++ [name]
    if name = "" ∨ name = "." then walk files place names
    else if name = ".." then walk files place.dropLast names
    else if nameLimit < name.utf8ByteSize then .error .nameTooLong
    else match files.texts.lookup next with
      | some text => if names.isEmpty then .ok text else .error .notFolder
      | none => if files.isFolder next then walk files next names else .error .missing

/-- The text at a path. -/
def find (files : Files) (path : String) : Except ReadFailure String :=
  if pathLimit < path.utf8ByteSize then .error .nameTooLong
  else
    let start := if path.toList.head? = some '/' then [] else files.working
    files.walk start ((path.toList.splitOn '/').map String.ofList)

/-- The text of a source, `input` being what is on the standard input. -/
def read (files : Files) (input : String) : Source → Except ReadFailure String
  | .given text => .ok text
  | .file path => files.find path
  | .standardInput => .ok input

end Files

end Rubric.CommandLine
