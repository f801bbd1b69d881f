/-
  Rubric — the report of an error as it is shown to the author of a text.

  A report has a title line, notes, and the frames with the innermost first.

  * `Note.render?`: a note in words, or a line of the source with a caret under
    a place; there is no such place inside a character;
  * `Cause.notes`, `Error.report?`.
-/
import Rubric.Error.Basic
import Rubric.Text.Blank
import Rubric.Text.Location
import Rubric.Text.Palette

namespace Rubric

open Text

/-! ## Notes -/

/-- A remark on an error. -/
inductive Note where
  /-- A remark in words. -/
  | text (words : String)
  /-- A byte offset in a source. -/
  | snippet (source : String) (position : Nat)
  deriving DecidableEq, Repr

/-- The text of a note. -/
def Note.render? (palette : Palette) : Note → Option String
  | text words => some words
  | snippet source position => (locate source position).map fun place =>
    s!"at line {place.line}, column {place.column + 1}:\n{place.content}\n"
      ++ String.ofList (List.replicate place.column ' ') ++ palette.alarm "^"

/-- What is remarked on a cause. -/
def Cause.notes (palette : Palette) : Cause → List Note
  | parse source position _ => [.snippet source position]
  | definitionNotFound _ detail =>
    .text "keys are looked up in the document's scope first and then in the global scope" ::
      detail.toList.map .text
  | argument _ _ notes => notes.map .text
  | unsupportedLanguage .. => []
  | unknownCommand _ closeNames =>
    closeNames.head?.toList.map fun name => .text ("did you mean \\" ++ palette.bold name ++ "?")
  | ordering _ => [.text "call `handle_commands` on the node before `handle_font`"]
  | depthExceeded _ => [.text "this usually means two definitions reference each other"]

/-! ## Reports -/

namespace Error

/-- The lines of one note in a report. -/
def noteLines (palette : Palette) (note : String) : String :=
  match lines (trimEnd note) with
  | [] => ""
  | first :: rest =>
    "  " ++ palette.bold "note:" ++ " " ++ first ++ "\n"
      ++ String.join (rest.map fun line => "        " ++ line ++ "\n")

/-- The lines of the frames in a report, the innermost first. -/
def frameLines (palette : Palette) (frames : List Frame) : String :=
  if frames.isEmpty then ""
  else palette.caption "Context:" ++ "\n"
    ++ String.join (frames.reverse.map fun frame => "  - while " ++ frame.action ++ "\n")

/-- The report of an error. -/
def report? (palette : Palette) (e : Error) : Option String :=
  ((e.cause.notes palette).mapM (Note.render? palette)).map fun notes =>
    palette.alarm "Error" ++ ": " ++ palette.bold e.cause.title ++ "\n"
      ++ String.join (notes.map (noteLines palette)) ++ frameLines palette e.frames

end Error

end Rubric
