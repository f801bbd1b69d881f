/-
  Rubric — the program: reads its arguments and the text, prints the answer.
-/
import Rubric.CommandLine.Answer

open Rubric Rubric.Text Rubric.CommandLine

namespace Rubric.Program

/-- Why reading failed, by the number of the error, which some calls give with the
    opposite sign. -/
def failureOf (e : IO.Error) : ReadFailure :=
  match e with
  | .noFileOrDirectory .. => .missing
  | .inappropriateType _ code _ =>
    match min code (-code) with
    | 20 => .notFolder
    | 21 => .folder
    | _ => .other (toString e)
  | .invalidArgument _ code _ =>
    if min code (-code) = 36 then .nameTooLong else .other (toString e)
  | _ => .other (toString e)

/-- What reading a source yields. -/
def read : Source → IO (Except ReadFailure String)
  | .given text => return .ok text
  | .file path => attempt (IO.FS.readBinFile path)
  | .standardInput => do
    let input ← IO.getStdin
    attempt (remaining input)
where
  /-- The text of the bytes read, or why there is none. -/
  attempt (bytes : IO ByteArray) : IO (Except ReadFailure String) := do
    match ← bytes.toBaseIO with
    | .error e => return .error (failureOf e)
    | .ok bytes =>
      match String.fromUTF8? bytes with
      | some text => return .ok text
      | none => return .error .notText
  /-- All bytes of a stream. -/
  remaining (input : IO.FS.Stream) : IO ByteArray := do
    let mut bytes := ByteArray.empty
    let mut chunk ← input.read 65536
    repeat
      if chunk.isEmpty then break
      bytes := bytes ++ chunk
      chunk ← input.read 65536
    return bytes

/-- Styles are written where the output is a terminal or they are asked for. -/
def palette : IO Palette := do
  let wanted := (← IO.getEnv "CLICOLOR_FORCE").any (· != "0")
  let refused := (← IO.getEnv "NO_COLOR").isSome || (← IO.getEnv "CLICOLOR") == some "0"
  let terminal ← (← IO.getStdout).isTty
  return if wanted || (terminal && !refused) then .colored else .plain

end Rubric.Program

/-- Answers the arguments. -/
def main (arguments : List String) : IO UInt32 := do
  let source := (Request.read? arguments).bind Request.source?
  let text ← match source with
    | some source => Program.read source
    | none => pure (.ok "")
  match answer? (← Program.palette) (fun _ => text) arguments with
  | some answer =>
    IO.print answer.output
    IO.eprint answer.errors
    return answer.code.toUInt32
  | none => return 1
