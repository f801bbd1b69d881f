/-
  Rubric — computations that change a context.

  A computation starts from a context and ends with a value or an error, and
  in both cases with a context; what was changed before an error stays.  It
  may also have no answer, when it is endless or out of fuel.

  * `Engine`, with `Engine.fail`, `Engine.ofOption`, `Engine.attempt`;
  * `Engine.runAll`: all computations in order, then the first error;
  * `Engine.nested`: a node pass, one level deeper, under the depth limit.
-/
import Rubric.Context.Basic

namespace Rubric

/-- A computation on a context that may fail or have no answer. -/
abbrev Engine :=
  ExceptT Error (StateT Context Option)

namespace Engine

variable {α : Type}

/-- The answer of a computation from a context. -/
def answer? (x : Engine α) (c : Context) : Option (Except Error α × Context) :=
  x.run.run c

/-- No answer. -/
def endless : Engine α :=
  ExceptT.mk fun _ => none

/-- The value, or no answer if there is none. -/
def ofOption : Option α → Engine α
  | some a => pure a
  | none => endless

/-- An error where it arises. -/
def fail (cause : Cause) : Engine α :=
  throw (Error.ofCause cause)

/-- The value, or an error where it arises. -/
def ofExcept : Except Cause α → Engine α
  | .ok a => pure a
  | .error cause => fail cause

/-- Errors of the computation pass through the frame. -/
def within (frame : Frame) (x : Engine α) : Engine α :=
  tryCatch x fun e => throw (e.within frame)

/-- The error of a computation, if it ends with one. -/
def attempt (x : Engine Unit) : Engine (Option Error) :=
  tryCatch (do x; pure none) fun e => pure (some e)

/-- Runs all computations in order and ends with the first error of any. -/
def runAll : List (Engine Unit) → Engine Unit
  | [] => pure ()
  | x :: rest => do
    let first ← attempt x
    let later ← attempt (runAll rest)
    match first.or later with
    | none => pure ()
    | some e => throw e

/-! ## Nesting -/

/-- Goes one level deeper, unless the limit is reached. -/
def enter : Engine Unit := do
  let c ← get
  match c.settings.depthLimit with
  | some limit => if limit ≤ c.depth then fail (.depthExceeded limit)
  | none => pure ()
  modify fun c => { c with depth := c.depth + 1 }

/-- Comes back from one level deeper. -/
def leave : Engine Unit :=
  modify fun c => { c with depth := c.depth - 1 }

/-- A pass of a node, one level deeper.  An error in it passes through the frame; reaching
    the limit does not. -/
def nested (frame : Frame) (x : Engine Unit) : Engine Unit := do
  enter
  let e ← attempt (x.within frame)
  leave
  match e with
  | none => pure ()
  | some e => throw e

/-! ## Reading the context -/

/-- The definition of a number. -/
def definition (id : DefinitionId) : Engine Definition := do
  ofOption ((← get).definition? id)

end Engine

end Rubric
