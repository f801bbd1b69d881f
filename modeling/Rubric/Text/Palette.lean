/-
  Rubric — styles of terminal output.

  A style is switched on by a control sequence and off by the reset sequence.
  A reset inside the styled text would end the style early, so the style is
  switched on again after each.

  * `Palette.plain` leaves every text as it is, `Palette.colored` styles it;
  * `bold`, `alarm` (bold bright red), `caption` (bold yellow).
-/

namespace Rubric.Text

/-- Whether styles are written. -/
inductive Palette where
  | plain
  | colored
  deriving DecidableEq, Repr

/-- The sequence that ends every style. -/
def resetSequence : List Char :=
  ['\x1b', '[', '0', 'm']

/-- The text with `start` repeated after each reset sequence. -/
def resumeAfterResets (start : List Char) : List Char → List Char
  | [] => []
  | '\x1b' :: '[' :: '0' :: 'm' :: rest => resetSequence ++ start ++ resumeAfterResets start rest
  | c :: rest => c :: resumeAfterResets start rest

/-- The text in the style that has the parameters `codes`. -/
def Palette.paint (palette : Palette) (codes : String) (s : String) : String :=
  match palette with
  | .plain => s
  | .colored =>
    let start := '\x1b' :: '[' :: codes.toList ++ ['m']
    String.ofList (start ++ resumeAfterResets start s.toList ++ resetSequence)

/-- Bold text. -/
def Palette.bold (palette : Palette) (s : String) : String :=
  palette.paint "1" s

/-- Bold text in bright red. -/
def Palette.alarm (palette : Palette) (s : String) : String :=
  palette.paint "1;91" s

/-- Bold text in yellow. -/
def Palette.caption (palette : Palette) (s : String) : String :=
  palette.paint "1;33" s

end Rubric.Text
