/-
  Rubric — writing parsed text back as markup.

  Commands are written as they were read, whether they have been executed or
  not; consecutive parameter groups are written as one.

  * `Inline.source`, `Inline.sources`.
-/
import Rubric.Inline.Basic

namespace Rubric.Inline

/-- Parameters in braces, if there are any. -/
def group : List String → String
  | [] => ""
  | parameters => "\x7b" ++ "|".intercalate parameters ++ "\x7d"

mutual

/-- The markup of an inline. -/
def source : Inline → String
  | run text _ => text
  | span inlines _ => String.join (sources inlines)
  | command name _ parameters _ _ => "\\" ++ name ++ group (sources parameters)

/-- The markup of each inline of a list. -/
def sources : List Inline → List String
  | [] => []
  | inline :: rest => inline.source :: sources rest

end

end Rubric.Inline
