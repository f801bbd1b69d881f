/-
  Rubric — when two languages are taken for the same.

  * `Equivalence.strict`: all subtags and scripts agree;
  * `Equivalence.wildcards`: what one side leaves open agrees with anything,
    and so does the wildcard language from its place on;
  * `Equivalence.languageOnly`: the spoken language agrees.

  Subtags are compared whatever the case of their ASCII letters.
-/
import Rubric.Language.Basic

namespace Rubric

open Text

/-- The strength of a comparison of languages. -/
inductive Equivalence where
  | strict
  | wildcards
  | languageOnly
  deriving DecidableEq, Repr

/-- The usual strength. -/
def Equivalence.standard : Equivalence :=
  .wildcards

/-! ## Subtags -/

/-- Two optional subtags are both absent or both present and alike. -/
def sameSubtag : Option String → Option String → Bool
  | none, none => true
  | some a, some b => eqIgnoringAsciiCase a b
  | _, _ => false

/-- Two optional subtags do not contradict each other. -/
def compatibleSubtag : Option String → Option String → Bool
  | some a, some b => eqIgnoringAsciiCase a b
  | _, _ => true

/-! ## Lects -/

namespace Lect

/-- The same language, known or by its subtag. -/
def sameLanguage (a b : Lect) : Bool :=
  if a.known = .unknown ∧ b.known = .unknown then eqIgnoringAsciiCase a.tag b.tag
  else a.known == b.known

/-- The same language, region and variant. -/
def same (a b : Lect) : Bool :=
  a.sameLanguage b && sameSubtag a.region b.region && sameSubtag a.variant b.variant

/-- The same language, with nothing in region and variant that contradicts it. -/
def compatible (a b : Lect) : Bool :=
  a.sameLanguage b && compatibleSubtag a.region b.region && compatibleSubtag a.variant b.variant

/-- Lects agree one by one, to the end of both lists. -/
def sameAll : List Lect → List Lect → Bool
  | [], [] => true
  | a :: as, b :: bs => a.same b && sameAll as bs
  | _, _ => false

/-- Lects do not contradict each other, up to the end of a list or a wildcard. -/
def compatibleAll : List Lect → List Lect → Bool
  | a :: as, b :: bs =>
    a.isWildcard || b.isWildcard || (a.compatible b && compatibleAll as bs)
  | _, _ => true

end Lect

/-! ## Languages -/

/-- Two languages are taken for the same at a given strength. -/
def Language.isEquivalent (equivalence : Equivalence) (a b : Language) : Bool :=
  match equivalence with
  | .strict => Lect.sameAll a.lects b.lects
  | .wildcards => Lect.compatibleAll a.lects b.lects
  | .languageOnly => a.lect.sameLanguage b.lect

end Rubric
