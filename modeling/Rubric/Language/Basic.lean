/-
  Rubric — language identities.

  A lect is a language as people in one place speak it: a language with an
  optional region and an optional variant (dialect).  Text in a lect may be
  written in the script of another one; a language is a lect followed by the
  lects whose scripts it passed through, so Coptic in English letters is
  `cop/en`.

  * `Lect`, `Language`, and what a language is built from: `Language.ofKnown`,
    `Language.wildcard`, `withRegion`, `withVariant`, `withSecondary`;
  * `Language.secondary` and `Language.primary` take a language apart;
  * `Language.toString` writes its tag.
-/
import Rubric.Language.Known

namespace Rubric

/-! ## Lects -/

/-- A language with an optional region and an optional variant. -/
structure Lect where
  known : KnownLanguage
  /-- The language subtag: that of the known language, or the unknown language's own. -/
  tag : String
  region : Option String
  variant : Option String
  deriving DecidableEq, Repr

namespace Lect

/-- The lect of a known language, without region or variant. -/
def ofKnown (known : KnownLanguage) : Lect where
  known := known
  tag := known.tag
  region := none
  variant := none

/-- The lect of an unknown language with the given subtag. -/
def ofUnknown (tag : String) : Lect where
  known := .unknown
  tag := tag
  region := none
  variant := none

/-- The lect that stands for every language. -/
def wildcard : Lect :=
  ofUnknown "*"

/-- The lect stands for every language. -/
def isWildcard (l : Lect) : Bool :=
  l.tag == "*"

/-- A subtag behind its hyphen, if there is one. -/
def hyphenated : Option String → String
  | none => ""
  | some subtag => "-" ++ subtag

/-- The tag of a lect: language, region, variant. -/
def toString (l : Lect) : String :=
  l.tag ++ hyphenated l.region ++ hyphenated l.variant

end Lect

/-! ## Languages -/

/-- A lect, and the lects in whose scripts it is written, each written in the next. -/
structure Language where
  lect : Lect
  scripts : List Lect
  deriving DecidableEq, Repr

namespace Language

/-- A known language as it stands. -/
def ofKnown (known : KnownLanguage) : Language where
  lect := .ofKnown known
  scripts := []

/-- The language that stands for every language. -/
def wildcard : Language where
  lect := .wildcard
  scripts := []

/-- The language with the given region. -/
def withRegion (l : Language) (region : String) : Language :=
  { l with lect := { l.lect with region := some region } }

/-- The language with the given variant. -/
def withVariant (l : Language) (variant : String) : Language :=
  { l with lect := { l.lect with variant := some variant } }

/-- The language written in the script of another one. -/
def withSecondary (l script : Language) : Language :=
  { l with scripts := script.lect :: script.scripts }

/-- The language as spoken, in its own script. -/
def primary (l : Language) : Language :=
  { l with scripts := [] }

/-- The language in whose script the language is written. -/
def secondary (l : Language) : Option Language :=
  match l.scripts with
  | [] => none
  | lect :: scripts => some { lect, scripts }

/-- The known language that is spoken. -/
def known (l : Language) : KnownLanguage :=
  l.lect.known

/-- The language stands for every language. -/
def isWildcard (l : Language) : Bool :=
  l.lect.isWildcard

/-- All lects of a language, the spoken one first. -/
def lects (l : Language) : List Lect :=
  l.lect :: l.scripts

/-- The tag of a language: its lects, separated by slashes. -/
def toString (l : Language) : String :=
  "/".intercalate (l.lects.map Lect.toString)

end Language

end Rubric
