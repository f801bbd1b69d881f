/-
  Rubric — reading language tags such as `cop`, `cop-boh`, `en-US`, `cop/en`.

  A tag is a list of lects separated by slashes.  The first subtag of a lect is
  the language; the first further subtag of two letters or three digits is the
  region, another one the variant; there is at most one of each.

  * `Lect.read?` reads one lect, `Language.read?` a whole tag;
  * `Language.read` says which tag is refused.
-/
import Rubric.Language.Basic
import Rubric.Text.Blank

namespace Rubric

open Text

/-! ## Lects -/

namespace Lect

/-- Subtags are separated by hyphens or underscores. -/
def isSeparator (c : Char) : Bool :=
  c == '-' || c == '_'

/-- A subtag of two ASCII letters or three ASCII digits names a region. -/
def isRegion (subtag : List Char) : Bool :=
  subtag.length == 2 && subtag.all Char.isAlpha || subtag.length == 3 && subtag.all Char.isDigit

/-- The lect of a language subtag. -/
def ofSubtag (subtag : String) : Lect :=
  if subtag = "*" then wildcard
  else match KnownLanguage.ofTag? subtag with
    | some known => ofKnown known
    | none => ofUnknown (foldAscii subtag)

/-- The lect with one more subtag, unless its place is taken. -/
def addSubtag? (l : Lect) (subtag : List Char) : Option Lect :=
  if subtag.isEmpty then none
  else if isRegion subtag && l.region.isNone then
    some { l with region := some (raiseAscii (String.ofList subtag)) }
  else if l.variant.isNone then
    some { l with variant := some (foldAscii (String.ofList subtag)) }
  else none

/-- The lect of a tag without slashes. -/
def read? (tag : List Char) : Option Lect :=
  match tag.splitOnP isSeparator with
  | [] | [] :: _ => none
  | language :: subtags => subtags.foldlM addSubtag? (ofSubtag (String.ofList language))

end Lect

/-! ## Languages -/

/-- A text that is no language tag. -/
structure InvalidTag where
  tag : String

/-- What is said of a text that is no language tag. -/
def InvalidTag.message (e : InvalidTag) : String :=
  s!"invalid language tag `{e.tag}`"

namespace Language

/-- The language of a tag.  Blank characters around the tag and behind a slash do not
    count. -/
def read? (tag : String) : Option Language :=
  match ((trim tag).toList.splitOn '/').mapM fun part => Lect.read? (part.dropWhile isBlank) with
  | some (lect :: scripts) => some { lect, scripts }
  | _ => none

/-- The language of a tag, or the tag that is refused. -/
def read (tag : String) : Except InvalidTag Language :=
  match read? tag with
  | some language => .ok language
  | none => .error { tag }

end Language

end Rubric
