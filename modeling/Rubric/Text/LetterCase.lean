/-
  Rubric — letter case of text.

  A character may become several characters in the other case.  The lowercase
  form of a text depends on one context only: a capital sigma at the end of a
  word becomes a final sigma.

  * `isUppercase`, `lowercase`, `uppercase`: of one character;
  * `lowercaseText`: of a text, with the rule for the final sigma;
  * `capitalize`: the first character of a text in uppercase;
  * `foldAscii`, `eqIgnoringAsciiCase`: where only the ASCII letters are folded.
-/
import Rubric.Text.CaseTable

namespace Rubric.Text

/-! ## Characters -/

/-- An uppercase character of any script. -/
def isUppercase (c : Char) : Bool :=
  Stretch.holds CaseTable.uppercase c.toNat

/-- The image of a character under a mapping: an expansion, a shift, or itself. -/
def mapCase (expansions : List (Nat × List Nat)) (shifts : List Shift) (c : Char) : List Char :=
  match expansions.lookup c.toNat with
  | some images => images.map Char.ofNat
  | none => [((Shift.image? shifts c.toNat).map Char.ofNat).getD c]

/-- The lowercase form of a character. -/
def lowercase (c : Char) : List Char :=
  mapCase CaseTable.lowerExpansions CaseTable.toLower c

/-- The uppercase form of a character. -/
def uppercase (c : Char) : List Char :=
  mapCase CaseTable.upperExpansions CaseTable.toUpper c

/-- The first character of the lowercase form. -/
def lower (c : Char) : Char :=
  (lowercase c).headD c

/-! ## Texts -/

/-- Behind the characters that do not separate a letter from its word, a character with a
    case comes next. -/
def meetsCased (cs : List Char) : Bool :=
  match cs.dropWhile (fun c => Stretch.holds CaseTable.caseIgnorable c.toNat) with
  | [] => false
  | c :: _ => Stretch.holds CaseTable.cased c.toNat

/-- The lowercase form of the characters `cs`, where `before` are the characters before them,
    the nearest one first. -/
def lowercaseFrom (before : List Char) : List Char → List Char
  | [] => []
  | 'Σ' :: rest =>
    (if meetsCased before && !meetsCased rest then 'ς' else 'σ') ::
      lowercaseFrom ('Σ' :: before) rest
  | c :: rest => lowercase c ++ lowercaseFrom (c :: before) rest

/-- The lowercase form of a text. -/
def lowercaseText (s : String) : String :=
  String.ofList (lowercaseFrom [] s.toList)

/-- The text with its first character in uppercase. -/
def capitalize (s : String) : String :=
  match s.toList with
  | [] => s
  | c :: rest => String.ofList (uppercase c ++ rest)

/-! ## ASCII letters only -/

/-- The text with ASCII letters in lowercase. -/
def foldAscii (s : String) : String :=
  String.ofList (s.toList.map Char.toLower)

/-- The text with ASCII letters in uppercase. -/
def raiseAscii (s : String) : String :=
  String.ofList (s.toList.map Char.toUpper)

/-- Equality up to the case of ASCII letters. -/
def eqIgnoringAsciiCase (a b : String) : Bool :=
  foldAscii a == foldAscii b

end Rubric.Text
