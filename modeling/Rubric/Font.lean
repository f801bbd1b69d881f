/-
  Rubric — fonts and the text typed in them.

  Text in a legacy font is stored as the characters that were typed; the font
  draws other letters in their place.  Such a font is a map from the typed
  characters to the letters drawn.  A Unicode font draws what is stored.

  * `Font.convert`: the Unicode text of what is typed in a font, character by
    character;
  * `FontRegistry`: the known fonts by name, whatever its case;
    `FontRegistry.convert` takes a font that is not registered for a Unicode
    font.
-/
import Rubric.Index
import Rubric.Text.LetterCase

namespace Rubric

open Text

/-! ## Fonts -/

/-- What a font draws. -/
inductive Encoding where
  /-- Each character as it is. -/
  | unicode
  /-- The mapped text in place of a mapped character, other characters as they are. -/
  | legacy (map : Index Char String)

/-- A font with a name. -/
structure Font where
  name : String
  encoding : Encoding

namespace Font

/-- A Unicode font. -/
def unicode (name : String) : Font where
  name := name
  encoding := .unicode

/-- A legacy font; of two texts for one character the later one counts. -/
def legacy (name : String) (map : List (Char × String)) : Font where
  name := name
  encoding := .legacy (.ofList map)

/-- The font draws each character as it is. -/
def isUnicode (font : Font) : Bool :=
  match font.encoding with
  | .unicode => true
  | .legacy _ => false

/-- What the font draws for one typed character. -/
def draw (font : Font) (c : Char) : List Char :=
  match font.encoding with
  | .unicode => [c]
  | .legacy map => ((map.get? c).map String.toList).getD [c]

/-- The Unicode text of a text typed in the font. -/
def convert (font : Font) (text : String) : String :=
  match font.encoding with
  | .unicode => text
  | .legacy _ => String.ofList (text.toList.flatMap font.draw)

end Font

/-! ## Registered fonts -/

/-- The known fonts, by name in lowercase. -/
structure FontRegistry where
  fonts : Index String Font

namespace FontRegistry

/-- No fonts. -/
def empty : FontRegistry :=
  ⟨.empty⟩

/-- Adds a font, in place of any other of its name. -/
def insert (registry : FontRegistry) (font : Font) : FontRegistry :=
  ⟨registry.fonts.insert (lowercaseText font.name) font⟩

/-- The font of a name. -/
def get? (registry : FontRegistry) (name : String) : Option Font :=
  registry.fonts.get? (lowercaseText name)

/-- The Unicode text of a text typed in the named font. -/
def convert (registry : FontRegistry) (name text : String) : String :=
  match registry.get? name with
  | some font => font.convert text
  | none => text

end FontRegistry

end Rubric
