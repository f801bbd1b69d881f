/-
  Rubric — the language and the font that a piece of text is tagged with.

  What is not set is taken from the text around, and in the end from the
  definition that owns the text.

  * `Tags.inherit own enclosing`: the tags in effect; `Tags.isComplete`: they are
    the own ones then;
  * `Tags.typedFont?`: the font whose characters still have to be converted; a
    transliterated text is never converted.
-/
import Rubric.Language.Basic

namespace Rubric

/-- What is known of the font of a text. -/
inductive FontTag where
  /-- The font of the text around. -/
  | inherit
  /-- The text is typed in this font. -/
  | named (name : String)
  /-- The text is Unicode, whatever the font around. -/
  | cleared
  deriving DecidableEq, Repr

/-- A language and a font. -/
structure Tags where
  language : Option Language := none
  font : FontTag := .inherit
  deriving DecidableEq, Repr

namespace Tags

/-- Nothing is set. -/
def unset : Tags :=
  {}

/-- The tags in effect for a text with the tags `own` inside a text with the tags
    `enclosing`. -/
def inherit (own enclosing : Tags) : Tags where
  language := own.language.or enclosing.language
  font := match own.font with
    | .inherit => enclosing.font
    | .named name => .named name
    | .cleared => .cleared

/-- Language and font are set; nothing is taken from the text around. -/
def isComplete (tags : Tags) : Bool :=
  tags.language.isSome && tags.font != .inherit

/-- The font that the text is typed in. -/
def fontName? (tags : Tags) : Option String :=
  match tags.font with
  | .named name => some name
  | .inherit | .cleared => none

/-- The text is written in the script of another language. -/
def isTransliterated (tags : Tags) : Bool :=
  match tags.language with
  | some language => language.secondary.isSome
  | none => false

/-- The font that the text has to be converted from. -/
def typedFont? (tags : Tags) : Option String :=
  if tags.isTransliterated then none else tags.fontName?

/-- Tags with the font cleared and a language. -/
def unicode (language : Option Language) : Tags where
  language := language
  font := .cleared

end Tags

end Rubric
