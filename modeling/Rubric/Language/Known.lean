/-
  Rubric — the languages that texts and linguistic tables are made for.

  * `KnownLanguage.tag`: the tag a known language is written with;
  * `KnownLanguage.ofTag?`: the known language of a tag in any letter case, by
    its own tag or by an alias.
-/
import Rubric.Text.LetterCase

namespace Rubric

open Text

/-- A language with a name of its own. -/
inductive KnownLanguage where
  /-- Marks the version of a multilingual value that serves every other language. -/
  | default
  | coptic
  | greek
  | english
  | arabic
  | french
  | spanish
  | german
  | dutch
  | italian
  | latin
  | hebrew
  | aramaic
  | syriac
  | amharic
  | armenian
  /-- The International Phonetic Alphabet, the target of phonetic transcription. -/
  | ipa
  /-- Any language that is none of the others. -/
  | unknown
  deriving DecidableEq, Repr

namespace KnownLanguage

/-- The tag of the language. -/
def tag : KnownLanguage → String
  | default => "default"
  | coptic => "cop"
  | greek => "el"
  | english => "en"
  | arabic => "ar"
  | french => "fr"
  | spanish => "es"
  | german => "de"
  | dutch => "nl"
  | italian => "it"
  | latin => "la"
  | hebrew => "he"
  | aramaic => "arc"
  | syriac => "syc"
  | amharic => "am"
  | armenian => "hy"
  | ipa => "ipa"
  | unknown => "und"

/-- Every known language. -/
def all : List KnownLanguage :=
  [default, coptic, greek, english, arabic, french, spanish, german, dutch, italian, latin,
   hebrew, aramaic, syriac, amharic, armenian, ipa, unknown]

/-- Further tags that name a known language. -/
def aliases : List (String × KnownLanguage) :=
  [("grc", greek), ("gr", greek), ("cr", coptic), ("x-ipa", ipa)]

/-- The known language of a tag, whatever the case of its ASCII letters. -/
def ofTag? (tag : String) : Option KnownLanguage :=
  (all.find? fun language => eqIgnoringAsciiCase language.tag tag).or
    ((aliases.find? fun entry => eqIgnoringAsciiCase entry.1 tag).map (·.2))

end KnownLanguage

end Rubric
