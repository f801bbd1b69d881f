/-
  Rubric — the tables for Bohairic Coptic written in Unicode.

  * `Dictionary.coptic`: the sounds of the letters, their English
    transliteration, and the sacred names that are written abbreviated.
-/
import Rubric.Analyzer.Basic

namespace Rubric.Dictionary

/-- The mark over a letter that is a syllable of its own. -/
def jenkim : String :=
  "\u0300"

/-- The line over the letters of an abbreviation. -/
def overline : String :=
  "\u0305"

/-- English letters for the Coptic ones. -/
def copticEnglish : Table :=
  Table.preservingCase <| .ofList
    [("ⲟⲩ", "ou"), ("ⲁ", "a"), ("ⲃ", "v"), ("ⲅ", "g"), ("ⲇ", "d"), ("ⲉ", "e"), ("ⲍ", "z"),
     ("ⲏ", "ee"), ("ⲑ", "th"), ("ⲓ", "i"), ("ⲕ", "k"), ("ⲗ", "l"), ("ⲙ", "m"), ("ⲛ", "n"),
     ("ⲝ", "x"), ("ⲟ", "o"), ("ⲡ", "p"), ("ⲣ", "r"), ("ⲥ", "s"), ("ⲧ", "t"), ("ⲩ", "y"),
     ("ⲫ", "ph"), ("ⲭ", "kh"), ("ⲯ", "ps"), ("ⲱ", "o"), ("ϣ", "sh"), ("ϥ", "f"), ("ϧ", "kh"),
     ("ϩ", "h"), ("ϫ", "j"), ("ϭ", "ch"), ("ϯ", "ti"), (jenkim, ""), (overline, "")]

/-- The sounds of the Coptic letters. -/
def copticIpa : Table :=
  .ofList
    [("ⲟⲩ", "u"), ("ⲁ", "a"), ("ⲃ", "v"), ("ⲅ", "ɣ"), ("ⲇ", "d"), ("ⲉ", "e"), ("ⲍ", "z"),
     ("ⲏ", "iː"), ("ⲑ", "tʰ"), ("ⲓ", "i"), ("ⲕ", "k"), ("ⲗ", "l"), ("ⲙ", "m"), ("ⲛ", "n"),
     ("ⲝ", "ks"), ("ⲟ", "o"), ("ⲡ", "p"), ("ⲣ", "r"), ("ⲥ", "s"), ("ⲧ", "t"), ("ⲩ", "i"),
     ("ⲫ", "f"), ("ⲭ", "kʰ"), ("ⲯ", "ps"), ("ⲱ", "oː"), ("ϣ", "ʃ"), ("ϥ", "f"), ("ϧ", "x"),
     ("ϩ", "h"), ("ϫ", "dʒ"), ("ϭ", "tʃ"), ("ϯ", "ti"), (jenkim, ""), (overline, "")]

/-- Letters with a line over each. -/
def overlined (letters : List String) : String :=
  String.join (letters.map (· ++ overline))

/-- The tables and abbreviations of Coptic. -/
def coptic : Dictionary :=
  let tables : Dictionary := { ipa := copticIpa }
  tables
    |>.withTransliteration .english copticEnglish
    |>.withAbbreviation "lord" "ⲡϭⲟⲓⲥ" (overlined ["ⲡ", "ⲟ", "ⲥ"])
    |>.withAbbreviation "jesus" "ⲓⲏⲥⲟⲩⲥ" (overlined ["ⲓ", "ⲏ", "ⲥ"])
    |>.withAbbreviation "christ" "ⲡⲓⲭⲣⲓⲥⲧⲟⲥ" (overlined ["ⲡ", "ⲭ", "ⲥ"])
    |>.withAbbreviation "god" "ⲫⲛⲟⲩϯ" (overlined ["ⲫ", "ϯ"])

end Rubric.Dictionary
