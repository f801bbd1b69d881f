/-
  Rubric — the built-in legacy font, in the layout of the Coptic Standard
  fonts.

  Each Coptic letter is typed on a Latin key, capitals with the key's other
  character.  The jenkim and the overline are typed behind their letter.

  * `Font.shenouda`, and `FontRegistry.builtIn`, which holds it alone.
-/
import Rubric.Font

namespace Rubric

/-- The keys of the layout: small letter, capital letter, and what is drawn for each. -/
def Font.shenoudaKeys : List (Char × Char × Char × Char) :=
  [('a', 'A', 'ⲁ', 'Ⲁ'), ('b', 'B', 'ⲃ', 'Ⲃ'), ('g', 'G', 'ⲅ', 'Ⲅ'), ('d', 'D', 'ⲇ', 'Ⲇ'),
   ('e', 'E', 'ⲉ', 'Ⲉ'), ('z', 'Z', 'ⲍ', 'Ⲍ'), ('y', 'Y', 'ⲏ', 'Ⲏ'), (';', ':', 'ⲑ', 'Ⲑ'),
   ('i', 'I', 'ⲓ', 'Ⲓ'), ('k', 'K', 'ⲕ', 'Ⲕ'), ('l', 'L', 'ⲗ', 'Ⲗ'), ('m', 'M', 'ⲙ', 'Ⲙ'),
   ('n', 'N', 'ⲛ', 'Ⲛ'), ('x', 'X', 'ⲝ', 'Ⲝ'), ('o', 'O', 'ⲟ', 'Ⲟ'), ('p', 'P', 'ⲡ', 'Ⲡ'),
   ('r', 'R', 'ⲣ', 'Ⲣ'), ('c', 'C', 'ⲥ', 'Ⲥ'), ('t', 'T', 'ⲧ', 'Ⲧ'), ('u', 'U', 'ⲩ', 'Ⲩ'),
   ('v', 'V', 'ⲫ', 'Ⲫ'), (',', '<', 'ⲭ', 'Ⲭ'), ('\x27', '\x22', 'ⲯ', 'Ⲯ'), ('w', 'W', 'ⲱ', 'Ⲱ'),
   ('s', 'S', 'ϣ', 'Ϣ'), ('f', 'F', 'ϥ', 'Ϥ'), ('q', 'Q', 'ϧ', 'Ϧ'), ('h', 'H', 'ϩ', 'Ϩ'),
   ('j', 'J', 'ϫ', 'Ϫ'), ('[', '@', 'ϭ', 'Ϭ'), (']', '#', 'ϯ', 'Ϯ')]

/-- The marks of the layout: the jenkim and the overline. -/
def Font.shenoudaMarks : List (Char × String) :=
  [('\x60', "\u0300"), ('=', "\u0305")]

/-- The built-in legacy font. -/
def Font.shenouda : Font :=
  .legacy "CS Avva Shenouda" <|
    (shenoudaKeys.flatMap fun (small, capital, drawnSmall, drawnCapital) =>
      [(small, drawnSmall.toString), (capital, drawnCapital.toString)]) ++ shenoudaMarks

/-- The registry of the built-in fonts. -/
def FontRegistry.builtIn : FontRegistry :=
  empty.insert .shenouda

end Rubric
