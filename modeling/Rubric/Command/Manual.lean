/-
  Rubric — the documentation of the built-in commands, one text per command.
  The first line of each says in short what the command does.
-/

namespace Rubric.Manual

/-- Documentation of `\true`. -/
def trueCommand : String :=
  "Insert the shared `True` definition"

/-- Documentation of `\false`. -/
def falseCommand : String :=
  "Insert the shared `False` definition"

/-- Documentation of `\def`. -/
def definition : String :=
  "Insert the text of another definition\n"
    ++ "\n"
    ++ "Usage: `\\def\x7bkey\x7d`\n"
    ++ "\n"
    ++ "The key is looked up in the scope of the current document first, and then in the global scope.\n"
    ++ "If the definition holds text with commands in it, those commands are handled first.\n"
    ++ "If the definition is a multilingual value, the value for the current language is inserted;\n"
    ++ "    if there is no value for the language, the default value is used.\n"

/-- Documentation of `\ternary`. -/
def ternary : String :=
  "Choose between two branches\n"
    ++ "\n"
    ++ "Usage: `\\ternary\x7bcondition|then|else\x7d`\n"
    ++ "\n"
    ++ "The condition is resolved first.\n"
    ++ "It is true if it is the `\\true` command or a boolean definition holding true,\n"
    ++ "    or if its text is `true` (in any case) or a non-zero integer.\n"
    ++ "It is false for `\\false`, `false` and `0`. Any other condition is an error.\n"
    ++ "Only the selected branch is resolved; commands in the other branch never run.\n"

/-- Documentation of `\lines`. -/
def lines : String :=
  "Join lines with a separator\n"
    ++ "\n"
    ++ "Usage: `\\lines\x7bseparator|line 1|line 2|...\x7d`\n"
    ++ "\n"
    ++ "If the separator is empty, the `defaultLineSeparator` definition is used;\n"
    ++ "    if it is a multilingual value, the value for the current language is used.\n"
    ++ "If there is no such definition, the separator from the settings is used.\n"

/-- Documentation of `\footnote`. -/
def footnote : String :=
  "Number a footnote\n"
    ++ "\n"
    ++ "Usage: `\\footnote\x7bbody\x7d` or `\\footnote\x7bannotated text|body\x7d`\n"
    ++ "\n"
    ++ "Footnotes are numbered from 1 in the order they are executed, per document.\n"
    ++ "The command renders as the annotated text followed by the mark `[n]`;\n"
    ++ "    the body is added to the document's list of footnotes.\n"

/-- Documentation of `\abv`. -/
def abbreviation : String :=
  "Expand an abbreviation\n"
    ++ "\n"
    ++ "Usage: `\\abv\x7bkey\x7d` or `\\abv\x7bkey|keep abbreviated\x7d`\n"
    ++ "\n"
    ++ "The key is looked up in the abbreviation dictionary of the current language.\n"
    ++ "If the second parameter is true, the abbreviated form is inserted instead of the expansion.\n"
    ++ "The inserted text keeps the language it is written in; unlike `\\ipa` and `\\trslit`,\n"
    ++ "    no secondary language is added.\n"

/-- Documentation of `\ipa`. -/
def phonetic : String :=
  "Transcribe text into the International Phonetic Alphabet\n"
    ++ "\n"
    ++ "Usage: `\\ipa\x7btext\x7d`\n"

/-- Documentation of `\trslit`. -/
def transliteration : String :=
  "Transliterate text into the script of another language\n"
    ++ "\n"
    ++ "Usage: `\\trslit\x7btarget language|text\x7d` or `\\trslit\x7btarget language|text|syllable separator\x7d`\n"
    ++ "\n"
    ++ "The result is tagged with the current language and the target as its secondary language.\n"

/-- Documentation of `\language`. -/
def language : String :=
  "Tag text with a language\n"
    ++ "\n"
    ++ "Usage: `\\language\x7btag|text\x7d`\n"
    ++ "\n"
    ++ "Commands in the text run with the given language in effect,\n"
    ++ "    so for example `\\ipa` uses the analyzer of that language.\n"

end Rubric.Manual
