/-
  Rubric — the commands that ask a linguistic analyzer: abbreviations, phonetic
  transcription and transliteration.

  The analyzer is that of the language in effect.  It is given Unicode text,
  and what it gives is Unicode.

  * `expandAbbreviation`, `transcribe`, `transliterate`;
  * `languageOf`: the language that a parameter is the tag of.
-/
import Rubric.Language.Tag
import Rubric.Resolution.Invocation

namespace Rubric.Invocation

open Text

variable (call : Invocation)

/-- The analyzer for the language in effect. -/
def analyzer : Engine Analyzer := do
  match call.tags.language with
  | none => Engine.fail (.unsupportedLanguage "und" none)
  | some language =>
    match (← get).analyzers.get? language.known with
    | some analyzer => return analyzer
    | none => Engine.fail (.unsupportedLanguage language.primary.toString none)

/-- Expands an abbreviation. -/
def expandAbbreviation : List Inline → Engine Effect
  | [key] => do expand (← Engine.text key) false
  | [key, keep] => do
    let keepText ← Engine.text keep
    match readTruth keepText with
    | some keep => expand (← Engine.text key) keep
    | none => call.reject s!"`{trim keepText}` is not a boolean" []
  | parameters => call.wrongCount "1 or 2" parameters
where
  /-- Looks an abbreviation up with the analyzer. -/
  expand (key : String) (keep : Bool) : Engine Effect := do
    let key := trim key
    match (← call.analyzer).abbreviation? key keep with
    | some text => return .inline (.unicode text call.tags.language)
    | none => Engine.fail (.definitionNotFound key
        (some "the key is not in the abbreviation dictionary of the language"))

/-- Text in the script of a target: of the language in effect if there is one, else of the
    target itself. -/
def written (text : String) (target : Language) : Inline :=
  .unicode text (some (match call.tags.language with
    | some language => language.primary.withSecondary target
    | none => target))

/-- Transcribes into the phonetic alphabet. -/
def transcribe : List Inline → Engine Effect
  | [parameter] => do
    let text ← Engine.normalizedText call.tags parameter
    let ipa := (← call.analyzer).transcribe text
    return .inline (call.written ipa (.ofKnown .ipa))
  | parameters => call.wrongCount "exactly 1" parameters

/-- The language that an executed parameter is the tag of. -/
def languageOf (tag : String) : Engine Language :=
  match Language.read? tag with
  | some language => pure language
  | none => call.reject s!"`{trim tag}` is not a language tag" []

/-- Transliterates into another script. -/
def transliterate : List Inline → Engine Effect
  | [target, parameter] => do
    let tag ← Engine.text target
    let text ← Engine.normalizedText call.tags parameter
    write tag text none
  | [target, parameter, separator] => do
    let tag ← Engine.text target
    let text ← Engine.normalizedText call.tags parameter
    let separator ← Engine.text separator
    write tag text (if separator.isEmpty then none else some separator)
  | parameters => call.wrongCount "2 or 3" parameters
where
  /-- Asks the analyzer for the text in the script of a target. -/
  write (tag text : String) (separator : Option String) : Engine Effect := do
    let target ← call.languageOf tag
    let separator := separator.or (← get).settings.syllableSeparator
    match (← call.analyzer).transliterate? text target separator with
    | some result => return .inline (call.written result target)
    | none =>
      let source := (call.tags.language.map fun language => language.primary.toString).getD ""
      Engine.fail (.unsupportedLanguage source (some target.toString))

end Rubric.Invocation
