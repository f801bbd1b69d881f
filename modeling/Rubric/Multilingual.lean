/-
  Rubric — values in several languages.

  The value for a language is the first that matches it; failing that, the
  first that is tagged with the default language; there may be none.

  * `Multilingual.find?`, `Multilingual.findKnown?`: look-up by scanning a list;
  * `RunCollection`: runs with an index from each known language to its first
    run, which answers a look-up wherever the language alone decides.
-/
import Rubric.Index
import Rubric.Inline.Basic
import Rubric.Language.Equivalence

namespace Rubric

/-- Values that may be tagged with a language. -/
class Multilingual (α : Type) where
  /-- The language of a value. -/
  language? : α → Option Language

instance : Multilingual Run where
  language? run := run.tags.language

namespace Multilingual

variable {α : Type} [Multilingual α]

/-- The known language of a value. -/
def known? (item : α) : Option KnownLanguage :=
  (language? item).map Language.known

/-- The first value with the given known language. -/
def first? (items : List α) (known : KnownLanguage) : Option α :=
  items.find? fun item => known? item == some known

/-- The value for a known language. -/
def findKnown? (items : List α) (known : KnownLanguage) : Option α :=
  (first? items known).or (first? items .default)

/-- The value for a language. -/
def find? (items : List α) (equivalence : Equivalence) (language : Language) : Option α :=
  (items.find? fun item =>
    match language? item with
    | some l => l.isEquivalent equivalence language
    | none => false).or (first? items .default)

end Multilingual

/-! ## Runs -/

/-- Runs in order, with the position of the first run of each known language. -/
structure RunCollection where
  runs : Array Run
  positions : Index KnownLanguage Nat

namespace RunCollection

open Multilingual

/-- No runs. -/
def empty : RunCollection where
  runs := #[]
  positions := .empty

/-- Adds a run at the end. -/
def push (collection : RunCollection) (run : Run) : RunCollection where
  runs := collection.runs.push run
  positions :=
    match known? run with
    | some known => collection.positions.insertIfNew known collection.runs.size
    | none => collection.positions

/-- The collection of a list of runs. -/
def ofList (runs : List Run) : RunCollection :=
  runs.foldl push empty

/-- The run for a known language. -/
def findKnown? (collection : RunCollection) (known : KnownLanguage) : Option Run :=
  ((collection.positions.get? known).or (collection.positions.get? .default)).bind fun i =>
    collection.runs[i]?

/-- The run for a language.  The index answers where the known language alone decides. -/
def find? (collection : RunCollection) (equivalence : Equivalence) (language : Language) :
    Option Run :=
  if equivalence = .languageOnly ∧ language.known ≠ .unknown then
    collection.findKnown? language.known
  else Multilingual.find? collection.runs.toList equivalence language

end RunCollection

end Rubric
