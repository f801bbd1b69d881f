/-
  Rubric — replacement tables.

  A table is applied from the left: where a key matches, whatever the case of
  its letters, the longest such key is replaced by its value; where none
  matches, one character is kept.

  * `Table.ofList` keeps the entries by descending length of key, entries of
    one length in their order; so the first key that matches is the longest;
  * `Table.match?`, `Table.replaceFrom`, `Table.apply`.
-/
import Rubric.Text.LetterCase

namespace Rubric

open Text

/-- Keys with the texts that replace them. -/
structure Table where
  /-- Keys in lowercase, longer ones first. -/
  entries : List (List Char × String) := []
  /-- What replaces a key that starts with an uppercase character is capitalized. -/
  preservesCase : Bool := false

namespace Table

/-- Descending order of the length of keys. -/
def longerFirst (a b : List Char × String) : Bool :=
  b.1.length ≤ a.1.length

/-- The table of a list of entries; of two with one key the earlier one counts. -/
def ofList (entries : List (String × String)) : Table where
  entries := (entries.map fun (key, value) => (key.toList.map lower, value)).mergeSort longerFirst

/-- The table that carries uppercase characters over. -/
def preservingCase (table : Table) : Table :=
  { table with preservesCase := true }

/-- The text starts with the key, whatever the case of its letters. -/
def starts : List Char → List Char → Bool
  | [], _ => true
  | _ :: _, [] => false
  | k :: key, c :: text => k == lower c && starts key text

/-- The first entry whose key the text starts with; an empty key matches nothing. -/
def match? (table : Table) (text : List Char) : Option (List Char × String) :=
  table.entries.find? fun entry => !entry.1.isEmpty && starts entry.1 text

/-- What replaces a key in a text where the key starts with the character `c`. -/
def replacement (table : Table) (c : Char) (value : String) : String :=
  if table.preservesCase && isUppercase c then capitalize value else value

/-- The text with the table applied, after `skip` characters that are replaced already. -/
def replaceFrom (table : Table) : Nat → List Char → List Char
  | _, [] => []
  | skip + 1, _ :: text => table.replaceFrom skip text
  | 0, c :: text =>
    match table.match? (c :: text) with
    | none => c :: table.replaceFrom 0 text
    | some (key, value) =>
      (table.replacement c value).toList ++ table.replaceFrom (key.length - 1) text

/-- The text with the table applied. -/
def apply (table : Table) (text : String) : String :=
  String.ofList (table.replaceFrom 0 text.toList)

end Table

end Rubric
