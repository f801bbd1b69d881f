/-
  Rubric — the edit distance of two words: the least number of insertions,
  deletions and substitutions of single characters that turn one into the
  other.

  The distances from a prefix of the first word to all prefixes of the second
  form a row.  Two rows are kept.  A further character of the first word gives
  the next row; it is written over the row that is no longer needed, from left to
  right, and then the two change places.

  * `Rows.entry`, `Rows.fill`: one entry of the next row, and all of them;
  * `Rows.next`: the rows after one more character;
  * `editDistance a b`: the last entry of the last row.
-/

namespace Rubric.Text

/-- Two rows of distances to the prefixes of a word of `n` characters. -/
structure Rows (n : Nat) where
  /-- The row of what is read of the first word. -/
  previous : Vector Nat (n + 1)
  /-- The row that is written next. -/
  current : Vector Nat (n + 1)

namespace Rows

variable {n : Nat}

/-- The rows before the first character. -/
def start (n : Nat) : Rows n where
  previous := .ofFn fun j => j.val
  current := .replicate (n + 1) 0

/-- The entry behind column `j` of the row after the character `x`, where `current` is written up
    to that column. -/
def entry (b : Vector Char n) (x : Char) (previous current : Vector Nat (n + 1)) (j : Fin n) :
    Nat :=
  if x = b[j.val] then previous[j.val]
  else 1 + min (min previous[j.val] previous[j.val + 1]) current[j.val]

/-- Writes the row after the character `x`, which `i` characters come before. -/
def fill (b : Vector Char n) (x : Char) (i : Nat) (rows : Rows n) : Vector Nat (n + 1) :=
  Fin.foldl n (fun current j => current.set (j.val + 1) (entry b x rows.previous current j))
    (rows.current.set 0 (i + 1))

/-- The rows after one more character. -/
def next (b : Vector Char n) (rows : Rows n) (x : Char) (i : Nat) : Rows n where
  previous := rows.fill b x i
  current := rows.previous

end Rows

/-- The rows behind the first word. -/
def rowsOf (a b : List Char) : Rows b.length :=
  a.zipIdx.foldl (fun rows (x, i) => rows.next ⟨b.toArray, rfl⟩ x i) (.start b.length)

/-- The least number of single-character edits between two words. -/
def editDistance (a b : List Char) : Nat :=
  (rowsOf a b).previous[b.length]

end Rubric.Text
