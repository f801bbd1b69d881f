/-
  Rubric — places in a text, given by their offset in bytes of UTF-8.

  * `byteSize cs`: the size of a text in these bytes;
  * `splitAtByte n cs`: the characters before and behind the offset; there is no such split if the
    offset falls inside a character or behind the end;
  * `slice? start stop cs`: the characters between two offsets;
  * `lineAt`: the line of a position, found by reading the text up to it;
  * `locate s n`: the number of the line, the line itself and the number of its characters before
    the offset.  An offset behind the end means the end.
-/

namespace Rubric.Text

/-- The size of a list of characters in bytes of UTF-8. -/
def byteSize : List Char → Nat
  | [] => 0
  | c :: cs => c.utf8Size + byteSize cs

/-- The characters before and behind a byte offset. -/
def splitAtByte : Nat → List Char → Option (List Char × List Char)
  | 0, cs => some ([], cs)
  | _ + 1, [] => none
  | n + 1, c :: cs =>
    if n + 1 < c.utf8Size then none
    else (splitAtByte (n + 1 - c.utf8Size) cs).map fun (before, behind) => (c :: before, behind)

/-- The characters between two byte offsets. -/
def slice? (start stop : Nat) (cs : List Char) : Option (List Char) := do
  let (before, _) ← splitAtByte stop cs
  let (_, between) ← splitAtByte start before
  return between

/-- The start of a line. -/
structure LineStart where
  /-- The byte offset of its first character. -/
  offset : Nat := 0
  /-- Its number, from one. -/
  number : Nat := 1

/-- The line of a position, for a text `cs` that begins at the byte offset `i` on a line that
    starts at `line`. -/
def lineAt (position : Nat) : Nat → LineStart → List Char → LineStart
  | _, line, [] => line
  | i, line, c :: cs =>
    if position ≤ i then line
    else
      lineAt position (i + c.utf8Size)
        (if c = '\n' then { offset := i + 1, number := line.number + 1 } else line) cs

/-- A place in a text: line number from one, the line, the characters before the place. -/
structure Location where
  line : Nat
  content : String
  column : Nat

/-- The place of a byte offset. -/
def locate (s : String) (offset : Nat) : Option Location := do
  let cs := s.toList
  let position := min offset (byteSize cs)
  let line := lineAt position 0 {} cs
  let (_, behind) ← splitAtByte line.offset cs
  let stop := line.offset + byteSize (behind.takeWhile (· != '\n'))
  let content ← slice? line.offset stop cs
  let before ← slice? line.offset position cs
  return { line := line.number, content := String.ofList content, column := before.length }

end Rubric.Text
