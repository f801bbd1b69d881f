/-
  Rubric — tables over code points.

  A character property is a sorted list of `Stretch`es (`first`, `first + step`,
  …, `last`); a character mapping is a sorted list of `Shift`s, stretches that
  are moved as a whole.

  * `Stretch.holds table n`: the code point `n` lies in a stretch of the table;
    the search ends at the first stretch that starts behind `n`;
  * `Shift.image? table n`: where the table moves `n`, if it does.
-/

namespace Rubric.Text

/-! ## Properties -/

/-- The code points `first`, `first + step`, … up to `last`. -/
structure Stretch where
  first : Nat
  last : Nat
  step : Nat

/-- Membership in one stretch. -/
def Stretch.contains (s : Stretch) (n : Nat) : Bool :=
  s.first ≤ n && n ≤ s.last && (n - s.first) % s.step == 0

/-- Membership in a table whose stretches are in ascending order and do not overlap. -/
def Stretch.holds : List Stretch → Nat → Bool
  | [], _ => false
  | s :: rest, n => if n < s.first then false else s.contains n || Stretch.holds rest n

/-! ## Mappings -/

/-- The code points `first`, `first + step`, … up to `last`, moved so that `first`
    becomes `image`. -/
structure Shift where
  first : Nat
  last : Nat
  step : Nat
  image : Nat

/-- Where a table whose stretches are in ascending order and do not overlap moves a code
    point. -/
def Shift.image? : List Shift → Nat → Option Nat
  | [], _ => none
  | s :: rest, n =>
    if n < s.first then none
    else if n ≤ s.last && (n - s.first) % s.step == 0 then some (s.image + (n - s.first))
    else Shift.image? rest n

end Rubric.Text
