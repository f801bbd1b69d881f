/-
  Rubric — reading decimal numbers of bounded size.

  A number is an optional sign and at least one ASCII digit, nothing else; one
  outside its bounds is refused.

  * `digits? cs`: the value of a non-empty list of digits;
  * `readInteger`: from -2^63 to 2^63 - 1, with either sign;
  * `readNatural`: from 0 to 2^64 - 1, with a plus sign at most.
-/

namespace Rubric.Text

/-- The value of a digit. -/
def digit? (c : Char) : Option Nat :=
  if '0' ≤ c ∧ c ≤ '9' then some (c.toNat - '0'.toNat) else none

/-- The value of the digits `cs` behind digits of value `n`. -/
def digitsFrom (n : Nat) : List Char → Option Nat
  | [] => some n
  | c :: rest => (digit? c).bind fun d => digitsFrom (10 * n + d) rest

/-- The value of a non-empty list of digits. -/
def digits? (cs : List Char) : Option Nat :=
  if cs.isEmpty then none else digitsFrom 0 cs

/-- The number of values of 63 bits. -/
def signedBound : Nat :=
  9223372036854775808

/-- The number of values of 64 bits. -/
def unsignedBound : Nat :=
  18446744073709551616

/-- A signed number that fits 64 bits. -/
def readInteger (s : String) : Option Int :=
  let value : Option Int := match s.toList with
    | '-' :: cs => (digits? cs).map fun n => -(n : Int)
    | '+' :: cs => (digits? cs).map fun n => (n : Int)
    | cs => (digits? cs).map fun n => (n : Int)
  value.filter fun v => decide (-(signedBound : Int) ≤ v ∧ v < (signedBound : Int))

/-- An unsigned number that fits 64 bits. -/
def readNatural (s : String) : Option Nat :=
  let value := match s.toList with
    | '+' :: cs => digits? cs
    | cs => digits? cs
  value.filter fun v => decide (v < unsignedBound)

end Rubric.Text
