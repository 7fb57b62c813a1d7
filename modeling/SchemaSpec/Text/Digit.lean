import SchemaSpec.Text.Basic

/-!
# Decimal digits

Every script writes its ten digits at consecutive code points, from its zero on.

* `digitValue?`: the value of a digit of any script.
* `toNat`: the number that a run of digits writes, whatever their scripts.
* `isInteger`, `isFraction`: digits with an optional minus sign, without and with a decimal point.
-/

namespace SchemaSpec
namespace Text

/-- The code points of the zeros of all scripts, in increasing order. -/
def zeroDigits : List Nat :=
  [
    48, 1632, 1776, 1984, 2406, 2534, 2662, 2790, 2918, 3046,
    3174, 3302, 3430, 3558, 3664, 3792, 3872, 4160, 4240, 6112,
    6160, 6470, 6608, 6784, 6800, 6992, 7088, 7232, 7248, 42528,
    43216, 43264, 43472, 43504, 43600, 44016, 65296, 66720, 68912, 69734,
    69872, 69942, 70096, 70384, 70736, 70864, 71248, 71360, 71472, 71904,
    72016, 72784, 73040, 73120, 92768, 92864, 93008, 120782, 120792, 120802,
    120812, 120822, 123200, 123632, 125264, 130032
  ]

/-- The value of a decimal digit. -/
def digitValue? (c : Char) : Option Nat :=
  (zeroDigits.find? (fun z => z ≤ c.toNat && c.toNat < z + 10)).map (fun z => c.toNat - z)

/-- Whether a character is a decimal digit of some script. -/
def isDigit (c : Char) : Bool :=
  (digitValue? c).isSome

/-- The number written by a text of digits. -/
def toNat (t : Text) : Nat :=
  t.foldl (fun n c => 10 * n + (digitValue? c).getD 0) 0

/-- Whether a text is a non-empty run of digits. -/
def isDigits (t : Text) : Bool :=
  !t.isEmpty && t.all isDigit

/-- A text without one leading minus sign, and whether it had one. -/
def signed : Text → Bool × Text
  | '-' :: r => (true, r)
  | t => (false, t)

/-- Whether a text is an optional minus sign followed by digits. -/
def isInteger (t : Text) : Bool :=
  isDigits (signed t).2

/-- The digits before and behind the decimal point of an unsigned fraction. -/
def fractionParts? (t : Text) : Option (Text × Text) :=
  match cutAt? ['.'] t with
  | some (whole, places) => if isDigits whole && isDigits places then some (whole, places) else none
  | none => none

/-- Whether a text is an optional minus sign, digits, a point and digits. -/
def isFraction (t : Text) : Bool :=
  (fractionParts? (signed t).2).isSome

end Text
end SchemaSpec
