/-!
# Double precision numbers

A finite number is a sign, a mantissa below `2^53` and a power of two; zeros and subnormal numbers
have the least power, `-1074`.  All arithmetic is exact arithmetic on natural numbers, rounded once.
Powers are written with `Nat.pow`, so that they mean the same whatever else is imported.

* `roundDiv`: the integer nearest to a quotient, a tie going to the even neighbour.
* `ofRatio`: the double nearest to a fraction, a tie going to the even mantissa; a fraction too
  large for every double gives infinity.
* `sub`, `times`, `roundPlaces`: operations that round their exact result with `ofRatio`.
-/

namespace SchemaSpec

/-- A double precision number that is not a NaN. -/
inductive Binary64
  | finite (negative : Bool) (mantissa : Nat) (exponent : Int)
  | infinite (negative : Bool)
  deriving Repr, DecidableEq

namespace Binary64

/-- The least power of two of a mantissa. -/
def leastExponent : Int := -1074

/-- The greatest power of two of a mantissa. -/
def greatestExponent : Int := 971

/-- The positive zero. -/
def zero : Binary64 :=
  .finite false 0 leastExponent

instance : Inhabited Binary64 := ⟨zero⟩

/-- The integer nearest to `num / den`; a tie goes to the even neighbour. -/
def roundDiv (num den : Nat) : Nat :=
  let q := num / den
  let twice := 2 * (num % den)
  if twice < den then q
  else if den < twice then q + 1
  else if q % 2 = 0 then q
  else q + 1

/-- Numerator and denominator of `num / den / 2 ^ e`. -/
def shiftRatio (num den : Nat) (e : Int) : Nat × Nat :=
  if e < 0 then (num * Nat.pow 2 (-e).toNat, den) else (num, den * Nat.pow 2 e.toNat)

/-- The power of two at which the mantissa of `num / den` has 53 digits, or the least one. -/
def exponentOf (num den : Nat) : Int :=
  let guess : Int := (num.log2 : Int) - (den.log2 : Int) - 52
  let r := shiftRatio num den guess
  let e := if r.1 / r.2 < Nat.pow 2 52 then guess - 1 else guess
  if e < leastExponent then leastExponent else e

/-- The double nearest to `num / den`. -/
def ofRatio (negative : Bool) (num den : Nat) : Binary64 :=
  if num = 0 then .finite negative 0 leastExponent
  else
    let e := exponentOf num den
    let r := shiftRatio num den e
    let m := roundDiv r.1 r.2
    let normal := if m = Nat.pow 2 53 then (Nat.pow 2 52, e + 1) else (m, e)
    if greatestExponent < normal.2 then .infinite negative
    else .finite negative normal.1 normal.2

/-- The double nearest to the decimal `digits / 10 ^ places`. -/
def ofDecimal (negative : Bool) (digits places : Nat) : Binary64 :=
  ofRatio negative digits (Nat.pow 10 places)

/-- The double nearest to an integer. -/
def ofInt (n : Int) : Binary64 :=
  ofRatio (n < 0) n.natAbs 1

/-- Numerator and denominator of the absolute value of `m * 2 ^ e`. -/
def ratio (m : Nat) (e : Int) : Nat × Nat :=
  if e < 0 then (m, Nat.pow 2 (-e).toNat) else (m * Nat.pow 2 e.toNat, 1)

/-- A numerator with its sign. -/
def signedNum (negative : Bool) (n : Nat) : Int :=
  if negative then -(n : Int) else n

/-- The difference of two numbers.  Equal numbers give the positive zero, but for the negative zero
less the positive one. -/
def sub : Binary64 → Binary64 → Binary64
  | .infinite s, _ => .infinite s
  | .finite .., .infinite t => .infinite (!t)
  | .finite s m e, .finite t n f =>
      let a := ratio m e
      let b := ratio n f
      let num := signedNum s a.1 * b.2 - signedNum t b.1 * a.2
      ofRatio (num < 0 || (num == 0 && m == 0 && s && !t)) num.natAbs (a.2 * b.2)

/-- The product of a number and a natural number. -/
def times (k : Nat) : Binary64 → Binary64
  | .infinite s => .infinite s
  | .finite s m e => ofRatio s ((ratio m e).1 * k) (ratio m e).2

/-- The number with `places` decimal places nearest to a number, a tie going to the even one. -/
def roundPlaces (places : Nat) : Binary64 → Binary64
  | .infinite s => .infinite s
  | .finite s m e =>
      ofRatio s (roundDiv ((ratio m e).1 * Nat.pow 10 places) (ratio m e).2) (Nat.pow 10 places)

end Binary64
end SchemaSpec
