import SchemaSpec.Number.Binary64

/-!
# Shortest decimals

The shortest decimal that reads back as a given double, and of several the one nearest to it.

The reals that round to `m * 2 ^ e` form an interval around it, whose ends belong to it when `m` is
even.  For 1, 2, ... 17 digits, the two neighbours of the number on the grid of decimals with that
many digits are tried; the first grid with a neighbour in the interval wins, of two such neighbours
the nearer, of two equally near the even one.

* `shortest`: the digits, and the place of the decimal point before or behind them.
* `DecimalLayout`: how such digits are written out.
-/

namespace SchemaSpec
namespace Binary64

/-- Decimal digits without trailing zeros, and the power of ten just above the first of them: the
number is `0.d₁d₂... * 10 ^ point`. -/
structure DecimalDigits where
  digits : List Char
  point : Int
  deriving Repr, DecidableEq

/-- How many decimal digits a natural number has. -/
def digitCount (n : Nat) : Nat :=
  (Nat.toDigits 10 n).length

/-- Numerator and denominator of `r * 10 ^ k`. -/
def scaleTen (r : Nat × Nat) (k : Int) : Nat × Nat :=
  if k < 0 then (r.1, r.2 * Nat.pow 10 (-k).toNat) else (r.1 * Nat.pow 10 k.toNat, r.2)

/-- The power of ten just above a positive fraction that is at least `10 ^ (-400)`. -/
def decimalPoint (r : Nat × Nat) : Int :=
  (digitCount (r.1 * Nat.pow 10 400 / r.2) : Int) - 400

/-- The interval of the reals that round to `m * 2 ^ e`, in quarters of `2 ^ e`: its two ends, and
whether they belong to it. -/
def roundingInterval (m : Nat) (e : Int) : Nat × Nat × Bool :=
  let below := if m = Nat.pow 2 52 ∧ leastExponent < e then 1 else 2
  (4 * m - below, 4 * m + 2, m % 2 == 0)

/-- Whether `d * 10 ^ k` lies in the rounding interval of `m * 2 ^ e`. -/
def readsBack (m : Nat) (e : Int) (k : Int) (d : Nat) : Bool :=
  let i := roundingInterval m e
  let quarter := ratio 1 (e - 2)
  let x := scaleTen (d, 1) k
  let lhs := x.1 * quarter.2
  let lo := i.1 * quarter.1 * x.2
  let hi := i.2.1 * quarter.1 * x.2
  if i.2.2 then lo ≤ lhs && lhs ≤ hi else lo < lhs && lhs < hi

/-- The neighbour of `m * 2 ^ e` on the grid of the multiples of `10 ^ k` that reads back, the
nearer if both do. -/
def gridNeighbour? (m : Nat) (e : Int) (k : Int) : Option Nat :=
  let r := scaleTen (ratio m e) (-k)
  let down := r.1 / r.2
  match readsBack m e k down, readsBack m e k (down + 1) with
  | true, true => some (roundDiv r.1 r.2)
  | true, false => some down
  | false, true => some (down + 1)
  | false, false => none

/-- Try grids of `count`, `count + 1`, ... digits, at most `fuel` of them. -/
def shortestFrom (m : Nat) (e point : Int) : (fuel count : Nat) → Nat × Int
  | 0, _ => (0, 0)
  | fuel + 1, count =>
      match gridNeighbour? m e (point - count) with
      | some d => (d, point - count)
      | none => shortestFrom m e point fuel (count + 1)

/-- A list without its trailing zeros. -/
def stripZeros (ds : List Char) : List Char :=
  (ds.reverse.dropWhile (fun c => c == '0')).reverse

/-- The shortest decimal that reads back as `m * 2 ^ e`, for a positive mantissa. -/
def shortest (m : Nat) (e : Int) : DecimalDigits :=
  let found := shortestFrom m e (decimalPoint (ratio m e)) 17 1
  let ds := Nat.toDigits 10 found.1
  ⟨stripZeros ds, (ds.length : Int) + found.2⟩

/-- How a number is written out: positional notation is kept for points above `positionalAbove`
and up to `positionalUpTo`, and an exponent has at least `exponentDigits` digits. -/
structure DecimalLayout where
  positionalAbove : Int
  positionalUpTo : Int
  exponentDigits : Nat
  infinity : List Char
  deriving Repr, DecidableEq

/-- A natural number with at least `width` digits. -/
def padded (width n : Nat) : List Char :=
  let ds := Nat.toDigits 10 n
  List.replicate (width - ds.length) '0' ++ ds

namespace DecimalLayout

/-- Digits written out without a sign. -/
def writeDigits (layout : DecimalLayout) (d : DecimalDigits) : List Char :=
  if layout.positionalAbove < d.point ∧ d.point ≤ layout.positionalUpTo then
    if d.point ≤ 0 then
      ['0', '.'] ++ List.replicate (-d.point).toNat '0' ++ d.digits
    else if (d.digits.length : Int) ≤ d.point then
      d.digits ++ List.replicate (d.point.toNat - d.digits.length) '0' ++ ['.', '0']
    else
      d.digits.take d.point.toNat ++ ['.'] ++ d.digits.drop d.point.toNat
  else
    let e := d.point - 1
    d.digits.take 1
      ++ (if d.digits.length ≤ 1 then [] else '.' :: d.digits.drop 1)
      ++ ['e', if e < 0 then '-' else '+']
      ++ padded layout.exponentDigits e.natAbs

/-- A number written out. -/
def write (layout : DecimalLayout) : Binary64 → List Char
  | .infinite s => (if s then ['-'] else []) ++ layout.infinity
  | .finite s m e =>
      (if s then ['-'] else [])
        ++ (if m = 0 then ['0', '.', '0'] else layout.writeDigits (shortest m e))

end DecimalLayout

/-- Positional notation holds for decimal exponents from -4 to 15; beyond it an exponent has a sign
and at least two digits. -/
def plainLayout : DecimalLayout where
  positionalAbove := -4
  positionalUpTo := 16
  exponentDigits := 2
  infinity := ['i', 'n', 'f']

end Binary64
end SchemaSpec
