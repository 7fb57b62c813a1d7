import SchemaSpec.Options.Pairs
import SchemaSpec.Text.Digit
import SchemaSpec.Number.Binary64

/-!
# Raw values

Readings of the raw value of an option.

* `unquote`: the contents of a string literal.
* `asFlag`, `asInteger`, `asSymbol`, `asGroup`: a boolean, the digits of an integer, the name of a
  symbol or string, the pairs of a braced list.
* `asLiteral`: a string, a boolean or a number.  Any other expression is no literal.  An integer
  literal may have at most `digitLimit` digits.
-/

namespace SchemaSpec

/-- A literal value: the default of a column. -/
inductive Literal
  | text (value : Text)
  | flag (value : Bool)
  | whole (value : Int)
  | real (value : Binary64)
  deriving Repr, DecidableEq

/-- An integer literal with too many digits. -/
structure LiteralError where
  digits : Nat
  deriving Repr, DecidableEq

namespace Options

open Text

/-- How many digits an integer literal may have. -/
def digitLimit : Nat := 4300

/-- Undo the escapes of a string literal.  An escaped quote or backslash stands for itself; in double
quotes the escapes of line feed, tab and carriage return give a space, so that a text stays on one
line; every other escape is kept as it is written. -/
def unescape (quote : Char) : Text → Text
  | [] => []
  | '\\' :: c :: r =>
      if c = '\\' ∨ c = quote then c :: unescape quote r
      else if quote = '\x22' ∧ (c = 'n' ∨ c = 't' ∨ c = 'r') then ' ' :: unescape quote r
      else '\\' :: c :: unescape quote r
  | c :: r => c :: unescape quote r

/-- The first character of a text of at least two characters, what lies between its ends, and the
last character. -/
def ends? : Text → Option (Char × Text × Char)
  | c :: d :: r => some (c, (d :: r).dropLast, (d :: r).getLast (List.cons_ne_nil d r))
  | _ => none

/-- The contents of a string literal; the quotes are its first and last characters. -/
def unquote (raw : Text) : Option Text :=
  match ends? (trim raw) with
  | some (q, body, e) => if isQuote q && e == q then some (unescape q body) else none
  | none => none

/-- A boolean, written exactly so. -/
def asFlag (raw : Text) : Option Bool :=
  if raw = "true".toList then some true
  else if raw = "false".toList then some false
  else none

/-- The text of an integer. -/
def asInteger (raw : Text) : Option Text :=
  if isInteger (trim raw) then some (trim raw) else none

/-- The name of a symbol, or the contents of a string literal. -/
def asSymbol (raw : Text) : Option Text :=
  match symbolWord? (trim raw) with
  | some (w, []) => some w
  | _ => unquote raw

/-- The pairs of a list in braces; anything else has none. -/
def asGroup (raw : Text) : OptionList :=
  let t := trim raw
  if t.head? = some '\x7b' ∧ t.getLast? = some '\x7d' then parse (t.drop 1).dropLast else []

/-- The number written by an integer text. -/
def integerValue (t : Text) : Except LiteralError Int :=
  let s := signed t
  if digitLimit < s.2.length then .error ⟨s.2.length⟩
  else .ok (if s.1 then -(toNat s.2 : Int) else toNat s.2)

/-- The double nearest to a fraction text. -/
def fractionValue? (t : Text) : Option Binary64 :=
  (fractionParts? (signed t).2).map (fun parts =>
    Binary64.ofDecimal (signed t).1 (toNat (parts.1 ++ parts.2)) parts.2.length)

/-- A literal value, if the raw value is one. -/
def asLiteral (raw : Text) : Except LiteralError (Option Literal) :=
  let t := trim raw
  match unquote t with
  | some s => .ok (some (.text s))
  | none =>
      match asFlag t with
      | some b => .ok (some (.flag b))
      | none =>
          if isInteger t then (integerValue t).map (fun n => some (.whole n))
          else .ok ((fractionValue? t).map .real)

end Options

/-- The message of an oversized integer literal. -/
def LiteralError.message (e : LiteralError) : Text :=
  "Exceeds the limit (".toList ++ Text.ofNat Options.digitLimit
    ++ " digits) for integer string conversion: value has ".toList ++ Text.ofNat e.digits
    ++ " digits; use sys.set_int_max_str_digits() to increase the limit".toList

end SchemaSpec
