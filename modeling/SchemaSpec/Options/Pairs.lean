import SchemaSpec.Options.Scan
import SchemaSpec.Text.Word

/-!
# Option pairs

An option list is a tail of `key: value` and `:key => value` pieces, separated by commas.  A key is
a word, bare or in double quotes before the colon, with a colon or in double quotes before the
arrow.  Other pieces are skipped.

* `pair?`: read one piece.
* `assign`: of two pairs with one key, the later value stands in the place of the earlier pair.
* `parse`: the pairs of a tail, in order.
-/

namespace SchemaSpec

/-- Keys with their raw values, each key once, in the order of their first occurrence. -/
abbrev OptionList := List (Text × Text)

namespace Options

open Text

/-- A word in double quotes, and the rest. -/
def quotedWord? : Text → Option (Text × Text)
  | '\x22' :: r =>
      match word? r with
      | some (w, '\x22' :: rest) => some (w, rest)
      | _ => none
  | _ => none

/-- A word with a colon before it, and the rest. -/
def symbolWord? : Text → Option (Text × Text)
  | ':' :: r => word? r
  | _ => none

/-- Read `key: value`. -/
def colonPair? (piece : Text) : Option (Text × Text) :=
  match (quotedWord? piece).or (word? piece) with
  | some (key, ':' :: value) => some (key, trim value)
  | _ => none

/-- Read `:key => value`. -/
def arrowPair? (piece : Text) : Option (Text × Text) :=
  match (symbolWord? piece).or (quotedWord? piece) with
  | some (key, rest) =>
      match trimStart rest with
      | '=' :: '>' :: value => some (key, trim value)
      | _ => none
  | none => none

/-- Read a piece as a pair. -/
def pair? (piece : Text) : Option (Text × Text) :=
  (colonPair? piece).or (arrowPair? piece)

/-- Set the value of a key: in its place if it is there, behind the others if not. -/
def assign (key value : Text) : OptionList → OptionList
  | [] => [(key, value)]
  | (k, v) :: ps => if k = key then (k, value) :: ps else (k, v) :: assign key value ps

/-- The list of the pairs given one after the other. -/
def ofPairs (pairs : List (Text × Text)) : OptionList :=
  pairs.foldl (fun ps p => assign p.1 p.2 ps) []

/-- The value of a key. -/
def get? (key : Text) (options : OptionList) : Option Text :=
  options.lookup key

/-- The pairs of a tail; it may start with commas. -/
def parse (tail : Text) : OptionList :=
  ofPairs ((splitTopLevel ((trim tail).dropWhile (fun c => c == ','))).filterMap pair?)

end Options
end SchemaSpec
