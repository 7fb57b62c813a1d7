import SchemaSpec.Enumeration.Keys

/-!
# Value lists of enums

The value list of an enum is written in one of four forms: a hash in braces, a list in brackets, a
word list such as `%i(a b)`, or bare keyword arguments.  The form is the first in this order whose
opening occurs anywhere in the text behind the field name.

Lists in braces, brackets and parentheses may go on over several lines, as long as more of their own
brackets have been opened than closed (`gather`).

* `inner?`: the text between the first opening bracket and the closing one that matches it.
* `keywordKeys`, `extract`: the values of each form.
* `readValues`: the distinct values, in the order of their first occurrence.
* `gatherAt`, `readValuesAt`: the same for a list that starts in a line of a given number.
-/

namespace SchemaSpec
namespace EnumDecl

open Text Options

/-! ## Bracketed text over several lines -/

/-- How many more brackets a text opens than it closes. -/
def balance (opener closer : Char) (t : Text) : Int :=
  (t.count opener : Int) - t.count closer

/-- What the following lines add to a list with `depth` open brackets: their code, each after a
space, up to the line that closes the list or that goes on with a block. -/
def continuation (opener closer : Char) : (depth : Int) → List Text → Text
  | _, [] => []
  | depth, line :: rest =>
      if depth ≤ 0 then []
      else
        let code := stripComment (trim line)
        ' ' :: code ++
          (if hasPart (closer :: " do".toList) code then []
          else continuation opener closer (depth + balance opener closer code) rest)

/-- The text of a list that starts in `first` and may go on over the following lines. -/
def gather (opener closer : Char) (first : Text) (following : List Text) : Text :=
  first ++ continuation opener closer (balance opener closer first) following

/-- The text up to the bracket that closes the last open one; everything if there is none. -/
def untilClosed (opener closer : Char) : (depth : Nat) → Text → Text
  | _, [] => []
  | depth, c :: r =>
      if c = opener then c :: untilClosed opener closer (depth + 1) r
      else if c = closer then
        match depth with
        | d + 2 => c :: untilClosed opener closer (d + 1) r
        | _ => []
      else c :: untilClosed opener closer depth r

/-- The text between the first opening bracket and the closing one that matches it. -/
def inner? (opener closer : Char) (t : Text) : Option Text :=
  (cutAt? [opener] t).map (fun cut => untilClosed opener closer 1 cut.2)

/-! ## Lines counted from either end -/

/-- A line number outside a text. -/
structure LineError where
  deriving Repr, DecidableEq

/-- The message of a line number outside a text. -/
def LineError.message (_ : LineError) : Text :=
  "list index out of range".toList

/-- The lines that follow line `start`.  A negative number counts from the end, and the lines behind
such a place are followed by the whole text again. -/
def following (lines : List Text) (start : Int) : Except LineError (List Text) :=
  let next := start + 1
  if 0 ≤ next then .ok (lines.drop next.toNat)
  else if -next ≤ lines.length then .ok (lines.drop (lines.length - (-next).toNat) ++ lines)
  else .error ⟨⟩

/-- `gather` for a list that starts in line `start`; the line number matters only if the list goes
on. -/
def gatherAt (opener closer : Char) (first : Text) (lines : List Text) (start : Int) :
    Except LineError Text :=
  if balance opener closer first ≤ 0 then .ok first
  else (following lines start).map (gather opener closer first)

/-! ## The four forms -/

/-- Whether a letter behind a percent sign starts a word list. -/
def isWordListKind (c : Char) : Bool :=
  c == 'i' || c == 'w' || c == 'I' || c == 'W'

/-- Whether a bracket occurs that does not belong to a word list; `p` and `q` are the two characters
before the text. -/
def hasBareBracket (p q : Char) : Text → Bool
  | [] => false
  | c :: r => (c == '[' && !(p == '%' && isWordListKind q)) || hasBareBracket q c r

/-- The text from the bracket of a word list on, if the text starts with one. -/
def wordListHere? : Text → Option Text
  | '%' :: kind :: opener :: r =>
      if isWordListKind kind && (opener == '(' || opener == '[') then some (opener :: r) else none
  | _ => none

/-- The text from the bracket of the first word list on. -/
def wordList? : Text → Option Text
  | [] => none
  | c :: r => (wordListHere? (c :: r)).or (wordList? r)

/-- The bracket that closes a word list. -/
def wordListCloser (opener : Char) : Char :=
  if opener = '(' then ')' else ']'

/-- The keys of bare keyword arguments; options such as `_suffix: true` are no values. -/
def keywordKeys (rest : Text) : List Text :=
  (hashKeys rest).filter (fun key => key.head? != some '_')

/-- The words of a word list that starts with its bracket. -/
def wordListItems (list : Text) (following : List Text) : List Text :=
  match list with
  | [] => []
  | opener :: r =>
      let closer := wordListCloser opener
      fields ((inner? opener closer (gather opener closer (opener :: r) following)).getD [])

/-- All values of the list in `rest`, which may go on over the following lines. -/
def extract (rest : Text) (following : List Text) : List Text :=
  if rest.contains '\x7b' then
    hashKeys ((inner? '\x7b' '\x7d' (gather '\x7b' '\x7d' rest following)).getD [])
  else if hasBareBracket ' ' ' ' rest then
    listItems ((inner? '[' ']' (gather '[' ']' rest following)).getD [])
  else
    match wordList? rest with
    | some list => wordListItems list following
    | none => keywordKeys rest

/-- The distinct members of a list, in the order of their first occurrence. -/
def distinct : List Text → List Text
  | [] => []
  | v :: vs => v :: (distinct vs).filter (fun w => w != v)

/-- The distinct values of the list in `rest`, in the order of their first occurrence. -/
def readValues (rest : Text) (following : List Text) : List Text :=
  distinct (extract rest following)

/-- Whether the list in `rest` goes on over the following lines. -/
def goesOn (rest : Text) : Bool :=
  if rest.contains '\x7b' then 0 < balance '\x7b' '\x7d' rest
  else if hasBareBracket ' ' ' ' rest then 0 < balance '[' ']' rest
  else
    match wordList? rest with
    | some (opener :: r) => 0 < balance opener (wordListCloser opener) (opener :: r)
    | _ => false

/-- `readValues` for a list that starts in line `start`; the line number matters only if the list
goes on. -/
def readValuesAt (rest : Text) (lines : List Text) (start : Int) :
    Except LineError (List Text) :=
  if goesOn rest then (following lines start).map (readValues rest)
  else .ok (readValues rest [])

end EnumDecl
end SchemaSpec
