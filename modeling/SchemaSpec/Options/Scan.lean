import SchemaSpec.Text.Blank

/-!
# Scanning code with strings and groups

The option lists of a schema listing are code: string literals and bracket groups are opaque to the
separators around them.

**State.**  A scan knows whether it is inside a string, and if so with which quote and whether a
backslash has just been read, and how many groups are open.  Brackets are only counted, not paired;
a closing bracket without an opening one changes nothing.  A backslash means something inside
strings only.

* `pieces`: cut a text at the separators that stand outside strings and groups.
* `splitTopLevel`: the trimmed non-empty pieces between top-level commas.
* `skipParenthesis`: the text behind the opening parenthesis of an argument list, if it has one.
* `stripComment`: a line without the comment that starts outside its strings.
-/

namespace SchemaSpec
namespace Options

open Text

/-- Whether a character starts and ends string literals. -/
def isQuote (c : Char) : Bool :=
  c == '\x22' || c == '\x27'

/-- Whether a character opens a group. -/
def isOpener (c : Char) : Bool :=
  c == '\x7b' || c == '[' || c == '('

/-- Whether a character closes a group. -/
def isCloser (c : Char) : Bool :=
  c == '\x7d' || c == ']' || c == ')'

/-- Where a scan is with respect to string literals. -/
inductive Lexical
  | code
  | literal (quote : Char) (escaped : Bool)
  deriving Repr, DecidableEq

/-- The place behind one more character. -/
def Lexical.next : Lexical → Char → Lexical
  | .code, c => if isQuote c then .literal c false else .code
  | .literal q true, _ => .literal q false
  | .literal q false, c =>
      if c = '\\' then .literal q true
      else if c = q then .code
      else .literal q false

/-- The state of a scan: the place with respect to strings, and the number of open groups. -/
structure Scan where
  place : Lexical
  depth : Nat
  deriving Repr, DecidableEq

namespace Scan

/-- The state at the start of a text. -/
def start : Scan := ⟨.code, 0⟩

/-- The state behind one more character. -/
def step (s : Scan) (c : Char) : Scan :=
  match s.place with
  | .literal _ _ => ⟨s.place.next c, s.depth⟩
  | .code =>
      if isOpener c then ⟨.code, s.depth + 1⟩
      else if isCloser c then ⟨.code, s.depth - 1⟩
      else ⟨s.place.next c, s.depth⟩

/-- The state behind a text. -/
def run (s : Scan) (t : Text) : Scan :=
  t.foldl step s

/-- Whether a character is a separator in this state: outside strings and groups, and neither a
quote nor a bracket. -/
def separates (sep : Char → Bool) (s : Scan) (c : Char) : Bool :=
  s == start && sep c && !(isQuote c || isOpener c || isCloser c)

/-- The pieces between the separators of a text, read from a state on. -/
def pieces (sep : Char → Bool) : Scan → Text → List Text
  | _, [] => [[]]
  | s, c :: r =>
      if s.separates sep c then [] :: pieces sep s r
      else extendHead c (pieces sep (s.step c) r)

end Scan

/-- The trimmed non-empty pieces between the top-level separators of a class. -/
def splitTopLevelBy (sep : Char → Bool) (t : Text) : List Text :=
  ((Scan.start.pieces sep t).map trim).filter (fun piece => !piece.isEmpty)

/-- The trimmed non-empty pieces between top-level commas. -/
def splitTopLevel (t : Text) : List Text :=
  splitTopLevelBy (fun c => c == ',') t

/-- The text without one opening parenthesis and the blanks around it. -/
def skipParenthesis (t : Text) : Text :=
  match trimStart t with
  | '(' :: r => trimStart r
  | r => r

/-- The part of a line before the comment sign that stands outside strings, if there is one. -/
def beforeComment? : Lexical → Text → Option Text
  | _, [] => none
  | s, c :: r =>
      if s = .code ∧ c = '#' then some []
      else (beforeComment? (s.next c) r).map (c :: ·)

/-- A line without its comment and the blanks before it; a line without a comment stays as it is. -/
def stripComment (line : Text) : Text :=
  match beforeComment? .code line with
  | some code => trimEnd code
  | none => line

end Options
end SchemaSpec
