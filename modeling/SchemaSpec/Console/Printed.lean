import SchemaSpec.Console.Markup
import SchemaSpec.Text.WidthTable

/-!
# A plain toolkit

A toolkit for consoles that are wide enough for every line, can encode every character, and know no
pictures with names.

* `Console.expandTabs`: a text with blanks up to the next tab stop in place of its tabs.
* `Console.shown`: what a console shows of a text, with the final line feed.
* `Console.toolkit`: the toolkit, and `Report.printed`, a report printed by it.
-/

namespace SchemaSpec

open Text

namespace Console

/-- The number of columns that a character takes. -/
def width (c : Char) : Nat :=
  if inRanges zeroWidthRanges c then 0
  else if inRanges wideRanges c then 2
  else 1

/-- The distance between two tab stops. -/
def tabStop : Nat := 8

/-- The blanks from a column to the next tab stop. -/
def toTabStop (column : Nat) : Nat :=
  tabStop - column % tabStop

/-- A text that starts in a column, with blanks in place of its tabs. -/
def expandTabs (column : Nat) : Text → Text
  | [] => []
  | c :: r =>
      if c = '\t' then List.replicate (toTabStop column) ' ' ++ expandTabs (column + toTabStop column) r
      else if c = '\n' then c :: expandTabs 0 r
      else c :: expandTabs (column + width c) r

/-- Whether a character moves the cursor, or rings, instead of being shown. -/
def isControl (c : Char) : Bool :=
  ['\x07', '\x08', '\x0b', '\x0c', '\x0d'].contains c

/-- What a console shows of a text. -/
def shown (t : Text) : Text :=
  expandTabs 0 (t.filter (fun c => !isControl c)) ++ ['\n']

/-- The toolkit for such consoles. -/
def toolkit : Toolkit where
  escape := Markup.escape
  plain := Markup.plain
  output := fun t => .ok (shown t)
  errors := shown

end Console

/-- What a report looks like. -/
def Report.printed (r : Report) : Text :=
  Console.shown (Markup.plain (Console.toolkit.markedReport r))

end SchemaSpec
