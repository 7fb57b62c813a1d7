import SchemaSpec.Journal.Basic
import SchemaSpec.Text.Utf8

/-!
# Printing on the consoles

Reports and failures are printed by a toolkit that knows markup: a tag in brackets starts a style, and
one with a slash ends it.

* `Toolkit`: what a run uses of the toolkit.
* `Toolkit.marked`: a message in a style and behind a mark, written so that none of it is markup.
* `Toolkit.printed`, `Toolkit.refusal?`, `Toolkit.printedFailure`: reports on the output console, and
  failures on the error console.
-/

namespace SchemaSpec

open Text

/-- What a run uses of the toolkit that prints on its consoles; the styles are left out. -/
structure Toolkit where
  /-- A text written so that none of it is markup. -/
  escape : Text → Text
  /-- What a marked-up text says when its markup is taken away. -/
  plain : Text → Text
  /-- What the output console shows of a text, unless it cannot encode it. -/
  output : Text → Except EncodeError Text
  /-- What the error console shows of a text; it has a spelling for what it cannot encode. -/
  errors : Text → Text

namespace Toolkit

variable (kit : Toolkit)

/-- A tag. -/
def tag (content : Text) : Text :=
  '[' :: content ++ [']']

/-- A message in a style and behind a mark, written so that none of it is markup. -/
def marked (style mark : String) (message : Text) : Text :=
  tag style.toList ++ mark.toList ++ kit.escape message ++ tag ('/' :: style.toList)

/-- A report with markup. -/
def markedReport (r : Report) : Text :=
  match r.kind with
  | .info => kit.marked "green" "✓ " r.message
  | .warning => kit.marked "yellow" "⚠ " r.message

/-- What the output console shows of a report, unless it cannot encode it. -/
def printed (r : Report) : Except EncodeError Text :=
  kit.output (kit.plain (kit.markedReport r))

/-- Why the output console refuses a report, if it does. -/
def refusal? (r : Report) : Option EncodeError :=
  match kit.printed r with
  | .ok _ => none
  | .error e => some e

/-- What the error console shows of the message of a failure. -/
def printedFailure (message : Text) : Text :=
  kit.errors (kit.plain (kit.marked "red" "" message))

end Toolkit
end SchemaSpec
