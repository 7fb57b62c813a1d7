import SchemaSpec.Json
import SchemaSpec.Text.Casing

/-!
# The journal of a run

A run leaves lines behind: records for the log and reports for the user, in one order.  It also
reads the clock.  The journal holds both; which records are shown is settled afterwards.

* `Level`: how much a record matters; `Level.ofName` and `Level.name` go from and to the names.
* `Record`, `Report`, `Line`: what is left behind.
* `Logged`: a computation with a journal.  A failing one keeps the lines that it has left.
* `operation`: a computation between a record of its start and a record of its end.  The closing
  record tells how long it took and, if it failed, why; the values given for the operation win over
  these.  A failure that is not ordinary, one that asks the program to end, goes through unrecorded.
-/

namespace SchemaSpec

/-- How much a record matters; the more, the greater. -/
abbrev Level := Nat

namespace Level

/-- The levels with a name, with that name. -/
def named : List (Text × Level) :=
  [("NOTSET", 0), ("DEBUG", 10), ("INFO", 20), ("WARNING", 30), ("WARN", 30), ("ERROR", 40),
    ("CRITICAL", 50), ("FATAL", 50)].map (fun p => (p.1.toList, p.2))

def debug : Level := 10
def info : Level := 20
def warning : Level := 30
def error : Level := 40

end Level

/-- A level name that means nothing. -/
structure UnknownLevel where
  name : Text
  deriving Repr, DecidableEq

/-- The message of an unknown level name. -/
def UnknownLevel.message (e : UnknownLevel) : Text :=
  "there is no level '".toList ++ e.name ++ ['\x27']

/-- The level of a name, in any letter case. -/
def Level.ofName (name : Text) : Except UnknownLevel Level :=
  match named.lookup (Text.upper name) with
  | some l => .ok l
  | none => .error ⟨Text.upper name⟩

/-- The name of a level; of two names, the first. -/
def Level.name (l : Level) : Text :=
  match named.find? (fun p => p.2 == l) with
  | some p => p.1
  | none => "Level ".toList ++ Text.ofNat l

/-- A record of the log.  `failure` is the class of the failure that it reports with its trace. -/
structure Record where
  channel : Text
  level : Level
  message : Text
  failure : Option Text := none
  deriving Repr, DecidableEq

/-- The two kinds of reports. -/
inductive ReportKind
  | info
  | warning
  deriving Repr, DecidableEq

/-- A report for the user. -/
structure Report where
  kind : ReportKind
  message : Text
  deriving Repr, DecidableEq

/-- A report as a record of the log. -/
def Report.toRecord (channel : Text) (r : Report) : Record :=
  match r.kind with
  | .info => { channel := channel, level := .info, message := r.message }
  | .warning => { channel := channel, level := .warning, message := r.message }

/-- What a run leaves behind. -/
inductive Line
  | record (r : Record)
  | report (r : Report)
  deriving Repr, DecidableEq

/-- The clock readings to come, in seconds, and the lines left so far. -/
structure Journal where
  clock : List Binary64 := []
  lines : List Line := []
  deriving Repr, DecidableEq

/-- A computation with a journal. -/
abbrev Logged (ε : Type) := EStateM ε Journal

namespace Journal

/-- Read the clock; a clock without readings to come stands at zero. -/
def tick (j : Journal) : Binary64 × Journal :=
  match j.clock with
  | [] => (.zero, j)
  | t :: ts => (t, { j with clock := ts })

/-- Leave a line. -/
def leave (j : Journal) (line : Line) : Journal :=
  { j with lines := j.lines ++ [line] }

/-- The records left, in order. -/
def records (j : Journal) : List Record :=
  j.lines.filterMap (fun
    | .record r => some r
    | .report _ => none)

/-- The reports left, in order. -/
def reports (j : Journal) : List Report :=
  j.lines.filterMap (fun
    | .record _ => none
    | .report r => some r)

/-- The records left, the reports turned into records of a channel. -/
def recordsWithReports (channel : Text) (j : Journal) : List Record :=
  j.lines.map (fun
    | .record r => r
    | .report r => r.toRecord channel)

/-- A message with the values that belong to it. -/
def withValues (message : Text) (values : List (Text × Json)) : Text :=
  match values with
  | [] => message
  | v :: vs => message ++ " | ".toList ++ (Json.object (v :: vs)).render

end Journal

namespace Logged

variable {ε α : Type}

/-- Leave a line. -/
def leave (line : Line) : Logged ε Unit :=
  modify (fun j => j.leave line)

/-- Leave a record. -/
def record (channel : Text) (level : Level) (message : Text) (values : List (Text × Json) := []) :
    Logged ε Unit :=
  leave (.record { channel, level, message := Journal.withValues message values })

/-- Leave a report. -/
def report (kind : ReportKind) (message : Text) : Logged ε Unit :=
  leave (.report ⟨kind, message⟩)

/-- Leave a line, unless it is a report that is refused. -/
def tell (refusal? : Report → Option ε) : Line → Logged ε Unit
  | .record r => leave (.record r)
  | .report r =>
      match refusal? r with
      | none => leave (.report r)
      | some e => throw e

/-- A computation without a journal. -/
def lift : Except ε α → Logged ε α
  | .ok a => pure a
  | .error e => throw e

end Logged

/-- What a failure is called, what it says, and whether it is an ordinary one. -/
class Described (ε : Type) where
  kind : ε → Text
  message : ε → Text
  isOrdinary : ε → Bool

/-- The milliseconds between two clock readings, with two decimal places. -/
def milliseconds (start finish : Binary64) : Binary64 :=
  ((finish.sub start).times 1000).roundPlaces 2

/-- The values of the record that closes an operation. -/
def closingValues (start finish : Binary64) (failure values : List (Text × Json)) :
    List (Text × Json) :=
  Json.putAll values (("duration_ms".toList, .real (milliseconds start finish)) :: failure)

/-- The values that tell about a failure. -/
def failureValues {ε : Type} [Described ε] (e : ε) : List (Text × Json) :=
  [("error".toList, .text (Described.message e)), ("error_type".toList, .text (Described.kind e))]

/-- The record of the start or the end of an operation. -/
def operationRecord (channel : Text) (what : String) (name : Text) (values : List (Text × Json)) :
    Line :=
  .record
    { channel, level := .debug,
      message := Journal.withValues (what.toList ++ " operation: ".toList ++ name) values }

/-- A computation between a record of its start and a record of its end.  Only an ordinary failure is
recorded; another one leaves the computation without a record of its end. -/
def operation {ε α : Type} [Described ε] (channel name : Text) (values : List (Text × Json))
    (body : Logged ε α) : Logged ε α := fun j =>
  let started := j.tick
  match body (started.2.leave (operationRecord channel "Starting" name values)) with
  | .ok a after =>
      let ended := after.tick
      .ok a (ended.2.leave (operationRecord channel "Completed" name
        (closingValues started.1 ended.1 [] values)))
  | .error e after =>
      if Described.isOrdinary e then
        let ended := after.tick
        .error e (ended.2.leave (operationRecord channel "Failed" name
          (closingValues started.1 ended.1 (failureValues e) values)))
      else .error e after

end SchemaSpec
