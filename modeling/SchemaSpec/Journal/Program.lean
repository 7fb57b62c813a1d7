import SchemaSpec.Journal.Basic

/-!
# Programs of log calls

A program is a sequence of log calls, reports, raised failures, operations with a program inside,
and programs of which some failures are caught.

* `FailureClass`: the class of a failure is ordinary, or it asks the program to end.
* `Program.run`: what a program does to the journal.
-/

namespace SchemaSpec

/-- A class of failures: its name, and whether it is an ordinary one. -/
structure FailureClass where
  name : Text
  isOrdinary : Bool
  deriving Repr, DecidableEq

namespace FailureClass

/-- The built-in classes that are not ordinary. -/
def extraordinary : List Text :=
  ["BaseException", "BaseExceptionGroup", "GeneratorExit", "KeyboardInterrupt", "SystemExit"].map
    String.toList

/-- The built-in class of a name. -/
def builtIn (name : Text) : FailureClass :=
  ⟨name, !extraordinary.contains name⟩

instance : Coe Text FailureClass :=
  ⟨builtIn⟩

end FailureClass

/-- A raised failure: its class and its words. -/
structure Raised where
  origin : FailureClass
  message : Text
  deriving Repr, DecidableEq

/-- The name of the class of a raised failure. -/
def Raised.kind (e : Raised) : Text :=
  e.origin.name

instance : Described Raised where
  kind := Raised.kind
  message := Raised.message
  isOrdinary := fun e => e.origin.isOrdinary

/-- A program of log calls.  An attempt catches the failures of its first part that it says it does. -/
inductive Program
  | done
  | log (level : Level) (message : Text) (values : List (Text × Json)) (next : Program)
  | report (kind : ReportKind) (message : Text) (next : Program)
  | raise (failure : Raised)
  | operation (name : Text) (values : List (Text × Json)) (body next : Program)
  | attempt (catches : Raised → Bool) (body next : Program)

namespace Program

/-- Run a program on a channel. -/
def run (channel : Text) : Program → Logged Raised Unit
  | .done => pure ()
  | .log level message values next => do
      Logged.record channel level message values
      next.run channel
  | .report kind message next => do
      Logged.report kind message
      next.run channel
  | .raise failure => throw failure
  | .operation name values body next => do
      SchemaSpec.operation channel name values (body.run channel)
      next.run channel
  | .attempt catches body next => fun j =>
      match body.run channel j with
      | .ok () after => next.run channel after
      | .error e after => if catches e then next.run channel after else .error e after

/-- One program after another; a failure of the first ends both. -/
def andThen : Program → Program → Program
  | .done, q => q
  | .log level message values next, q => .log level message values (next.andThen q)
  | .report kind message next, q => .report kind message (next.andThen q)
  | .raise failure, _ => .raise failure
  | .operation name values body next, q => .operation name values body (next.andThen q)
  | .attempt catches body next, q => .attempt catches body (next.andThen q)

end Program
end SchemaSpec
