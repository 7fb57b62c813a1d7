import SchemaSpec.Text.Shown

/-!
# Switches of the command line

* `Switch.spellings`: how a switch is written.
* `Switch.ofSpelling?`: the switch of a spelling; `Switch.startingWith`: the switches that have a
  spelling with a given start.
* `UsageError`: how a command line can be wrong, with its words.
-/

namespace SchemaSpec

open Text

/-- A switch of the command line. -/
inductive Switch
  | help
  | force
  | append
  | out
  | cwd
  | noEnums
  | debug
  deriving Repr, DecidableEq

namespace Switch

/-- All switches. -/
def all : List Switch :=
  [.help, .force, .append, .out, .cwd, .noEnums, .debug]

/-- The spellings of a switch. -/
def spellings : Switch → List Text
  | .help => ["-h".toList, "--help".toList]
  | .force => ["--force".toList]
  | .append => ["--append".toList]
  | .out => ["--out".toList]
  | .cwd => ["--cwd".toList]
  | .noEnums => ["--no-enums".toList]
  | .debug => ["--debug".toList]

/-- What messages call a switch: all its spellings. -/
def label (s : Switch) : Text :=
  join ['/'] s.spellings

/-- Whether a switch takes a value. -/
def takesValue : Switch → Bool
  | .out => true
  | .cwd => true
  | _ => false

/-- The switch that may not stand beside a switch. -/
def rival? : Switch → Option Switch
  | .force => some .append
  | .append => some .force
  | _ => none

/-- All spellings with their switches. -/
def table : List (Text × Switch) :=
  all.flatMap (fun s => s.spellings.map (fun spelling => (spelling, s)))

/-- The switch of a spelling. -/
def ofSpelling? (t : Text) : Option Switch :=
  table.lookup t

/-- The spellings that start with a text, with their switches. -/
def startingWith (start : Text) : List (Text × Switch) :=
  table.filter (fun p => (after? start p.1).isSome)

end Switch

/-- How a command line is wrong. -/
inductive UsageError
  /-- Several spellings start with the word. -/
  | ambiguous (word : Text) (spellings : List Text)
  /-- The switch takes no value, but the word gives it one. -/
  | unusedValue (s : Switch) (value : Text)
  /-- The switch takes a value, but no word that may be one comes next. -/
  | missingValue (s : Switch)
  /-- The switch comes after its rival. -/
  | rivals (s rival : Switch)
  /-- The words mean nothing. -/
  | unrecognized (words : List Text)
  deriving Repr, DecidableEq

/-- The words for a wrong command line. -/
def UsageError.message : UsageError → Text
  | .ambiguous word spellings =>
      "ambiguous option: ".toList ++ word ++ " could match ".toList ++ join ", ".toList spellings
  | .unusedValue s value =>
      "argument ".toList ++ s.label ++ ": ignored explicit argument ".toList ++ shown value
  | .missingValue s => "argument ".toList ++ s.label ++ ": expected one argument".toList
  | .rivals s rival =>
      "argument ".toList ++ s.label ++ ": not allowed with argument ".toList ++ rival.label
  | .unrecognized words => "unrecognized arguments: ".toList ++ join [' '] words

end SchemaSpec
