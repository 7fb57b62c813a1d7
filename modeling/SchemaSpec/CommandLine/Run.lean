import SchemaSpec.CommandLine.Arguments
import SchemaSpec.Console.Printed
import SchemaSpec.Journal.Channels
import SchemaSpec.Generate

/-!
# A run from the command line

The words and the environment settle a request for a document; what the request comes to is told on
the two consoles and by the exit code.  Declared failures and failed file operations are told in red;
other stops go through to the system.

* `Ending`: how a run ends, and its exit code.
* `CommandLine.runOn`, `CommandLine.run`: a run with a toolkit, and with the plain one, with all that it
  leaves.
-/

namespace SchemaSpec

open Text

/-- The line that tells of a wrong command line. -/
def UsageError.line (e : UsageError) : Text :=
  "rails-tsp: error: ".toList ++ e.message

/-- Whether a stop is told to the user, instead of going through to the system. -/
def Stop.isTold : Stop → Bool
  | .failure _ => true
  | .system e => e.fault.report?.isSome
  | .undecodable _ => false
  | .unencodable _ => false
  | .oversized _ => false
  | .unnamed _ => false

/-- What the log says about a stop. -/
def Stop.members : Stop → List (Text × Json)
  | .failure f => f.members
  | s => [("error_type".toList, .text s.kind), ("message".toList, .text s.message)]

/-- How a run ends. -/
inductive Ending
  | done
  | helped
  /-- The command line is wrong. -/
  | misused (e : UsageError)
  /-- The run stopped, and the user was told. -/
  | failed (s : Stop)
  /-- The run stopped in a way that goes through to the system. -/
  | passedOn (s : Stop)

/-- The exit code of an ending; a stop that goes through to the system has none. -/
def Ending.code? : Ending → Option Nat
  | .done => some 0
  | .helped => some 0
  | .misused _ => some 2
  | .failed _ => some 1
  | .passedOn _ => none

namespace CommandLine

/-- What a run is given.  The variables that are `unencodable` hold bytes that are no text, with a
replacement character for each of them in the environment. -/
structure Call where
  words : List Text
  environment : Environment
  workingDirectory : Path
  today : Document.Date
  unencodable : List (Text × EncodeError) := []

/-- What a run leaves: how it ended, what the two consoles show, the records that the log shows, the
channels and the tree. -/
structure Answer where
  ending : Ending
  output : Text
  errors : Text
  records : List Record
  channels : Channels
  tree : FileTree

/-- The settings that the environment and the switches give. -/
def settings (env : Environment) (a : Arguments) : Settings :=
  let s := Settings.ofEnvironment env
  { s with
    includeEnums := if a.noEnums then .flag false else s.includeEnums
    logLevel := if a.debug then .text "DEBUG".toList else s.logLevel }

/-- The level that settings name; allowed settings always name one. -/
def level (s : Settings) : Level :=
  (Level.ofName s.logLevel.toText).toOption.getD Level.info

/-- The variables for what a document says, with the settings that they set. -/
def documentVariables : List (String × SettingKey) :=
  [("RAILS_TSP_TITLE", .serviceTitle), ("RAILS_TSP_SERVER_URL", .serverUrl),
    ("RAILS_TSP_ROUTE", .routePrefix)]

/-- The settings of a document that the environment sets to what cannot be encoded. -/
def unencodableSettings (c : Call) : List (SettingKey × EncodeError) :=
  documentVariables.filterMap (fun p =>
    (c.unencodable.lookup p.1.toList).map (fun e => (p.2, e)))

/-- The request that the switches make.  The output console takes the reports. -/
def request (kit : Toolkit) (c : Call) (a : Arguments) : Generate.Request where
  workingDirectory := c.workingDirectory
  directory := (nonEmpty? a.cwd).getD c.workingDirectory.toText
  force := a.force
  append := a.append
  out := a.out
  settings := settings c.environment a
  today := c.today
  unencodable := unencodableSettings c
  refusal? := kit.refusal?

/-- How a run with an outcome ends. -/
def ending (outcome : Except Stop Generate.Outcome) : Ending :=
  match outcome with
  | .ok _ => .done
  | .error s => if s.isTold then .failed s else .passedOn s

/-- What the error console shows at the end. -/
def errors (kit : Toolkit) : Ending → Text
  | .failed s => kit.printedFailure s.message
  | _ => []

/-- The records at the end of a run; only a run with debugging leaves one. -/
def closingRecords (a : Arguments) : Ending → List Record
  | .failed s =>
      if a.debug then
        [{ channel := Generate.channel, level := .error,
           message := Journal.withValues "Generation failed".toList s.members,
           failure := some s.kind }]
      else []
  | _ => []

/-- A run whose words have been read. -/
def runWith (kit : Toolkit) (c : Call) (a : Arguments) (channels : Channels) (tree : FileTree) :
    Answer :=
  let channels := channels.configure (level (settings c.environment a))
  let result := Generate.generate tree (request kit c a)
  let ended := ending result.outcome
  { ending := ended
    output := result.journal.reports.flatMap (fun r => (kit.printed r).toOption.getD [])
    errors := errors kit ended
    records := channels.shown (result.journal.records ++ closingRecords a ended)
    channels := channels
    tree := result.tree }

/-- A run. -/
def runOn (kit : Toolkit) (c : Call) (channels : Channels) (tree : FileTree) : Answer :=
  match Arguments.ofWords c.words with
  | .error e => ⟨.misused e, [], [], [], channels, tree⟩
  | .ok a =>
      if a.help then ⟨.helped, [], [], [], channels, tree⟩ else runWith kit c a channels tree

/-- A run with the plain toolkit. -/
def run (c : Call) (channels : Channels) (tree : FileTree) : Answer :=
  runOn Console.toolkit c channels tree

end CommandLine
end SchemaSpec
