import SchemaSpec.Failure
import SchemaSpec.Table.Schema
import SchemaSpec.Document.Merge
import SchemaSpec.Discovery.SchemaFile
import SchemaSpec.Discovery.ModelFiles

/-!
# Generating a document

A run first plans, then acts.  The plan is made by reading alone: check the target, find and read
the schema listing, collect the enums, and render a new document or extend the existing one.  To act
is to write the target file, or to do nothing.

* `Stop`: how a run ends early.
* `Draft`: what is to be written.  A document whose settings cannot be encoded fails when its file is
  open, and so leaves an empty file.
* `plan`, `Plan.apply`: the two halves.
* `generate`: a run, with the tree and the journal that it leaves.
-/

namespace SchemaSpec

open Text

/-- How a run ends early: with a declared failure, a failed file operation, bytes that are no text,
what cannot be encoded, an oversized literal, or a flag for the name of the output file. -/
inductive Stop
  | failure (f : Failure)
  | system (e : SystemError)
  | undecodable (e : Utf8Error)
  | unencodable (e : EncodeError)
  | oversized (e : LiteralError)
  | unnamed (e : SettingsError)

namespace Stop

/-- The name of the class of a stop. -/
def kind : Stop → Text
  | .failure f => f.kind
  | .system e => e.fault.kind
  | .undecodable _ => "UnicodeDecodeError".toList
  | .unencodable _ => "UnicodeEncodeError".toList
  | .oversized _ => "ValueError".toList
  | .unnamed _ => "TypeError".toList

/-- The words of a stop. -/
def message : Stop → Text
  | .failure f => f.message
  | .system e => e.message
  | .undecodable e => e.message
  | .unencodable e => e.message
  | .oversized e => e.message
  | .unnamed e => e.message

/-- A failed reading as a stop. -/
def ofRead : ReadError → Stop
  | .system e => .system e
  | .undecodable e => .undecodable e

end Stop

instance : Described Stop where
  kind := Stop.kind
  message := Stop.message
  isOrdinary := fun _ => true

namespace Generate

/-- What is asked of a run.  `directory` is written as the user wrote it, seen from
`workingDirectory`.  Of the settings, those that are `unencodable` hold what is no text, with a
replacement character in its place.  The one who takes the reports may refuse some. -/
structure Request where
  workingDirectory : Path
  directory : Text
  force : Bool := false
  append : Bool := false
  out : Option Text := none
  settings : Settings := {}
  today : Document.Date
  unencodable : List (SettingKey × EncodeError) := []
  refusal? : Report → Option EncodeError := fun _ => none

/-- What a run did to the target. -/
inductive Action
  | created
  | overwritten
  | appended
  | skipped
  deriving Repr, DecidableEq

/-- What a run did: the action, the target, the listing, and the names of the models written. -/
structure Outcome where
  action : Action
  target : Path
  schema : Path
  models : List Text
  deriving Repr, DecidableEq

/-- What is to be written: a text, and why it cannot be encoded, if it cannot. -/
structure Draft where
  text : Text
  fault? : Option EncodeError := none
  deriving Repr, DecidableEq

/-- The text that gets into the file: nothing of one that cannot be encoded. -/
def Draft.written (d : Draft) : Text :=
  if d.fault?.isSome then [] else d.text

/-- How writing a draft to an open file ends. -/
def Draft.ending (d : Draft) : Except Stop Unit :=
  match d.fault? with
  | none => .ok ()
  | some e => .error (.unencodable e)

/-- What a run is about to do: the outcome, and what to write unless there is nothing to do. -/
structure Plan where
  outcome : Outcome
  content : Option Draft
  deriving Repr, DecidableEq

/-- The channel of the run's own records. -/
def channel : Text := "rails_tsp".toList

/-- The directory of a request. -/
def Request.base (r : Request) : Except SystemError Path :=
  Path.locate? r.workingDirectory r.directory

/-- The name of the output file: the one asked for, or else that of the settings. -/
def Request.output (r : Request) : Except SettingsError Text :=
  match nonEmpty? r.out, r.settings.outputFile with
  | some name, _ => .ok name
  | none, .text name => .ok name
  | none, .flag _ => .error (.notText .outputFile)

/-- The target of a request.  The directory does not matter to an output file with a path from the
root on. -/
def Request.target (r : Request) : Except Stop Path := do
  let output ← r.output.mapError .unnamed
  if Path.isAbsolute output then (Path.locate? [] output).mapError .system
  else
    let base ← r.base.mapError .system
    (Path.locate? base output).mapError .system

/-- Why a new document for a request cannot be encoded, if it cannot: the first setting that it says
and that is no text decides. -/
def Request.documentFault? (r : Request) : Option EncodeError :=
  Document.settingKeys.findSome? (fun k => r.unencodable.lookup k)

/-- How a refused report ends a run. -/
def Request.refused? (r : Request) (report : Report) : Option Stop :=
  (r.refusal? report).map .unencodable

/-- The tables of a listing. -/
def readSchema (tree : FileTree) (listing : Path) : Logged Stop (List TableModel) := do
  let text ← Logged.lift ((tree.readText listing).mapError Stop.ofRead)
  let (models, place) ← Logged.lift ((Schema.read text).mapError Stop.oversized)
  match place.openTable? with
  | none => pure ()
  | some name =>
      Logged.record "parsing.schema_parser".toList .debug
        ("Unterminated create_table block for ".toList ++ name ++ " ignored".toList)
  return models

/-- The text of a model file; whatever is wrong with it only makes it unreadable. -/
def readModelFile (tree : FileTree) (path : Text) : Except (ModelFiles.Fault Stop) Text :=
  (tree.readText (Path.segmentsOf path)).mapError (fun e => .unreadable e.message)

/-- The enums of the model files of a project. -/
def collectEnums (tree : FileTree) (r : Request) (listing : Path) (models : List TableModel) :
    Logged Stop (List EnumDecl) := do
  let files ← Logged.lift
    ((ModelFiles.modelFiles tree (SchemaFile.projectRoot listing)).mapError Stop.system)
  ModelFiles.relevantEnumsTelling r.refused? (models.map TableModel.tableName) (readModelFile tree)
    (files.map Path.toText)

/-- Tables in the order of their model names. -/
def sortModels (models : List TableModel) : List TableModel :=
  models.mergeSort (fun m n => Text.le m.name n.name)

/-- The plan of extending the document in a target. -/
def planAppend (tree : FileTree) (r : Request) (target listing : Path) (models : List TableModel)
    (enums : List EnumDecl) : Logged Stop Plan := do
  let existing ← Logged.lift ((tree.readText target).mapError Stop.ofRead)
  match Document.merge existing models enums r.today r.settings.optionalMarker.isOn with
  | .error e => throw (.failure (.cannotAppend target.toText e.message))
  | .ok merged =>
      if merged.changed then
        return ⟨⟨.appended, target, listing, merged.appended⟩, some ⟨merged.content, none⟩⟩
      else
        return ⟨⟨.skipped, target, listing, []⟩, none⟩

/-- The listing of a request. -/
def findListing (tree : FileTree) (r : Request) : Logged Stop Path := do
  let base ← Logged.lift (r.base.mapError Stop.system)
  match ← Logged.lift ((SchemaFile.find? tree base).mapError Stop.system) with
  | none => throw (.failure (.schemaNotFound r.directory SchemaFile.searched))
  | some found =>
      Logged.record "discovery.schema_locator".toList .debug found.note
      return found.path

/-- The plan of a run. -/
def plan (tree : FileTree) (r : Request) : Logged Stop Plan := do
  let target ← Logged.lift r.target
  let isThere ← Logged.lift ((tree.isFile? target).mapError Stop.system)
  if isThere && !r.force && !r.append then
    throw (.failure (.outputExists target.toText))
  let listing ← findListing tree r
  let models ← operation channel "parse_schema".toList
    [("schema_path".toList, .text listing.toText)] (readSchema tree listing)
  let models := sortModels models
  let enums ←
    if r.settings.includeEnums.isOn && !models.isEmpty then
      operation channel "collect_enums".toList [] (collectEnums tree r listing models)
    else pure []
  if r.append && isThere then planAppend tree r target listing models enums
  else
    let action := if r.force && isThere then Action.overwritten else .created
    return ⟨⟨action, target, listing, models.map TableModel.name⟩,
      some ⟨Document.render r.settings models enums, r.documentFault?⟩⟩

/-- What the user is told about an outcome. -/
def Outcome.report (o : Outcome) : Text :=
  match o.action with
  | .created => "Created ".toList ++ o.target.name ++ " at: ".toList ++ o.target.toText
  | .overwritten => "Overwritten ".toList ++ o.target.name ++ " at: ".toList ++ o.target.toText
  | .appended =>
      "Appended ".toList ++ ofNat o.models.length ++ " models to: ".toList ++ o.target.toText
  | .skipped => "No new models to append to: ".toList ++ o.target.toText

/-- A new file whose place is taken is a declared failure. -/
def creationStop (target : Path) (e : SystemError) : Stop :=
  if e.fault = .exists then .failure (.outputExists target.toText) else .system e

/-- Open the file for a plan, and put a text in it. -/
def Plan.place (p : Plan) (tree : FileTree) (text : Text) : FileTree × Except Stop Unit :=
  if p.outcome.action = .created then
    let done := tree.createText p.outcome.target text
    (done.1, done.2.mapError (creationStop p.outcome.target))
  else
    let done := tree.writeText p.outcome.target text
    (done.1, done.2.mapError .system)

/-- Act on a plan. -/
def Plan.apply (p : Plan) (tree : FileTree) : FileTree × Except Stop Unit :=
  match p.content with
  | none => (tree, .ok ())
  | some draft =>
      let done := p.place tree draft.written
      (done.1, do done.2; draft.ending)

/-- What a run leaves: the tree, the journal, and the outcome or the reason of its early end. -/
structure Result where
  tree : FileTree
  journal : Journal
  outcome : Except Stop Outcome

/-- A run. -/
def generate (tree : FileTree) (r : Request) (j : Journal := {}) : Result :=
  match plan tree r j with
  | .error e after => ⟨tree, after, .error e⟩
  | .ok p after =>
      match p.apply tree with
      | (written, .error e) => ⟨written, after, .error e⟩
      | (written, .ok ()) =>
          match r.refused? ⟨.info, p.outcome.report⟩ with
          | some stop => ⟨written, after, .error stop⟩
          | none => ⟨written, after.leave (.report ⟨.info, p.outcome.report⟩), .ok p.outcome⟩

end Generate
end SchemaSpec
