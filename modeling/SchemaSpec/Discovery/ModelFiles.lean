import SchemaSpec.Files.Search
import SchemaSpec.Enumeration.Declaration
import SchemaSpec.Naming.Singular
import SchemaSpec.Journal.Basic

/-!
# Enums of the model files

* `modelFiles`: the model files of a project.
* `visitsWith`, `visits`: what reading the relevant ones among some files gives, file by file, with a
  reader that may have effects and with one that has none.  A file is relevant if its name is the model
  name of one of the tables; others are not read.  A file that cannot be read is passed over, and any
  other failure ends the visits.
* `visits_nil`, `visits_step`: the visits, one file after the other.
* `relevantEnumsTelling`, `relevantEnums`: the enums found, with a record for each file and a warning
  for each that could not be read.
-/

namespace SchemaSpec
namespace ModelFiles

open Text

/-- Where model files may be, in a project. -/
def patterns : List Text :=
  ["app/models/**/*.rb", "backend/app/models/**/*.rb", "server/app/models/**/*.rb",
    "**/app/models/**/*.rb"].map String.toList

/-- Directories without model files. -/
def ignored : List Text :=
  FileTree.usuallyIgnored ++ ["concerns".toList]

/-- The name of the file that holds no model of its own. -/
def baseName : Text := "application_record.rb".toList

/-- The model files of a project. -/
def modelFiles (tree : FileTree) (project : Path) : Except SystemError (List Path) := do
  let found ← tree.searchAll project ignored patterns
  return found.filter (fun p => p.name != baseName)

/-- The model that a file is about, by its name. -/
def modelOfPath (path : Text) : Text :=
  Naming.toPascal (Path.stem path)

/-- How reading a file fails: it is unreadable, for a reason, or there is another failure. -/
inductive Fault (ε : Type)
  | unreadable (reason : Text)
  | other (failure : ε)

/-- What happened at one file. -/
inductive Visit (ε : Type)
  | found (path : Text) (enums : List EnumDecl)
  | unreadable (path reason : Text)
  | stopped (path : Text) (failure : ε)

variable {ε : Type}

/-- The file of a visit. -/
def Visit.path : Visit ε → Text
  | .found p _ => p
  | .unreadable p _ => p
  | .stopped p _ => p

/-- The enums of a visit. -/
def Visit.enums : Visit ε → List EnumDecl
  | .found _ es => es
  | _ => []

/-- The failure that ends the visits. -/
def Visit.failure? : Visit ε → Option ε
  | .stopped _ e => some e
  | _ => none

/-- The names of the models of some tables. -/
def relevantModels (tableNames : List Text) : List Text :=
  tableNames.map Naming.modelName

/-- The visits with a reader that has effects: each relevant file is read when its turn comes. -/
def visitsWith {m : Type → Type} [Monad m] (models : List Text)
    (read : Text → m (Except (Fault ε) Text)) : List Text → m (List (Visit ε))
  | [] => pure []
  | p :: ps => do
      if models.contains (modelOfPath p) then
        match ← read p with
        | .ok source =>
            let behind ← visitsWith models read ps
            return .found p (EnumDecl.ofSource (modelOfPath p) source) :: behind
        | .error (.unreadable reason) =>
            let behind ← visitsWith models read ps
            return .unreadable p reason :: behind
        | .error (.other e) => return [.stopped p e]
      else visitsWith models read ps

/-- Read the relevant files among some, one after the other, with a reader that has no effects. -/
def visits (models : List Text) (read : Text → Except (Fault ε) Text) (paths : List Text) :
    List (Visit ε) :=
  Id.run (visitsWith models (fun p => pure (read p)) paths)

theorem visits_nil
    (models : List Text)
    (read : Text → Except (Fault ε) Text) :
    visits models read [] = [] := rfl

theorem visits_step
    (models : List Text)
    (read : Text → Except (Fault ε) Text)
    (p : Text)
    (ps : List Text) :
    visits models read (p :: ps)
      = if models.contains (modelOfPath p) then
          match read p with
          | .ok source =>
              .found p (EnumDecl.ofSource (modelOfPath p) source) :: visits models read ps
          | .error (.unreadable reason) => .unreadable p reason :: visits models read ps
          | .error (.other e) => [.stopped p e]
        else visits models read ps := by
  unfold visits
  rw [visitsWith]
  by_cases hp : models.contains (modelOfPath p) = true
  · rw [if_pos hp, if_pos hp]
    cases read p with
    | ok source =>
        rfl
    | error fault =>
        cases fault <;> rfl
  · rw [if_neg hp, if_neg hp]

/-- The channel on which the visits are recorded. -/
def channel : Text := "discovery.model_finder".toList

/-- The lines that a visit leaves. -/
def Visit.lines : Visit ε → List Line
  | .found p es =>
      [.record
        { channel, level := .debug,
          message := "Found ".toList ++ ofNat es.length ++ " enums in ".toList ++ p }]
  | .unreadable p reason =>
      [.record
        { channel, level := .debug,
          message := "Failed to read ".toList ++ p ++ ": ".toList ++ reason },
        .report ⟨.warning, "Warning: Could not parse model file ".toList ++ p⟩]
  | .stopped _ _ => []

/-- The enums of the relevant files among some.  A warning that is refused ends the run. -/
def relevantEnumsTelling (refusal? : Report → Option ε) (tableNames : List Text)
    (read : Text → Except (Fault ε) Text) (paths : List Text) : Logged ε (List EnumDecl) := do
  let made := visits (relevantModels tableNames) read paths
  made.forM (fun v => v.lines.forM (Logged.tell refusal?))
  match made.findSome? Visit.failure? with
  | some e => throw e
  | none => return made.flatMap Visit.enums

/-- The enums of the relevant files among some, when no warning is refused. -/
def relevantEnums (tableNames : List Text) (read : Text → Except (Fault ε) Text)
    (paths : List Text) : Logged ε (List EnumDecl) :=
  relevantEnumsTelling (fun _ => none) tableNames read paths

end ModelFiles
end SchemaSpec
