import SchemaSpec.Json
import SchemaSpec.Settings

/-!
# Failures of a run

The failures that the program itself declares.

* `Failure.kind`, `Failure.message`, `Failure.details`: its class, its words, and the values that
  belong to it.
* `Failure.toJson`: all three.
-/

namespace SchemaSpec

/-- A declared failure. -/
inductive Failure
  | general (message : Text) (details : List (Text × Json))
  /-- A setting has a value that is not allowed. -/
  | configuration (parameter value reason : Text) (details : List (Text × Json))
  /-- The output file is there and may not be replaced. -/
  | outputExists (target : Text)
  /-- No schema listing is in any of the places searched. -/
  | schemaNotFound (directory : Text) (searched : List Text)
  /-- The existing document cannot be extended. -/
  | cannotAppend (target reason : Text)

namespace Failure

/-- The name of the class of a failure. -/
def kind : Failure → Text
  | .general .. => "GeneratorError".toList
  | .configuration .. => "ConfigurationError".toList
  | .outputExists .. => "OutputExistsError".toList
  | .schemaNotFound .. => "SchemaNotFoundError".toList
  | .cannotAppend .. => "AppendError".toList

/-- The words of a failure. -/
def message : Failure → Text
  | .general m _ => m
  | .configuration parameter value reason _ => (SettingsError.invalid parameter value reason).message
  | .outputExists _ =>
      "Output file already exists. Use --force to overwrite or --append to append.".toList
  | .schemaNotFound .. => "rails schema.rb not found".toList
  | .cannotAppend target reason =>
      "Cannot append to '".toList ++ target ++ "': ".toList ++ reason

/-- The values that belong to a failure. -/
def details : Failure → List (Text × Json)
  | .general _ d => d
  | .configuration _ _ _ d => d
  | .outputExists target => [("target_path".toList, .text target)]
  | .schemaNotFound directory searched =>
      [("cwd".toList, .text directory), ("searched".toList, .list (searched.map .text))]
  | .cannotAppend target _ => [("target_path".toList, .text target)]

/-- Class, words and values of a failure, in this order. -/
def members (f : Failure) : List (Text × Json) :=
  [("error_type".toList, .text f.kind), ("message".toList, .text f.message),
    ("details".toList, .object f.details)]

/-- A failure as a JSON value. -/
def toJson (f : Failure) : Json :=
  .object f.members

end Failure
end SchemaSpec
