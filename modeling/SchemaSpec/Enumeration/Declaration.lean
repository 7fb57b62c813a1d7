import SchemaSpec.Enumeration.Values
import SchemaSpec.Options.Pairs
import SchemaSpec.Naming.Pascal

/-!
# Enum declarations

A declaration is a line `enum :status, <values>` or `enum status: <values>` in a model file, with
the arguments in parentheses or not.

* `EnumDecl`: a declared enum with its values.
* `marker?`: the field name and the text behind it of a line that declares an enum.
* `ofSource`: the enums of a model file, in source order.  A declaration without values gives none.
-/

namespace SchemaSpec

/-- An enum of a model: the column that holds it, and its values in order. -/
structure EnumDecl where
  fieldName : Text
  modelName : Text
  values : List Text
  deriving Repr, DecidableEq

namespace EnumDecl

open Text Options

/-- The field name and what follows, if the text is `:name, ...` or `name: ...`. -/
def markedField? (t : Text) : Option (Text × Text) :=
  match symbolWord? t with
  | some (name, rest) =>
      match trimStart rest with
      | ',' :: r => some (name, trimStart r)
      | _ => none
  | none =>
      match word? t with
      | some (name, ':' :: r) => some (name, trimStart r)
      | _ => none

/-- The field name and what follows, if a trimmed line declares an enum. -/
def marker? (line : Text) : Option (Text × Text) :=
  match after? "enum".toList line with
  | some rest => if wordEnds rest then markedField? (skipParenthesis rest) else none
  | none => none

/-- The enum that a line declares, with the lines behind it. -/
def ofLine? (modelName line : Text) (following : List Text) : Option EnumDecl :=
  match marker? (trim line) with
  | some (fieldName, rest) =>
      match readValues (stripComment rest) following with
      | [] => none
      | v :: vs => some ⟨fieldName, modelName, v :: vs⟩
  | none => none

/-- The enums that lines declare, in their order. -/
def ofLines (modelName : Text) : List Text → List EnumDecl
  | [] => []
  | line :: rest => (ofLine? modelName line rest).toList ++ ofLines modelName rest

/-- The enums of a model file, in source order. -/
def ofSource (modelName source : Text) : List EnumDecl :=
  ofLines modelName (lines source)

end EnumDecl
end SchemaSpec
