import SchemaSpec.Options.Literal

/-!
# Tables

* `Field`: a column, with the name of its TypeSpec type.
* `TableModel`: a table with its columns in source order.
-/

namespace SchemaSpec

/-- A column of a table. -/
structure Field where
  name : Text
  typeName : Text
  nullable : Bool := true
  description : Option Text := none
  metadata : Option Text := none
  default : Option Literal := none
  deriving Repr, DecidableEq

/-- A table, under the name of its model. -/
structure TableModel where
  name : Text
  tableName : Text
  comment : Option Text := none
  primaryKey : Option Text := none
  fields : List Field := []
  deriving Repr, DecidableEq

/-- The names of the columns, in source order. -/
def TableModel.fieldNames (m : TableModel) : List Text :=
  m.fields.map Field.name

/-- A text that says something: an empty one counts as absent. -/
def nonEmpty? (t : Option Text) : Option Text :=
  t.filter (fun s => !s.isEmpty)

end SchemaSpec
