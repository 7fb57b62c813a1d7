import SchemaSpec.Table.Basic
import SchemaSpec.Json

/-!
# Column metadata

What a type name does not say about a column, as the parts of a trailing comment: precision and
scale, limit, default, referenced table, in this order.
-/

namespace SchemaSpec

/-- A literal as a JSON value. -/
def Literal.toJson : Literal → Json
  | .text t => .text t
  | .flag b => .flag b
  | .whole n => .whole n
  | .real x => .real x

/-- The facts of a column that go into its trailing comment; an empty text counts as absent. -/
structure ColumnFacts where
  precision : Option Text := none
  scale : Option Text := none
  limit : Option Text := none
  default : Option Literal := none
  reference : Option Text := none
  deriving Repr, DecidableEq

namespace ColumnFacts

/-- The precision of a decimal that gives only a scale. -/
def usualPrecision : Text := "10".toList

/-- The scale of a decimal that gives only a precision. -/
def usualScale : Text := "0".toList

/-- Precision and scale, if one of them is given. -/
def sizePart (f : ColumnFacts) : List Text :=
  match nonEmpty? f.precision, nonEmpty? f.scale with
  | none, none => []
  | p, s =>
      ["precision: ".toList ++ p.getD usualPrecision ++ ", scale: ".toList ++ s.getD usualScale]

/-- The limit, if there is one. -/
def limitPart (f : ColumnFacts) : List Text :=
  (nonEmpty? f.limit).toList.map ("limit: ".toList ++ ·)

/-- The default as a JSON text, if there is one. -/
def defaultPart (f : ColumnFacts) : List Text :=
  f.default.toList.map (fun d => "default: ".toList ++ d.toJson.render)

/-- The referenced table, if there is one. -/
def referencePart (f : ColumnFacts) : List Text :=
  (nonEmpty? f.reference).toList.map ("ref: ".toList ++ ·)

/-- The parts that are present, in their fixed order. -/
def parts (f : ColumnFacts) : List Text :=
  f.sizePart ++ f.limitPart ++ f.defaultPart ++ f.referencePart

/-- The trailing comment, if there is something to say. -/
def comment? (f : ColumnFacts) : Option Text :=
  match f.parts with
  | [] => none
  | p :: ps => some (Text.join "; ".toList (p :: ps))

end ColumnFacts
end SchemaSpec
