import SchemaSpec.Text.Casing

/-!
# Column kinds and type names

The TypeSpec type of each column kind.  Fixed-point decimals become strings, so that no digit of
them is lost; an unknown kind becomes a string too.  Letter case does not matter.
-/

namespace SchemaSpec
namespace ScalarType

open Text

/-- The column kinds with a type of their own, with that type. -/
def kinds : List (Text × Text) :=
  [("string", "string"), ("text", "string"), ("citext", "string"), ("integer", "int32"),
    ("smallint", "int32"), ("bigint", "int64"), ("decimal", "string"), ("numeric", "string"),
    ("float", "float64"), ("boolean", "boolean"), ("datetime", "utcDateTime"),
    ("timestamp", "utcDateTime"), ("timestamptz", "utcDateTime"), ("date", "plainDate"),
    ("time", "plainTime"), ("json", "unknown"), ("jsonb", "unknown"), ("hstore", "unknown"),
    ("binary", "bytes"), ("uuid", "string"), ("inet", "string"), ("cidr", "string"),
    ("macaddr", "string"), ("references", "int64"), ("belongs_to", "int64")].map
    (fun p => (p.1.toList, p.2.toList))

/-- The type name of a column kind. -/
def ofKind (kind : Text) : Text :=
  (kinds.lookup (lower kind)).getD "string".toList

/-- Whether a column kind points to another table. -/
def isAssociation (kind : Text) : Bool :=
  lower kind == "references".toList || lower kind == "belongs_to".toList

/-- Whether a column kind is a decimal with a fixed number of places. -/
def isFixedPoint (kind : Text) : Bool :=
  lower kind == "decimal".toList || lower kind == "numeric".toList

end ScalarType
end SchemaSpec
