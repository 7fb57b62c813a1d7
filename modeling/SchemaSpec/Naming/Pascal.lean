import SchemaSpec.Text.Casing
import SchemaSpec.Text.Blank

/-!
# Pascal case

* `toPascal`: the segments between underscores and blanks, each with an upper case first character,
  put together.
-/

namespace SchemaSpec
namespace Naming

open Text

/-- Whether a character separates the segments of a name. -/
def separatesSegments (c : Char) : Bool :=
  c == '_' || isBlank c

/-- A text with its first character in upper case. -/
def capitalize : Text → Text
  | [] => []
  | c :: r => upperChar c ++ r

/-- The Pascal case form of a name. -/
def toPascal (name : Text) : Text :=
  (splitWhere separatesSegments name).flatMap capitalize

end Naming
end SchemaSpec
