import SchemaSpec.Enumeration.Declaration
import SchemaSpec.Text.Word

/-!
# Enum namespaces

The enums of each model stand in a namespace of their own, named after the model.

* `enumMember`: a value as an enum member; a value that is no identifier is put in backquotes.
* `group`: enums by model, models in the order of their first enum.
* `enumNamespaces`: the namespaces of all models that have enums.
* `enumType?`: the qualified type name of a column that holds an enum.
-/

namespace SchemaSpec
namespace Document

open Text

/-- The name of the enum namespace of a model. -/
def enumNamespaceName (modelName : Text) : Text :=
  modelName ++ "Enums".toList

/-- A value as an enum member: as it is if it is an identifier, one final line feed left aside, and
otherwise in backquotes, with a backslash before each backquote in it. -/
def enumMember (value : Text) : Text :=
  if isIdentifier (dropFinalLineFeed value) then value
  else
    '\x60' :: value.flatMap (fun c => if c = '\x60' then ['\\', '\x60'] else [c]) ++ ['\x60']

/-- The line of an enum member. -/
def enumMemberLine (value : Text) : Text :=
  "      ".toList ++ enumMember value ++ [',']

/-- An enum with its members, one a line. -/
def enumBlock (e : EnumDecl) : Text :=
  "    enum ".toList ++ Naming.toPascal e.fieldName ++ " \x7b\n".toList
    ++ join ['\n'] (e.values.map enumMemberLine) ++ "\n    \x7d".toList

/-- Add an enum behind the others of its model. -/
def insertGrouped (e : EnumDecl) : List (Text × List EnumDecl) → List (Text × List EnumDecl)
  | [] => [(e.modelName, [e])]
  | (m, es) :: gs => if m = e.modelName then (m, es ++ [e]) :: gs else (m, es) :: insertGrouped e gs

/-- Enums by model, models in the order of their first enum. -/
def group (enums : List EnumDecl) : List (Text × List EnumDecl) :=
  enums.foldl (fun gs e => insertGrouped e gs) []

/-- The namespace of the enums of a model. -/
def enumNamespace (modelName : Text) (enums : List EnumDecl) : Text :=
  "  namespace ".toList ++ enumNamespaceName modelName ++ " \x7b\n".toList
    ++ join "\n\n".toList (enums.map enumBlock) ++ "\n  \x7d".toList

/-- The namespaces of all models that have enums, with an empty line between each two. -/
def enumNamespaces (enums : List EnumDecl) : Text :=
  join "\n\n".toList ((group enums).map (fun g => enumNamespace g.1 g.2))

/-- The qualified name of the enum that a column of a model holds, if it holds one. -/
def enumType? (fieldName modelName : Text) (enums : List EnumDecl) : Option Text :=
  if enums.any (fun e => e.modelName == modelName && e.fieldName == fieldName) then
    some (enumNamespaceName modelName ++ ['.'] ++ Naming.toPascal fieldName)
  else none

end Document
end SchemaSpec
