import SchemaSpec.Document.EnumBlock
import SchemaSpec.Table.Basic

/-!
# Models

* `docComment`: a comment line; the text in it cannot close the comment.
* `fieldLines`: a column, with its description on a line before it and its metadata behind it.
* `modelBlock`, `modelBlocks`: a table with its columns, and several of them.
-/

namespace SchemaSpec
namespace Document

open Text

/-- A text with a space inside each closing comment sign. -/
def openComment : Text → Text
  | [] => []
  | '*' :: '/' :: r => '*' :: ' ' :: '/' :: openComment r
  | c :: r => c :: openComment r

/-- A comment line. -/
def docComment (indent text : Text) : Text :=
  indent ++ "/** ".toList ++ openComment text ++ " */\n".toList

/-- A comment line, unless there is nothing to say. -/
def docComment? (indent : Text) (text : Option Text) : Text :=
  match nonEmpty? text with
  | some t => docComment indent t
  | none => []

/-- The type of a column in a model: that of its enum, if it holds one. -/
def fieldType (modelName : Text) (enums : List EnumDecl) (f : Field) : Text :=
  (enumType? f.name modelName enums).getD f.typeName

/-- The lines of a column.  With `optionalMarker`, columns that may be null are marked. -/
def fieldLines (modelName : Text) (enums : List EnumDecl) (optionalMarker : Bool) (f : Field) :
    Text :=
  docComment? "    ".toList f.description
    ++ "    ".toList ++ f.name
    ++ (if optionalMarker && f.nullable then ['?'] else [])
    ++ ": ".toList ++ fieldType modelName enums f
    ++ (if f.nullable then " | null".toList else [])
    ++ [';']
    ++ (match nonEmpty? f.metadata with
        | some m => " // ".toList ++ m
        | none => [])

/-- A model with its columns. -/
def modelBlock (enums : List EnumDecl) (optionalMarker : Bool) (m : TableModel) : Text :=
  docComment? "  ".toList m.comment
    ++ "  model ".toList ++ m.name ++ " \x7b\n".toList
    ++ join ['\n'] (m.fields.map (fieldLines m.name enums optionalMarker))
    ++ "\n  \x7d".toList

/-- Models, with an empty line between each two. -/
def modelBlocks (enums : List EnumDecl) (optionalMarker : Bool) (models : List TableModel) : Text :=
  join "\n\n".toList (models.map (modelBlock enums optionalMarker))

end Document
end SchemaSpec
