import SchemaSpec.Document.ModelBlock
import SchemaSpec.Settings

/-!
# Whole documents

A document has a preamble and one namespace with the enum namespaces and the models.

* `settingKeys`: the settings that a document says, in order.
* `preamble`: the lines before the namespace, from the settings.
* `render`: the document of some models and enums.
-/

namespace SchemaSpec
namespace Document

open Text

/-- The settings that a document says, in order. -/
def settingKeys : List SettingKey :=
  [.serviceTitle, .serverUrl, .serverDescription, .routePrefix, .namespaceName]

/-- The line that stands for the models when there are none. -/
def placeholder : Text := "  // No models found in schema.rb".toList

/-- The lines before the namespace. -/
def preamble (s : Settings) : Text :=
  "import \"@typespec/http\";\n".toList
    ++ "import \"@typespec/openapi3\";\n".toList
    ++ "using TypeSpec.Http;\n".toList
    ++ "\n".toList
    ++ "@service(#\x7b title: \"".toList ++ s.serviceTitle.toText ++ "\" \x7d)\n".toList
    ++ "@server(\"".toList ++ s.serverUrl.toText
    ++ "\", \"".toList ++ s.serverDescription.toText ++ "\")\n".toList
    ++ "@route(\"".toList ++ s.routePrefix.toText ++ "\")\n".toList

/-- The enum namespaces as a section, if there are any. -/
def enumSection (enums : List EnumDecl) : List Text :=
  match enums with
  | [] => []
  | e :: es => [enumNamespaces (e :: es)]

/-- The models as a section, or the line that stands for them. -/
def modelSection (s : Settings) (models : List TableModel) (enums : List EnumDecl) : Text :=
  match models with
  | [] => placeholder
  | m :: ms => modelBlocks enums s.optionalMarker.isOn (m :: ms)

/-- The document of some models and enums. -/
def render (s : Settings) (models : List TableModel) (enums : List EnumDecl) : Text :=
  preamble s ++ "namespace ".toList ++ s.namespaceName.toText ++ " \x7b\n".toList
    ++ join "\n\n".toList (enumSection enums ++ [modelSection s models enums])
    ++ "\n\x7d\n".toList

end Document
end SchemaSpec
