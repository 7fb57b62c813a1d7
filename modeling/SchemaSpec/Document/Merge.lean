import SchemaSpec.Document.Whole
import SchemaSpec.Document.Declared

/-!
# Extending a document

New models are put in front of the last brace of an existing document; what is there stays.

* `lastBrace?`: the document before the brace that ends it, and from it on.
* `merge`: the document with the models that it does not declare yet.  Their enum namespaces come
  with them, but for namespaces that the document declares already.
-/

namespace SchemaSpec
namespace Document

open Text

/-- A day of the calendar. -/
structure Date where
  year : Nat
  month : Nat
  day : Nat
  deriving Repr, DecidableEq

/-- A natural number with at least `width` digits. -/
def paddedNat (width n : Nat) : Text :=
  List.replicate (width - (ofNat n).length) '0' ++ ofNat n

/-- A day as year, month and day. -/
def Date.iso (d : Date) : Text :=
  paddedNat 4 d.year ++ ['-'] ++ paddedNat 2 d.month ++ ['-'] ++ paddedNat 2 d.day

/-- There is something to add, but the document does not end with a brace. -/
inductive MergeError
  | missingBrace
  deriving Repr, DecidableEq

/-- The message of a failed extension. -/
def MergeError.message : MergeError → Text
  | .missingBrace => "document does not end with a closing brace".toList

/-- An extended document, and the names of the models added, in order. -/
structure Merged where
  content : Text
  appended : List Text
  deriving Repr, DecidableEq

/-- Whether a model was added. -/
def Merged.changed (m : Merged) : Bool :=
  !m.appended.isEmpty

/-- The text before the brace that ends a document, and from the brace on. -/
def lastBrace? (document : Text) : Option (Text × Text) :=
  let kept := trimEnd document
  if kept.getLast? = some '\x7d' then
    some (kept.dropLast, '\x7d' :: document.drop kept.length)
  else none

/-- A text without the lines that stand for missing models. -/
def dropPlaceholders (t : Text) : Text :=
  join ['\n'] ((lines t).filter (fun line => line != placeholder))

/-- The models that a document does not declare. -/
def newModels (document : Text) (models : List TableModel) : List TableModel :=
  let declared := modelNames document
  models.filter (fun m => !declared.contains m.name)

/-- The enums of new models whose namespaces the document does not declare. -/
def newEnums (document : Text) (new : List TableModel) (enums : List EnumDecl) : List EnumDecl :=
  let namespaces := namespaceNames document
  enums.filter (fun e =>
    new.any (fun m => m.name == e.modelName)
      && !namespaces.contains (enumNamespaceName e.modelName))

/-- What is put in front of the last brace. -/
def addition (today : Date) (optionalMarker : Bool) (document : Text) (new : List TableModel)
    (enums : List EnumDecl) : Text :=
  "\n".toList
    ++ join "\n\n".toList
      (["  // ---- appended at ".toList ++ today.iso ++ " ----".toList]
        ++ enumSection (newEnums document new enums)
        ++ [modelBlocks enums optionalMarker new])
    ++ "\n".toList

/-- The document with the models that it does not declare yet. -/
def merge (document : Text) (models : List TableModel) (enums : List EnumDecl) (today : Date)
    (optionalMarker : Bool) : Except MergeError Merged :=
  match newModels document models with
  | [] => .ok ⟨document, []⟩
  | m :: ms =>
      match lastBrace? document with
      | none => .error .missingBrace
      | some (before, ending) =>
          let head := dropEnd (fun c => c == '\n') (dropPlaceholders before)
          .ok ⟨head ++ '\n' :: addition today optionalMarker document (m :: ms) enums ++ ending,
            (m :: ms).map TableModel.name⟩

end Document
end SchemaSpec
