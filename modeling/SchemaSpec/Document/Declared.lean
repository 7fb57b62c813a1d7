import SchemaSpec.Text.Word

/-!
# Declared names

What a document declares is found by looking through its whole text: at each place where a keyword
starts a word, a blank, a name, and an opening brace must follow it.

* `modelNames`: the names behind `model`; a name is a word.
* `namespaceNames`: the names behind `namespace`; a name consists of word characters and points.
-/

namespace SchemaSpec
namespace Document

open Text

/-- A character of a namespace name. -/
def isQualifiedChar (c : Char) : Bool :=
  isWord c || c == '.'

/-- The name, if the text is a keyword, blanks, a name of the given characters and an opening
brace. -/
def declaredHere? (keyword : Text) (isNameChar : Char → Bool) (t : Text) : Option Text :=
  match after? keyword t with
  | some (c :: r) =>
      if isBlank c then
        let rest := trimStart r
        let name := rest.takeWhile isNameChar
        if !name.isEmpty && (trimStart (rest.dropWhile isNameChar)).head? == some '\x7b' then
          some name
        else none
      else none
  | _ => none

/-- All names declared with a keyword in a text; `inWord` says whether a word character stands
before it. -/
def declaredFrom (keyword : Text) (isNameChar : Char → Bool) (inWord : Bool) : Text → List Text
  | [] => []
  | c :: r =>
      (if inWord then none else declaredHere? keyword isNameChar (c :: r)).toList
        ++ declaredFrom keyword isNameChar (isWord c) r

/-- The names of the models that a document declares, in its order. -/
def modelNames (document : Text) : List Text :=
  declaredFrom "model".toList isWord false document

/-- The names of the namespaces that a document declares, in its order. -/
def namespaceNames (document : Text) : List Text :=
  declaredFrom "namespace".toList isQualifiedChar false document

end Document
end SchemaSpec
