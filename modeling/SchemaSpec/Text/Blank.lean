import SchemaSpec.Text.Basic

/-!
# Blank characters

Blanks are the white space of every script: the tab and its neighbours, the four information
separators, the space, the next-line control, and the Unicode spaces and separators.  The zero
width space and the byte order mark are not blank.

* `trim`: a text without the blanks at both ends.
* `fields`: the non-empty pieces between runs of blanks.
-/

namespace SchemaSpec
namespace Text

/-- Inclusive ranges of the blank characters, in increasing order. -/
def blankRanges : List (Nat × Nat) :=
  [(9, 13), (28, 32), (133, 133), (160, 160), (5760, 5760), (8192, 8202), (8232, 8233),
    (8239, 8239), (8287, 8287), (12288, 12288)]

/-- Whether a character is blank. -/
def isBlank (c : Char) : Bool :=
  inRanges blankRanges c

/-- A text without its leading blanks. -/
def trimStart (t : Text) : Text :=
  t.dropWhile isBlank

/-- A text without its trailing blanks. -/
def trimEnd (t : Text) : Text :=
  dropEnd isBlank t

/-- A text without the blanks at both ends. -/
def trim (t : Text) : Text :=
  trimEnd (trimStart t)

/-- The non-empty pieces between runs of blanks. -/
def fields (t : Text) : List Text :=
  (splitWhere isBlank t).filter (fun piece => !piece.isEmpty)

end Text
end SchemaSpec
