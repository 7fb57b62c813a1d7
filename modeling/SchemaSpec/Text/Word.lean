import SchemaSpec.Text.WordTable
import SchemaSpec.Text.Blank

/-!
# Word characters

A word character is a letter, a numeral or an underscore, of any script.

* `word?`: the longest word at the start of a text, with the rest.
* `isIdentifier`: a name of ASCII letters, digits and underscores that starts with no digit.
-/

namespace SchemaSpec
namespace Text

/-- Whether a character is a letter, a numeral or an underscore. -/
def isWord (c : Char) : Bool :=
  if c.toNat < 128 then c.isAlphanum || c == '_'
  else inRanges wordRanges c

/-- The longest non-empty run of word characters at the start of a text, and the rest. -/
def word? (t : Text) : Option (Text × Text) :=
  match t.takeWhile isWord with
  | [] => none
  | c :: r => some (c :: r, t.dropWhile isWord)

/-- Whether no word character stands at the start of a text. -/
def wordEnds : Text → Bool
  | [] => true
  | c :: _ => !isWord c

/-- Whether a character may start an identifier: an ASCII letter or an underscore. -/
def startsIdentifier (c : Char) : Bool :=
  c.isAlpha || c == '_'

/-- Whether a text is an ASCII letter or underscore followed by ASCII letters, digits and underscores. -/
def isIdentifier : Text → Bool
  | [] => false
  | c :: r => startsIdentifier c && r.all (fun d => d.isAlphanum || d == '_')

end Text
end SchemaSpec
