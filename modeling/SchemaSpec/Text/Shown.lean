import SchemaSpec.Text.PrintTable
import SchemaSpec.Text.Basic

/-!
# Texts shown in quotes

How a message shows a text that a reader must be able to tell from the words around it: in single
quotes, or in double quotes if it holds single ones only.  The quote, the backslash and everything
without a printed form are written as escapes.
-/

namespace SchemaSpec
namespace Text

/-- `width` hexadecimal digits of a number. -/
def hexDigits : (width n : Nat) → Text
  | 0, _ => []
  | w + 1, n => hexDigits w (n / 16) ++ [Nat.digitChar (n % 16)]

/-- A character between quotes. -/
def shownChar (quote c : Char) : Text :=
  if c = quote || c = '\\' then ['\\', c]
  else if c = '\n' then ['\\', 'n']
  else if c = '\r' then ['\\', 'r']
  else if c = '\t' then ['\\', 't']
  else if inRanges unprintableRanges c then
    if c.toNat < 0x100 then ['\\', 'x'] ++ hexDigits 2 c.toNat
    else if c.toNat < 0x10000 then ['\\', 'u'] ++ hexDigits 4 c.toNat
    else ['\\', 'U'] ++ hexDigits 8 c.toNat
  else [c]

/-- The quote that surrounds a shown text. -/
def shownQuote (t : Text) : Char :=
  if t.contains '\x27' && !t.contains '\x22' then '\x22' else '\x27'

/-- A text in quotes. -/
def shown (t : Text) : Text :=
  shownQuote t :: t.flatMap (shownChar (shownQuote t)) ++ [shownQuote t]

end Text
end SchemaSpec
