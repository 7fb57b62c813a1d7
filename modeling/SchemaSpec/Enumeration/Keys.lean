import SchemaSpec.Options.Scan

/-!
# Keys of a value list

The entries of an enum's value list are separated by top-level commas.

* `bareKey`: an entry without its colon or quotes.
* `hashKeys`: the keys of entries such as `a: 0` and `:a => 0`.
* `listItems`: entries such as `:a` and `"a"`.
-/

namespace SchemaSpec
namespace EnumDecl

open Text Options

/-- A text without its first character if that is a colon. -/
def dropColon : Text → Text
  | ':' :: r => r
  | t => t

/-- A text without its ends if they are two equal quotes. -/
def dropQuotes : Text → Text
  | c :: d :: r =>
      if isQuote c && (d :: r).getLast (List.cons_ne_nil d r) == c then (d :: r).dropLast
      else c :: d :: r
  | t => t

/-- A key without the blanks, the colon and the quotes around it. -/
def bareKey (key : Text) : Text :=
  trim (dropQuotes (dropColon (trim key)))

/-- The key of an entry: what stands before its arrow, or before its colon if it has no arrow.  An
entry that starts with a colon and has no arrow is all key. -/
def entryKey (entry : Text) : Text :=
  match cutAt? "=>".toList entry with
  | some (key, _) => bareKey key
  | none => if entry.head? = some ':' then bareKey entry else bareKey (entry.takeWhile (· != ':'))

/-- The non-empty keys of the entries of a hash. -/
def hashKeys (content : Text) : List Text :=
  ((splitTopLevel content).map entryKey).filter (fun key => !key.isEmpty)

/-- The non-empty items of a list. -/
def listItems (content : Text) : List Text :=
  ((splitTopLevel content).map bareKey).filter (fun item => !item.isEmpty)

end EnumDecl
end SchemaSpec
