import SchemaSpec.Number.Shortest
import SchemaSpec.Text.Basic

/-!
# JSON values and their text

Object members keep their order, and a member put twice keeps its first place.

* `render`: the text of a value, on one line, with a blank behind each comma and colon.  Only the
  characters from the space to the tilde stand for themselves; all others are escapes, those beyond
  the basic plane two surrogate escapes.
* `put`: set a member.
-/

namespace SchemaSpec

/-- A JSON value; whole numbers have any size. -/
inductive Json
  | null
  | flag (value : Bool)
  | whole (value : Int)
  | real (value : Binary64)
  | text (value : Text)
  | list (items : List Json)
  | object (members : List (Text × Json))

namespace Json

/-- Real numbers are written as the shortest decimal that reads back. -/
def numberLayout : Binary64.DecimalLayout :=
  { Binary64.plainLayout with infinity := "Infinity".toList }

/-- Four hexadecimal digits of a number. -/
def hex4 (n : Nat) : Text :=
  [Nat.digitChar (n / 4096 % 16), Nat.digitChar (n / 256 % 16), Nat.digitChar (n / 16 % 16),
    Nat.digitChar (n % 16)]

/-- The escape of one code unit. -/
def unitEscape (n : Nat) : Text :=
  '\\' :: 'u' :: hex4 n

/-- A character inside a string. -/
def escapeChar (c : Char) : Text :=
  if c = '\x22' then ['\\', '\x22']
  else if c = '\\' then ['\\', '\\']
  else if c = '\n' then ['\\', 'n']
  else if c = '\r' then ['\\', 'r']
  else if c = '\t' then ['\\', 't']
  else if c = '\x08' then ['\\', 'b']
  else if c = '\x0c' then ['\\', 'f']
  else if 0x20 ≤ c.toNat ∧ c.toNat ≤ 0x7E then [c]
  else if c.toNat < 0x10000 then unitEscape c.toNat
  else
    unitEscape (0xD800 + (c.toNat - 0x10000) / 0x400)
      ++ unitEscape (0xDC00 + (c.toNat - 0x10000) % 0x400)

/-- A string with its quotes. -/
def quote (t : Text) : Text :=
  '\x22' :: t.flatMap escapeChar ++ ['\x22']

mutual

/-- The text of a value. -/
def render : Json → Text
  | .null => "null".toList
  | .flag b => if b then "true".toList else "false".toList
  | .whole n => Text.ofInt n
  | .real x => numberLayout.write x
  | .text t => quote t
  | .list items => '[' :: renderItems items ++ [']']
  | .object members => '\x7b' :: renderMembers members ++ ['\x7d']

/-- The texts of list items, with commas. -/
def renderItems : List Json → Text
  | [] => []
  | [v] => render v
  | v :: w :: vs => render v ++ [',', ' '] ++ renderItems (w :: vs)

/-- The texts of object members, with commas. -/
def renderMembers : List (Text × Json) → Text
  | [] => []
  | [(k, v)] => quote k ++ [':', ' '] ++ render v
  | (k, v) :: w :: ms => quote k ++ [':', ' '] ++ render v ++ [',', ' '] ++ renderMembers (w :: ms)

end

/-- Set a member of an object: in its place if it is there, behind the others if not. -/
def put (key : Text) (value : Json) : List (Text × Json) → List (Text × Json)
  | [] => [(key, value)]
  | (k, v) :: ms => if k = key then (k, value) :: ms else (k, v) :: put key value ms

/-- Set several members, one after the other. -/
def putAll (new members : List (Text × Json)) : List (Text × Json) :=
  new.foldl (fun ms m => put m.1 m.2 ms) members

end Json
end SchemaSpec
