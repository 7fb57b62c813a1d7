import SchemaSpec.Table.Column
import SchemaSpec.Naming.Singular

/-!
# Table headers

A header is `create_table "name", <attributes> do |t|`, on one line or several, with the arguments
in parentheses or not.

* `open?`: the table name and the rest of a line that starts a header.
* `close?`: the attributes before `do |t|` and the block variable of a line that ends a header.
* `Header.ofAttributes`: the attributes read.
* `Header.primaryKey`, `withPrimaryKey`: a table has an identity column `id` unless its header says
  otherwise; the column is put first if the block does not declare it.
-/

namespace SchemaSpec

open Text Options

/-- What the attributes of a table say. -/
structure Header where
  tableName : Text
  comment : Option Text
  ownKey : Option Text
  keyless : Bool
  keyType : Text
  deriving Repr, DecidableEq

namespace Header

/-- The table name and the rest of a line that starts a header. -/
def open? (line : Text) : Option (Text × Text) := do
  let rest ← after? "create_table".toList line
  let (name, tail) ← Column.quotedName? (skipParenthesis rest)
  if tail.contains '\n' then none else some (name, tail)

/-- The block variable, if the text is `do |t|`. -/
def blockVariable? (t : Text) : Option Text := do
  let rest ← after? "do".toList t
  let rest ← after? ['|'] (trimStart rest)
  let (block, rest) ← word? (trimStart rest)
  let rest ← after? ['|'] (trimStart rest)
  if (trimStart rest).isEmpty then some block else none

/-- The text before the first `do |t|` that runs to the end, and the block variable; `inWord` says
whether a word character stands before the text. -/
def closeFrom? (inWord : Bool) : Text → Option (Text × Text)
  | [] => none
  | c :: r =>
      match (if inWord then none else blockVariable? (c :: r)) with
      | some block => some ([], block)
      | none => (closeFrom? (isWord c) r).map (fun p => (c :: p.1, p.2))

/-- The attributes and the block variable of a line that ends a header. -/
def close? (line : Text) : Option (Text × Text) :=
  closeFrom? false line

/-- Whether a line ends a block: it starts with the word `end`. -/
def isBlockEnd (line : Text) : Bool :=
  match after? "end".toList line with
  | some rest => wordEnds rest
  | none => false

/-- The kind of an identity column whose header does not name one. -/
def usualKeyType : Text := "bigint".toList

/-- The header of a table from the text of its attributes. -/
def ofAttributes (tableName attributes : Text) : Header :=
  let options := parse (dropEnd (fun c => c == ')') (trim attributes))
  let id := get? "id".toList options
  let groupType := (id.map asGroup).bind (fun g => (get? "type".toList g).bind asSymbol)
  { tableName := tableName
    comment := (get? "comment".toList options).bind unquote
    ownKey := (get? "primary_key".toList options).bind asSymbol
    keyless := id.bind asFlag == some false
    keyType := ((nonEmpty? (id.bind asSymbol)).or (nonEmpty? groupType)).getD usualKeyType }

/-- The name of the primary key, if the table has one. -/
def primaryKey (h : Header) : Option Text :=
  if h.keyless then none else some ((nonEmpty? h.ownKey).getD "id".toList)

/-- The columns with the identity column in front, if it is needed and not among them. -/
def withPrimaryKey (h : Header) (fields : List Field) : List Field :=
  match h.primaryKey with
  | none => fields
  | some key =>
      if fields.any (fun f => f.name == key) then fields
      else { name := key, typeName := ScalarType.ofKind h.keyType, nullable := false } :: fields

/-- The table of a header and its columns. -/
def toModel (h : Header) (fields : List Field) : TableModel where
  name := Naming.modelName h.tableName
  tableName := h.tableName
  comment := nonEmpty? h.comment
  primaryKey := h.primaryKey
  fields := h.withPrimaryKey fields

end Header
end SchemaSpec
