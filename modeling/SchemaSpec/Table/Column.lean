import SchemaSpec.Table.Metadata
import SchemaSpec.Table.ScalarType

/-!
# Column lines

Each line of a table block is one of

* `t.timestamps`, with options: two columns, `created_at` and `updated_at`;
* `t.references "user"` or `t.belongs_to "user"`, with options: the column `user_id`;
* `t.<kind> "<name>"`, with options: a column of that kind;
* anything else, among it indexes and constraints: no column.

The block variable, here `t`, is a parameter.

* `ofReference`, `ofKind`, `timestamps`: the columns of the three forms.
* `ofLine`, `ofLines`: the columns of lines.  The only failure is an integer default with too many
  digits.
-/

namespace SchemaSpec
namespace Column

open Text Options

/-- Directives that look like columns but add none. -/
def directives : List Text :=
  ["index", "check_constraint", "exclusion_constraint", "unique_constraint", "foreign_key"].map
    String.toList

/-- A column may be null unless an option says that it may not. -/
def nullable (options : OptionList) : Bool :=
  ((get? "null".toList options).bind asFlag).getD true

/-- The default of a column, if it is a literal. -/
def default? (options : OptionList) : Except LiteralError (Option Literal) :=
  match get? "default".toList options with
  | some raw => asLiteral raw
  | none => .ok none

/-- The two columns of a timestamps line. -/
def timestamps (tail : Text) : List Field :=
  let mayBeNull := nullable (parse tail)
  ["created_at", "updated_at"].map (fun name =>
    { name := name.toList, typeName := ScalarType.ofKind "datetime".toList, nullable := mayBeNull })

/-- The type of a reference column: that of its type option, or that of an identity. -/
def referenceType (options : OptionList) : Text :=
  match nonEmpty? ((get? "type".toList options).bind asSymbol) with
  | some kind => ScalarType.ofKind kind
  | none => ScalarType.ofKind "references".toList

/-- The table that a reference points to: that of its foreign key option, or its own name. -/
def referenceTable (name : Text) (options : OptionList) : Text :=
  let group := ((get? "foreign_key".toList options).map asGroup).getD []
  (nonEmpty? ((get? "to_table".toList group).bind asSymbol)).getD name

/-- The column of a reference. -/
def ofReference (name tail : Text) : Except LiteralError Field := do
  let options := parse tail
  let default ← default? options
  let facts : ColumnFacts :=
    { precision := (get? "precision".toList options).bind asInteger
      scale := (get? "scale".toList options).bind asInteger
      limit := (get? "limit".toList options).bind asInteger
      default := default
      reference := some (referenceTable name options) }
  return {
    name := name ++ "_id".toList
    typeName := referenceType options
    nullable := nullable options
    description := (get? "comment".toList options).bind unquote
    metadata := facts.comment?
    default := default }

/-- A column of some kind.  Only fixed-point decimals have a precision and a scale. -/
def ofKind (kind name tail : Text) : Except LiteralError Field := do
  let options := parse tail
  let default ← default? options
  let size (key : String) :=
    if ScalarType.isFixedPoint kind then (get? key.toList options).bind asInteger else none
  let facts : ColumnFacts :=
    { precision := size "precision"
      scale := size "scale"
      limit := (get? "limit".toList options).bind asInteger
      default := default }
  return {
    name := name
    typeName := ScalarType.ofKind kind
    nullable := nullable options
    description := (get? "comment".toList options).bind unquote
    metadata := facts.comment?
    default := default }

/-- A text in quotes of either form, not empty, and the rest.  The two quotes need not be equal. -/
def quotedName? : Text → Option (Text × Text)
  | [] => none
  | q :: r =>
      if isQuote q then
        match r.takeWhile (fun c => !isQuote c), r.dropWhile (fun c => !isQuote c) with
        | c :: name, _ :: rest => some (c :: name, rest)
        | _, _ => none
      else none

/-- The options of a timestamps line: what stands behind the word, on the same line. -/
def timestampsTail? (block : Text) (line : Text) : Option Text :=
  match after? (block ++ ".timestamps".toList) line with
  | some rest => if wordEnds rest && !rest.contains '\n' then some rest else none
  | none => none

/-- Kind, name and options of a column line. -/
def parts? (block : Text) (line : Text) : Option (Text × Text × Text) := do
  let rest ← after? (block ++ ['.']) line
  let (kind, rest) ← word? rest
  if (rest.head?.map isBlank).getD false then
    let (name, tail) ← quotedName? (trimStart rest)
    if tail.contains '\n' then none else some (kind, name, tail)
  else none

/-- The columns of a line that is trimmed and neither empty nor a comment. -/
def ofCode (block line : Text) : Except LiteralError (List Field) :=
  match timestampsTail? block line with
  | some tail => .ok (timestamps tail)
  | none =>
      match parts? block line with
      | none => .ok []
      | some (kind, name, tail) =>
          if directives.contains kind then .ok []
          else if ScalarType.isAssociation kind then (ofReference name tail).map (fun f => [f])
          else (ofKind kind name tail).map (fun f => [f])

/-- The columns of a line. -/
def ofLine (block line : Text) : Except LiteralError (List Field) :=
  match trim line with
  | [] => .ok []
  | c :: r => if c = '#' then .ok [] else ofCode block (c :: r)

/-- The columns of lines, in their order. -/
def ofLines (block : Text) : List Text → Except LiteralError (List Field)
  | [] => .ok []
  | line :: rest => do
      let here ← ofLine block line
      let behind ← ofLines block rest
      return here ++ behind

end Column
end SchemaSpec
