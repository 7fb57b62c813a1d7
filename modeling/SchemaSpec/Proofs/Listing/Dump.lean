import SchemaSpec.Proofs.Options.Closed
import SchemaSpec.Table.Schema

/-!
# Tables and their listings

A listing is written from tables: each table is a header line, the lines of its columns, and an
`end` line.

**Freedom.**  Any blanks may stand around a line, the options of a header or column may come in any
order, and lines that say nothing about columns may stand anywhere: blank lines, comment lines, and
in a block the lines of indexes and constraints; between blocks, every line that starts no header.

* `Table`, `ColumnLine`, `Facts`: what is written.  Names, kinds and numbers carry what makes them
  writable.
* `Table.header`, `ColumnLine.code`: how it is written, given an order of the options.
* `IsListing`: a text is a listing of some tables; `dump` is the plainest one.
* `Table.toModel`: the table model that is meant.  Line feeds, tabs and carriage returns in comments
  and defaults count as spaces.
-/

namespace SchemaSpec
namespace Listing

open Text Options

/-! ## What is written -/

/-- A word: the kind of a column, the name of a symbol. -/
abbrev Word := {t : Text // IsWordRun t}

/-- A non-empty text without quotes and line feeds. -/
def IsQuotable (t : Text) : Prop :=
  t ≠ [] ∧ ∀ c ∈ t, isQuote c = false ∧ c ≠ '\n'

instance (t : Text) : Decidable (IsQuotable t) :=
  decidable_of_iff (t ≠ [] ∧ t.all (fun c => !isQuote c && c != '\n') = true)
    (by simp [IsQuotable])

/-- A name that can stand in quotes: not empty, without quotes and line feeds. -/
abbrev QuotedName := {t : Text // IsQuotable t}

/-- The kind of a regular column: a word that is no directive, no timestamps and no association. -/
abbrev PlainKind :=
  {t : Text // IsWordRun t ∧ t ≠ "timestamps".toList ∧ t ∉ Column.directives
    ∧ ScalarType.isAssociation t = false}

/-- An integer whose digits an integer literal may have. -/
abbrev Whole := {n : Int // (ofNat n.natAbs).length ≤ digitLimit}

/-- The default of a column. -/
inductive Default
  | text (value : Text)
  | flag (value : Bool)
  | whole (value : Whole)

/-- What any column may say. -/
structure Facts where
  null : Option Bool := none
  limit : Option Int := none
  precision : Option Int := none
  scale : Option Int := none
  default : Option Default := none
  comment : Option Text := none

/-- The word of a reference column. -/
inductive Association
  | references
  | belongsTo

/-- A column line of a table. -/
inductive ColumnLine
  | plain (kind : PlainKind) (name : QuotedName) (facts : Facts)
  | reference (word : Association) (name : QuotedName) (kind target : Option Word) (facts : Facts)
  | timestamps (facts : Facts)

/-- What a header says about the identity column. -/
inductive Identity
  | disabled
  | ofKind (kind : Word)
  | sized (kind : Word) (limit : Int)

/-- A table. -/
structure Table where
  name : QuotedName
  identity : Option Identity := none
  primaryKey : Option Word := none
  comment : Option Text := none
  columns : List ColumnLine := []

/-! ## How it is written -/

/-- A character of a string literal in double quotes. -/
def literalChar (c : Char) : Text :=
  if c = '\\' then ['\\', '\\']
  else if c = '\x22' then ['\\', '\x22']
  else if c = '\n' then ['\\', 'n']
  else if c = '\t' then ['\\', 't']
  else if c = '\r' then ['\\', 'r']
  else [c]

/-- A string literal in double quotes. -/
def literal (t : Text) : Text :=
  '\x22' :: t.flatMap literalChar ++ ['\x22']

/-- A boolean. -/
def boolean (b : Bool) : Text :=
  if b then "true".toList else "false".toList

/-- A symbol. -/
def symbol (w : Word) : Text :=
  ':' :: w.val

/-- A default. -/
def Default.code : Default → Text
  | .text t => literal t
  | .flag b => boolean b
  | .whole n => ofInt n.val

/-- A key with its value. -/
def pair (o : Text × Text) : Text :=
  o.1 ++ ": ".toList ++ o.2

/-- A braced list of options. -/
def group (options : List (Text × Text)) : Text :=
  '\x7b' :: (' ' :: join comma (options.map pair) ++ [' ']) ++ ['\x7d']

/-- The options among some keys that have a value. -/
def present (entries : List (Text × Option Text)) : List (Text × Text) :=
  entries.filterMap (fun e => e.2.map (fun v => (e.1, v)))

/-- The keys that any column may have, with their values. -/
def Facts.entries (f : Facts) : List (Text × Option Text) :=
  [("null".toList, f.null.map boolean),
    ("limit".toList, f.limit.map ofInt),
    ("precision".toList, f.precision.map ofInt),
    ("scale".toList, f.scale.map ofInt),
    ("default".toList, f.default.map Default.code),
    ("comment".toList, f.comment.map literal)]

/-- The foreign key option of a reference to a table. -/
def targetGroup (w : Word) : Text :=
  group [("to_table".toList, symbol w)]

/-- The keys of a column, with their values. -/
def ColumnLine.entries : ColumnLine → List (Text × Option Text)
  | .plain _ _ facts => facts.entries
  | .reference _ _ kind target facts =>
      ("type".toList, kind.map symbol) :: ("foreign_key".toList, target.map targetGroup)
        :: facts.entries
  | .timestamps facts => facts.entries

/-- The options of a column, in one order. -/
def ColumnLine.options (c : ColumnLine) : List (Text × Text) :=
  present c.entries

/-- An identity option. -/
def Identity.code : Identity → Text
  | .disabled => boolean false
  | .ofKind kind => symbol kind
  | .sized kind limit => group [("type".toList, symbol kind), ("limit".toList, ofInt limit)]

/-- The keys of a header, with their values. -/
def Table.entries (t : Table) : List (Text × Option Text) :=
  [("id".toList, t.identity.map Identity.code),
    ("primary_key".toList, t.primaryKey.map (fun w => literal w.val)),
    ("comment".toList, t.comment.map literal)]

/-- The options of a header, in one order. -/
def Table.options (t : Table) : List (Text × Text) :=
  present t.entries

/-- Options behind a name. -/
def tail (options : List (Text × Text)) : Text :=
  options.flatMap (fun o => comma ++ pair o)

/-- A name in quotes. -/
def quoted (name : QuotedName) : Text :=
  '\x22' :: name.val ++ ['\x22']

/-- The word of a reference column. -/
def Association.word : Association → Text
  | .references => "references".toList
  | .belongsTo => "belongs_to".toList

/-- Options behind the word `timestamps`. -/
def timestampsTail : List (Text × Text) → Text
  | [] => []
  | o :: os => ' ' :: join comma ((o :: os).map pair)

/-- A column line with its options in a given order. -/
def ColumnLine.code (options : List (Text × Text)) : ColumnLine → Text
  | .plain kind name _ => "t.".toList ++ kind.val ++ [' '] ++ quoted name ++ tail options
  | .reference word name _ _ _ =>
      "t.".toList ++ word.word ++ [' '] ++ quoted name ++ tail options
  | .timestamps _ => "t.timestamps".toList ++ timestampsTail options

/-- A header line with its options in a given order. -/
def Table.header (options : List (Text × Text)) (t : Table) : Text :=
  "create_table ".toList ++ quoted t.name ++ tail options ++ " do |t|".toList

/-! ## Listings -/

/-- A line is some code with blanks around it. -/
def LineOf (code line : Text) : Prop :=
  ∃ left right, AllBlank left ∧ AllBlank right ∧ line = left ++ code ++ right

/-- The plain lines of a table. -/
def Table.lines (t : Table) : List Text :=
  t.header t.options :: t.columns.map (fun c => c.code c.options) ++ ["end".toList]

/-- A text on one line: line feeds, tabs and carriage returns count as spaces. -/
def onOneLine (t : Text) : Text :=
  t.map (fun c => if c = '\n' ∨ c = '\t' ∨ c = '\r' then ' ' else c)

/-- A default as a value. -/
def Default.value : Default → Literal
  | .text t => .text (onOneLine t)
  | .flag b => .flag b
  | .whole n => .whole n.val

/-- A column from its name, its type, the facts written about it and those shown behind it. -/
def Facts.toField (f : Facts) (name typeName : Text) (shown : ColumnFacts) : Field where
  name := name
  typeName := typeName
  nullable := f.null.getD true
  description := f.comment.map onOneLine
  metadata := shown.comment?
  default := f.default.map Default.value

/-- The facts shown behind a column that may have a precision and a scale. -/
def Facts.shown (f : Facts) (sized : Bool) (reference : Option Text) : ColumnFacts where
  precision := if sized then f.precision.map ofInt else none
  scale := if sized then f.scale.map ofInt else none
  limit := f.limit.map ofInt
  default := f.default.map Default.value
  reference := reference

/-- The columns of a line. -/
def ColumnLine.fields : ColumnLine → List Field
  | .plain kind name facts =>
      [facts.toField name.val (ScalarType.ofKind kind.val)
        (facts.shown (ScalarType.isFixedPoint kind.val) none)]
  | .reference _ name kind target facts =>
      [facts.toField (name.val ++ "_id".toList)
        (ScalarType.ofKind (kind.elim "references".toList Subtype.val))
        (facts.shown true (some (target.elim name.val Subtype.val)))]
  | .timestamps facts =>
      ["created_at", "updated_at"].map (fun name =>
        { name := name.toList
          typeName := ScalarType.ofKind "datetime".toList
          nullable := facts.null.getD true })

/-- The primary key, if the table has one. -/
def Table.key (t : Table) : Option Text :=
  match t.identity with
  | some .disabled => none
  | _ => some (t.primaryKey.elim "id".toList Subtype.val)

/-- The kind of the identity column. -/
def Table.keyKind (t : Table) : Text :=
  match t.identity with
  | some (.ofKind kind) => kind.val
  | some (.sized kind _) => kind.val
  | _ => "bigint".toList

/-- The columns of a table, with the identity column in front unless there is none or a line
declares it. -/
def Table.fields (t : Table) : List Field :=
  let declared := t.columns.flatMap ColumnLine.fields
  match t.key with
  | none => declared
  | some key =>
      if key ∈ declared.map Field.name then declared
      else { name := key, typeName := ScalarType.ofKind t.keyKind, nullable := false } :: declared

/-- The model of a table.  An empty comment counts as none. -/
def Table.toModel (t : Table) : TableModel where
  name := Naming.modelName t.name.val
  tableName := t.name.val
  comment := (t.comment.filter (fun c => !c.isEmpty)).map onOneLine
  primaryKey := t.key
  fields := t.fields

end Listing
end SchemaSpec
