import SchemaSpec.Table.Header

/-!
# Schema listings

A listing is read line by line.  Outside a table, a line that starts a header begins one; inside a
header, each line adds attributes until one ends it; inside a block, each line is kept until an
`end` line gives the table.  All other lines are passed over, and a header or block that is still
open at the end gives no table.

* `Place`: where the reading stands.
* `scan`: the tables and the place behind some lines.
* `parse`: the tables of a listing, in source order.
* `openTable?`: the table that is still open at the end of a listing.
-/

namespace SchemaSpec
namespace Schema

open Text

/-- Where the reading of a listing stands. -/
inductive Place
  | outside
  /-- Behind the start of a header; the attributes read so far. -/
  | inHeader (tableName attributes : Text)
  /-- In a block; the block variable and the lines read so far. -/
  | inBlock (header : Header) (block : Text) (body : List Text)
  deriving Repr, DecidableEq

/-- The place behind a further line of a header. -/
def headerLine (tableName attributes line : Text) : Place :=
  match Header.close? line with
  | some (before, block) =>
      .inBlock (Header.ofAttributes tableName (attributes ++ ' ' :: before)) block []
  | none => .inHeader tableName (attributes ++ ' ' :: line)

/-- The table of a finished block. -/
def blockModel (header : Header) (block : Text) (body : List Text) :
    Except LiteralError TableModel :=
  (Column.ofLines block body).map header.toModel

/-- The table that a trimmed line finishes, if it does, and the place behind it. -/
def step : Place → Text → Except LiteralError (Option TableModel × Place)
  | .outside, line =>
      match Header.open? line with
      | some (tableName, rest) => .ok (none, headerLine tableName [] rest)
      | none => .ok (none, .outside)
  | .inHeader tableName attributes, line => .ok (none, headerLine tableName attributes line)
  | .inBlock header block body, line =>
      if Header.isBlockEnd line then
        (blockModel header block body).map (fun m => (some m, .outside))
      else .ok (none, .inBlock header block (body ++ [line]))

/-- The tables of lines read from a place on, and the place behind them. -/
def scan : Place → List Text → Except LiteralError (List TableModel × Place)
  | p, [] => .ok ([], p)
  | p, line :: rest => do
      let here ← step p (trim line)
      let behind ← scan here.2 rest
      return (here.1.toList ++ behind.1, behind.2)

/-- The tables of a listing, and the place at its end. -/
def read (listing : Text) : Except LiteralError (List TableModel × Place) :=
  scan .outside (lines listing)

/-- The tables of a listing, in source order. -/
def parse (listing : Text) : Except LiteralError (List TableModel) :=
  (read listing).map Prod.fst

/-- The table whose header or block is open. -/
def Place.openTable? : Place → Option Text
  | .outside => none
  | .inHeader tableName _ => some tableName
  | .inBlock header _ _ => some header.tableName

end Schema
end SchemaSpec
