import SchemaSpec.Console.Toolkit

/-!
# Markup

A tag is a bracket, a small letter or one of `#`, `/`, `@`, anything without an opening bracket, and
a closing bracket.  Backslashes in front of a tag come in pairs, each of which stands for one; one
that is left over makes the tag a part of the text.  Elsewhere a backslash in front of a bracket
stands for nothing.

* `pieces`: a marked-up text as characters and tags.
* `escape`: a text written so that its tags stand for themselves.
* `plain`: what remains of a marked-up text when its tags are taken away.
-/

namespace SchemaSpec
namespace Markup

/-- A piece of a marked-up text.  A tag comes with the number of backslashes in front of it. -/
inductive Piece
  | char (c : Char)
  | tag (backslashes : Nat) (content : Text)
  deriving Repr, DecidableEq

/-- Whether a tag may start with a character. -/
def startsTag (c : Char) : Bool :=
  c.isLower || c == '#' || c == '/' || c == '@'

/-- The characters before the first closing bracket, if no opening one is among them. -/
def upToBracket? : Text → Option Text
  | [] => none
  | c :: r =>
      if c = ']' then some []
      else if c = '[' then none
      else (upToBracket? r).map (c :: ·)

/-- The content of the tag at the start of a text. -/
def tag? : Text → Option Text
  | '[' :: c :: r => if startsTag c then (upToBracket? r).map (c :: ·) else none
  | _ => none

/-- A number of backslashes. -/
def slashes (n : Nat) : Text :=
  List.replicate n '\\'

/-- The pieces of a text, of which the first `skip` characters belong to the tag read last.  There
are `backslashes` backslashes in front of it. -/
def piecesFrom (skip backslashes : Nat) : Text → List Piece
  | [] => (slashes backslashes).map .char
  | c :: r =>
      match skip with
      | k + 1 => piecesFrom k 0 r
      | 0 =>
          if c = '\\' then piecesFrom 0 (backslashes + 1) r
          else
            match tag? (c :: r) with
            | some content => .tag backslashes content :: piecesFrom (content.length + 1) 0 r
            | none => (slashes backslashes).map .char ++ .char c :: piecesFrom 0 0 r

/-- The pieces of a marked-up text. -/
def pieces (t : Text) : List Piece :=
  piecesFrom 0 0 t

/-- A piece written so that it stands for itself. -/
def Piece.escaped : Piece → Text
  | .char c => [c]
  | .tag n content => slashes (2 * n + 1) ++ Toolkit.tag content

/-- A single backslash at the end of a text doubled, lest it belong to a tag behind it. -/
def guardEnd (t : Text) : Text :=
  if (t.reverse.takeWhile (fun c => c == '\\')).length = 1 then t ++ ['\\'] else t

/-- A text written so that its tags stand for themselves. -/
def escape (t : Text) : Text :=
  guardEnd ((pieces t).flatMap Piece.escaped)

/-- What remains of pieces when the tags are taken away. -/
def plainPieces : List Piece → Text
  | [] => []
  | .char '\\' :: .char '[' :: ps => '[' :: plainPieces ps
  | .char c :: ps => c :: plainPieces ps
  | .tag n content :: ps =>
      slashes (n / 2) ++ (if n % 2 = 1 then Toolkit.tag content else []) ++ plainPieces ps

/-- What remains of a marked-up text when its tags are taken away. -/
def plain (t : Text) : Text :=
  plainPieces (pieces t)

end Markup
end SchemaSpec
