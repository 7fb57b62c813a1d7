import SchemaSpec.Files.Path

/-!
# Path patterns

A pattern is a list of segments.  In a segment, `?` stands for one character and `*` for any
number of them, but never for a slash.  The segment `**` stands for any number of whole segments,
each with its slash, or for one or more segments if it is the last.

* `Wild.ofSegments`: the pattern as a list of wild characters.
* `Wild.fits`: whether a written path as a whole fits a pattern.
-/

namespace SchemaSpec

open Text

/-- One element of a pattern. -/
inductive Wild
  /-- This character. -/
  | char (c : Char)
  /-- One character that is no slash. -/
  | one
  /-- Any number of characters that are no slashes. -/
  | many
  /-- Any number of non-empty segments, each with a slash behind it. -/
  | directories
  /-- One or more non-empty segments with slashes between them. -/
  | segments
  deriving Repr, DecidableEq

namespace Wild

/-- Whether a character has a meaning of its own in patterns. -/
def isWild (c : Char) : Bool :=
  c == '*' || c == '?'

/-- The pattern of a segment. -/
def ofSegment (segment : Text) : List Wild :=
  segment.map (fun c => if c = '*' then .many else if c = '?' then .one else .char c)

/-- The pattern of segments. -/
def ofSegments : List Text → List Wild
  | [] => []
  | [s] => if s = ['*', '*'] then [.segments] else ofSegment s
  | s :: t :: rest =>
      if s = ['*', '*'] then .directories :: ofSegments (t :: rest)
      else ofSegment s ++ .char '/' :: ofSegments (t :: rest)

/-- Whether one of the texts `t`, `t` less one character that is no slash, `t` less two of them, ...
passes a test. -/
def afterMany (test : Text → Bool) : Text → Bool
  | [] => test []
  | c :: r => test (c :: r) || (c != '/' && afterMany test r)

/-- Whether one of the texts `t`, `t` less one non-empty segment with its slash, ... passes a test;
`started` says whether a segment has been started. -/
def afterDirectories (test : Text → Bool) (started : Bool) : Text → Bool
  | [] => !started && test []
  | c :: r =>
      (!started && test (c :: r))
        || (if c = '/' then started && afterDirectories test false r
            else afterDirectories test true r)

/-- Whether the whole text consists of non-empty segments with slashes between them. -/
def isSegments (t : Text) : Bool :=
  (splitOn '/' t).all (fun s => !s.isEmpty)

/-- Whether a written path as a whole fits a pattern. -/
def fits : List Wild → Text → Bool
  | [], t => t.isEmpty
  | .char c :: p, t =>
      match t with
      | [] => false
      | d :: r => d == c && fits p r
  | .one :: p, t =>
      match t with
      | [] => false
      | d :: r => d != '/' && fits p r
  | .many :: p, t => afterMany (fits p) t
  | .directories :: p, t => afterDirectories (fits p) false t
  | .segments :: p, t => p.isEmpty && isSegments t

end Wild
end SchemaSpec
