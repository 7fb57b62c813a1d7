import SchemaSpec.Text.Basic

/-!
# Paths

A path is the list of its segments from the root of the tree on.

* `Path.segmentsOf`: the segments of a written path; empty ones and points say nothing.
* `Path.resolve`: the path that a written path means in a directory.  A double point takes back the
  segment before it, whatever that is, and nothing at the root.
* `Path.toText`: a path written out.
* `Path.stem`: the last segment without its ending.
-/

namespace SchemaSpec

open Text

/-- A path, as its segments from the root on. -/
abbrev Path := List Text

namespace Path

/-- The segment that leads to the directory above. -/
def above : Text := ['.', '.']

/-- The segments of a written path. -/
def segmentsOf (t : Text) : List Text :=
  (splitOn '/' t).filter (fun s => !s.isEmpty && s != ['.'])

/-- Whether a written path starts at the root. -/
def isAbsolute (t : Text) : Bool :=
  t.head? == some '/'

/-- The segments of a written path, behind those of a directory unless it starts at the root. -/
def within (directory : Path) (t : Text) : List Text :=
  (if isAbsolute t then [] else directory) ++ segmentsOf t

/-- The path behind one more segment. -/
def enter (p : Path) (segment : Text) : Path :=
  if segment = above then p.dropLast else p ++ [segment]

/-- The path that segments lead to from the root. -/
def normalize (segments : List Text) : Path :=
  segments.foldl enter []

/-- The path that a written path means in a directory. -/
def resolve (directory : Path) (t : Text) : Path :=
  normalize (within directory t)

/-- A path written out. -/
def toText (p : Path) : Text :=
  '/' :: join ['/'] p

/-- The last segment of a path; the root has none. -/
def name (p : Path) : Text :=
  p.getLastD []

/-- The directory that holds a path; the root holds itself. -/
def parent (p : Path) : Path :=
  p.dropLast

/-- The segments from a directory on, if a path lies in it or below. -/
def below? : (directory p : Path) → Option (List Text)
  | [], p => some p
  | _ :: _, [] => none
  | d :: ds, s :: p => if d = s then below? ds p else none

/-- Compare two paths segment by segment. -/
def le : Path → Path → Bool
  | [], _ => true
  | _ :: _, [] => false
  | s :: p, t :: q => if s = t then le p q else Text.le s t

/-- A name without its ending, which starts at the last point; a point that is the first or the last
character starts no ending. -/
def stemOf (name : Text) : Text :=
  let ending := (name.reverse.takeWhile (fun c => c != '.')).reverse
  let stem := name.take (name.length - ending.length - 1)
  if stem.isEmpty || ending.isEmpty then name else stem

/-- The last segment of a written path without its ending. -/
def stem (t : Text) : Text :=
  stemOf ((segmentsOf t).getLastD [])

end Path
end SchemaSpec
