import SchemaSpec.Files.Tree
import SchemaSpec.Files.Glob

/-!
# Searching files

* `Pattern`: a written pattern read: how many directories up the search starts, the leading segments
  without wild characters, and the segments to match.
* `FileTree.walk`: the files that are met on a walk through directories.  Directories with an
  ignored name are not entered, nor is what lies deeper than the walk goes; a directory whose path
  is too long lists nothing.
* `FileTree.search`: the files that fit one pattern, sorted by their segments.  The walk starts
  behind the leading segments of the pattern.  A search fails only if the path of the directory
  where it starts is too long.
* `FileTree.searchAll`: several patterns one after the other, each file once.
-/

namespace SchemaSpec

open Text

/-- A search pattern. -/
structure Pattern where
  up : Nat
  leading : List Text
  matching : List Text
  deriving Repr, DecidableEq

namespace Pattern

/-- Count and remove the leading double points of a written pattern. -/
def climb : Text → Nat × Text
  | '.' :: '.' :: '/' :: r => ((climb r).1 + 1, (climb r).2)
  | t => (0, t)

/-- Cut off the leading segments without wild characters, but never the last segment. -/
def cutLeading : List Text → List Text × List Text
  | [] => ([], [])
  | [s] => ([], [s])
  | s :: t :: rest =>
      if s.any Wild.isWild then ([], s :: t :: rest)
      else (s :: (cutLeading (t :: rest)).1, (cutLeading (t :: rest)).2)

/-- Read a written pattern. -/
def ofText (t : Text) : Pattern :=
  let climbed := climb t
  let cut := cutLeading (Path.segmentsOf climbed.2)
  ⟨climbed.1, cut.1, cut.2⟩

/-- The segments that lead to the directory where the search of a pattern starts. -/
def start (p : Pattern) (base : Path) : List Text :=
  base.take (base.length - p.up) ++ p.leading

/-- Whether a file, by its segments from the start of the search on, fits. -/
def fits (p : Pattern) (segments : List Text) : Bool :=
  Wild.fits (Wild.ofSegments p.matching) (join ['/'] segments)

end Pattern

namespace FileTree

/-- The directories that are not entered unless a search says otherwise. -/
def usuallyIgnored : List Text :=
  ["node_modules", ".git", "dist", "build", "vendor", "tmp"].map String.toList

/-- The files met on a walk behind a start, with their segments from there on.  It begins at the
directory `below` and goes `levels` directories deep. -/
def walk (t : FileTree) (ignored : List Text) (start : List Text) : Nat → Path → List Path
  | 0, _ => []
  | levels + 1, below =>
      if (SystemFault.ofSegments? (start ++ below)).isSome then []
      else
        let place := Path.normalize start ++ below
        let entered := (t.namesIn true place).filter (!ignored.contains ·)
        (t.namesIn false place).map (below ++ [·])
          ++ entered.flatMap (fun name => t.walk ignored start levels (below ++ [name]))

/-- How deep a walk has to go for a pattern: as many segments fit only as the pattern has, unless
one of them stands for any number of segments. -/
def levelsFor (t : FileTree) (p : Pattern) : Nat :=
  if p.matching.contains ['*', '*'] then t.height else p.matching.length

/-- The files behind a start that fit a pattern, sorted by their segments. -/
def matching (t : FileTree) (start : List Text) (ignored : List Text) (p : Pattern) : List Path :=
  (((t.walk ignored start (t.levelsFor p) []).filter p.fits).mergeSort Path.le).map
    (Path.normalize start ++ ·)

/-- The files that fit a pattern, sorted by their segments. -/
def search (t : FileTree) (base : Path) (ignored : List Text) (pattern : Text) :
    Except SystemError (List Path) :=
  let p := Pattern.ofText pattern
  if p.matching.isEmpty then .ok []
  else do
    let isThere ← t.isDirectory? (p.start base)
    return if isThere then t.matching (p.start base) ignored p else []

/-- The members of `new` that are not among `old`, each once. -/
def fresh (old : List Path) : List Path → List Path
  | [] => []
  | p :: ps => if old.contains p then fresh old ps else p :: fresh (p :: old) ps

/-- The files that fit patterns, pattern by pattern, each file once. -/
def searchAll (t : FileTree) (base : Path) (ignored : List Text) (patterns : List Text) :
    Except SystemError (List Path) := do
  let found ← patterns.mapM (t.search base ignored)
  return fresh [] found.flatten

end FileTree
end SchemaSpec
