import SchemaSpec.Files.Search

/-!
# Finding the schema listing

* `places`, `patterns`: where the listing may be, seen from the directory of the run, in the order in
  which they are tried.
* `SchemaFile.find?`: the first listing found.
* `projectRoot`: the directory of the project that a listing belongs to.
-/

namespace SchemaSpec

open Text

/-- A schema listing that was found: in one of the fixed places, or with a pattern. -/
inductive SchemaFile
  | placed (path : Path)
  | matched (pattern : Text) (path : Path)
  deriving Repr, DecidableEq

namespace SchemaFile

/-- The fixed places. -/
def places : List Text :=
  ["db/schema.rb", "../backend/db/schema.rb", "../api/db/schema.rb"].map String.toList

/-- The patterns tried when nothing is in the fixed places. -/
def patterns : List Text :=
  ["../**/db/schema.rb", "../../**/db/schema.rb"].map String.toList

/-- Everywhere the listing is searched. -/
def searched : List Text :=
  places ++ patterns

/-- Where the listing is. -/
def path : SchemaFile → Path
  | .placed p => p
  | .matched _ p => p

/-- What the log says about the find. -/
def note : SchemaFile → Text
  | .placed p => "Found schema.rb at priority path ".toList ++ p.toText
  | .matched pattern p => "Found schema.rb via ".toList ++ pattern ++ ": ".toList ++ p.toText

/-- The listing in the first of the fixed places that has one. -/
def findPlaced? (tree : FileTree) (directory : Path) : Except SystemError (Option SchemaFile) := do
  let found ← (places.map (Path.resolve directory)).findM? tree.isFile?
  return found.map .placed

/-- The first listing that the first fruitful pattern finds. -/
def findMatched? (tree : FileTree) (directory : Path) : Except SystemError (Option SchemaFile) :=
  patterns.findSomeM? (fun pattern => do
    let found ← tree.search directory FileTree.usuallyIgnored pattern
    return found.head?.map (.matched pattern))

/-- The first listing found from a directory. -/
def find? (tree : FileTree) (directory : Path) : Except SystemError (Option SchemaFile) := do
  match ← findPlaced? tree directory with
  | some found => return some found
  | none => findMatched? tree directory

/-- The project directory of a listing: the one above its directory if that is called `db`, and its
directory otherwise. -/
def projectRoot (listing : Path) : Path :=
  if listing.parent.name = "db".toList then listing.parent.parent else listing.parent

/-- The projects whose listings would be in the fixed places. -/
def nearProjects (directory : Path) : List Path :=
  places.map (fun place => projectRoot (Path.resolve directory place))

/-- The directory below which the patterns search. -/
def searchRoot (directory : Path) : Path :=
  directory.parent.parent

end SchemaFile
end SchemaSpec
