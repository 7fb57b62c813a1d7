import SchemaSpec.CommandLine.Run
import Std.Time.Zoned

/-!
# The program

The part of the disk that a run looks at is read into a file tree, the run is made on the tree, and
what the run has changed is written back.

* `Disk.readFor`, `Disk.write`: the disk as a file tree, and back.
* `main`: the program.
-/

namespace SchemaSpec
namespace Disk

open Text

/-- A path as the system writes it. -/
def place (p : Path) : String :=
  String.ofList p.toText

/-- What is seen at a path.  A sealed file cannot be read. -/
structure Seen where
  path : Path
  entry : Entry
  isSealed : Bool := false

/-- A file with what is in it, unless it cannot be read. -/
def file (p : Path) : IO Seen := do
  try
    return { path := p, entry := .file (← IO.FS.readBinFile (place p)).toList }
  catch _ =>
    return { path := p, entry := .file [], isSealed := true }

/-- What is at a path, with what is in the file if it is of use. -/
def seen (kind : IO.FS.FileType) (useful : Bool) (p : Path) : IO (List Seen) := do
  match kind with
  | .dir => return [{ path := p, entry := .directory }]
  | .file => return [← if useful then file p else pure { path := p, entry := .file [] }]
  | _ => return []

/-- What is at a path itself. -/
def single (p : Path) : IO (List Seen) := do
  let here ← IO.currentDir
  try
    let data ← (here / place p).metadata
    seen data.type true p
  catch _ =>
    return []

/-- Whether the text of a file may be asked for. -/
def isSource (name : Text) : Bool :=
  (after? "br.".toList name.reverse).isSome

/-- What is below a directory, but for directories that no search enters. -/
partial def below (directory : Path) : IO (List Seen) := do
  let here ← IO.currentDir
  let found ← try (here / place directory).readDir catch _ => pure #[]
  let mut entries := []
  for e in found do
    let name := e.fileName.toList
    let p := directory ++ [name]
    let kind ← try
        let data ← e.path.symlinkMetadata
        pure data.type
      catch _ => pure .other
    let here ← seen kind (isSource name) p
    entries := entries ++ here
    if here.any (fun e => e.entry.isDirectory) && !FileTree.usuallyIgnored.contains name then
      entries := entries ++ (← below p)
  return entries

/-- A directory and what is below it. -/
def whole (directory : Path) : IO (List Seen) := do
  return (← single directory) ++ (← below directory)

/-- The paths that lead to a path, and the path. -/
def leading (p : Path) : List Path :=
  (List.range p.length).map (fun n => p.take (n + 1))

/-- A tree with one entry more. -/
def addSeen (tree : FileTree) (e : Seen) : FileTree :=
  let more := tree.put e.path e.entry
  if e.isSealed then { more with sealed := e.path :: more.sealed } else more

/-- A tree with more entries, for which what is there already stays. -/
def add (tree : FileTree) (entries : List Seen) : FileTree :=
  entries.foldl (fun t e => if (t.entry? e.path).isSome then t else addSeen t e) tree

/-- The part of the disk that a run in a directory with a target looks at. -/
def read (directory target : Path) : IO FileTree := do
  let tree := add {} (← (leading directory ++ leading target).mapM single).flatten
  let tree := add tree (← (SchemaFile.nearProjects directory).mapM whole).flatten
  match SchemaFile.findPlaced? tree directory with
  | .ok none => return add tree (← whole (SchemaFile.searchRoot directory))
  | _ => return tree

/-- The part of the disk that a request looks at; one without a directory or a target looks at
none. -/
def readFor (r : Generate.Request) : IO FileTree :=
  match r.base, r.target with
  | .ok directory, .ok target => read directory target
  | _, _ => pure {}

/-- Write what is new in a tree. -/
def write (before after : FileTree) : IO Unit := do
  for e in after.entries do
    if before.entry? e.1 != some e.2 then
      match e.2 with
      | .directory => IO.FS.createDirAll (place e.1)
      | .file content => IO.FS.writeBinFile (place e.1) ⟨content.toArray⟩

/-- The day of today. -/
def today : IO Document.Date := do
  let d ← Std.Time.PlainDate.now
  return ⟨d.year.toInt.toNat, d.month.toNat, d.day.toNat⟩

/-- The variables of the settings whose bytes are no text, as far as the system shows these bytes. -/
def unencodable : IO (List (Text × EncodeError)) := do
  let raw ← try IO.FS.readBinFile "/proc/self/environ" catch _ => pure .empty
  let assignments := raw.toList.splitOn 0
  let isBroken := fun (name : String) => assignments.any (fun bytes =>
    (encode (name.toList ++ ['='])).isPrefixOf bytes && (decode bytes).toOption.isNone)
  return (Settings.variableNames.filter isBroken).map (fun name =>
    (name.toList, ⟨"surrogates not allowed".toList⟩))

/-- The environment of the settings. -/
def environment : IO Environment := do
  let values ← Settings.variableNames.mapM (fun name => do
    let value ← IO.getEnv name
    return (value.map (fun v => (name.toList, v.toList))).toList)
  return values.flatten

end Disk

namespace CommandLine

/-- How the program is called. -/
def usage : String :=
  "usage: rails-tsp [-h] [--force | --append] [--out OUT] [--cwd CWD] [--no-enums] [--debug]"

/-- Tell how a run has ended, where the consoles do not. -/
def tell (errors : IO.FS.Stream) : Ending → IO Unit
  | .helped => IO.println usage
  | .misused e => do
      errors.putStrLn usage
      errors.putStrLn (String.ofList e.line)
  | .passedOn s => errors.putStrLn (String.ofList (s.kind ++ ": ".toList ++ s.message))
  | _ => pure ()

/-- A run on the disk. -/
def runOnDisk (words : List Text) : IO UInt32 := do
  let errors ← IO.getStderr
  let workingDirectory := Path.resolve [] (← IO.currentDir).toString.toList
  let call : Call :=
    { words, workingDirectory, environment := ← Disk.environment, today := ← Disk.today,
      unencodable := ← Disk.unencodable }
  let asked := request Console.toolkit call ((Arguments.ofWords words).toOption.getD {})
  let before ← Disk.readFor asked
  let answer := run call {} before
  Disk.write before answer.tree
  for r in answer.records do
    errors.putStrLn (String.ofList (r.level.name ++ [' '] ++ r.message))
  IO.print (String.ofList answer.output)
  errors.putStr (String.ofList answer.errors)
  tell errors answer.ending
  return (answer.ending.code?.getD 1).toUInt32

end CommandLine
end SchemaSpec

/-- The program. -/
def main (words : List String) : IO UInt32 :=
  SchemaSpec.CommandLine.runOnDisk (words.map String.toList)
