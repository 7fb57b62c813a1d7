import SchemaSpec.Files.Fault

/-!
# File trees

A file tree holds directories and files by their paths.  A list of segments is followed from the
root: each segment is looked up in a directory that must be there, and a double point leads up.

* `walk?`: the place that segments lead to; only the last one may be missing.  A name that is too
  long cannot be looked up.
* `isFile?`, `isDirectory?`, `readBytes`, `readText`: what is at a place.  The first two fail only
  if a name is too long.
* `makeDirectory`, `ensureDirectory`: make a directory, without and with those above it.
* `writeText`, `createText`: put a file in place, the latter only if nothing is there.
* `namesIn`: what a directory lists; `height`: how deep a tree is.

Operations that change the tree give the tree back also when they fail, since they may have made
some directories before.
-/

namespace SchemaSpec

open Text

/-- What is at a path. -/
inductive Entry
  | directory
  | file (content : Bytes)
  deriving Repr, DecidableEq

/-- Whether a directory is at a path. -/
def Entry.isDirectory : Entry → Bool
  | .directory => true
  | .file _ => false

/-- A tree of directories and files; the root is always a directory.  The sealed files may not be
read. -/
structure FileTree where
  entries : List (Path × Entry) := []
  sealed : List Path := []
  deriving Repr, DecidableEq

/-- Why a file has no text: it cannot be read, or its bytes are no text. -/
inductive ReadError
  | system (e : SystemError)
  | undecodable (e : Utf8Error)
  deriving Repr, DecidableEq

/-- The message of a failed reading. -/
def ReadError.message : ReadError → Text
  | .system e => e.message
  | .undecodable e => e.message

namespace FileTree

/-- What is at a path. -/
def entry? (t : FileTree) (p : Path) : Option Entry :=
  if p = [] then some .directory else t.entries.lookup p

/-- Set what is at a path. -/
def put (t : FileTree) (p : Path) (e : Entry) : FileTree :=
  { t with entries := t.entries.filter (fun x => x.1 != p) ++ [(p, e)] }

/-- The path that segments lead to from `place` on. -/
def walkFrom (t : FileTree) (place : Path) : List Text → Except SystemFault Path
  | [] => .ok place
  | s :: rest =>
      match t.entry? place with
      | none => .error .missing
      | some (.file _) => .error .notDirectory
      | some .directory =>
          if SystemFault.isLongName s then .error .nameTooLong
          else t.walkFrom (Path.enter place s) rest

/-- The path that segments lead to; only its last segment may be missing. -/
def walk? (t : FileTree) (segments : List Text) : Except SystemFault Path :=
  match SystemFault.ofSegments? segments with
  | some fault => .error fault
  | none => t.walkFrom [] segments

/-- What segments lead to, if it is there. -/
def at? (t : FileTree) (segments : List Text) : Except SystemError (Option Entry) :=
  match t.walk? segments with
  | .ok p => .ok (t.entry? p)
  | .error .nameTooLong => .error ⟨.nameTooLong, segments⟩
  | .error _ => .ok none

/-- Whether segments lead to a file. -/
def isFile? (t : FileTree) (segments : List Text) : Except SystemError Bool :=
  (t.at? segments).map (fun
    | some (.file _) => true
    | _ => false)

/-- Whether segments lead to a directory. -/
def isDirectory? (t : FileTree) (segments : List Text) : Except SystemError Bool :=
  (t.at? segments).map (fun e => e == some .directory)

/-- The bytes of a file. -/
def readBytes (t : FileTree) (segments : List Text) : Except SystemError Bytes :=
  match t.walk? segments with
  | .error fault => .error ⟨fault, segments⟩
  | .ok p =>
      match t.entry? p with
      | none => .error ⟨.missing, segments⟩
      | some .directory => .error ⟨.isDirectory, segments⟩
      | some (.file content) =>
          if t.sealed.contains p then .error ⟨.denied, segments⟩ else .ok content

/-- The text of a file, each line end a line feed. -/
def readText (t : FileTree) (segments : List Text) : Except ReadError Text :=
  match t.readBytes segments with
  | .error e => .error (.system e)
  | .ok content =>
      match decode content with
      | .error e => .error (.undecodable e)
      | .ok text => .ok (unifyLineEnds text)

/-- Make a directory in one that is there. -/
def makeDirectory (t : FileTree) (segments : List Text) : Except SystemFault FileTree :=
  match t.walk? segments with
  | .error fault => .error fault
  | .ok p =>
      match t.entry? p with
      | some _ => .error .exists
      | none => .ok (t.put p .directory)

/-- A directory that could not be made is no failure if it is there. -/
def settle (t : FileTree) (segments : List Text) (fault : SystemFault) :
    FileTree × Except SystemError Unit :=
  match t.isDirectory? segments with
  | .ok true => (t, .ok ())
  | .ok false => (t, .error ⟨fault, segments⟩)
  | .error e => (t, .error e)

/-- Make a directory, and those above it that are missing.  The segments come last one first. -/
def ensureReversed (t : FileTree) : List Text → FileTree × Except SystemError Unit
  | [] => (t, .ok ())
  | s :: above =>
      let segments := (s :: above).reverse
      match t.makeDirectory segments with
      | .ok made => (made, .ok ())
      | .error .missing =>
          match t.ensureReversed above with
          | (u, .error e) => (u, .error e)
          | (u, .ok ()) =>
              match u.makeDirectory segments with
              | .ok made => (made, .ok ())
              | .error fault => u.settle segments fault
      | .error fault => t.settle segments fault

/-- Make a directory, and those above it that are missing; it may be there already. -/
def ensureDirectory (t : FileTree) (segments : List Text) : FileTree × Except SystemError Unit :=
  t.ensureReversed segments.reverse

/-- Put a file where segments lead; a file that is there is replaced only if `replace` says so. -/
def putFile (t : FileTree) (replace : Bool) (segments : List Text) (content : Bytes) :
    FileTree × Except SystemError Unit :=
  match t.walk? segments with
  | .error fault => (t, .error ⟨fault, segments⟩)
  | .ok p =>
      match t.entry? p with
      | none => (t.put p (.file content), .ok ())
      | some .directory =>
          (t, .error ⟨if replace then .isDirectory else .exists, segments⟩)
      | some (.file _) =>
          if replace then (t.put p (.file content), .ok ())
          else (t, .error ⟨.exists, segments⟩)

/-- Put a file where segments lead, with the directories above it. -/
def placeText (t : FileTree) (replace : Bool) (segments : List Text) (content : Text) :
    FileTree × Except SystemError Unit :=
  match t.ensureDirectory segments.dropLast with
  | (u, .error e) => (u, .error e)
  | (u, .ok ()) => u.putFile replace segments (encode content)

/-- Write a file, replacing one that is there. -/
def writeText (t : FileTree) (segments : List Text) (content : Text) :
    FileTree × Except SystemError Unit :=
  t.placeText true segments content

/-- Write a file where nothing is yet. -/
def createText (t : FileTree) (segments : List Text) (content : Text) :
    FileTree × Except SystemError Unit :=
  t.placeText false segments content

/-- The name of a directory, or of a file, that is in the directory `place`. -/
def nameIn? (directories : Bool) (place : Path) (x : Path × Entry) : Option Text :=
  match Path.below? place x.1 with
  | some [name] => if x.2.isDirectory = directories then some name else none
  | _ => none

/-- The names of the directories in a directory, or of its files. -/
def namesIn (t : FileTree) (directories : Bool) (place : Path) : List Text :=
  t.entries.filterMap (nameIn? directories place)

/-- The number of segments of the longest path. -/
def height (t : FileTree) : Nat :=
  t.entries.foldr (fun x n => max x.1.length n) 0

end FileTree
end SchemaSpec
