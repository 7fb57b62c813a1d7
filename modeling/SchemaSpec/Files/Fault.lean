import SchemaSpec.Files.Path
import SchemaSpec.Text.Utf8
import SchemaSpec.Text.Shown

/-!
# Failed file operations

* `SystemFault`: why the system refuses an operation.
* `SystemError`: a refused operation, with the segments it was given, and its message.
* `SystemFault.ofSegments?`: what is wrong with a path before anything is looked up: it holds a null
  character, which ends a path for the system, or it is too long as a whole.
* `Path.locate?`: a written path resolved, unless it holds a null character.
-/

namespace SchemaSpec

open Text

/-- Why a file operation fails. -/
inductive SystemFault
  | exists
  | missing
  | isDirectory
  | notDirectory
  | nameTooLong
  /-- The file may not be read. -/
  | denied
  /-- The path holds a null character, so the operation is not even tried. -/
  | nullCharacter
  deriving Repr, DecidableEq

/-- A failed file operation, with the segments it was given. -/
structure SystemError where
  fault : SystemFault
  segments : List Text
  deriving Repr, DecidableEq

namespace SystemFault

/-- The number and the words of a fault that the system reports. -/
def report? : SystemFault → Option (Nat × Text)
  | .missing => some (2, "No such file or directory".toList)
  | .denied => some (13, "Permission denied".toList)
  | .exists => some (17, "File exists".toList)
  | .notDirectory => some (20, "Not a directory".toList)
  | .isDirectory => some (21, "Is a directory".toList)
  | .nameTooLong => some (36, "File name too long".toList)
  | .nullCharacter => none

/-- The name of the class of a fault. -/
def kind : SystemFault → Text
  | .missing => "FileNotFoundError".toList
  | .exists => "FileExistsError".toList
  | .notDirectory => "NotADirectoryError".toList
  | .isDirectory => "IsADirectoryError".toList
  | .nameTooLong => "OSError".toList
  | .denied => "PermissionError".toList
  | .nullCharacter => "ValueError".toList

/-- The bytes that the name of a file or directory may have. -/
def nameLimit : Nat := 255

/-- The bytes that a path may have. -/
def pathLimit : Nat := 4095

/-- Whether a segment is too long for a name. -/
def isLongName (segment : Text) : Bool :=
  decide (nameLimit < (encode segment).length)

/-- What is wrong with segments before any is looked up. -/
def ofSegments? (segments : List Text) : Option SystemFault :=
  if segments.any (fun s => s.contains '\x00') then some .nullCharacter
  else if pathLimit < (encode (Path.toText segments)).length then some .nameTooLong
  else none

end SystemFault

/-- The message of a failed file operation. -/
def SystemError.message (e : SystemError) : Text :=
  match e.fault.report? with
  | some (number, words) =>
      "[Errno ".toList ++ ofNat number ++ "] ".toList ++ words ++ ": ".toList
        ++ shown (Path.toText e.segments)
  | none => "embedded null byte".toList

/-- The path that a written path means in a directory, unless it holds a null character. -/
def Path.locate? (directory : Path) (t : Text) : Except SystemError Path :=
  if t.contains '\x00' then .error ⟨.nullCharacter, within directory t⟩
  else .ok (resolve directory t)

end SchemaSpec
