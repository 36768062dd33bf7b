import SchemeMachine.Fault
import SchemeMachine.Source.Path
import SchemeMachine.Text.Line
import SchemeMachine.Text.Quoted

/-!
# Source files

A source file is found by name.  An absolute name, or one that names something
from the current directory, is taken as it is; any other name is looked for in
the directories of the load path, in order.

What there is on disk is a function from paths, so the search can be reasoned
about without a disk.
-/

namespace SchemeMachine.Source

/-- What there is at a path. -/
inductive Presence where
  | missing
  | directory
  | file (bytes : List Nat)
  /-- The path, or a name in it, is longer than the system allows. -/
  | tooLong
  deriving DecidableEq

/-- What there is at each path. -/
abbrev Disk := Path → Presence

/-- A relative path as seen from each directory of the load path. -/
def searched (loadPath : List Path) (path : Path) : List Path :=
  loadPath.map fun directory => directory.under path

/-- All the paths at which a name may be found. -/
def candidates (loadPath : List Path) (name : String) : List Path :=
  Path.ofText name :: searched loadPath (Path.ofText name)

/-- The first path at which there is a file.  A path that is too long ends the
search. -/
def firstFile (disk : Disk) : List Path → Except Fault (Option Path)
  | [] => .ok none
  | path :: rest =>
    match disk path with
    | .file _ => .ok (some path)
    | .tooLong => .error (.nameTooLong (Text.quoted path.text))
    | _ => firstFile disk rest

/-- Find a source file by name in the directories of the load path. -/
def search (disk : Disk) (loadPath : List Path) (name : String) : Except Fault Path :=
  match firstFile disk (searched loadPath (Path.ofText name)) with
  | .error fault => .error fault
  | .ok none => .error (.sourceNotFound name)
  | .ok (some path) => .ok path

/-- Find a source file by name. -/
def locate (disk : Disk) (loadPath : List Path) (name : String) : Except Fault Path :=
  let path := Path.ofText name
  if path.isAbsolute then .ok path
  else
    match disk path with
    | .missing => search disk loadPath name
    | .tooLong => .error (.nameTooLong (Text.quoted path.text))
    | _ => .ok path

/-- Read the text of a file. -/
def readText (disk : Disk) (path : Path) : Except Fault String :=
  if path.hasNull then .error .nullInPath
  else
    match disk path with
    | .missing => .error (.fileMissing (Text.quoted path.text))
    | .directory => .error (.isDirectory (Text.quoted path.text))
    | .tooLong => .error (.nameTooLong (Text.quoted path.text))
    | .file bytes =>
      match Text.Utf8.decode bytes with
      | .error problem => .error (.undecodable problem.text)
      | .ok cs => .ok (String.ofList (Text.newlines cs))

/-- Find a source file by name and read it. -/
def readNamed (disk : Disk) (loadPath : List Path) (name : String) : Except Fault String :=
  match locate disk loadPath name with
  | .error fault => .error fault
  | .ok path => readText disk path

/-! ## A disk in memory -/

/-- The files of a disk: the parts of their paths from the current directory, and
their bytes. -/
abbrev Files := List (List String × List Nat)

/-- Whether there is a directory at these parts: the current one, or one that a
file is in. -/
def Files.hasDirectory (files : Files) (parts : List String) : Bool :=
  parts.isEmpty ||
    files.any fun (file, _) => parts.length < file.length && file.take parts.length = parts

/-- What there is at these parts. -/
def Files.presence (files : Files) (parts : List String) : Presence :=
  match files.find? fun (file, _) => file = parts with
  | some (_, bytes) => .file bytes
  | none => if files.hasDirectory parts then .directory else .missing

/-- The greatest number of bytes in a name. -/
def longestName : Nat := 255

/-- The greatest number of bytes in a path. -/
def longestPath : Nat := 4095

/-- Follow the parts of a path from a directory above all the files, of which
nothing is known but the directories above it. -/
def walkAbove : List String → Presence
  | [] => .directory
  | part :: rest =>
    if part = ".." then walkAbove rest
    else if longestName < part.utf8ByteSize then .tooLong
    else .missing

/-- Follow the parts of a path from a place below the current directory, given by
its parts in reverse.  Two dots lead to the directory above. -/
def walk (files : Files) : List String → List String → Presence
  | here, [] => files.presence here.reverse
  | here, part :: rest =>
    if !files.hasDirectory here.reverse then .missing
    else if part = ".." then
      match here with
      | [] => walkAbove rest
      | _ :: above => walk files above rest
    else if longestName < part.utf8ByteSize then .tooLong
    else walk files (part :: here) rest

/-- The disk that has these files below the current directory and nothing
else. -/
def diskOf (files : Files) : Disk := fun path =>
  if path.hasNull then .missing
  else if longestPath < path.text.utf8ByteSize then .tooLong
  else if path.isAbsolute then walkAbove path.parts
  else walk files [] path.parts

end SchemeMachine.Source
