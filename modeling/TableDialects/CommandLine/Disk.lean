import TableDialects.Fault
import TableDialects.Text.Utf8

/- The files that a command can see. A path is followed part by part from the
   directory that the command works in: a dot stays, two dots go up, and a name
   has to be there. The last part names the file itself. -/
namespace TableDialects
namespace CommandLine

/-- The files that a command can see. -/
structure Disk where
  /-- The content of the file at a path. -/
  read : Text → Except Fault Text.Bytes
  /-- Opens the file at a path to write it. -/
  create : Text → Except Fault Unit
  /-- Whether the directory in which a path names a file exists. -/
  hasParent : Text → Bool

def nameLimit : Nat := 255

def pathLimit : Nat := 4095

def pathParts (path : Text) : List Text := (Text.splitOn '/' path).filter fun part => !part.isEmpty

/-- Whether a path asks for a directory. -/
def endsInSlash (path : Text) : Bool := path.getLast? == some '/'

def sameMark : Text := ['.']

/-- The mark of the directory above. -/
def upMark : Text := ['.', '.']

/-- Where a part of a path is looked up: in the directory that a command works
in, at the root, among the devices, or in another directory. -/
inductive Place where
  | here
  | root
  | devices
  | elsewhere
  deriving DecidableEq, Repr

namespace Place

def ofPath (path : Text) : Place := if path.head? == some '/' then .root else .here

/-- The directory above. -/
def up : Place → Place
  | .here => .elsewhere
  | .root => .root
  | .devices => .root
  | .elsewhere => .elsewhere

/-- The directories that stand at every root, the one of devices apart. -/
def rootNames : List String := ["bin", "etc", "lib", "sbin", "tmp", "usr", "var"]

/-- The directory of a name that is known to be there. -/
def inside? (place : Place) (name : Text) : Option Place :=
  match place with
  | .root =>
    if name == "dev".toList then some .devices
    else if rootNames.any fun known => known.toList == name then some .elsewhere
    else none
  | _ => none

end Place

/-- A single directory of files, by their names. -/
structure Folder where
  files : List (Text × Text.Bytes)

namespace Folder

/-- The file of a name, if there is one. Among the devices there is one that is
always empty; nothing is known of other directories. -/
def file? (folder : Folder) (place : Place) (name : Text) : Except Fault (Option Text.Bytes) :=
  if nameLimit < (Text.utf8 name).length then .error .unreadable
  else
    match place with
    | .here => .ok ((folder.files.find? fun f => f.1 == name).map (·.2))
    | .devices => .ok (if name == "null".toList then some [] else none)
    | _ => .ok none

/-- The directory behind a part of a path. -/
def enter (folder : Folder) (place : Place) (part : Text) : Except Fault Place :=
  if part == sameMark then .ok place
  else if part == upMark then .ok place.up
  else
    match place.inside? part with
    | some inside => .ok inside
    | none =>
      match folder.file? place part with
      | .error e => .error e
      | .ok (some _) => .error .notDirectory
      | .ok none => .error .missingFile

/-- The directory in which a path names a file, and the name. -/
def locate (folder : Folder) (path : Text) : Except Fault (Place × Text) :=
  if path.contains '\x00' then .error .badPath
  else if path.isEmpty then .error .missingFile
  else if pathLimit < (Text.utf8 path).length then .error .unreadable
  else
    match (pathParts path).getLast? with
    | none => .error .isDirectory
    | some name =>
      match (pathParts path).dropLast.foldlM folder.enter (Place.ofPath path) with
      | .error e => .error e
      | .ok place =>
        if name == sameMark || name == upMark || (place.inside? name).isSome then .error .isDirectory
        else .ok (place, name)

/-- The content of the file at a path. -/
def read (folder : Folder) (path : Text) : Except Fault Text.Bytes :=
  match folder.locate path with
  | .error e => .error e
  | .ok (place, name) =>
    match folder.file? place name with
    | .error e => .error e
    | .ok none => .error .missingFile
    | .ok (some data) => if endsInSlash path then .error .notDirectory else .ok data

/-- Opens the file at a path to write it; it need not be there yet. -/
def create (folder : Folder) (path : Text) : Except Fault Unit :=
  match folder.locate path with
  | .error e => .error e
  | .ok (place, name) =>
    if endsInSlash path then .error .isDirectory
    else
      match folder.file? place name with
      | .error e => .error e
      | .ok _ => .ok ()

/-- Whether the directory in which a path names a file exists. Marks of the
directory itself do not count as names. -/
def hasParent (folder : Folder) (path : Text) : Bool :=
  let parts := (pathParts path).filter (· != sameMark)
  match parts.dropLast.foldlM folder.enter (Place.ofPath path) with
  | .ok _ => true
  | .error _ => false

/-- The name that a path gives a file of the directory itself. -/
def nameOf? (folder : Folder) (path : Text) : Option Text :=
  match folder.locate path with
  | .ok (.here, name) => some name
  | _ => none

/-- The directory as all that a command can see. -/
def disk (folder : Folder) : Disk := ⟨folder.read, folder.create, folder.hasParent⟩

end Folder
end CommandLine
end TableDialects
