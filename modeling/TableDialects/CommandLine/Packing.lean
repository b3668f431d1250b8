import TableDialects.Archive
import TableDialects.CommandLine.Disk
import TableDialects.Text.Case

/- Packing of outputs. The end of a name says how the content is packed; where
   names are chained by two colons, the first one counts. -/
namespace TableDialects
namespace CommandLine

inductive Packing where
  | archive
  | gzip
  | bzip2
  | zip
  | xz
  | zstandard
  deriving DecidableEq, Repr

namespace Packing

/-- The ends of names, and the packing that each asks for. -/
def endings : List (String × Packing) := [
  (".tar", .archive), (".tar.gz", .archive), (".tar.bz2", .archive), (".tar.xz", .archive),
  (".gz", .gzip), (".bz2", .bzip2), (".zip", .zip), (".xz", .xz), (".zst", .zstandard)]

/-- The first of the names that are chained by two colons. -/
def firstName (name : Text) : Text :=
  match Text.splitFirst? "::" name with
  | some (first, _) => first
  | none => name

/-- The packing that a name asks for, letter case apart. -/
def ofName? (name : Text) : Option Packing :=
  let lowered := Text.lower (firstName name)
  (endings.find? fun e => e.1.toList.isSuffixOf lowered).map (·.2)

def fileName (path : Text) : Text :=
  ((pathParts path).filter (· != sameMark)).getLast?.getD []

/-- A file name before its last point, and from there on. A point at either end
divides nothing. -/
def splitEnding (name : Text) : Text × Text :=
  let behind := (name.reverse.takeWhile (· != '.')).reverse
  let before := name.take (name.length - behind.length - 1)
  if behind.isEmpty || before.isEmpty then (name, []) else (before, '.' :: behind)

/-- The ends of the names of archives that are packed once more. -/
def repacked : List String := [".gz", ".xz", ".bz2"]

/-- The content of the file at a path. An archive holds the file under its name
without the end of an archive. -/
def content (path text : Text) : Text :=
  let name := fileName path
  let (before, ending) := splitEnding name
  if ofName? path == some .archive && !repacked.any fun e => e.toList == ending then
    Archive.ofFile (if ending == ".tar".toList then before else name) text
  else text

end Packing
end CommandLine
end TableDialects
