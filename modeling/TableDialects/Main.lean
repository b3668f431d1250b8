import Std.Time.DateTime.Timestamp
import TableDialects.CommandLine.Run
import TableDialects.Timestamp

/- The program: the first argument names the command, the others are its own.
   Files are read and written here; everything else is decided by the command. -/
namespace TableDialects.Program

/-- The content of a file, or why it cannot be read. -/
def readFile (path : Text) : IO (Except Fault Text.Bytes) := do
  try
    let data ← IO.FS.readBinFile (String.ofList path)
    return .ok data.toList
  catch
    | .noFileOrDirectory _ _ _ => return .error .missingFile
    | _ => return .error .unreadable

def readFiles (paths : List Text) : IO (List (Text × Except Fault Text.Bytes)) :=
  paths.mapM fun path => do return (path, ← readFile path)

/-- The point in time at which the program runs. -/
def now : IO Text := do
  let nanos := (← Std.Time.Timestamp.now).toNanosecondsSinceUnixEpoch.val
  return Timestamp.render (nanos.toNat / 1000)

/-- Tells why a command failed. -/
def tell (failure : CommandLine.Failure) : IO Unit :=
  match failure with
  | .usage => IO.eprintln "The arguments do not fit the command."
  | .told message => IO.eprintln ("Error: " ++ String.ofList message)
  | .error (.fault fault) => IO.eprintln ("Error: " ++ reprStr fault)
  | .error e => IO.eprintln ("Error: " ++ String.ofList e.message)

def runCommand (command : CommandLine.Command) (args : List Text) : IO UInt32 := do
  let files ← readFiles (CommandLine.inputs command args)
  let disk : CommandLine.Disk := {
    read := fun path => ((files.find? fun f => f.1 == path).map fun f => f.2).getD
      (.error .missingFile)
    create := fun _ => .ok ()
    hasParent := fun _ => true }
  let outcome := CommandLine.run command disk (← now) args
  for notice in outcome.notices do
    IO.eprintln ("[" ++ notice.level.name ++ "] " ++ String.ofList notice.message)
  for (path, text) in outcome.written do
    IO.FS.writeFile (String.ofList path) (String.ofList text)
  IO.print (String.ofList outcome.printed)
  for item in outcome.shown do
    IO.print (String.ofList (Report.plain item))
  match outcome.failure with
  | some failure => tell failure
  | none => pure ()
  return UInt32.ofNat outcome.exitCode

end TableDialects.Program

open TableDialects in
/-- Runs the command that the arguments name. -/
def main (args : List String) : IO UInt32 := do
  match args with
  | [] =>
    IO.eprintln "Name a command: ddl-translate, ddl-inventory or roundtrip."
    return 2
  | name :: args =>
    match CommandLine.Command.ofName? name.toList with
    | none =>
      IO.eprintln ("Unknown command: " ++ name)
      return 2
    | some command => Program.runCommand command (args.map String.toList)
