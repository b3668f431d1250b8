import TableDialects.CommandLine.Address
import TableDialects.CommandLine.Command
import TableDialects.CommandLine.Packing
import TableDialects.Inventory
import TableDialects.RoundTrip
import TableDialects.Text.Control

/- Running a command: from its arguments and the files at hand to what is
   printed, shown and written. -/
namespace TableDialects
namespace CommandLine

/-- Why a command did not succeed. -/
inductive Failure where
  /-- The arguments do not fit the command. -/
  | usage
  /-- The user is told what is wrong with the input. -/
  | told (message : Text)
  | error (cause : Error)

def Failure.exitCode : Failure → Nat
  | .usage => 2
  | _ => 1

/-- What a command did. -/
structure Outcome where
  exitCode : Nat := 0
  printed : Text := []
  shown : List Shown := []
  written : List (Text × Text) := []
  notices : List Notice := []
  failure : Option Failure := none

namespace Outcome

/-- Ends before anything is done. -/
def refused (f : Failure) : Outcome := { exitCode := f.exitCode, failure := some f }

/-- The arguments do not fit. -/
def usage : Outcome := refused .usage

/-- Ends with an error, behind what was shown. -/
def failed (o : Outcome) (e : Error) : Outcome := { o with exitCode := 1, failure := some (.error e) }

/-- Prints a line, without the control sequences in it. -/
def print (o : Outcome) (s : Text) : Outcome :=
  { o with printed := o.printed ++ Text.withoutControls s ++ ['\n'] }

def display (o : Outcome) (items : List Shown) : Outcome := { o with shown := o.shown ++ items }

/-- Writes a file, or fails if it cannot be opened. -/
def write (o : Outcome) (disk : Disk) (path text : Text) : Outcome :=
  match disk.create path with
  | .ok () => { o with written := o.written ++ [(path, text)] }
  | .error fault => o.failed (.fault fault)

/-- Goes on if nothing failed. -/
def andThen (o : Outcome) (next : Outcome → Outcome) : Outcome :=
  if o.failure.isNone then next o else o

end Outcome

def fileText (disk : Disk) (path : Text) : Except Error Text :=
  match disk.read path with
  | .error fault => .error (.fault fault)
  | .ok data => Script.fileContent data

/-- What is printed where nothing is given to translate. -/
def nothingGiven : Text := "Provide either --input/--output or --inline. Use --help for details."

/-- The settings in the file at a path, for an environment. -/
def loadSettings (disk : Disk) (environment : Text) (path : Option Text) : Except Fault Settings :=
  match path with
  | none => Settings.load environment .unnamed
  | some path =>
    match disk.read path with
    | .error _ => Settings.load environment .missing
    | .ok data => Settings.load environment (.found data)

/-- What is wrong with a value: a dialect that is none, or a file that cannot be
read. -/
def badValue? (disk : Disk) (kind : ValueKind) (value : Text) : Option Failure :=
  match kind with
  | .text => none
  | .dialect => if (choice? value).isNone then some .usage else none
  | .file =>
    match disk.read value with
    | .ok _ => none
    | .error .badPath => some (.error (.fault .badPath))
    | .error _ => some .usage

/-- What is wrong with the value that counts for an option. -/
def badOption? (disk : Disk) (options : List OptionSpec) (given : Given) (long : String) :
    Option Failure :=
  match options.find? (fun o => o.long == long), value? given long with
  | some o, some value => badValue? disk o.value value
  | _, _ => none

/-- What is wrong with the arguments of a command. The values come first, in the
order in which the options are first given, and arguments without an option
last. -/
def complaint? (disk : Disk) (options : List OptionSpec) (a : Arguments) : Option Failure :=
  match a.given.findSome? fun g => badOption? disk options a.given g.1 with
  | some failure => some failure
  | none =>
    if options.any fun o => o.required && (value? a.given o.long).isNone then some .usage
    else if a.extra.isEmpty then none
    else some .usage

def nonempty? (value : Option Text) : Option Text := value.filter fun s => !s.isEmpty

/-- Translates one statement and prints the result. -/
def translateInline (settings : Settings) (source target : Dialect) (sql : Text) : Outcome :=
  let run := TableDialects.translate settings source target sql
  let start : Outcome := { notices := run.notices }
  match run.outcome with
  | .ok text => start.print text
  | .error e =>
    if e.isConversion then { start with exitCode := 1, failure := some (.told e.message) }
    else start.failed e

def translateFile (disk : Disk) (settings : Settings) (source target : Dialect)
    (input output : Text) : Outcome :=
  match disk.read input with
  | .error fault => ({} : Outcome).failed (.fault fault)
  | .ok data =>
    let f := Script.translateFile settings (.text source.name) (.text target.name) data output
    let start : Outcome := { notices := f.run.notices }
    let opened := match f.written with
      | some text => start.write disk output text
      | none => start
    opened.andThen fun o =>
      match f.run.outcome with
      | .ok _ => o
      | .error e => o.failed e

/-- Translates what is given: a statement, else a file. -/
def runTranslate (disk : Disk) (given : Given) : Outcome :=
  match choice? ((value? given "source").getD "mysql"),
      choice? ((value? given "target").getD "postgresql") with
  | some source, some target =>
    match loadSettings disk ((value? given "env").getD Settings.defaultEnvironment)
        (value? given "config") with
    | .error e => ({} : Outcome).failed (.fault e)
    | .ok settings =>
      if !settings.hasLevel then ({} : Outcome).failed (.fault .badNumber)
      else
        match nonempty? (value? given "inline"), nonempty? (value? given "input"),
            nonempty? (value? given "output") with
        | some sql, _, _ => translateInline settings source target sql
        | none, some input, some output => translateFile disk settings source target input output
        | _, _, _ => ({} : Outcome).print nothingGiven
  | _, _ => .usage

/-- Writes the table of an inventory to the output of a name. Its directory has to
be there, and its packing at hand, before the file is opened. -/
def writeTable (o : Outcome) (disk : Disk) (name text : Text) : Outcome :=
  let lacking := Packing.ofName? name == some .zstandard
  match Destination.ofName disk name with
  | .refused fault => o.failed (.fault fault)
  | .dropped => if lacking then o.failed (.fault .unsupported) else o
  | .file path =>
    if !disk.hasParent path then o.failed (.fault .unreadable)
    else if lacking then o.failed (.fault .unsupported)
    else o.write disk path (Packing.content path text)

/-- Writes the inventory of a file and shows its summary. -/
def runInventory (disk : Disk) (given : Given) : Outcome :=
  match value? given "input", (value? given "source").bind choice?,
      choices? (values given "target") with
  | some input, some source, some targets =>
    let rows : Traced (List InventoryRow) := do
      let sql ← Traced.ofExcept (fileText disk input)
      Inventory.build source (if targets.isEmpty then Inventory.otherDialects source else targets) sql
    let start : Outcome := { notices := rows.notices }
    match rows.outcome with
    | .error e => start.failed e
    | .ok [] => start.display [Report.noTables]
    | .ok rows =>
      let output := (value? given "output").getD "column_inventory.csv"
      (writeTable start disk output (Inventory.csv rows)).andThen fun o =>
        o.display [Inventory.summary rows, Inventory.reviewLine rows]
  | _, _, _ => .usage

/-- Sends the statements of a file on their round trips, shows and writes the
results. A round trip that did not pass makes the command fail. -/
def runRoundTrip (disk : Disk) (timestamp : Text) (given : Given) : Outcome :=
  match value? given "input", (value? given "source").bind choice?,
      (value? given "target").bind choice? with
  | some input, some source, some target =>
    let start := ({} : Outcome).display [.line (Report.styled "bold" "Round-Trip Validator")]
    match fileText disk input with
    | .error e => start.failed e
    | .ok sql =>
      let (v, run) := Validator.validateScript { source := source, target := target } sql
      let start := { start with notices := run.notices }
      match run.outcome with
      | .error e => start.failed e
      | .ok () =>
        if v.results.isEmpty then start.display [Report.noTables]
        else
          let output := (value? given "output").getD "roundtrip_results.json"
          ((start.display v.shown).write disk output (v.document timestamp)).andThen
            fun o => if v.allPassed then o else { o with exitCode := 1 }
  | _, _, _ => .usage

/-- Runs a command. A call for help is answered whatever else is given. -/
def run (command : Command) (disk : Disk) (timestamp : Text) (args : List Text) : Outcome :=
  match read command.options args with
  | none => .usage
  | some a =>
    if a.help then ({} : Outcome).print (Help.text command)
    else
      match complaint? disk command.options a with
      | some failure => .refused failure
      | none =>
        match command with
        | .translate => runTranslate disk a.given
        | .inventory => runInventory disk a.given
        | .roundTrip => runRoundTrip disk timestamp a.given

def inputs (command : Command) (args : List Text) : List Text :=
  match read command.options args with
  | none => []
  | some a => (value? a.given "input").toList ++ (value? a.given "config").toList

end CommandLine
end TableDialects
