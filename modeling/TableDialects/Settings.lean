import TableDialects.Value.Convert

/- Settings: defaults, over which a section of a JSON file may be laid. The
   section is chosen by the name of an environment. A setting can be any JSON
   value; those that are needed in a certain form are converted when
   they are used.

   Correspondence (program ↔ model):
     `TranslatorConfig` ↔ `Settings`
     `_load_defaults`   ↔ `defaults`
     `_load_from_file`  ↔ `section?`, `merge`
     `load_config`      ↔ `load`
     `get`              ↔ `get` -/
namespace TableDialects

structure Settings where
  environment : Text
  entries : List (Text × Value)

/-- Where settings come from beside the defaults. -/
inductive SettingsFile where
  /-- No file was named. -/
  | unnamed
  /-- The named file does not exist. -/
  | missing
  /-- The bytes of the named file. -/
  | found (data : Text.Bytes)

namespace Settings

/-- The settings without a file. -/
def defaults : List (Text × Value) := [
  ("mysql", .dict [("table_options", .text "ENGINE=InnoDB DEFAULT CHARSET=utf8mb4")]),
  ("sqlserver", .dict [("enum_type", .text "NVARCHAR(255)")]),
  ("output", .dict [("indent", .int 4)]),
  ("logging", .dict [("log_level", .text "INFO")])]

/-- The environment that is chosen where none is named. -/
def defaultEnvironment : Text := "dev"

/-- The settings where nothing is configured. -/
def standard : Settings := ⟨defaultEnvironment, defaults⟩

/-- One entry laid over others: the entries of two dictionaries are merged, any
other entry replaces the one before it. -/
def merge (entries : List (Text × Value)) (e : Text × Value) : List (Text × Value) :=
  match e.2, Value.member? entries e.1 with
  | .dict new, some (.dict old) => Value.setEntry e.1 (.dict (Value.setEntries old new)) entries
  | v, _ => Value.setEntry e.1 v entries

/-- The section of an environment in a document, else its default section. -/
def section? (environment : Text) : Value → Except Fault (List (Text × Value))
  | .dict document =>
    let chosen := (Value.member? document environment).getD
      ((Value.member? document "default").getD (.dict []))
    match chosen with
    | .dict entries => .ok entries
    | _ => .error .notObject
  | _ => .error .notObject

/-- The settings of an environment. A file that is missing or is no JSON leaves
the defaults. -/
def load (environment : Text) : SettingsFile → Except Fault Settings
  | .unnamed => .ok ⟨environment, defaults⟩
  | .missing => .ok ⟨environment, defaults⟩
  | .found data =>
    match Text.ofUtf8? data with
    | none => .error .badUtf8
    | some s =>
      match Value.ofJson s with
      | .error .badJson => .ok ⟨environment, defaults⟩
      | .error e => .error e
      | .ok document =>
        match section? environment document with
        | .error e => .error e
        | .ok entries => .ok ⟨environment, entries.foldl merge defaults⟩

def find? : (path : List Text) → Value → Option Value
  | [], v => some v
  | key :: path, .dict entries => find? path ((Value.member? entries key).getD .null)
  | _ :: _, _ => none

/-- The setting with a dotted key, or `fallback` if it is absent. -/
def get (s : Settings) (key : Text) (fallback : Value) : Value :=
  match find? (Text.splitOn '.' key) (.dict s.entries) with
  | none => fallback
  | some .null => fallback
  | some v => v

def mysqlTableOptions (s : Settings) : Value := s.get "mysql.table_options" (.text [])

/-- The type of an enumeration in SQL Server. -/
def sqlserverEnumType (s : Settings) : Value := s.get "sqlserver.enum_type" (.text "NVARCHAR(255)")

/-- The space before each clause. -/
def indent (s : Settings) : Except Fault Text :=
  match (s.get "output.indent" (.int 4)).toInt with
  | .error e => .error e
  | .ok n =>
    if Value.countLimit ≤ n || n < -Value.countLimit then .error .tooLarge
    else if Value.memoryLimit < n then .error .outOfMemory
    else .ok (List.replicate n.toNat ' ')

/-- The level from which on messages are shown. -/
def logLevel (s : Settings) : Text :=
  Text.upper (s.get "logging.log_level" (.text "INFO")).toText

def levelNames : List String :=
  ["CRITICAL", "FATAL", "ERROR", "WARNING", "WARN", "INFO", "DEBUG", "NOTSET"]

def hasLevel (s : Settings) : Bool := levelNames.any fun l => l.toList == s.logLevel

end Settings
end TableDialects
