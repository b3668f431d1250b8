import TableDialects.Report
import TableDialects.Script
import TableDialects.Value.Json

/- Round trips: a statement is translated to another dialect and back, and its
   columns and primary key are compared with those it had.

   Correspondence (program ↔ model):
     `validate_statement`              ↔ `RoundTrip.check`, `Validator.validate`
     `validate_script`                 ↔ `Validator.validateScript`
     `all_passed`                      ↔ `Validator.allPassed`
     `display_results`, `save_results` ↔ `Validator.shown`, `Validator.document` -/
namespace TableDialects

structure RoundTrip where
  table : Text
  pair : Text
  columns : Nat
  columnsAfter : Nat := 0
  missing : List Text := []
  extra : List Text := []
  sameKey : Bool := false
  error : Option Text := none
  passed : Bool := false
  deriving DecidableEq, Repr

namespace RoundTrip

/-- The names of the columns, letter case apart. -/
def columnNames (s : Statement) : List Text := s.columns.map fun c => Text.lower c.name

/-- The way of a round trip. -/
def way (source target : Dialect) : Text :=
  directionLabel source target ++ '→' :: source.name.toList

/-- A statement compared with what came back. -/
def compare (pair : Text) (before after : Statement) : RoundTrip :=
  let expected := columnNames before
  let actual := columnNames after
  let sameKey := PrimaryKey.sameNames before.primaryKeyColumns after.primaryKeyColumns
  { table := before.table.name
    pair := pair
    columns := before.columns.length
    columnsAfter := actual.length
    missing := expected.filter fun n => !actual.contains n
    extra := actual.filter fun n => !expected.contains n
    sameKey := sameKey
    passed := expected == actual && sameKey }

/-- A statement that did not come back. -/
def failed (pair : Text) (before : Statement) (message : Text) : RoundTrip :=
  { table := before.table.name, pair := pair, columns := before.columns.length
    error := some message }

def back (settings : Settings) (source target : Dialect) (sql : Text) : Traced Statement := do
  let forward ← translate settings source target sql
  let backward ← translate settings target source forward
  Traced.ofExcept ((Statement.read backward).mapError Error.malformed)

/-- Sends a statement on its round trip. One that cannot be read is refused; one
that cannot be converted on the way has failed. -/
def check (settings : Settings) (source target : Dialect) (sql : Text) : Traced RoundTrip :=
  match Statement.read sql with
  | .error cause => Traced.fail (.malformed cause)
  | .ok before =>
    let run := back settings source target sql
    match run.outcome with
    | .ok after => ⟨.ok (compare (way source target) before after), run.changes, run.notices⟩
    | .error e =>
      if e.isConversion then
        ⟨.ok (failed (way source target) before e.message), run.changes,
          run.notices ++ [.roundTripFailed before.table.name e.message]⟩
      else ⟨.error e, run.changes, run.notices⟩

/-- A round trip as a record of named values. The timestamp says when it was
made. -/
def record (timestamp : Text) (r : RoundTrip) : Value :=
  .dict [("entity", .text r.table), ("pair", .text r.pair), ("source_columns", .int r.columns),
    ("roundtrip_columns", .int r.columnsAfter), ("missing_columns", .list (r.missing.map .text)),
    ("extra_columns", .list (r.extra.map .text)), ("primary_key_match", .bool r.sameKey),
    ("error", match r.error with
      | some message => .text message
      | none => .null),
    ("passed", .bool r.passed), ("timestamp", .text timestamp)]

def cells (r : RoundTrip) : List Text :=
  [r.table, Text.ofNat r.columns, Text.ofNat r.columnsAfter, Text.ofNat r.missing.length,
    Text.ofNat r.extra.length, if r.sameKey then "OK" else "DIFF",
    if r.passed then Report.styled "green" "PASS" else Report.styled "red" "FAIL"]

/-- What is shown below the table for a round trip that failed or lost
columns. -/
def remark? (r : RoundTrip) : Option Shown :=
  let about (what : String) (detail : Text) : Shown :=
    .line ('\n' :: Report.styled "red" (r.table ++ what.toList) ++ ' ' :: detail)
  match r.error.filter fun message => !message.isEmpty with
  | some message => some (about " — Error:" message)
  | none =>
    if r.missing.isEmpty then none
    else some (about " — Missing columns:" (Text.join ", " r.missing))

end RoundTrip

/-- A validator collects round trips between two dialects. -/
structure Validator where
  source : Dialect
  target : Dialect
  settings : Settings := .standard
  results : List RoundTrip := []

namespace Validator

def ofNames (settings : Settings) (source target : Value) : Except Error Validator :=
  match Dialect.ofValue source with
  | .error e => .error e
  | .ok source =>
    match Dialect.ofValue target with
    | .error e => .error e
    | .ok target => .ok { source := source, target := target, settings := settings }

/-- Sends one statement on its round trip and keeps the result. -/
def validate (v : Validator) (sql : Text) : Validator × Traced RoundTrip :=
  let run := RoundTrip.check v.settings v.source v.target sql
  match run.outcome with
  | .ok r => ({ v with results := v.results ++ [r] }, run)
  | .error _ => (v, run)

/-- Sends statements on their round trips, up to one that is refused. -/
def validateEach (v : Validator) : List Text → Validator × Traced Unit
  | [] => (v, pure ())
  | sql :: more =>
    let (v, run) := v.validate sql
    match run.outcome with
    | .error e => (v, ⟨.error e, run.changes, run.notices⟩)
    | .ok _ =>
      let (v, rest) := v.validateEach more
      (v, run.andThen fun _ => rest)

/-- Sends the CREATE TABLE statements of a script on their round trips. -/
def validateScript (v : Validator) (sql : Text) : Validator × Traced Unit :=
  v.validateEach (Script.tables sql)

/-- Whether every round trip passed. -/
def allPassed (v : Validator) : Bool := v.results.all fun r => r.passed

def title (v : Validator) : Text :=
  "Round-Trip Validation (".toList ++ v.source.name.toList ++ " → ".toList ++ v.target.name.toList
    ++ " → ".toList ++ v.source.name.toList ++ [')']

/-- The results as they are shown: a table, then a remark for each round trip
that failed or lost columns. -/
def shown (v : Validator) : List Shown :=
  .table v.title ["Table", "Columns", "After", "Missing", "Extra", "PK", "Status"]
    (v.results.map RoundTrip.cells) :: v.results.filterMap RoundTrip.remark?

/-- The results as a JSON document. -/
def document (timestamp : Text) (v : Validator) : Text :=
  Value.indented 0 (.list (v.results.map (RoundTrip.record timestamp)))

end Validator
end TableDialects
