import TableDialects.Cleanup.Layout
import TableDialects.Cleanup.TableOptions
import TableDialects.Distinct
import TableDialects.Statement
import TableDialects.Translate.Constraint

/- CREATE TABLE statements in another dialect. A statement is read, the column
   that counts up and the place of the primary key are chosen, the clauses are
   rendered, and the result is laid out.

   Correspondence (program ↔ model):
     `_check_table_options`            ↔ `dropOptions`
     `_place_auto_increment`           ↔ `placeCounting`
     `_table_name`, `_assemble`        ↔ `tableName`, `assemble`
     `CreateTableTranslator.translate` ↔ `Direction.translate`
     `TRANSLATION_PAIRS`               ↔ `route`
     `_direct`, `_through_mysql`       ↔ `translateAlong`
     `get_pair_translator`             ↔ `pairName`
     `translate_create_table`          ↔ `translateNamed`

   The clauses are kept as parts (`clauses`) until they are joined, so that what a
   statement declares can be said without reading its text. -/
namespace TableDialects

/-- A clause of a rendered statement, with what it was rendered from. -/
inductive RenderedClause where
  | column (column : Column) (parts : List ColumnPart)
  | primaryKey (columns : List Text) (text : Text)
  | constraint (constraint : Constraint) (text : Text)
  deriving DecidableEq, Repr

def RenderedClause.render : RenderedClause → Text
  | .column _ parts => Text.join [' '] (parts.map ColumnPart.render)
  | .primaryKey _ text => text
  | .constraint _ text => text

namespace Direction

/-- A notice about table options that are not known, and a record that there were
options. -/
def dropOptions (s : Statement) : Traced Unit := do
  if s.options.isEmpty then return
  else
    let leftover := Cleanup.foreignOptions s.options
    if !leftover.isEmpty then Traced.notify (.optionsDropped s.table.name leftover)
    Traced.record .optionsRemoved

/-- A notice for each column behind the first that counts up. -/
def dropCounting : List Column → Traced Unit
  | [] => pure ()
  | c :: cs => do
    Traced.notify (.extraAutoIncrement c.name)
    Traced.record .extraAutoIncrement
    dropCounting cs

/-- Makes the key fit the column that counts up, and says whether the column can
go on counting. SQLite counts only at the one column of an inline key;
PostgreSQL and MySQL make the column the key of a table that has none. -/
def fitKey (d : Direction) (key : PrimaryKey) (name : Text) : Traced (Bool × PrimaryKey) := do
  match d.target.profile.autoIncrement with
  | .rowid =>
    if key.isInline name then return (true, key)
    else
      match key.moveInline name with
      | (true, key) => return (true, key)
      | (false, _) =>
        match key.promote name with
        | (true, key) => return (true, key)
        | (false, _) =>
          Traced.notify (.rowidNeedsKey name)
          Traced.record .autoIncrementStripped
          return (false, key)
  | .serial =>
    match key.moveInline name with
    | (true, key) =>
      Traced.record .keyMovedToSerial
      return (true, key)
    | (false, _) => promoted key
  | .modifier => promoted key
  | .identity => return (true, key)
where
  promoted (key : PrimaryKey) : Traced (Bool × PrimaryKey) := do
    match key.promote name with
    | (true, key) =>
      Traced.record .autoIncrementKey
      return (true, key)
    | (false, key) => return (true, key)

/-- The place of the column that counts up in the target, and the key that goes
with it. Of several such columns the first counts. -/
def placeCounting (d : Direction) (s : Statement) (key : PrimaryKey) :
    Traced (Option Nat × PrimaryKey) := do
  match s.columns.filter Column.countsUp with
  | [] => return (none, key)
  | c :: more =>
    dropCounting more
    let (counts, key) ← d.fitKey key c.name
    return (if counts then s.columns.findIdx? Column.countsUp else none, key)

/-- The columns from the place `i` on. -/
def columnClauses (d : Direction) (key : PrimaryKey) (counting : Option Nat) (i : Nat) :
    List Column → Traced (List RenderedClause)
  | [] => pure []
  | c :: cs => do
    let parts ← d.column key (counting == some i) c
    let clauses ← d.columnClauses key counting (i + 1) cs
    return .column c parts :: clauses

def keyClause (d : Direction) (key : Option PrimaryKey) : List RenderedClause :=
  match key with
  | some key => [.primaryKey key.tableColumns (d.primaryKey key)]
  | none => []

/-- The constraints in order. The primary key stands where the first primary key
stood, and last if there was none. -/
def constraintClauses (d : Direction) (table : Text) (key : Option PrimaryKey) :
    List Constraint → Traced (List RenderedClause)
  | [] => return d.keyClause key
  | .primaryKey _ _ :: cs => do
    let clauses ← d.constraintClauses table none cs
    return d.keyClause key ++ clauses
  | c :: cs => do
    let text ← d.constraint table c
    let clauses ← d.constraintClauses table key cs
    match text with
    | some text => return .constraint c text :: clauses
    | none => return clauses

/-- The clauses of a statement in the target dialect. -/
def clauses (d : Direction) (s : Statement) : Traced (List RenderedClause) := do
  let key ← PrimaryKey.ofStatement s
  let (counting, key) ← d.placeCounting s key
  let columns ← d.columnClauses key counting 0 s.columns
  let tableKey := if key.tableColumns.isEmpty then none else some key
  let constraints ← d.constraintClauses s.table.name tableKey s.constraints
  return columns ++ constraints

/-- The name of the table. SQL Server marks a temporary table in its name. -/
def tableName (d : Direction) (s : Statement) : Traced Text := do
  if s.temporary && d.target == .sqlserver then
    Traced.record .temporaryName
    let name := if s.table.name.head? == some '#' then s.table.name else '#' :: s.table.name
    return d.qualified s.table.schema name
  else return d.qualified s.table.schema s.table.name

def head (d : Direction) (s : Statement) : Traced Text := do
  let temporary : Text := if s.temporary && d.target != .sqlserver then "TEMPORARY " else []
  Traced.recordIf (s.ifNotExists && !d.target.profile.ifNotExists) .ifNotExistsRemoved
  let guarded : Text := if s.ifNotExists && d.target.profile.ifNotExists then "IF NOT EXISTS " else []
  let name ← d.tableName s
  return "CREATE ".toList ++ temporary ++ "TABLE ".toList ++ guarded ++ name

/-- The options behind the column section: the configured ones for MySQL. -/
def options (d : Direction) : Except Error Text :=
  if d.target == .mysql then
    match d.settings.mysqlTableOptions with
    | .text s => .ok s
    | v => if v.isTrue then .error (.fault .wrongKind) else .ok []
  else .ok d.target.profile.tableOptions

/-- The whole statement, laid out: one clause a line. -/
def assemble (d : Direction) (s : Statement) (clauses : List RenderedClause) : Traced Text := do
  let head ← d.head s
  let indent ← Traced.ofExcept (d.settings.indent.mapError Error.fault)
  let options ← Traced.ofExcept d.options
  let body := Text.join ",\n" (clauses.map fun c => indent ++ c.render)
  let tail := if options.isEmpty then options else ' ' :: options
  return Cleanup.tightTypes
    (Cleanup.lines (head ++ " (\n".toList ++ body ++ "\n)".toList ++ tail ++ [';']))

/-- A statement that was read, in the target dialect. -/
def statement (d : Direction) (s : Statement) : Traced Text := do
  dropOptions s
  let clauses ← d.clauses s
  d.assemble s clauses

/-- Translates a statement. A notice lists the changes that were applied. -/
def translate (d : Direction) (sql : Text) : Traced Text :=
  let run : Traced Text := do
    let s ← Traced.ofExcept ((Statement.read sql).mapError Error.malformed)
    d.statement s
  let changes := distinct run.changes
  match run.outcome with
  | .error e => ⟨.error e, changes, run.notices⟩
  | .ok text =>
    let summary := if changes.isEmpty then [] else [Notice.changesApplied d.source d.target changes]
    ⟨.ok text, changes, run.notices ++ summary⟩

end Direction

/-- The directions that lead from one dialect to another: MySQL is reached and
left directly, and lies between any two others. A dialect needs no direction to
itself. -/
def route (source target : Dialect) : List (Dialect × Dialect) :=
  if source == target then []
  else if source == .mysql || target == .mysql then [(source, target)]
  else [(source, .mysql), (.mysql, target)]

/-- Translates a statement along directions. -/
def translateAlong (settings : Settings) : List (Dialect × Dialect) → Text → Traced Text
  | [], sql => pure sql
  | (source, target) :: more, sql => do
    let result ← Direction.translate ⟨source, target, settings⟩ sql
    translateAlong settings more result

/-- Translates a statement from one dialect to another. -/
def translate (settings : Settings) (source target : Dialect) (sql : Text) : Traced Text :=
  translateAlong settings (route source target) sql

/-- Translates a statement between dialects given by name. -/
def translateNamed (settings : Settings) (source target : Value) (sql : Text) : Traced Text := do
  let source ← Traced.ofExcept (Dialect.ofValue source)
  let target ← Traced.ofExcept (Dialect.ofValue target)
  translate settings source target sql

/-- The name of a pair of dialects; a dialect makes no pair with itself. -/
def pairName (source target : Dialect) : Except Error Text :=
  if source == target then .error (.unsupportedPair source target)
  else .ok (source.name.toList ++ "_to_".toList ++ target.name.toList)

end TableDialects
