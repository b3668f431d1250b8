import TableDialects.Distinct
import TableDialects.Report
import TableDialects.Script

/- An inventory of the columns of a script: one row a column, with the type that
   the column gets in each target dialect and whether someone should look at
   it.

   Correspondence (program ↔ model):
     `LOSSY_TYPES`, `_needs_review` ↔ `lossyTypes`, `needsReview`
     `build_inventory`              ↔ `build`, `buildNamed`
     `display_summary`              ↔ `summary` -/
namespace TableDialects

structure InventoryRow where
  table : Text
  column : Text
  position : Nat
  sourceType : Text
  native : NativeType
  nullable : Bool
  primaryKey : Bool
  autoIncrement : Bool
  default : Text
  types : List (Dialect × Text)
  needsReview : Bool

inductive Cell where
  | text (s : Text)
  | nat (n : Nat)
  | flag (b : Bool)
  deriving DecidableEq, Repr

namespace Cell

def render : Cell → Text
  | .text s => s
  | .nat n => Text.ofNat n
  | .flag true => "True"
  | .flag false => "False"

/-- Whether a field has to stand in quotes: it holds a comma, a quote or a line
end. -/
def needsQuotes (s : Text) : Bool := s.any fun c => c == ',' || c == '"' || c == '\n'

/-- A field of a line of comma-separated values. -/
def field (s : Text) : Text :=
  if needsQuotes s then '"' :: Text.double '"' s ++ ['"'] else s

end Cell

namespace Inventory

/-- Types whose values or rules do not survive in another dialect as they are. -/
def lossyTypes : List String :=
  ["enum", "set", "json", "jsonb", "money", "smallmoney", "uniqueidentifier", "xml"]

/-- Whether a column should be looked at: its type is lossy, or some target has
no type for it. -/
def needsReview (targets : List Dialect) (c : Column) : Bool :=
  c.hasBase lossyTypes || c.unsigned || c.isArray
    || targets.any fun t => (lookupType t.profile.types c.baseType c.typeParams).isNone

def typeIn (source target : Dialect) (c : Column) : Text :=
  translateType (some source) target (if c.typeName.isEmpty then "text" else c.typeName)

def row (source : Dialect) (targets : List Dialect) (table : Text) (key : List Text)
    (position : Nat) (c : Column) : InventoryRow :=
  let inKey := key.contains (Text.lower c.name)
  { table := table
    column := c.name
    position := position
    sourceType := if c.rawType.isEmpty then "(none)" else Text.upper c.rawType
    native := (lookupType nativeTypes c.baseType c.typeParams).getD .string
    nullable := c.notNull != some true && !inKey
    primaryKey := inKey
    autoIncrement := c.autoIncrement || c.hasBase Column.serialTypes
    default := renderTokens (c.default.getD [])
    types := (distinct targets).map fun t => (t, typeIn source t c)
    needsReview := needsReview targets c }

def rowsFrom (source : Dialect) (targets : List Dialect) (table : Text) (key : List Text)
    (position : Nat) : List Column → List InventoryRow
  | [] => []
  | c :: cs =>
    row source targets table key position c :: rowsFrom source targets table key (position + 1) cs

def statementRows (source : Dialect) (targets : List Dialect) (s : Statement) :
    List InventoryRow :=
  rowsFrom source targets s.table.name (s.primaryKeyColumns.map Text.lower) 1 s.columns

/-- The rows of statements; one that cannot be read is skipped with a notice. -/
def scriptRows (source : Dialect) (targets : List Dialect) :
    List Text → Traced (List InventoryRow)
  | [] => pure []
  | sql :: more =>
    match Statement.read sql with
    | .error cause => do
      Traced.notify (.inventorySkipped cause.message)
      scriptRows source targets more
    | .ok s => do
      let rows ← scriptRows source targets more
      return statementRows source targets s ++ rows

/-- The inventory of a script. -/
def build (source : Dialect) (targets : List Dialect) (sql : Text) :
    Traced (List InventoryRow) := do
  let rows ← scriptRows source targets (splitStatements sql)
  Traced.notify (.inventoried rows.length source)
  return rows

def dialects : List Value → Except Error (List Dialect)
  | [] => .ok []
  | v :: vs =>
    match Dialect.ofValue v with
    | .error e => .error e
    | .ok d =>
      match dialects vs with
      | .error e => .error e
      | .ok ds => .ok (d :: ds)

/-- The targets where none is named: all dialects but the source. -/
def otherDialects (source : Dialect) : List Dialect := Dialect.all.filter (· != source)

/-- The inventory of a script for dialects given by name. -/
def buildNamed (source : Value) (targets : List Value) (sql : Text) :
    Traced (List InventoryRow) := do
  let source ← Traced.ofExcept (Dialect.ofValue source)
  let named ← Traced.ofExcept (dialects targets)
  build source (if named.isEmpty then otherDialects source else named) sql

def cells (r : InventoryRow) : List (Text × Cell) :=
  let described : List (Text × Cell) := [
    ("table_name", .text r.table), ("column_name", .text r.column), ("position", .nat r.position),
    ("source_type", .text r.sourceType), ("native_type", .text r.native.name),
    ("nullable", .flag r.nullable), ("primary_key", .flag r.primaryKey),
    ("auto_increment", .flag r.autoIncrement), ("default", .text r.default)]
  let translated := r.types.map fun (d, type) => (d.name.toList ++ "_type".toList, Cell.text type)
  described ++ translated ++ [("needs_review".toList, Cell.flag r.needsReview)]

/-- The headings of an inventory; one without rows has none. -/
def headings (rows : List InventoryRow) : List Text :=
  match rows with
  | [] => []
  | r :: _ => (cells r).map (·.1)

/-- A line of comma-separated values. -/
def csvLine (fields : List Text) : Text := Text.join [','] (fields.map Cell.field) ++ ['\n']

/-- The inventory as comma-separated values, with a line of headings first. -/
def csv (rows : List InventoryRow) : Text :=
  csvLine (headings rows) ++ rows.flatMap fun r => csvLine ((cells r).map fun c => c.2.render)

/-- How many rows someone should look at. -/
def reviewCount (rows : List InventoryRow) : Nat := rows.countP fun r => r.needsReview

def summaryRow (rows : List InventoryRow) (table : Text) : List Text :=
  let group := rows.filter fun r => r.table == table
  let key := Text.join ", " ((group.filter fun r => r.primaryKey).map fun r => r.column)
  [table, Text.ofNat group.length, if key.isEmpty then ['-'] else key,
    if group.any fun r => r.autoIncrement then "Yes" else "No", Text.ofNat (reviewCount group)]

def summary (rows : List InventoryRow) : Shown :=
  .table "Column Inventory" ["Table", "Columns", "Primary Key", "Auto Inc", "Needs Review"]
    ((distinct (rows.map fun r => r.table)).map (summaryRow rows))

def reviewLine (rows : List InventoryRow) : Shown :=
  .line ("Columns needing review: ".toList ++ Text.ofNat (reviewCount rows))

end Inventory
end TableDialects
