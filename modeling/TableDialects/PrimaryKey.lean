import TableDialects.Statement
import TableDialects.Trace

/- Where the primary key of a table is declared: in a clause of its own, which
   lists its columns, or inline at one column. Names are compared without letter
   case.

   Correspondence (program ↔ model):
     `PrimaryKeyModel`                        ↔ `PrimaryKey`
     `from_statement`                         ↔ `ofStatement`
     `has_primary_key`, `is_inline`, `covers` ↔ `isPresent`, `isInline`, `covers`
     `move_inline`, `promote`                 ↔ `moveInline`, `promote`
     `_same_names`                            ↔ `sameNames` -/
namespace TableDialects

structure PrimaryKey where
  tableColumns : List Text := []
  constraintName : Option Text := none
  inlineColumn : Option Text := none
  deriving DecidableEq, Repr

namespace PrimaryKey

/-- Whether two lists of names agree, letter case apart. -/
def sameNames (left right : List Text) : Bool := left.map Text.lower == right.map Text.lower

def isPresent (k : PrimaryKey) : Bool :=
  !k.tableColumns.isEmpty || k.inlineColumn.any fun n => !n.isEmpty

def isInline (k : PrimaryKey) (name : Text) : Bool :=
  k.inlineColumn.any fun n => Text.sameName n name

def covers (k : PrimaryKey) (name : Text) : Bool :=
  k.isInline name || k.tableColumns.any fun c => Text.sameName name c

/-- Declares the key inline at the column, if it is the one column of the key. -/
def moveInline (k : PrimaryKey) (name : Text) : Bool × PrimaryKey :=
  if sameNames k.tableColumns [name] then (true, { inlineColumn := some name }) else (false, k)

def promote (k : PrimaryKey) (name : Text) : Bool × PrimaryKey :=
  if k.isPresent then (false, k) else (true, { k with inlineColumn := some name })

/-- The first table-level key with columns among the constraints, with a notice
for each key behind it. -/
def ofConstraints (table : Text) (key : PrimaryKey) : List Constraint → Traced PrimaryKey
  | [] => pure key
  | .primaryKey name columns :: rest =>
    if key.tableColumns.isEmpty then
      ofConstraints table { key with tableColumns := columns, constraintName := name } rest
    else do
      Traced.notify (.extraKey table columns)
      ofConstraints table key rest
  | _ :: rest => ofConstraints table key rest

/-- The key of a statement. A table-level key goes before inline ones, unless it
is the same column; of several inline keys the first counts. -/
def ofStatement (s : Statement) : Traced PrimaryKey := do
  let key ← ofConstraints s.table.name {} s.constraints
  let inline := (s.columns.filter fun c => c.primaryKey).map fun c => c.name
  match inline with
  | [] => return key
  | first :: more =>
    if !more.isEmpty then
      Traced.notify (.inlineKeys s.table.name inline.length first)
    if key.tableColumns.isEmpty then return { key with inlineColumn := some first }
    else if sameNames key.tableColumns [first] then return { inlineColumn := some first }
    else return key

/-- What a key can be asked. -/
inductive Query where
  | isInline (name : Text)
  | covers (name : Text)
  | moveInline (name : Text)
  | promote (name : Text)
  deriving DecidableEq, Repr

/-- Answers one query; the key may move. -/
def ask (k : PrimaryKey) : Query → Bool × PrimaryKey
  | .isInline name => (k.isInline name, k)
  | .covers name => (k.covers name, k)
  | .moveInline name => k.moveInline name
  | .promote name => k.promote name

/-- Answers queries in turn and lists each answer with the key afterwards. -/
def askAll (k : PrimaryKey) : List Query → List (Bool × PrimaryKey)
  | [] => []
  | q :: queries =>
    let (answer, k) := k.ask q
    (answer, k) :: askAll k queries

end PrimaryKey
end TableDialects
