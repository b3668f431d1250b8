import TableDialects.Clause.Column

/- CREATE TABLE statements. The column section is found first, by its matching
   parenthesis; its clauses are then read one by one.

   Correspondence (program ↔ model):
     `ColumnSection`         ↔ `Section`
     `locate_column_section` ↔ `Section.locate`
     `ParsedStatement`       ↔ `Statement`
     `parse_create_table`    ↔ `Statement.read`
     `find_column`           ↔ `findColumn?`
     `primary_key_columns`   ↔ `primaryKeyColumns` -/
namespace TableDialects

/-- Where the column section of a statement lies: between the places `start`
and `stop` of its source. -/
structure Section where
  table : QualifiedName
  temporary : Bool
  ifNotExists : Bool
  start : Nat
  stop : Nat
  deriving DecidableEq, Repr

/-- The place of the parenthesis that closes `depth + 1` open ones. -/
def closingPlace? : (depth : Nat) → List Token → Option Nat
  | _, [] => none
  | depth, t :: rest =>
    if t.isOpen then closingPlace? (depth + 1) rest
    else if t.isClose then
      match depth with
      | 0 => some t.start
      | depth + 1 => closingPlace? depth rest
    else closingPlace? depth rest

def afterCreate? : List Token → Option (List Token)
  | [] => none
  | t :: rest => if t.isWord "CREATE" then some rest else afterCreate? rest

/-- Whether the table is a temporary one, and the tokens behind the keyword that
says so. -/
def takeTemporary (ts : List Token) : Bool × List Token :=
  match afterWords? ["TEMPORARY"] ts with
  | some rest => (true, rest)
  | none => match afterWords? ["TEMP"] ts with
    | some rest => (true, rest)
    | none => (false, ts)

/-- Whether the table may exist already, and the tokens behind the keywords that
say so. -/
def takeIfNotExists (ts : List Token) : Bool × List Token :=
  match afterWords? ["IF", "NOT", "EXISTS"] ts with
  | some rest => (true, rest)
  | none => (false, ts)

def Section.locate (sql : Text) : Except Malformed Section :=
  match afterCreate? (tokenize sql) with
  | none => .error .noCreateTable
  | some rest =>
    let (temporary, rest) := takeTemporary rest
    match afterWords? ["TABLE"] rest with
    | none => .error .noCreateTable
    | some rest =>
      let (ifNotExists, rest) := takeIfNotExists rest
      match takeQualified "table name" rest with
      | .error e => .error e.cause
      | .ok (table, rest) =>
        if table.name.isEmpty then .error .noTableName
        else match rest with
          | [] => .error .noSection
          | t :: rest =>
            if t.isOpen then
              match closingPlace? 0 rest with
              | some stop => .ok ⟨table, temporary, ifNotExists, t.stop, stop⟩
              | none => .error .unbalanced
            else .error .noSection

structure Statement where
  table : QualifiedName
  temporary : Bool
  ifNotExists : Bool
  columns : List Column
  constraints : List Constraint
  /-- What stands behind the column section. -/
  options : Text
  deriving DecidableEq, Repr

namespace Statement

def columnsOf (clauses : List Clause) : List Column :=
  clauses.filterMap fun c => match c with
    | .column c => some c
    | .constraint _ => none

def constraintsOf (clauses : List Clause) : List Constraint :=
  clauses.filterMap fun c => match c with
    | .constraint c => some c
    | .column _ => none

def readClauses : List Text → Except Malformed (List Clause)
  | [] => .ok []
  | clause :: clauses =>
    match Clause.read clause with
    | .error e => .error e
    | .ok c =>
      match readClauses clauses with
      | .error e => .error e
      | .ok cs => .ok (c :: cs)

/-- The text behind the column section, without the semicolons at its end. -/
def optionsText (sql : Text) (stop : Nat) : Text :=
  Text.strip (Text.trimEnd (· == ';') (Text.strip (sql.drop (stop + 1))))

def read (sql : Text) : Except Malformed Statement :=
  match Section.locate sql with
  | .error e => .error e
  | .ok s =>
    match splitClauses (slice sql s.start s.stop) with
    | [] => .error .noClauses
    | clauses =>
      match readClauses clauses with
      | .error e => .error e
      | .ok cs =>
        .ok ⟨s.table, s.temporary, s.ifNotExists, columnsOf cs, constraintsOf cs,
          optionsText sql s.stop⟩

/-- The place of the first column with the name, letter case apart. -/
def findColumn? (s : Statement) (name : Text) : Option Nat :=
  s.columns.findIdx? fun c => Text.sameName c.name name

/-- The columns of the primary key, declared at table level or inline. -/
def primaryKeyColumns (s : Statement) : List Text :=
  match s.constraints.findSome? (fun c => match c with
    | .primaryKey _ columns => some columns
    | _ => none) with
  | some columns => columns
  | none => (s.columns.filter fun c => c.primaryKey).map fun c => c.name

end Statement
end TableDialects
