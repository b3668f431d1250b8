import TableDialects.Text.Blank
import TableDialects.Text.Quoted
import TableDialects.Dialect.TypeTable

/- The four dialects, their names and what each of them can write.

   Correspondence (program ↔ model):
     `DialectProfile`, one for each dialect ↔ `Profile`, `Dialect.profile`
     `DIALECT_ALIASES`                      ↔ `Dialect.aliases`
     `normalize_dialect`                    ↔ `Dialect.ofName?`
     `DialectProfile.quote`                 ↔ `Dialect.quote`
     `quote_qualified`                      ↔ `Dialect.quoteQualified`
     `render_boolean`                       ↔ `Dialect.boolean` -/
namespace TableDialects

inductive Dialect where
  | mysql
  | postgresql
  | sqlite
  | sqlserver
  deriving DecidableEq, Repr, Inhabited

/-- How a dialect declares a column that counts up by itself. -/
inductive AutoIncrement where
  /-- AUTO_INCREMENT behind an integer type. -/
  | modifier
  /-- A SERIAL type. -/
  | serial
  /-- INTEGER PRIMARY KEY AUTOINCREMENT. -/
  | rowid
  /-- IDENTITY(1,1) behind an integer type. -/
  | identity
  deriving DecidableEq, Repr

/-- The name of a way to count up. -/
def AutoIncrement.name : AutoIncrement → String
  | .modifier => "modifier"
  | .serial => "serial"
  | .rowid => "rowid"
  | .identity => "identity"

/-- What a dialect can write and how. -/
structure Profile where
  quoteOpen : Char := '"'
  quoteClose : Char := '"'
  types : TypeTable
  autoIncrement : AutoIncrement
  trueLiteral : String := "TRUE"
  falseLiteral : String := "FALSE"
  booleanType : String := "BOOLEAN"
  tableOptions : String := ""
  ifNotExists : Bool := true
  inlineIndex : Bool := false
  columnComment : Bool := false
  onUpdate : Bool := false
  casts : Bool := false
  namedUnique : Bool := true
  enumType : String := "TEXT"
  arrayType : String := "TEXT"
  title : String

namespace Dialect

/-- The dialects, in the order in which they are listed. -/
def all : List Dialect := [.mysql, .postgresql, .sqlite, .sqlserver]

def name : Dialect → String
  | .mysql => "mysql"
  | .postgresql => "postgresql"
  | .sqlite => "sqlite"
  | .sqlserver => "sqlserver"

def profile : Dialect → Profile
  | .mysql =>
    { quoteOpen := '`', quoteClose := '`', types := mysqlTypes, autoIncrement := .modifier
      trueLiteral := "'1'", falseLiteral := "'0'", booleanType := "TINYINT(1)"
      tableOptions := "ENGINE=InnoDB DEFAULT CHARSET=utf8mb4", inlineIndex := true
      columnComment := true, onUpdate := true, arrayType := "JSON", title := "MySqlDialect" }
  | .postgresql =>
    { types := postgresqlTypes, autoIncrement := .serial, casts := true, arrayType := "JSONB"
      title := "PostgreSqlDialect" }
  | .sqlite =>
    { types := sqliteTypes, autoIncrement := .rowid, trueLiteral := "1", falseLiteral := "0"
      booleanType := "INTEGER", namedUnique := false, title := "SqliteDialect" }
  | .sqlserver =>
    { quoteOpen := '[', quoteClose := ']', types := sqlserverTypes, autoIncrement := .identity
      trueLiteral := "1", falseLiteral := "0", booleanType := "BIT", ifNotExists := false
      inlineIndex := true, enumType := "NVARCHAR(255)", arrayType := "NVARCHAR(MAX)"
      title := "SqlServerDialect" }

/-- The accepted names of the dialects, in alphabetical order. -/
def aliases : List (String × Dialect) := [
  ("mariadb", .mysql), ("mssql", .sqlserver), ("mysql", .mysql), ("pgsql", .postgresql),
  ("postgres", .postgresql), ("postgresql", .postgresql), ("sqlite", .sqlite),
  ("sqlite3", .sqlite), ("sqlserver", .sqlserver), ("sqlsrv", .sqlserver)]

/-- The accepted names as a message lists them. -/
def aliasList : Text := Text.join ", " (aliases.map fun a => a.1.toList)

/-- The dialect with a name, in any letter case and with space around it. -/
def ofName? (s : Text) : Option Dialect := tableValue? aliases (Text.strip (Text.lower s))

def isQuote (c : Char) : Bool := c == '`' || c == '"' || c == '[' || c == ']'

/-- A name without the space around it and then without the quotes around it. -/
def bareName (n : Text) : Text := Text.trim isQuote (Text.strip n)

/-- A name in the quotes of the dialect. Space and quotes of any dialect around
it are dropped first. -/
def quote (d : Dialect) (n : Text) : Text :=
  d.profile.quoteOpen :: Text.double d.profile.quoteClose (bareName n) ++ [d.profile.quoteClose]

/-- Names in quotes, joined by dots; absent and empty ones are left out. -/
def quoteQualified (d : Dialect) (parts : List (Option Text)) : Text :=
  Text.join ['.'] ((parts.filterMap fun p => p.filter fun s => !s.isEmpty).map d.quote)

/-- The literal of a truth value. -/
def boolean (d : Dialect) (b : Bool) : Text :=
  if b then d.profile.trueLiteral else d.profile.falseLiteral

def label (d : Dialect) : Text :=
  '<' :: d.profile.title.toList ++ ' ' :: d.name.toList ++ ['>']

end Dialect
end TableDialects
