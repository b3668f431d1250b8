import TableDialects.Text.Blank
import TableDialects.Text.Case

/- The type names that the dialects know, in lower case, and the keyword each
   target dialect writes for them. A name with parameters, such as tinyint(1),
   goes before its base name (`lookupType`).

   Correspondence (program ↔ model):
     `DB_TO_MYSQL` and its like ↔ `mysqlTypes` and its like
     `SQL_TO_NATIVE_TYPE`       ↔ `nativeTypes`
     `KNOWN_TYPE_WORDS`         ↔ `knownTypeWords`
     `lookup_type`              ↔ `lookupType` -/
namespace TableDialects

abbrev TypeTable := List (String × String)

def tableValue? {α : Type} (table : List (String × α)) (name : Text) : Option α :=
  (table.find? fun e => e.1.toList == name).map fun e => e.2

/-- The entry of a type: of base name and parameters together if the table has
one, else of the base name. Letter case, space around the base name and spaces
in the parameters do not matter. -/
def lookupType {α : Type} (table : List (String × α)) (base params : Text) : Option α :=
  let base := Text.strip (Text.lower base)
  let params := Text.lower (params.filter (· != ' '))
  match if params.isEmpty then none else tableValue? table (base ++ params) with
  | some entry => some entry
  | none => tableValue? table base

def mysqlTypes : TypeTable := [
  ("bigint", "BIGINT"), ("mediumint", "MEDIUMINT"), ("smallint", "SMALLINT"),
  ("tinyint(1)", "TINYINT(1)"), ("tinyint", "TINYINT"), ("integer", "BIGINT"), ("int", "INT"),
  ("int2", "SMALLINT"), ("int4", "INT"), ("int8", "BIGINT"), ("bigserial", "BIGINT"),
  ("serial", "INT"), ("smallserial", "SMALLINT"), ("float", "FLOAT"), ("float4", "FLOAT"),
  ("float8", "DOUBLE"), ("real", "DOUBLE"), ("double precision", "DOUBLE"),
  ("double", "DOUBLE"), ("decimal", "DECIMAL"), ("numeric", "NUMERIC"),
  ("money", "DECIMAL(19,4)"), ("smallmoney", "DECIMAL(10,4)"), ("bit", "BIT"),
  ("boolean", "TINYINT(1)"), ("bool", "TINYINT(1)"), ("char", "CHAR"), ("nchar", "CHAR"),
  ("character", "CHAR"), ("nvarchar", "VARCHAR"), ("varchar", "VARCHAR"),
  ("character varying", "VARCHAR"), ("tinytext", "TINYTEXT"), ("mediumtext", "MEDIUMTEXT"),
  ("longtext", "LONGTEXT"), ("text", "TEXT"), ("ntext", "LONGTEXT"), ("citext", "TEXT"),
  ("jsonb", "JSON"), ("json", "JSON"), ("uuid", "CHAR(36)"), ("uniqueidentifier", "CHAR(36)"),
  ("xml", "TEXT"), ("binary", "BINARY"), ("varbinary", "VARBINARY"), ("blob", "BLOB"),
  ("tinyblob", "TINYBLOB"), ("mediumblob", "MEDIUMBLOB"), ("longblob", "LONGBLOB"),
  ("bytea", "LONGBLOB"), ("image", "LONGBLOB"), ("timestamp with time zone", "TIMESTAMP"),
  ("timestamp without time zone", "DATETIME"), ("timestamptz", "TIMESTAMP"),
  ("timestamp", "TIMESTAMP"), ("datetime", "DATETIME"), ("datetime2", "DATETIME"),
  ("smalldatetime", "DATETIME"), ("datetimeoffset", "TIMESTAMP"), ("date", "DATE"),
  ("time", "TIME"), ("time with time zone", "TIME"), ("time without time zone", "TIME"),
  ("year", "YEAR"), ("enum", "ENUM"), ("set", "SET")]

def postgresqlTypes : TypeTable := [
  ("bigint", "BIGINT"), ("mediumint", "INTEGER"), ("smallint", "INTEGER"),
  ("tinyint(1)", "BOOLEAN"), ("tinyint", "INTEGER"), ("integer", "INTEGER"), ("int", "INTEGER"),
  ("int2", "SMALLINT"), ("int4", "INTEGER"), ("int8", "BIGINT"), ("bigserial", "BIGSERIAL"),
  ("serial", "SERIAL"), ("smallserial", "SMALLSERIAL"), ("float", "REAL"), ("float4", "REAL"),
  ("float8", "DOUBLE PRECISION"), ("real", "REAL"), ("double precision", "DOUBLE PRECISION"),
  ("double", "DOUBLE PRECISION"), ("decimal", "DECIMAL"), ("numeric", "NUMERIC"),
  ("money", "MONEY"), ("smallmoney", "NUMERIC(10,4)"), ("bit", "BIT"), ("boolean", "BOOLEAN"),
  ("bool", "BOOLEAN"), ("char", "CHARACTER"), ("nchar", "CHARACTER"),
  ("character", "CHARACTER"), ("nvarchar", "CHARACTER VARYING"),
  ("varchar", "CHARACTER VARYING"), ("character varying", "CHARACTER VARYING"),
  ("tinytext", "TEXT"), ("mediumtext", "TEXT"), ("longtext", "TEXT"), ("smalltext", "TEXT"),
  ("text", "TEXT"), ("ntext", "TEXT"), ("citext", "CITEXT"), ("json", "JSONB"),
  ("jsonb", "JSONB"), ("uuid", "UUID"), ("uniqueidentifier", "UUID"), ("xml", "XML"),
  ("blob", "BYTEA"), ("tinyblob", "BYTEA"), ("mediumblob", "BYTEA"), ("longblob", "BYTEA"),
  ("binary", "BYTEA"), ("varbinary", "BYTEA"), ("bytea", "BYTEA"), ("image", "BYTEA"),
  ("datetime", "TIMESTAMP WITHOUT TIME ZONE"), ("datetime2", "TIMESTAMP WITHOUT TIME ZONE"),
  ("smalldatetime", "TIMESTAMP WITHOUT TIME ZONE"),
  ("datetimeoffset", "TIMESTAMP WITH TIME ZONE"),
  ("timestamp without time zone", "TIMESTAMP WITHOUT TIME ZONE"),
  ("timestamp with time zone", "TIMESTAMP WITH TIME ZONE"),
  ("timestamptz", "TIMESTAMP WITH TIME ZONE"), ("timestamp", "TIMESTAMP WITH TIME ZONE"),
  ("date", "DATE"), ("time", "TIME"), ("time with time zone", "TIME WITH TIME ZONE"),
  ("time without time zone", "TIME WITHOUT TIME ZONE"), ("year", "INTEGER"), ("enum", "TEXT"),
  ("set", "TEXT")]

def sqliteTypes : TypeTable := [
  ("tinyint(1)", "BOOLEAN"), ("tinyint", "INTEGER"), ("smallint", "INTEGER"),
  ("mediumint", "INTEGER"), ("bigint", "INTEGER"), ("integer", "INTEGER"), ("int", "INTEGER"),
  ("int2", "INTEGER"), ("int4", "INTEGER"), ("int8", "INTEGER"), ("bigserial", "INTEGER"),
  ("serial", "INTEGER"), ("smallserial", "INTEGER"), ("real", "REAL"), ("float", "REAL"),
  ("float4", "REAL"), ("float8", "REAL"), ("double precision", "REAL"), ("double", "REAL"),
  ("decimal", "REAL"), ("numeric", "REAL"), ("money", "REAL"), ("smallmoney", "REAL"),
  ("bit", "INTEGER"), ("boolean", "INTEGER"), ("bool", "INTEGER"), ("char", "NVARCHAR"),
  ("nchar", "NVARCHAR"), ("nvarchar", "NVARCHAR"), ("character", "NVARCHAR"),
  ("character varying", "NVARCHAR"), ("varchar", "NVARCHAR"), ("tinytext", "TEXT"),
  ("mediumtext", "TEXT"), ("longtext", "TEXT"), ("text", "TEXT"), ("ntext", "TEXT"),
  ("citext", "TEXT"), ("jsonb", "TEXT"), ("json", "TEXT"), ("uuid", "TEXT"),
  ("uniqueidentifier", "TEXT"), ("xml", "TEXT"), ("enum", "TEXT"), ("set", "TEXT"),
  ("blob", "BLOB"), ("tinyblob", "BLOB"), ("mediumblob", "BLOB"), ("longblob", "BLOB"),
  ("binary", "BLOB"), ("varbinary", "BLOB"), ("bytea", "BLOB"), ("image", "BLOB"),
  ("timestamp with time zone", "TIMESTAMP"), ("timestamp without time zone", "DATETIME"),
  ("timestamptz", "TIMESTAMP"), ("datetime", "DATETIME"), ("datetime2", "DATETIME"),
  ("smalldatetime", "DATETIME"), ("datetimeoffset", "TIMESTAMP"), ("timestamp", "TIMESTAMP"),
  ("date", "DATE"), ("time", "TIME"), ("time with time zone", "TIME"),
  ("time without time zone", "TIME"), ("year", "INTEGER")]

/-- Keywords that SQL Server writes. -/
def sqlserverTypes : TypeTable := [
  ("bigint", "BIGINT"), ("mediumint", "INT"), ("smallint", "SMALLINT"), ("tinyint(1)", "BIT"),
  ("tinyint", "TINYINT"), ("integer", "INT"), ("int", "INT"), ("int2", "SMALLINT"),
  ("int4", "INT"), ("int8", "BIGINT"), ("bigserial", "BIGINT IDENTITY(1,1)"),
  ("serial", "INT IDENTITY(1,1)"), ("smallserial", "SMALLINT IDENTITY(1,1)"),
  ("float", "FLOAT"), ("float4", "REAL"), ("float8", "FLOAT"), ("real", "REAL"),
  ("double precision", "FLOAT"), ("double", "FLOAT"), ("decimal", "DECIMAL(18,2)"),
  ("numeric", "NUMERIC(18,2)"), ("money", "MONEY"), ("smallmoney", "SMALLMONEY"),
  ("bit", "BIT"), ("boolean", "BIT"), ("bool", "BIT"), ("char", "NCHAR"), ("nchar", "NCHAR"),
  ("character", "NCHAR"), ("varchar", "NVARCHAR"), ("nvarchar", "NVARCHAR"),
  ("character varying", "NVARCHAR"), ("tinytext", "NVARCHAR(255)"), ("text", "NVARCHAR(MAX)"),
  ("ntext", "NVARCHAR(MAX)"), ("citext", "NVARCHAR(MAX)"), ("mediumtext", "NVARCHAR(MAX)"),
  ("longtext", "NVARCHAR(MAX)"), ("json", "NVARCHAR(MAX)"), ("jsonb", "NVARCHAR(MAX)"),
  ("xml", "XML"), ("binary", "BINARY"), ("varbinary", "VARBINARY(MAX)"),
  ("blob", "VARBINARY(MAX)"), ("tinyblob", "VARBINARY(255)"), ("mediumblob", "VARBINARY(MAX)"),
  ("longblob", "VARBINARY(MAX)"), ("bytea", "VARBINARY(MAX)"), ("image", "VARBINARY(MAX)"),
  ("uuid", "UNIQUEIDENTIFIER"), ("uniqueidentifier", "UNIQUEIDENTIFIER"),
  ("timestamp with time zone", "DATETIMEOFFSET"), ("timestamp without time zone", "DATETIME2"),
  ("timestamptz", "DATETIMEOFFSET"), ("datetime", "DATETIME2"), ("datetime2", "DATETIME2"),
  ("smalldatetime", "SMALLDATETIME"), ("datetimeoffset", "DATETIMEOFFSET"),
  ("timestamp", "DATETIME2"), ("date", "DATE"), ("time", "TIME"),
  ("time with time zone", "TIME"), ("time without time zone", "TIME"), ("year", "SMALLINT"),
  ("enum", "NVARCHAR(255)"), ("set", "NVARCHAR(255)")]

inductive NativeType where
  | int
  | float
  | bool
  | string
  | array
  deriving DecidableEq, Repr

def NativeType.name : NativeType → String
  | .int => "int"
  | .float => "float"
  | .bool => "bool"
  | .string => "string"
  | .array => "array"

def nativeTypes : List (String × NativeType) := [
  ("tinyint", .int), ("tinyint(1)", .bool), ("smallint", .int), ("mediumint", .int),
  ("int", .int), ("integer", .int), ("bigint", .int), ("int2", .int), ("int4", .int),
  ("int8", .int), ("serial", .int), ("bigserial", .int), ("smallserial", .int), ("year", .int),
  ("bit", .int), ("float", .float), ("float4", .float), ("float8", .float), ("real", .float),
  ("double", .float), ("double precision", .float), ("decimal", .float), ("numeric", .float),
  ("money", .float), ("smallmoney", .float), ("boolean", .bool), ("bool", .bool),
  ("char", .string), ("nchar", .string), ("varchar", .string), ("nvarchar", .string),
  ("character", .string), ("character varying", .string), ("text", .string), ("ntext", .string),
  ("tinytext", .string), ("mediumtext", .string), ("longtext", .string), ("smalltext", .string),
  ("enum", .string), ("set", .string), ("uuid", .string), ("uniqueidentifier", .string),
  ("xml", .string), ("datetime", .string), ("datetime2", .string), ("timestamp", .string),
  ("timestamp with time zone", .string), ("timestamp without time zone", .string),
  ("timestamptz", .string), ("date", .string), ("time", .string), ("blob", .string),
  ("binary", .string), ("varbinary", .string), ("bytea", .string), ("json", .array),
  ("jsonb", .array)]

/-- The first words of the type names that hold a known kind of value. -/
def knownTypeWords : List Text :=
  nativeTypes.filterMap fun e => (Text.words (e.1.toList.takeWhile (· != '('))).head?

end TableDialects
