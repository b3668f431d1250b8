import TableDialects.Value.Convert

/- SQL literals of values, and the tuple of a row.

   Correspondence (program ↔ model):
     `escape_sql_string`, `quote_string` ↔ `escaped`, `stringLiteral`
     `convert_native_to_sql_literal`     ↔ `literal`
     `convert_value_to_sql_literal`      ↔ `literalOf`
     `_binary_literal`, `_sql_literal`   ↔ `bytesLiteral`, `dialectLiteral`
     `get_column_type`                   ↔ `columnType`
     `create_insert`                     ↔ `insertTuple` -/
namespace TableDialects

namespace Value

/-- The text of a value with every single quote doubled. -/
def escaped (v : Value) : Text := Text.double '\'' v.toText

/-- A string literal; NULL for an absent value. -/
def stringLiteral : Value → Text
  | .null => "NULL"
  | v => '\'' :: v.escaped ++ ['\'']

def jsonLiteral (v : Value) : Except Fault Text :=
  match v.toJson with
  | .ok s => .ok (stringLiteral (.text s))
  | .error e => .error e

/-- How a literal is written: as an integer, a float, a truth value, JSON, a
string, or NULL whatever the value is. -/
inductive LiteralForm where
  | int
  | float
  | bool
  | array
  | string
  | null
  deriving DecidableEq, Repr

/-- The form that a name stands for; other names stand for strings. -/
def LiteralForm.ofName (name : Text) : LiteralForm :=
  let name := Text.strip (Text.lower name)
  if name == "null".toList then .null
  else if name == "int".toList || name == "integer".toList then .int
  else if name == "float".toList || name == "double".toList then .float
  else if name == "bool".toList || name == "boolean".toList then .bool
  else if name == "array".toList then .array
  else .string

def literal (form : LiteralForm) (v : Value) : Except Fault Text :=
  match v with
  | .null => .ok "NULL"
  | v =>
    match form with
    | .null => .ok "NULL"
    | .int => (v.toInt).map Text.ofInt
    | .float => (v.toDouble).map Double.render
    | .bool => .ok (if v.isTrue then ['1'] else ['0'])
    | .array => v.jsonLiteral
    | .string => .ok (stringLiteral (.text v.toText))

/-- The literal of a value in the form of its column type. -/
def literalOf (v type : Value) : Except Fault Text :=
  literal (.ofName (nativeTypeOf type).name) v

def bytesLiteral (d : Dialect) (data : Text.Bytes) : Text :=
  match d with
  | .postgresql => "'\\x".toList ++ Text.hex data ++ ['\'']
  | .sqlserver => "0x".toList ++ Text.hex data
  | _ => "X'".toList ++ Text.hex data ++ ['\'']

def dialectLiteral (d : Dialect) (v : Value) : Except Fault Text :=
  match v with
  | .null => .ok "NULL"
  | .bool b =>
    match d with
    | .postgresql => .ok (if b then "TRUE" else "FALSE")
    | _ => .ok (if b then ['1'] else ['0'])
  | .int n => .ok (Text.ofInt n)
  | .float x => .ok x.render
  | .bytes data => .ok (bytesLiteral d data)
  | .buffer data => .ok (bytesLiteral d data)
  | .list _ => v.jsonLiteral
  | .dict _ => v.jsonLiteral
  | .text _ => .ok v.stringLiteral
  | .stream _ _ _ => .ok v.stringLiteral

end Value

/-- The columns of a row in order, each with its value. -/
abbrev Row := List (Text × Value)

def columnType (types : Row) (column : Text) : Value :=
  (Value.member? types column).getD (.text "text")

def rowLiterals (types : Row) (d : Dialect) : Row → Except Error (List Text)
  | [] => .ok []
  | (column, v) :: row =>
    match v.toNative (columnType types column) (.text d.name) with
    | .error e => .error e
    | .ok native =>
      match native.dialectLiteral d with
      | .error e => .error (.fault e)
      | .ok part =>
        match rowLiterals types d row with
        | .error e => .error e
        | .ok parts => .ok (part :: parts)

/-- The tuple of values that an INSERT writes for a row; a row without columns
has none. -/
def insertTuple (row types : Row) (dialect : Value) : Except Error (Option Text) :=
  match Dialect.ofValue dialect with
  | .error e => .error e
  | .ok d =>
    match rowLiterals types d row with
    | .error e => .error e
    | .ok [] => .ok none
    | .ok parts => .ok (some ('(' :: Text.join ", " parts ++ [')']))

end TableDialects
