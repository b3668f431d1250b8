import TableDialects.Cleanup.Keywords
import TableDialects.FieldType
import TableDialects.PrimaryKey
import TableDialects.Settings
import TableDialects.Translate.Expression

/- Columns in another dialect. A column is rendered as a list of parts, so that
   what it declares (key, nullability, counting up) can be read off the parts.

   Correspondence (program ↔ model):
     `_is_auto_increment`    ↔ `Column.countsUp`
     `_is_boolean_column`    ↔ `Column.isBoolean`
     `_column_type`          ↔ `columnType?`
     `_sqlserver_length`     ↔ `limitLength`
     `_auto_increment_type`  ↔ `countingType`
     `_auto_increment_parts` ↔ `countingParts`
     `_render_default`       ↔ `default?`
     `_render_mysql_only`    ↔ `onUpdatePart`, `commentPart`
     `_render_reference`     ↔ `reference`
     `_render_column`        ↔ `column` -/
namespace TableDialects

/-- The dialects between which statements are translated, with the settings that
apply. -/
structure Direction where
  source : Dialect
  target : Dialect
  settings : Settings := .standard

inductive ColumnPart where
  | name (quoted : Text)
  | type (text : Text)
  | notNull
  | null
  | default (text : Text)
  | primaryKey
  | autoIncrement (keyword : String)
  | unique
  | check (text : Text)
  | references (text : Text)
  | onUpdate (text : Text)
  | comment (text : Text)
  | extra (text : Text)
  deriving DecidableEq, Repr

def ColumnPart.render : ColumnPart → Text
  | .name quoted => quoted
  | .type text => text
  | .notNull => "NOT NULL"
  | .null => "NULL"
  | .default text => "DEFAULT ".toList ++ text
  | .primaryKey => "PRIMARY KEY"
  | .autoIncrement keyword => keyword
  | .unique => "UNIQUE"
  | .check text => "CHECK (".toList ++ text ++ [')']
  | .references text => text
  | .onUpdate text => "ON UPDATE ".toList ++ text
  | .comment text => "COMMENT '".toList ++ Text.double '\'' text ++ ['\'']
  | .extra text => text

namespace Column

/-- Types that count up by themselves. -/
def serialTypes : List String := ["serial", "bigserial", "smallserial"]

def hasBase (c : Column) (names : List String) : Bool := names.any fun n => n.toList == c.baseType

def drawsNext (c : Column) : Bool := c.default.any fun ts => ts.any fun t => t.isWord "NEXTVAL"

/-- Whether the column counts up by itself, in any notation. -/
def countsUp (c : Column) : Bool := c.autoIncrement || c.hasBase serialTypes || c.drawsNext

def isBoolean (c : Column) : Bool :=
  let params := c.typeParams.filter (· != ' ')
  c.hasBase ["boolean", "bool"]
    || (c.hasBase ["tinyint"] && params == "(1)".toList)
    || (c.hasBase ["bit"] && (params.isEmpty || params == "(1)".toList))

/-- Whether the column, counting up, needs a large integer. -/
def isLarge (c : Column) : Bool :=
  c.hasBase ["bigint", "int8", "bigserial"]
    || (c.unsigned && c.hasBase ["int", "integer", "mediumint"])

end Column

namespace Direction

def type (d : Direction) (type : Text) : Text := translateType (some d.source) d.target type

/-- The signed type that holds every value of an unsigned one. -/
def widenings : List (String × String) := [
  ("tinyint", "smallint"), ("smallint", "integer"), ("mediumint", "integer"), ("int", "bigint"),
  ("integer", "bigint"), ("bigint", "numeric(20)")]

/-- The longest length that SQL Server takes for a type. -/
def lengthLimits : List (String × Int) := [("NVARCHAR", 4000), ("VARCHAR", 8000), ("VARBINARY", 8000)]

def lengthDigits? (keyword : String) (type : Text) : Option Text :=
  match Text.after? keyword type with
  | some ('(' :: rest) =>
    let digits := rest.takeWhile Text.isDigit
    if !digits.isEmpty && rest.dropWhile Text.isDigit == [')'] then some digits else none
  | _ => none

/-- A type in SQL Server: MAX replaces a length beyond the limit. -/
def limitLength (type : Text) : Traced Text :=
  match lengthLimits.findSome? fun (keyword, limit) =>
      (lengthDigits? keyword type).map fun digits => (keyword, limit, digits) with
  | none => pure type
  | some (keyword, limit, digits) =>
    match Numeral.toInt? digits with
    | none => Traced.fail (.fault .badNumber)
    | some n =>
      if limit < n then do
        Traced.record (.maxLength keyword)
        return keyword.toList ++ "(MAX)".toList
      else pure type

/-- The type name that is looked up for a column: that of a type that counts up
is its integer type. -/
def plainTypeName (c : Column) : Text :=
  if c.hasBase ["bigserial"] then "bigint"
  else if c.hasBase ["smallserial"] then "smallint"
  else if c.hasBase ["serial"] then "integer"
  else c.typeName

/-- The wider type for an unsigned column outside MySQL. -/
def widening? (d : Direction) (c : Column) : Option Text :=
  if c.unsigned && d.target != .mysql && !c.isBoolean then
    (tableValue? widenings c.baseType).map String.toList
  else none

/-- The type of a column with a base type that is neither an array nor an
enumeration. -/
def scalarType (d : Direction) (c : Column) : Traced Text := do
  let widened := d.widening? c
  Traced.recordIf widened.isSome .unsignedWidened
  let translated := d.type (widened.getD (plainTypeName c))
  let translated := if c.unsigned && d.target == .mysql then translated ++ " UNSIGNED".toList else translated
  let translated ← if d.target == .sqlserver then limitLength translated else pure translated
  if (d.target == .mysql || d.target == .sqlserver)
      && (Text.upper translated == "VARCHAR".toList || Text.upper translated == "NVARCHAR".toList) then do
    Traced.record .lengthAdded
    return translated ++ "(255)".toList
  else return translated

/-- The type of a column that does not count up. There is none if the configured
type of an enumeration is no text. -/
def columnType? (d : Direction) (c : Column) : Traced (Option Text) := do
  if c.baseType.isEmpty then return some (d.type "text")
  else if c.isArray then
    Traced.record (.arrayTo d.target.profile.arrayType)
    return some d.target.profile.arrayType
  else if c.hasBase ["enum", "set"] then
    Traced.record .enumToText
    match d.target, d.settings.sqlserverEnumType with
    | .sqlserver, .text type => return some type
    | .sqlserver, _ => return none
    | target, _ => return some target.profile.enumType
  else
    let type ← d.scalarType c
    return some type

def mysqlIntegers : List String := ["TINYINT", "SMALLINT", "MEDIUMINT", "INT", "INTEGER", "BIGINT"]

def countingType (d : Direction) (c : Column) : Traced Text := do
  match d.target.profile.autoIncrement with
  | .serial =>
    Traced.record .toSerial
    return if c.hasBase ["smallserial"] then "SMALLSERIAL" else if c.isLarge then "BIGSERIAL" else "SERIAL"
  | .rowid =>
    Traced.record .toRowid
    return "INTEGER"
  | .identity =>
    Traced.record .toIdentity
    return if c.isLarge then "BIGINT" else "INT"
  | .modifier =>
    Traced.record .toModifier
    let translated := d.type c.typeName
    let keyword := (Text.upper translated).takeWhile (· != '(')
    let translated : Text :=
      if mysqlIntegers.any fun t => t.toList == keyword then translated
      else if c.isLarge then "BIGINT" else "INT"
    return if c.unsigned then translated ++ " UNSIGNED".toList else translated

/-- What follows the type of the column that counts up. -/
def countingParts (d : Direction) (c : Column) (inlineKey : Bool) : List ColumnPart :=
  let key := if inlineKey then [ColumnPart.primaryKey] else []
  match d.target.profile.autoIncrement with
  | .rowid => [.primaryKey, .autoIncrement "AUTOINCREMENT"]
  | .serial =>
    if inlineKey then key else if c.notNull == some true then [.notNull] else []
  | .identity => [.autoIncrement "IDENTITY(1,1)", .notNull] ++ key
  | .modifier => [.notNull, .autoIncrement "AUTO_INCREMENT"] ++ key

/-- The truth value that the default of a column of truth values names. -/
def booleanDefault? (c : Column) (ts : List Token) : Option Bool :=
  if c.isBoolean then Expression.truthValue? ts else none

/-- The default of a column: a truth value in the notation of the target, the
current time under its common name, or the expression as the target spells it. -/
def default? (d : Direction) (c : Column) : Traced (Option Text) := do
  match c.default with
  | none => return none
  | some [] => return none
  | some ts =>
    let inner := Expression.unwrap ts
    Traced.recordIf (inner.length != ts.length) .defaultUnwrapped
    match booleanDefault? c inner with
    | some b =>
      Traced.record .booleanDefault
      return some (d.target.boolean b)
    | none =>
      let text ← Expression.render d.source d.target inner
      if Expression.isTimeCall (Text.squeeze text)
          && Text.upper text != "CURRENT_TIMESTAMP".toList then do
        Traced.record (.timestampDefault text)
        return some "CURRENT_TIMESTAMP"
      else return some text

/-- Whether the column says NOT NULL or NULL: an inline key is never NULL, and a
default of NULL says so. -/
def nullability (c : Column) (inlineKey : Bool) (default : Option Text) : Traced (List ColumnPart) := do
  if c.notNull == some true then return [.notNull]
  else if inlineKey && c.notNull == some false then
    Traced.record .nullKey
    return [.notNull]
  else if c.notNull == some false || default.any (fun s => Text.upper s == "NULL".toList) then
    return [.null]
  else return []

def defaultSchemas : List String := ["public", "dbo", "main"]

/-- A qualified name in the target dialect, without a default schema. -/
def qualified (d : Direction) (schema : Option Text) (name : Text) : Text :=
  let schema := schema.filter fun s => !(defaultSchemas.any fun n => n.toList == Text.lower s)
  d.target.quoteQualified [schema, some name]

/-- Names in quotes with commas between them. -/
def columnList (d : Direction) (columns : List Text) : Text :=
  Text.join ", " (columns.map d.target.quote)

/-- The actions of a reference; SQL Server has no RESTRICT. -/
def actions (d : Direction) : List (ReferenceEvent × ReferenceAction) → Traced Text
  | [] => pure []
  | (event, action) :: rest => do
    let replaced := action == .restrict && d.target == .sqlserver
    Traced.recordIf replaced .restrictToNoAction
    let action := if replaced then ReferenceAction.noAction else action
    let more ← d.actions rest
    return " ON ".toList ++ event.word.toList ++ ' ' :: action.text ++ more

/-- A reference in the target dialect. -/
def reference (d : Direction) (r : Reference) : Traced Text := do
  let columns := if r.columns.isEmpty then [] else " (".toList ++ d.columnList r.columns ++ [')']
  let tail ← d.actions r.actions
  return "REFERENCES ".toList ++ d.qualified r.target.schema r.target.name ++ columns ++ tail

def checkPart (d : Direction) (c : Column) : Traced (List ColumnPart) := do
  match c.check with
  | none => return []
  | some [] => return []
  | some ts =>
    let text ← Expression.render d.source d.target ts
    return [.check text]

def referencePart (d : Direction) (c : Column) : Traced (List ColumnPart) := do
  match c.reference with
  | none => return []
  | some r =>
    let text ← d.reference r
    return [.references text]

/-- The update rule of a column, where the target has one. -/
def onUpdatePart (d : Direction) (c : Column) : Traced (List ColumnPart) := do
  match c.onUpdate with
  | none => return []
  | some [] => return []
  | some ts =>
    if d.target.profile.onUpdate then
      let text ← Expression.render d.source d.target ts
      return [.onUpdate text]
    else
      Traced.record .onUpdateRemoved
      return []

def commentPart (d : Direction) (c : Column) : Traced (List ColumnPart) := do
  match c.comment with
  | none => return []
  | some text =>
    if d.target.profile.columnComment then return [.comment text]
    else
      Traced.record .commentRemoved
      return []

/-- The tokens of a column without meaning, kept in the spelling of the
target. -/
def extraPart (d : Direction) (c : Column) : Traced (List ColumnPart) := do
  if c.extra.isEmpty then return []
  else
    let text ← Expression.render d.source d.target c.extra
    return [.extra (Cleanup.unquoteKeywords d.target text)]

/-- The parts of a column that does not count up, from its type to its key. -/
def plainParts (d : Direction) (c : Column) (inlineKey : Bool) :
    Traced (Option Text × List ColumnPart) := do
  let type ← d.columnType? c
  let default ← if c.drawsNext then pure none else d.default? c
  let nulls ← nullability c inlineKey default
  return (type, nulls ++ (default.map ColumnPart.default).toList
    ++ if inlineKey then [.primaryKey] else [])

/-- The parts of a column; `counts` says that it is the one that counts up. A
column whose type cannot be written is refused when all its parts are known. -/
def column (d : Direction) (key : PrimaryKey) (counts : Bool) (c : Column) :
    Traced (List ColumnPart) := do
  let inlineKey := key.isInline c.name
  let (type, parts) ←
    if counts then do
      let type ← d.countingType c
      pure (some type, d.countingParts c inlineKey)
    else d.plainParts c inlineKey
  let unique := if c.unique && !inlineKey then [ColumnPart.unique] else []
  let check ← d.checkPart c
  let reference ← d.referencePart c
  let onUpdate ← d.onUpdatePart c
  let comment ← d.commentPart c
  Traced.recordIf (c.collation.any fun s => !s.isEmpty) .collateRemoved
  let extra ← d.extraPart c
  match type with
  | none => Traced.fail (.fault .wrongKind)
  | some type =>
    return [ColumnPart.name (d.target.quote c.name), .type type] ++ parts ++ unique ++ check
      ++ reference ++ onUpdate ++ comment ++ extra

end Direction
end TableDialects
