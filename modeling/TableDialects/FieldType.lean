import TableDialects.Text.Digit
import TableDialects.Dialect.Basic

/- Column types from one dialect to another. A type is split into its base name
   and its parameters; a rule of the source dialect decides first, then the table
   of the target dialect, and a type that neither knows passes through in upper
   case.

   Correspondence (program ↔ model):
     `split_type`           ↔ `TypeParts.split`
     `BASE_TYPE_PATTERN`    ↔ `TypeParts.plain?`
     `ZONED_TYPE_PATTERN`   ↔ `TypeParts.zoned?`
     `_source_override`     ↔ `sourceRule?`
     `_reappend_params`     ↔ `withParams`
     `translate_field_type` ↔ `translateType` -/
namespace TableDialects

/-- A type split into base name and parameters. -/
structure TypeParts where
  base : Text
  params : Text
  deriving DecidableEq, Repr

namespace TypeParts

/-- The parameters up to the next closing parenthesis, and the text behind. -/
def closeParams? : Text → Option (Text × Text)
  | [] => none
  | c :: s =>
    if c == ')' then some ([c], s)
    else match closeParams? s with
      | some (body, rest) => some (c :: body, rest)
      | none => none

/-- Whether the text is a zone behind the parameters of a time type, with or
without it: white space, the word, and `time zone` at the end. -/
def zone? (s : Text) : Option Text :=
  match s with
  | [] => none
  | c :: _ =>
    if Text.isBlank c then
      let s := s.dropWhile Text.isBlank
      match Text.after? "with time zone" s with
      | some rest => if Text.atLastLineEnd rest then some "with" else none
      | none => match Text.after? "without time zone" s with
        | some rest => if Text.atLastLineEnd rest then some "without" else none
        | none => none
    else none

/-- A time type with its parameters before its zone, behind the word `word`. -/
def zonedAfter? (word : Text) (s : Text) : Option TypeParts :=
  match Text.after? word s with
  | none => none
  | some rest =>
    match rest.dropWhile Text.isBlank with
    | '(' :: rest =>
      match closeParams? rest with
      | none => none
      | some (body, rest) =>
        match zone? rest with
        | some zone => some ⟨word ++ ' ' :: zone ++ " time zone".toList, '(' :: body⟩
        | none => none
    | _ => none

/-- A time type with its parameters before its zone. -/
def zoned? (s : Text) : Option TypeParts :=
  match zonedAfter? "timestamp" s with
  | some parts => some parts
  | none => zonedAfter? "time" s

/-- The parameters that may end a type: nothing, or text in parentheses up to
the end of the line, behind white space. -/
def params? (s : Text) : Option Text :=
  match s.dropWhile Text.isBlank with
  | [] => some []
  | '(' :: rest =>
    let line := rest.takeWhile (· != '\n')
    if line.getLast? == some ')' && Text.atLastLineEnd (rest.dropWhile (· != '\n')) then
      some ('(' :: line)
    else none
  | _ => none

def startsBase (c : Char) : Bool := c == '_' || (97 ≤ c.toNat && c.toNat ≤ 122)

def continuesBase (c : Char) : Bool :=
  startsBase c || c == ' ' || (48 ≤ c.toNat && c.toNat ≤ 57)

/-- The shortest base name, behind `before`, that parameters may follow. -/
def baseAfter? (before : Text) (s : Text) : Option TypeParts :=
  match params? s with
  | some params => some ⟨before.reverse, params⟩
  | none => match s with
    | [] => none
    | c :: s => if continuesBase c then baseAfter? (c :: before) s else none

/-- Base name and parameters of a type with plain parameters. -/
def plain? : Text → Option TypeParts
  | [] => none
  | c :: s => if startsBase c then baseAfter? [c] s else none

/-- Splits a type in lower case. Spaces in the parameters are dropped; a text of
another form is all base name. -/
def split (s : Text) : TypeParts :=
  match zoned? s with
  | some parts => parts
  | none => match plain? s with
    | some parts => ⟨Text.strip parts.base, parts.params.filter (· != ' ')⟩
    | none => ⟨s, []⟩

end TypeParts

/-- A type name in the form in which it is looked up: lower case, single
spaces, none around it. -/
def normalType (s : Text) : Text := Text.strip (Text.collapse (Text.lower s))

/-- Digits, possibly in two groups divided by a comma, in parentheses. -/
def isPrecision (params : Text) : Bool :=
  match params with
  | '(' :: s =>
    let rest := s.dropWhile Text.isDigit
    !(s.takeWhile Text.isDigit).isEmpty &&
      (rest == [')'] || match rest with
        | ',' :: s => !(s.takeWhile Text.isDigit).isEmpty && s.dropWhile Text.isDigit == [')']
        | _ => false)
  | _ => false

/-- Whether the keyword is an exact number with a precision of its own. -/
def hasDefaultPrecision (keyword : Text) : Bool :=
  ["DECIMAL", "NUMERIC"].any fun w =>
    match Text.after? w.toList keyword with
    | some params => isPrecision params && params.contains ','
    | none => false

/-- The keyword with the parameters of the source type, where it can carry them:
character types take any, exact numbers and binary types take digits. -/
def withParams (keyword params : Text) : Text :=
  if params.isEmpty then keyword
  else if keyword.contains '(' then
    if hasDefaultPrecision (Text.upper keyword) && isPrecision params then
      keyword.takeWhile (· != '(') ++ params
    else keyword
  else if Text.hasPart "CHAR" (Text.upper keyword) then keyword ++ params
  else if ["DECIMAL", "NUMERIC", "BINARY", "VARBINARY"].any (fun w => Text.upper keyword == w.toList)
      && isPrecision params then keyword ++ params
  else keyword

def sourceRule? (source target : Dialect) (parts : TypeParts) (type : Text) : Option String :=
  let base := parts.base
  match source with
  | .mysql =>
    if base == "enum".toList || base == "set".toList then some "TEXT"
    else if base == "tinyint".toList && parts.params == "(1)".toList then
      match target with
      | .postgresql => some "BOOLEAN"
      | .sqlite => some "INTEGER"
      | _ => none
    else none
  | .postgresql =>
    if base == "serial".toList || base == "bigserial".toList then
      match target with
      | .mysql => some (if base == "bigserial".toList then "BIGINT" else "INT")
      | .sqlite => some "INTEGER"
      | _ => none
    else if base == "boolean".toList || base == "bool".toList then
      match target with
      | .mysql => some "TINYINT(1)"
      | .sqlite => some "INTEGER"
      | _ => none
    else if base == "jsonb".toList then
      match target with
      | .mysql => some "JSON"
      | .sqlite => some "TEXT"
      | _ => none
    else if (Text.after? "timestamp" base).isSome then
      if Text.hasPart "with time zone" type || base == "timestamptz".toList then
        match target with
        | .mysql => some "TIMESTAMP"
        | .sqlite => some "DATETIME"
        | _ => none
      else if Text.hasPart "without time zone" type then
        match target with
        | .mysql => some "DATETIME"
        | .sqlite => some "DATETIME"
        | _ => none
      else none
    else none
  | .sqlite =>
    if base == "datetime".toList then
      match target with
      | .mysql => some "DATETIME"
      | .postgresql => some "TIMESTAMP WITHOUT TIME ZONE"
      | _ => none
    else none
  | .sqlserver =>
    if base == "bit".toList then some target.profile.booleanType
    else if parts.params == "(max)".toList then
      if base == "varchar".toList || base == "nvarchar".toList then
        match target with
        | .mysql => some "LONGTEXT"
        | .postgresql => some "TEXT"
        | .sqlite => some "TEXT"
        | .sqlserver => none
      else if base == "varbinary".toList then
        match target with
        | .mysql => some "LONGBLOB"
        | .postgresql => some "BYTEA"
        | .sqlite => some "BLOB"
        | .sqlserver => none
      else none
    else none

/-- The type that the table of the target dialect gives. A name found with its
parameters keeps none of them. -/
def tableType? (target : Dialect) (parts : TypeParts) : Option Text :=
  let types := target.profile.types
  match lookupType types parts.base parts.params with
  | none => none
  | some keyword =>
    if lookupType types (parts.base ++ parts.params) [] == some keyword && !parts.params.isEmpty then
      some keyword
    else some (withParams keyword parts.params)

/-- The type in the target dialect. An unknown source dialect has no rules of
its own. -/
def translateType (source : Option Dialect) (target : Dialect) (type : Text) : Text :=
  let type := normalType type
  let parts := TypeParts.split type
  match source.bind fun source => sourceRule? source target parts type with
  | some keyword => keyword
  | none => match tableType? target parts with
    | some keyword => keyword
    | none => Text.upper type

end TableDialects
