import TableDialects.Clause.Option

/- Column definitions: a name, a type and options.

   Correspondence (program ↔ model):
     `ColumnClause`                     ↔ `Column`
     `ColumnClause.type_name`           ↔ `Column.typeName`
     `MULTIWORD_TYPES`, `ZONE_SUFFIXES` ↔ `typeContinuations`, `zoneSuffixes`
     `_accept_word_sequence`            ↔ `takeSequence`
     `_parse_column`                    ↔ `Column.read`, its type by `takeType`
     `classify_clause`                  ↔ `Clause.read` -/
namespace TableDialects

structure Column where
  name : Text
  /-- The type as it was written, in lower case. -/
  rawType : Text := []
  /-- The type without its parameters. -/
  baseType : Text := []
  /-- The parameters with their parentheses. -/
  typeParams : Text := []
  /-- The source text of the options. -/
  tail : Text := []
  /-- Whether NOT NULL or NULL was given. -/
  notNull : Option Bool := none
  default : Option (List Token) := none
  autoIncrement : Bool := false
  primaryKey : Bool := false
  unique : Bool := false
  onUpdate : Option (List Token) := none
  comment : Option Text := none
  check : Option (List Token) := none
  reference : Option Reference := none
  unsigned : Bool := false
  isArray : Bool := false
  collation : Option Text := none
  extra : List Token := []
  deriving DecidableEq, Repr

namespace Column

def typeName (c : Column) : Text := c.baseType ++ c.typeParams

/-- The column with one more option. An option given again replaces the one
before it; tokens without meaning are collected. -/
def apply (c : Column) : ColumnOption → Column
  | .notNull => { c with notNull := some true }
  | .null => { c with notNull := some false }
  | .default e => { c with default := some e }
  | .autoIncrement => { c with autoIncrement := true }
  | .primaryKey => { c with primaryKey := true }
  | .unique => { c with unique := true }
  | .check ts => { c with check := some ts }
  | .references r => { c with reference := some r }
  | .onUpdate e => { c with onUpdate := some e }
  | .comment s => { c with comment := some s }
  | .collate s => { c with collation := some s }
  | .skipped => c
  | .other ts => { c with extra := c.extra ++ ts }

/-- Words that may follow the first word of a type and belong to it. -/
def typeContinuations (first : Text) : List (List String) :=
  if first == "DOUBLE".toList then [["PRECISION"]]
  else if first == "CHARACTER".toList || first == "CHAR".toList || first == "BIT".toList then
    [["VARYING"]]
  else if first == "NATIONAL".toList then
    [["CHARACTER", "VARYING"], ["CHAR", "VARYING"], ["CHARACTER"], ["CHAR"]]
  else if first == "TIMESTAMP".toList || first == "TIME".toList then
    [["WITH", "TIME", "ZONE"], ["WITHOUT", "TIME", "ZONE"]]
  else []

/-- The words that may follow the parameters of a time type. -/
def zoneSuffixes : List (List String) := [["WITH", "TIME", "ZONE"], ["WITHOUT", "TIME", "ZONE"]]

/-- Takes the first of the word sequences that comes next, in lower case. -/
def takeSequence : (candidates : List (List String)) → List Token → List Text × List Token
  | [], ts => ([], ts)
  | words :: candidates, ts =>
    match afterWords? words ts with
    | some rest => (words.map fun w => Text.lower w.toList, rest)
    | none => takeSequence candidates ts

/-- Words that modify a type and belong to it. -/
def typeModifiers : List String := ["UNSIGNED", "SIGNED", "ZEROFILL"]

/-- Takes the type modifiers and array suffixes. -/
def takeModifiers (c : Column) : List Token → Column × List Token
  | [] => (c, [])
  | t :: rest =>
    if t.isWordOf typeModifiers then
      takeModifiers { c with unsigned := c.unsigned || t.upper == "UNSIGNED".toList } rest
    else if t.isArray then takeModifiers { c with isArray := true } rest
    else (c, t :: rest)

/-- Whether the token can be a type: a word that starts no option, or a quoted
name that is no array suffix. -/
def startsType (t : Token) (rest : List Token) : Bool :=
  let startsOption := optionWords.any (fun w => t.upper == w.toList)
    && (t.upper != "CHARACTER".toList || (t.isWord "CHARACTER" && startsWithWords ["SET"] rest))
  (t.kind == .word || (t.kind == .ident && !isArraySuffix t.value)) && !startsOption

def takeTypeWords (t : Token) (rest : List Token) : List Text × List Token :=
  if t.kind == .ident then (Text.words (Text.lower (unquoteIdentifier t.value)), rest)
  else
    let first := Text.lower t.value
    let (more, rest) := takeSequence (typeContinuations (Text.upper first)) rest
    (first :: more, rest)

/-- The parameters of a type as they are kept: without the gaps. -/
def paramsText (inner : List Token) : Text :=
  '(' :: (inner.flatMap Token.value ++ [')'])

/-- Takes the parameters of a type and, behind those of a time type, its zone. -/
def takeParams (words : List Text) (ts : List Token) : Reading (Text × List Text) :=
  if startsOpen ts then
    match takeGroup ts with
    | .error e => .error e
    | .ok (inner, rest) =>
      let (suffix, rest) :=
        if words == ["timestamp".toList] || words == ["time".toList] then
          takeSequence zoneSuffixes rest
        else ([], rest)
      .ok ((paramsText inner, suffix), rest)
  else .ok (([], []), ts)

def takeType (name : Text) (ts : List Token) : Reading Column :=
  match ts with
  | [] => .ok ({ name := name }, [])
  | t :: rest =>
    if startsType t rest then
      let (words, rest) := takeTypeWords t rest
      match takeParams words rest with
      | .error e => .error e
      | .ok ((params, suffix), rest) =>
        let joined := Text.join [' ']
        .ok (takeModifiers
          { name := name
            rawType := joined words ++ params ++ (if suffix.isEmpty then [] else ' ' :: joined suffix)
            baseType := joined (words ++ suffix)
            typeParams := params } rest)
    else .ok ({ name := name }, t :: rest)

def tailText (clause : Text) : List Token → Text
  | [] => []
  | t :: _ => Text.strip (clause.drop t.start)

/-- Reads a column definition from the tokens of a clause. -/
def read (clause : Text) (ts : List Token) : Except Malformed Column :=
  match ts with
  | [] => .error (.noColumnName clause)
  | t :: rest =>
    if t.isIdentifier then
      match takeType t.name rest with
      | .error e => .error e.cause
      | .ok (column, rest) =>
        match ColumnOption.readAll rest with
        | .error e => .error e
        | .ok options => .ok (options.foldl apply { column with tail := tailText clause rest })
    else .error (.noColumnName clause)

end Column

inductive Clause where
  | column (c : Column)
  | constraint (c : Constraint)
  deriving DecidableEq, Repr

/-- Reads a clause: as a table-level constraint if it looks like one, else as a
column. -/
def Clause.read (clause : Text) : Except Malformed Clause :=
  match tokenize clause with
  | [] => .error .emptyClause
  | ts =>
    match takeConstraint ts with
    | .error e => .error e.cause
    | .ok (some found, _) => .ok (.constraint found)
    | .ok (none, _) =>
      match Column.read clause ts with
      | .error e => .error e
      | .ok found => .ok (.column found)

end TableDialects
