import TableDialects.Clause.Reference
import TableDialects.Dialect.TypeTable

/- Table-level constraints: keys, foreign keys, checks and plain indexes.

   Correspondence (program ↔ model):
     `ConstraintClause`    ↔ `Constraint`
     `_skip_index_options` ↔ `skipIndexOptions`
     `_looks_like_index`   ↔ `startsIndex`
     `_parse_constraint`   ↔ `takeConstraint` -/
namespace TableDialects

inductive IndexType where
  | fulltext
  | spatial
  deriving DecidableEq, Repr

def IndexType.word : IndexType → String
  | .fulltext => "FULLTEXT"
  | .spatial => "SPATIAL"

inductive Constraint where
  | primaryKey (name : Option Text) (columns : List Text)
  | unique (name : Option Text) (columns : List Text)
  | foreignKey (name : Option Text) (columns : List Text) (reference : Reference)
  | check (name : Option Text) (condition : List Token)
  | index (name : Option Text) (columns : List Text) (type : Option IndexType)
  deriving DecidableEq, Repr

/-- Words between an index and its columns that are left out. -/
def indexOptions : List String := ["CLUSTERED", "NONCLUSTERED", "USING", "BTREE", "HASH"]

def skipIndexOptions (ts : List Token) : List Token := ts.dropWhile fun t => t.isWordOf indexOptions

/-- Takes the name behind CONSTRAINT; the keyword alone names nothing. -/
def takeConstraintName (ts : List Token) : Option Text × List Token :=
  match afterWords? ["CONSTRAINT"] ts with
  | none => (none, ts)
  | some rest =>
    match rest with
    | t :: more =>
      if t.isIdentifier && !t.isWordOf ["PRIMARY", "UNIQUE", "FOREIGN", "CHECK"] then
        (some t.name, more)
      else (none, rest)
    | [] => (none, rest)

/-- The tokens behind KEY or INDEX, if one of them comes next. -/
def afterKeyWord? (ts : List Token) : Option (List Token) :=
  match afterWords? ["KEY"] ts with
  | some rest => some rest
  | none => afterWords? ["INDEX"] ts

def indexType? : List Token → Option IndexType
  | [] => none
  | t :: _ =>
    if t.isWord "FULLTEXT" then some .fulltext
    else if t.isWord "SPATIAL" then some .spatial
    else none

/-- Whether the tokens behind the index keywords go on as an index does and not
as a column named by the keyword: with columns, or with a name that is no type
name and then columns or index options. -/
def continuesIndex : List Token → Bool
  | [] => false
  | t :: rest =>
    if t.isOpen then true
    else if !t.isIdentifier then false
    else if t.kind == .word && knownTypeWords.contains (Text.lower t.value) then false
    else startsOpen rest || startsWithWordOf indexOptions rest

def startsIndex (ts : List Token) : Bool :=
  if (indexType? ts).isSome then
    continuesIndex ((afterKeyWord? (ts.drop 1)).getD (ts.drop 1))
  else match afterKeyWord? ts with
    | some rest => continuesIndex rest
    | none => false

/-- The text a message shows for the token behind a constraint name. -/
def foundInClause : List Token → Text
  | [] => "end of clause"
  | t :: _ => t.value

/-- Reads a primary key behind its keywords. An index name is left out. -/
def primaryKey (name : Option Text) (ts : List Token) : Reading (Option Constraint) :=
  let ts := skipIndexOptions ts
  let ts := if startsIdentifier ts then ts.drop 1 else ts
  match takeColumns ts with
  | .ok (columns, rest) => .ok (some (.primaryKey name columns), rest)
  | .error e => .error e

/-- Reads a unique key behind its keyword. An index name replaces the name of
the constraint. -/
def uniqueKey (name : Option Text) (ts : List Token) : Reading (Option Constraint) :=
  let ts := match afterKeyWord? ts with
    | some rest => rest
    | none => skipIndexOptions ts
  let (name, ts) := match ts with
    | t :: rest =>
      if t.isIdentifier && !t.isWordOf indexOptions then (some t.name, rest) else (name, ts)
    | [] => (name, ts)
  match takeColumns (skipIndexOptions ts) with
  | .ok (columns, rest) => .ok (some (.unique name columns), rest)
  | .error e => .error e

/-- The name of a foreign key: its own, or else the one in front of its
columns. Only a name that is used is consumed. -/
def foreignKeyName (name : Option Text) (ts : List Token) : Option Text × List Token :=
  match ts with
  | t :: rest =>
    if t.isIdentifier then
      if name.any fun n => !n.isEmpty then (name, ts) else (some t.name, rest)
    else (name, ts)
  | [] => (name, ts)

def foreignKey (name : Option Text) (ts : List Token) : Reading (Option Constraint) :=
  let (name, ts) := foreignKeyName name ts
  match takeColumns ts with
  | .error e => .error e
  | .ok (columns, rest) =>
    match afterWords? ["REFERENCES"] rest with
    | none => .error ⟨.noReferences, rest⟩
    | some rest =>
      match takeReference rest with
      | .error e => .error e
      | .ok (reference, rest) => .ok (some (.foreignKey name columns reference), rest)

def plainIndex (ts : List Token) : Reading (Option Constraint) :=
  let type := indexType? ts
  let ts := if type.isSome then ts.drop 1 else ts
  let ts := (afterKeyWord? ts).getD ts
  let (name, ts) := match ts with
    | t :: rest => if t.isIdentifier then (some t.name, rest) else (none, ts)
    | [] => (none, ts)
  match takeColumns (skipIndexOptions ts) with
  | .ok (columns, rest) => .ok (some (.index name columns type), rest)
  | .error e => .error e

/-- The tokens from the parenthesis on, if they start with CHECK and one. -/
def afterCheck? (ts : List Token) : Option (List Token) :=
  match afterWords? ["CHECK"] ts with
  | some rest => if startsOpen rest then some rest else none
  | none => none

/-- Reads a table-level constraint. Tokens that do not look like one are none;
with a constraint name in front they are refused. -/
def takeConstraint (ts : List Token) : Reading (Option Constraint) :=
  let (name, ts) := takeConstraintName ts
  match afterWords? ["PRIMARY", "KEY"] ts with
  | some rest => primaryKey name rest
  | none => match afterWords? ["UNIQUE"] ts with
    | some rest => uniqueKey name rest
    | none => match afterWords? ["FOREIGN", "KEY"] ts with
      | some rest => foreignKey name rest
      | none => match afterCheck? ts with
        | some rest =>
          match takeGroup rest with
          | .ok (condition, rest) => .ok (some (.check name condition), rest)
          | .error e => .error e
        | none => match name with
          | some name => .error ⟨.unknownConstraint name (foundInClause ts), ts⟩
          | none => if startsIndex ts then plainIndex ts else .ok (none, ts)

end TableDialects
