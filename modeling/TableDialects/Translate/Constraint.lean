import TableDialects.Translate.Column

/- Table-level constraints in another dialect. Where a dialect has no form for an
   index inside the statement, the index is dropped with a notice.

   Correspondence (program ↔ model):
     `_constraint_prefix`  ↔ `constraintStart`
     `_render_primary_key` ↔ `primaryKey`
     `_render_index`       ↔ `indexClause`
     `_render_constraint`  ↔ `constraint` -/
namespace TableDialects
namespace Direction

def given? (name : Option Text) : Option Text := name.filter fun s => !s.isEmpty

def constraintStart (d : Direction) (name : Option Text) : Text :=
  match given? name with
  | some name => "CONSTRAINT ".toList ++ d.target.quote name ++ [' ']
  | none => []

def keyed (d : Direction) (keyword : String) (name : Option Text) (columns : List Text) : Text :=
  let label := match given? name with
    | some name => ' ' :: d.target.quote name
    | none => []
  keyword.toList ++ label ++ " (".toList ++ d.columnList columns ++ [')']

/-- The clause of a primary key at table level. -/
def primaryKey (d : Direction) (key : PrimaryKey) : Text :=
  let name := if d.target.profile.namedUnique && d.target != .mysql then key.constraintName else none
  d.constraintStart name ++ d.keyed "PRIMARY KEY" none key.tableColumns

/-- A uniqueness constraint. -/
def uniqueClause (d : Direction) (name : Option Text) (columns : List Text) : Text :=
  if d.target == .mysql then d.keyed "UNIQUE KEY" name columns
  else
    d.constraintStart (if d.target.profile.namedUnique then name else none)
      ++ d.keyed "UNIQUE" none columns

/-- Whether the target can write an index of the kind inside the statement. -/
def keepsIndex (d : Direction) (type : Option IndexType) : Bool :=
  d.target.profile.inlineIndex && !(d.target == .sqlserver && type.isSome)

/-- The name of an index that has none, where one is needed. -/
def indexName (table : Text) (columns : List Text) : Text :=
  "ix_".toList ++ table ++ '_' :: Text.join ['_'] columns

/-- An index, if the target has a form for it. -/
def indexClause (d : Direction) (table : Text) (name : Option Text) (columns : List Text)
    (type : Option IndexType) : Traced (Option Text) := do
  if d.keepsIndex type then
    if d.target == .sqlserver then
      return some (d.keyed "INDEX" (some ((given? name).getD (indexName table columns))) columns)
    else
      let kind : Text := match type with
        | some type => type.word.toList ++ [' ']
        | none => []
      return some (kind ++ d.keyed "KEY" name columns)
  else
    let label := (given? name).getD (Text.join ", " columns)
    Traced.notify (.indexDropped table label d.target (type.map IndexType.word))
    Traced.record .indexDropped
    return none

/-- A constraint of the table; primary keys have a place of their own. -/
def constraint (d : Direction) (table : Text) : Constraint → Traced (Option Text)
  | .primaryKey _ _ => return none
  | .unique name columns => return some (d.uniqueClause name columns)
  | .foreignKey name columns r => do
    let reference ← d.reference r
    return some (d.constraintStart name ++ d.keyed "FOREIGN KEY" none columns ++ ' ' :: reference)
  | .check name condition => do
    let text ← Expression.render d.source d.target condition
    return some (d.constraintStart name ++ "CHECK (".toList ++ text ++ [')'])
  | .index name columns type => d.indexClause table name columns type

end Direction
end TableDialects
