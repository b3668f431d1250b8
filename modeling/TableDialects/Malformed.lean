import TableDialects.Text.Basic

/- Why a CREATE TABLE statement cannot be read.

   Correspondence (program ↔ model):
     `MalformedStatementError` and its texts ↔ `Malformed`, `Malformed.message` -/
namespace TableDialects

/-- What is wrong with a statement that cannot be read. -/
inductive Malformed where
  /-- The tokens end inside a clause. -/
  | unexpectedEnd
  /-- A name for `what` should stand where `found` stands. -/
  | expectedName (what found : Text)
  /-- An opening parenthesis should stand where `found` stands. -/
  | expectedOpen (found : Text)
  /-- An opening parenthesis is never closed. -/
  | unbalanced
  /-- CREATE TABLE is missing. -/
  | noCreateTable
  /-- The table name is empty. -/
  | noTableName
  /-- No parenthesis opens behind the table name. -/
  | noSection
  /-- A clause holds no tokens. -/
  | emptyClause
  /-- The column section holds no clause. -/
  | noClauses
  /-- A foreign key does not say what it references. -/
  | noReferences
  /-- A named constraint of an unknown kind. -/
  | unknownConstraint (name found : Text)
  /-- A column definition that does not start with a name. -/
  | noColumnName (clause : Text)
  deriving DecidableEq, Repr

/-- The wording of each cause. -/
def Malformed.message : Malformed → Text
  | .unexpectedEnd => "Unexpected end of CREATE TABLE statement."
  | .expectedName what found => "Expected ".toList ++ what ++ ", found '".toList ++ found ++ "'.".toList
  | .expectedOpen found => "Expected '(', found '".toList ++ found ++ "'.".toList
  | .unbalanced => "Unbalanced parentheses in CREATE TABLE statement."
  | .noCreateTable => "Invalid CREATE TABLE statement format."
  | .noTableName => "Cannot parse table name."
  | .noSection => "Invalid CREATE TABLE statement: missing opening parenthesis."
  | .emptyClause => "Empty column definition."
  | .noClauses => "CREATE TABLE statement has no column definitions."
  | .noReferences => "FOREIGN KEY definition without REFERENCES clause."
  | .unknownConstraint name found =>
    "Unsupported constraint '".toList ++ name ++ "' near '".toList ++ found ++ "'.".toList
  | .noColumnName clause => "Cannot parse column definition: '".toList ++ clause ++ "'.".toList

end TableDialects
