import TableDialects.Cleanup.Rule
import TableDialects.Token.Scan

/- Layout of generated statements: comments, white space before commas, blank
   lines and space between a type and its parameters are removed.

   Correspondence (program ↔ model):
     `BLOCK_COMMENT_PATTERN`, `LINE_COMMENT_PATTERN` ↔ `blockComment`, `lineComment`
     `SPACE_BEFORE_COMMA_PATTERN`                    ↔ `spaceBeforeComma`
     `fix_line`                                      ↔ `line`
     `fix_lines`                                     ↔ `lines`
     `COLUMN_TYPE_PATTERN`                           ↔ `spaceBeforeParams`
     `trim_column_type`                              ↔ `tightTypes`

   All rules but the one for BOOLEAN with a width stay out of quoted text. -/
namespace TableDialects.Cleanup

/-- Removes a comment between slash-star and star-slash. -/
def blockComment : Rule := fun _ s =>
  match Scan.blockComment? s with
  | some piece => some ([], piece.rest)
  | none => none

/-- Removes a comment behind two hyphens, up to the end of the last line. -/
def lineComment : Rule := fun _ s =>
  match Text.after? "--" s with
  | none => none
  | some rest =>
    let rest := rest.dropWhile (· != '\n')
    if Text.atLastLineEnd rest then some ([], rest) else none

/-- Removes white space before a comma. -/
def spaceBeforeComma : Rule := fun _ s =>
  match (Rule.blanks? s).bind (Rule.char? ',') with
  | some rest => some ([','], rest)
  | none => none

def outsideQuotes (rule : Rule) (s : Text) : Text := rule.apply true none s

/-- Cleans one line: no comments, no white space before a comma or at the end. -/
def line (s : Text) : Text :=
  Text.stripEnd (outsideQuotes spaceBeforeComma (outsideQuotes lineComment
    (outsideQuotes blockComment s)))

/-- Cleans a statement line by line: comments go first, then every line is
cleaned and the blank ones are left out. -/
def lines (s : Text) : Text :=
  let s := outsideQuotes blockComment (Text.unixLines s)
  let cleaned := (Text.splitOn '\n' (Text.strip s)).map line
  Text.join ['\n'] (cleaned.filter fun l => !(Text.strip l).isEmpty)

/-- Types whose parameters follow them directly. -/
def parameterTypes : List (List String) := [
  ["NVARCHAR"], ["VARCHAR"], ["CHARACTER", "VARYING"], ["NCHAR"], ["CHAR"], ["INTEGER"], ["INT"],
  ["TINYINT"], ["SMALLINT"], ["MEDIUMINT"], ["BIGINT"], ["DECIMAL"], ["NUMERIC"], ["FLOAT"],
  ["DOUBLE"], ["REAL"], ["BOOLEAN"]]

/-- The text behind a type and the white space before its parameters, if the
type stands at the start of the text: the type as written, and what follows the
opening parenthesis. -/
def typeBeforeParams? (s : Text) : Option (Text × Text) :=
  parameterTypes.findSome? fun words =>
    match Rule.phrase? words s with
    | none => none
    | some rest =>
      match (Rule.blanks? rest).bind (Rule.char? '(') with
      | some behind => some (s.take (s.length - rest.length), behind)
      | none => none

/-- Removes white space between a type and its parameters. -/
def spaceBeforeParams : Rule := fun before s =>
  if Text.atBoundary before s then
    match typeBeforeParams? s with
    | some (type, rest) => some (Text.collapse type ++ ['('], rest)
    | none => none
  else none

/-- BOOLEAN with a width is an integer with that width. -/
def booleanWidth : Rule := fun before s =>
  if Text.atBoundary before s then
    match Text.afterWord? "BOOLEAN(11)" s with
    | some rest => some ("INTEGER(11)", rest)
    | none => none
  else none

/-- Writes the parameters of a type directly behind it. -/
def tightTypes (s : Text) : Text :=
  booleanWidth.apply false none (outsideQuotes spaceBeforeParams s)

end TableDialects.Cleanup
