import TableDialects.Cleanup.Rule
import TableDialects.Text.Digit

/- Options behind the column section that mean something in their own dialect
   only. What remains without them is worth a warning.

   Correspondence (program ↔ model):
     `TABLE_OPTION_PATTERNS` ↔ `localOptions`
     `strip_table_options`   ↔ `foreignOptions` -/
namespace TableDialects.Cleanup

/-- Replaces by a space what `behind?` skips, where a word starts. -/
def blankOut (behind? : Text → Option Text) : Rule := fun before s =>
  if Text.atBoundary before s then
    match behind? s with
    | some rest => some ([' '], rest)
    | none => none
  else none

/-- An equals sign with white space around it. -/
def equals? (s : Text) : Option Text :=
  ((Rule.char? '=' (Rule.skipBlanks s))).map Rule.skipBlanks

/-- An equals sign that may be absent, with white space around it. -/
def skipEquals (s : Text) : Text := Rule.skipBlanks (Rule.skipChar '=' (Rule.skipBlanks s))

/-- A keyword with a value behind an equals sign. -/
def assignment? (word : String) (value? : Text → Option Text) (s : Text) : Option Text :=
  ((Text.afterWord? word s).bind equals?).bind value?

/-- Words with a name behind them, the equals sign optional. -/
def named? (words : List String) (s : Text) : Option Text :=
  ((Rule.phrase? words s).map skipEquals).bind Rule.wordChars?

/-- The same with DEFAULT in front, which may be absent. -/
def defaultNamed? (words : List String) (s : Text) : Option Text :=
  match named? ("DEFAULT" :: words) s with
  | some rest => some rest
  | none => named? words s

def charset? (s : Text) : Option Text :=
  match named? ["DEFAULT", "CHARSET"] s with
  | some rest => some rest
  | none => match named? ["DEFAULT", "CHARACTER", "SET"] s with
    | some rest => some rest
    | none => match named? ["CHARSET"] s with
      | some rest => some rest
      | none => named? ["CHARACTER", "SET"] s

def digits? : Text → Option Text
  | [] => none
  | c :: s => if Text.isDigit c then some (s.dropWhile Text.isDigit) else none

def comment? (s : Text) : Option Text :=
  match (Text.afterWord? "COMMENT" s).map skipEquals with
  | some ('\'' :: rest) => (Text.closeQuote? '\'' rest).map fun closed => closed.2
  | _ => none

/-- The primary file group, for rows or for large values. -/
def fileGroup? (s : Text) : Option Text :=
  let s := (Text.afterWord? "TEXTIMAGE_" s).getD s
  match (Text.afterWord? "ON" s).bind Rule.blanks? with
  | none => none
  | some rest => (Text.afterWord? "PRIMARY" (Rule.skipChar '[' rest)).map (Rule.skipChar ']')

/-- The options that mean something in one dialect only. -/
def localOptions : List Rule := [
  blankOut (assignment? "ENGINE" Rule.wordChars?),
  blankOut charset?,
  blankOut (defaultNamed? ["COLLATE"]),
  blankOut comment?,
  blankOut (assignment? "AUTO_INCREMENT" digits?),
  blankOut (assignment? "ROW_FORMAT" Rule.wordChars?),
  blankOut fileGroup?]

/-- Removes a comma, with the white space around it, before another one or at the
end. -/
def idleComma : Rule := fun _ s =>
  match Rule.char? ',' (Rule.skipBlanks s) with
  | none => none
  | some rest =>
    let rest := Rule.skipBlanks rest
    if rest.isEmpty || rest.head? == some ',' then some ([], rest) else none

/-- What remains of table options without those that mean something in one
dialect only. -/
def foreignOptions (options : Text) : Text :=
  let rest := localOptions.foldl (fun s rule => rule.apply false none s) options
  Text.trim (fun c => c == ' ' || c == ',' || c == ';')
    (Text.collapse (idleComma.apply false none rest))

end TableDialects.Cleanup
