import TableDialects.Cleanup.Rule
import TableDialects.Token.Groups
import TableDialects.Translate.Statement

/- Scripts: the CREATE TABLE statements among the statements of a text, and files
   of them.

   Correspondence (program ↔ model):
     `CREATE_TABLE_PATTERN` ↔ `isCreateTable`
     `translate_sql_script` ↔ `translate`
     `translate_file`       ↔ `translateFile` -/
namespace TableDialects

namespace Script

/-- The text behind TEMP or TEMPORARY and white space, which may be absent. -/
def skipTemporary (s : Text) : Text :=
  match (Text.afterWord? "TEMPORARY" s).bind Rule.blanks? with
  | some rest => rest
  | none => ((Text.afterWord? "TEMP" s).bind Rule.blanks?).getD s

def isCreateTable (s : Text) : Bool :=
  match (Text.afterWord? "CREATE" (Rule.skipBlanks s)).bind Rule.blanks? with
  | none => false
  | some rest =>
    match Text.afterWord? "TABLE" (skipTemporary rest) with
    | none => false
    | some behind => Text.atBoundary (some 'E') behind

def tables (sql : Text) : List Text := (splitStatements sql).filter isCreateTable

/-- How much of a skipped statement a notice shows. -/
def shownLength : Nat := 60

/-- Translates the CREATE TABLE statements among statements and skips the others
with a notice. With `skipErrors` a statement that cannot be converted is skipped
with a notice, too. -/
def translateEach (translate : Text → Traced Text) (skipErrors : Bool) :
    List Text → Traced (List Text)
  | [] => pure []
  | s :: more =>
    if isCreateTable s then
      let run := translate s
      match run.outcome with
      | .ok _ => do
        let text ← run
        let texts ← translateEach translate skipErrors more
        return text :: texts
      | .error e =>
        if skipErrors && e.isConversion then do
          (⟨.ok (), run.changes, run.notices ++ [.statementFailed e.message]⟩ : Traced Unit)
          translateEach translate skipErrors more
        else ⟨.error e, run.changes, run.notices⟩
    else do
      Traced.notify (.statementSkipped (s.take shownLength))
      translateEach translate skipErrors more

/-- Translates every CREATE TABLE statement of a script. -/
def translate (settings : Settings) (source target : Value) (skipErrors : Bool) (sql : Text) :
    Traced (List Text) :=
  translateEach (translateNamed settings source target) skipErrors (splitStatements sql)

/-- The lines before the statements of a translated file. -/
def header (source target : Dialect) : Text :=
  "-- Auto-translated from ".toList ++ Text.upper source.name ++ " to ".toList
    ++ Text.upper target.name ++ "\n-- Review carefully before executing\n\n".toList

/-- The content of a translated file: the statements with a blank line between
them. -/
def fileText (source target : Dialect) (statements : List Text) : Text :=
  header source target ++ Text.join "\n\n" statements
    ++ (if statements.isEmpty then [] else ['\n'])

/-- What translating a file did: how many statements it wrote, or why it
failed, and what the output file holds now if it was opened. -/
structure FileRun where
  run : Traced Nat
  written : Option Text

/-- What the output file holds after a run, from what it held before. -/
def FileRun.after (f : FileRun) (before : Option Text) : Option Text := f.written.or before

/-- The text of a file, with line feeds at the ends of lines. -/
def fileContent (data : Text.Bytes) : Except Error Text :=
  match Text.ofUtf8? data with
  | some s => .ok (Text.unixLines s)
  | none => .error (.fault .badUtf8)

/-- Translates the statements of a file, skipping those that cannot be converted.
The output is opened before the dialects are named in its header, so that a
failure there leaves it empty. -/
def translateFile (settings : Settings) (source target : Value) (data : Text.Bytes)
    (path : Text) : FileRun :=
  let script : Traced (List Text) := do
    let sql ← Traced.ofExcept (fileContent data)
    translate settings source target true sql
  match script.outcome with
  | .error e => ⟨⟨.error e, script.changes, script.notices⟩, none⟩
  | .ok statements =>
    match Dialect.ofValue source, Dialect.ofValue target with
    | .ok source, .ok target =>
      let count := statements.length
      ⟨⟨.ok count, script.changes, script.notices ++ [.fileTranslated count path]⟩,
        some (fileText source target statements)⟩
    | .error e, _ => ⟨⟨.error e, script.changes, script.notices⟩, some []⟩
    | _, .error e => ⟨⟨.error e, script.changes, script.notices⟩, some []⟩

end Script
end TableDialects
