import TableDialects.CommandLine.Arguments

/- The three commands, their options, and the help on them. Help lists the
   options in two columns: how an option is given, and what it is for. -/
namespace TableDialects
namespace CommandLine

inductive Command where
  | translate
  | inventory
  | roundTrip
  deriving DecidableEq, Repr

namespace Command

def name : Command → String
  | .translate => "ddl-translate"
  | .inventory => "ddl-inventory"
  | .roundTrip => "roundtrip"

def ofName? (name : Text) : Option Command :=
  [Command.translate, .inventory, .roundTrip].find? fun c => c.name.toList == name

def purpose : Command → String
  | .translate => "Translate CREATE TABLE statements between SQL dialects."
  | .inventory => "Generate a column inventory CSV from a DDL script."
  | .roundTrip => "Run round-trip validation of a DDL script."

def options : Command → List OptionSpec
  | .translate => [
    ⟨"source", some 's', .dialect, "Source SQL dialect (default: mysql)", false⟩,
    ⟨"target", some 't', .dialect, "Target SQL dialect (default: postgresql)", false⟩,
    ⟨"input", some 'i', .text, "Path to source SQL file", false⟩,
    ⟨"output", some 'o', .text, "Path to output SQL file", false⟩,
    ⟨"inline", none, .text, "Translate a single inline CREATE TABLE statement", false⟩,
    ⟨"config", none, .file, "JSON config file", false⟩,
    ⟨"env", none, .text, "Config environment section (default: dev)", false⟩]
  | .inventory => [
    ⟨"input", some 'i', .text, "Path to DDL script", true⟩,
    ⟨"source", some 's', .dialect, "Dialect of the DDL script", true⟩,
    ⟨"target", some 't', .dialect, "Target dialect (repeatable, default: all others)", false⟩,
    ⟨"output", some 'o', .text, "Path to output CSV", false⟩]
  | .roundTrip => [
    ⟨"input", some 'i', .text, "Path to DDL script", true⟩,
    ⟨"source", some 's', .dialect, "Dialect of the DDL script", true⟩,
    ⟨"target", some 't', .dialect, "Dialect to translate through", true⟩,
    ⟨"output", some 'o', .text, "Output file path", false⟩]

end Command

namespace Help

def width : Nat := 78

/-- The widest left column; what is wider has a line of its own. -/
def leftLimit : Nat := 30

def gap : Text := [' ', ' ']

/-- How a value is shown. -/
def value : ValueKind → Text
  | .text => "TEXT"
  | .file => "FILE"
  | .dialect => '[' :: Text.join "|" (Dialect.aliases.map fun a => a.1.toList) ++ [']']

def row (o : OptionSpec) : Text × Text :=
  let letter := match o.letter with
    | some c => ['-', c, ',', ' ']
    | none => []
  (letter ++ "--".toList ++ o.long.toList ++ ' ' :: value o.value,
    o.purpose.toList ++ (if o.required then "  [required]".toList else []))

def ownRow : Text × Text := (helpOption, "Show this message and exit.")

/-- Words in lines, each as full as `limit` allows, behind the words on `line`. -/
def fill (limit : Nat) (line : Text) : List Text → List Text
  | [] => [line]
  | word :: words =>
    if line.length + 1 + word.length ≤ limit then fill limit (line ++ ' ' :: word) words
    else line :: fill limit word words

/-- A text in lines of at most `limit` characters. -/
def wrap (limit : Nat) (s : Text) : List Text :=
  match Text.splitOn ' ' s with
  | [] => []
  | word :: words => fill limit word words

/-- The lines of a row whose right column starts `column` characters from the
left one. -/
def rowLines (column : Nat) (r : Text × Text) : List Text :=
  let indent := gap ++ List.replicate column ' '
  let right := wrap (width - column - gap.length) r.2
  if r.1.length + gap.length ≤ column then
    match right with
    | [] => [gap ++ r.1]
    | first :: more =>
      (gap ++ r.1 ++ List.replicate (column - r.1.length) ' ' ++ first) :: more.map (indent ++ ·)
  else (gap ++ r.1) :: right.map (indent ++ ·)

def text (c : Command) : Text :=
  let rows := c.options.map row ++ [ownRow]
  let widest := (rows.map fun r => r.1.length).foldl max 0
  let column := min widest leftLimit + gap.length
  Text.join "\n" (["Usage: ".toList ++ c.name.toList ++ " [OPTIONS]".toList, [],
    gap ++ c.purpose.toList, [], "Options:".toList] ++ rows.flatMap (rowLines column))

end Help
end CommandLine
end TableDialects
