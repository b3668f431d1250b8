import TableDialects.Text.Basic

/- What is shown to a reader: lines of text with style marks, and tables. -/
namespace TableDialects

inductive Shown where
  | line (text : Text)
  | table (title : Text) (columns : List String) (rows : List (List Text))
  deriving DecidableEq, Repr

namespace Report

def styled (style : String) (text : Text) : Text :=
  '[' :: style.toList ++ ']' :: text ++ "[/".toList ++ style.toList ++ [']']

def noTables : Shown :=
  .line (styled "yellow" "No CREATE TABLE statements found. Check the input file.")

def styles : List String := ["bold", "green", "red", "yellow"]

/-- The marks that open and close a style. -/
def marks : List Text :=
  styles.flatMap fun style => ['[' :: style.toList ++ [']'], "[/".toList ++ style.toList ++ [']']]

def unstyled (s : Text) : Text := marks.foldl (fun s mark => Text.replaceAll mark [] s) s

def plain : Shown → Text
  | .line s => unstyled s ++ ['\n']
  | .table title columns rows =>
    let row (cells : List Text) : Text := Text.join " | " (cells.map unstyled) ++ ['\n']
    title ++ '\n' :: row (columns.map String.toList) ++ rows.flatMap row

end Report
end TableDialects
