import TableDialects.Text.Blank
import TableDialects.Token.Scan

/- Splitting at separators outside all parentheses. Groups without tokens are
   left out, so the clauses of a column section and the statements of a script
   are never empty. A part is cut out of the source from the start of its first
   token to the end of its last one.

   Correspondence (program ↔ model):
     `split_token_groups` ↔ `splitGroups`
     `split_clauses`      ↔ `splitClauses`
     `split_statements`   ↔ `splitStatements` -/
namespace TableDialects

/-- The tokens between separators at depth zero, counted from `depth`; the
first group goes on behind tokens already read. -/
def groupsFrom (separator : Text) (depth : Int) : List Token → List (List Token)
  | [] => [[]]
  | t :: rest =>
    if !t.isOpen && !t.isClose && t.isPunct separator && depth == 0 then
      [] :: groupsFrom separator depth rest
    else
      match groupsFrom separator (depth + t.turn) rest with
      | [] => [[t]]
      | group :: groups => (t :: group) :: groups

/-- The non-empty groups of tokens between separators outside all
parentheses. -/
def splitGroups (separator : Text) (ts : List Token) : List (List Token) :=
  (groupsFrom separator 0 ts).filter fun g => !g.isEmpty

def slice (s : Text) (start stop : Nat) : Text := (s.drop start).take (stop - start)

/-- The part of the source that a group of tokens spans. -/
def groupText (s : Text) (group : List Token) : Text :=
  match group, group.getLast? with
  | first :: _, some last => Text.strip (slice s first.start last.stop)
  | _, _ => []

/-- The parts of a source between separators outside all parentheses. -/
def splitText (separator : Text) (s : Text) : List Text :=
  (splitGroups separator (tokenize s)).map (groupText s)

def splitClauses (section_ : Text) : List Text := splitText [','] section_

def splitStatements (script : Text) : List Text := splitText [';'] script

end TableDialects
