import TableDialects.Text.Case
import TableDialects.Text.Digit
import TableDialects.Text.Quoted

/- Tokens of SQL text. A token keeps its text, the place where it starts and
   whether white space or a comment stood before it, so that a list of tokens
   can be written out again (`renderTokens`) and clauses can be cut out of the
   source by position.

   Correspondence (program ↔ model):
     `Token`                            ↔ `Token`
     `Token.is_word`, `is_punct`        ↔ `isWord`, `isWordOf`, `isPunct`
     `unquote_identifier`               ↔ `unquoteIdentifier`
     `string_literal_value`             ↔ `stringValue`
     `is_identifier`, `identifier_name` ↔ `isIdentifier`, `name`
     `render_tokens`                    ↔ `renderTokens`, `renderTokensWith` -/
namespace TableDialects

inductive TokenKind where
  | word
  | ident
  | string
  | number
  | punct
  | op
  deriving DecidableEq, Repr, Inhabited

structure Token where
  kind : TokenKind
  value : Text
  start : Nat
  spaced : Bool
  deriving DecidableEq, Repr, Inhabited

/-- Undoes the quoting of an identifier in any of the three styles; any other
text stays as it is. -/
def unquoteIdentifier (s : Text) : Text :=
  match s, s.getLast? with
  | first :: second :: rest, some last =>
    let body := (second :: rest).dropLast
    if first == '`' && last == '`' then Text.undouble '`' body
    else if first == '"' && last == '"' then Text.undouble '"' body
    else if first == '[' && last == ']' then Text.undouble ']' body
    else s
  | _, _ => s

def innerText (s : Text) : Text := (s.drop 1).dropLast

/-- The text that a string literal stands for: without the N before the
quotes, without the quotes, and each doubled quote written once. -/
def stringValue (literal : Text) : Text :=
  let body := match literal with
    | 'N' :: rest => rest
    | 'n' :: rest => rest
    | _ => literal
  Text.undouble '\'' (innerText body)

/-- Whether the text is an array suffix: digits in brackets, or the brackets
alone. -/
def isArraySuffix (s : Text) : Bool :=
  match s with
  | '[' :: rest =>
    match rest.dropWhile Text.isDigit with
    | ']' :: tail => Text.atLastLineEnd tail
    | _ => false
  | _ => false

namespace Token

def stop (t : Token) : Nat := t.start + t.value.length

def upper (t : Token) : Text := Text.upper t.value

/-- Whether the token is the keyword `w`, given in upper case. -/
def isWord (t : Token) (w : Text) : Bool := t.kind == .word && t.upper == w

def isWordOf (t : Token) (ws : List String) : Bool :=
  t.kind == .word && ws.any fun w => t.upper == w.toList

/-- Whether the token is the punctuation mark `p`. -/
def isPunct (t : Token) (p : Text) : Bool := t.kind == .punct && t.value == p

def isOpen (t : Token) : Bool := t.isPunct ['(']

/-- Whether the token closes a parenthesis. -/
def isClose (t : Token) : Bool := t.isPunct [')']

/-- Whether the token can name something: a word or a quoted identifier that is
no array suffix. -/
def isIdentifier (t : Token) : Bool :=
  (t.kind == .word || t.kind == .ident) && !isArraySuffix t.value

def isArray (t : Token) : Bool := t.kind == .ident && isArraySuffix t.value

def name (t : Token) : Text := if t.kind == .ident then unquoteIdentifier t.value else t.value

/-- How a token moves the parenthesis depth. -/
def turn (t : Token) : Int := if t.isOpen then 1 else if t.isClose then -1 else 0

end Token

/-- The tokens written out behind other text, each through `write`, one space
wherever the source had a gap. -/
def renderBehind (write : Token → Text) : List Token → Text
  | [] => []
  | t :: rest => (if t.spaced then [' '] else []) ++ write t ++ renderBehind write rest

/-- The tokens written out, each through `write`, one space wherever the source
had a gap between two of them. -/
def renderTokensWith (write : Token → Text) : List Token → Text
  | [] => []
  | t :: rest => write t ++ renderBehind write rest

def renderTokens (ts : List Token) : Text := renderTokensWith Token.value ts

/-- The parenthesis depth behind the tokens, counted from `depth`. -/
def depthAfter (depth : Int) (ts : List Token) : Int :=
  ts.foldl (fun d t => d + t.turn) depth

/-- Whether the depth, counted from `depth`, never falls below zero. -/
def staysOpen (depth : Int) : List Token → Bool
  | [] => true
  | t :: rest => 0 ≤ depth + t.turn && staysOpen (depth + t.turn) rest

/-- Whether every parenthesis among the tokens is matched. -/
def Balanced (ts : List Token) : Prop := staysOpen 0 ts = true ∧ depthAfter 0 ts = 0

instance (ts : List Token) : Decidable (Balanced ts) :=
  inferInstanceAs (Decidable (_ ∧ _))

end TableDialects
