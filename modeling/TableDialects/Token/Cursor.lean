import TableDialects.Token.Read

/- A cursor over a list of tokens: the readers with the place they stand at. A
   request is answered, and the cursor moves to the tokens that the reader left,
   also when the reader fails.

   Correspondence (program ↔ model):
     `TokenStream`      ↔ `Cursor`
     its methods        ↔ `Request`, answered by `Cursor.ask`
     `TokenStream.peek` ↔ `Cursor.peek` -/
namespace TableDialects

structure Cursor where
  tokens : List Token
  pos : Nat
  deriving DecidableEq, Repr

/-- What a cursor can be asked. -/
inductive Request where
  /-- The token `offset` places ahead, or behind. -/
  | peek (offset : Int)
  /-- The next token, consumed. -/
  | next
  /-- Whether all tokens are consumed. -/
  | atEnd
  /-- Whether the keywords come next. -/
  | peekWords (words : List Text)
  /-- Whether the keywords come next; consumed if so. -/
  | acceptWords (words : List Text)
  /-- Whether the mark comes next. -/
  | peekPunct (mark : Text)
  /-- A name, consumed. -/
  | name (what : Text)
  /-- A dotted name, consumed. -/
  | qualifiedName (what : Text)
  /-- A group in parentheses, consumed. -/
  | group
  /-- An expression, consumed. -/
  | expression
  deriving DecidableEq, Repr

inductive Answer where
  | token (t : Option Token)
  | tokens (ts : List Token)
  | flag (b : Bool)
  | text (s : Text)
  | qualified (q : QualifiedName)
  /-- The place asked for is none. -/
  | nowhere
  | failure (cause : Malformed)
  deriving DecidableEq, Repr

namespace Cursor

def start (ts : List Token) : Cursor := ⟨ts, 0⟩

/-- The tokens not yet consumed. -/
def rest (c : Cursor) : List Token := c.tokens.drop c.pos

/-- The cursor moved to the place where `left` are the tokens left. -/
def leave (c : Cursor) (left : List Token) : Cursor := { c with pos := c.tokens.length - left.length }

/-- The answer of a reader, and the cursor where the reader left it. -/
def read {α : Type} (c : Cursor) (answer : α → Answer) : Reading α → Answer × Cursor
  | .ok (a, left) => (answer a, c.leave left)
  | .error e => (.failure e.cause, c.leave e.rest)

/-- The token `offset` places from the cursor. Places before the first token count
back from the last one, once round. -/
def peek (c : Cursor) (offset : Int) : Answer :=
  match c.pos + offset with
  | .ofNat place => .token c.tokens[place]?
  | .negSucc back =>
    if back < c.tokens.length then .token c.tokens[c.tokens.length - (back + 1)]? else .nowhere

def ask (c : Cursor) : Request → Answer × Cursor
  | .peek offset => (c.peek offset, c)
  | .next => c.read (fun t => .token (some t)) (takeToken c.rest)
  | .atEnd => (.flag c.rest.isEmpty, c)
  | .peekWords words => (.flag (startsWithWords words c.rest), c)
  | .acceptWords words =>
    if startsWithWords words c.rest then (.flag true, c.leave (c.rest.drop words.length))
    else (.flag false, c)
  | .peekPunct mark => (.flag (startsWithPunct mark c.rest), c)
  | .name what => c.read .text (takeName what c.rest)
  | .qualifiedName what => c.read .qualified (takeQualified what c.rest)
  | .group => c.read .tokens (takeGroup c.rest)
  | .expression => c.read .tokens (takeExpression c.rest)

/-- Answers requests in turn, each from where the one before left the cursor,
and lists each answer with the place the cursor stood at afterwards. -/
def askAll (c : Cursor) : List Request → List (Answer × Nat)
  | [] => []
  | r :: requests =>
    let (answer, c) := c.ask r
    (answer, c.pos) :: askAll c requests

end Cursor
end TableDialects
