import TableDialects.Text.Blank
import TableDialects.Text.Word
import TableDialects.Token.Basic

/- Scanning: SQL text is cut, from left to right, into pieces that leave
   nothing out. The first rule that fits decides a piece:

     white space; a comment (from two hyphens to the end of the line, or
     between slash-star and the first star-slash); a string in single quotes,
     possibly behind N; an identifier in backticks, double quotes or brackets; a
     number; a word; one of the marks ( ) , ; . ; an operator of two
     characters; any single character.

   A quote that is never closed is a single character, and so is the slash of a
   comment that is never closed. White space and comments are gaps; all other
   pieces are tokens (`tokenize`).

   Correspondence (program ↔ model):
     `TOKEN_PATTERN`, at one place ↔ `Scan.piece`
     `tokenize`                    ↔ `tokenize`

   What is proved here: a scanned text is cut into pieces that put together give
   the text again (`Cuts`), so that every piece is shorter than what it is cut from. -/
namespace TableDialects

/-- What a piece of the text is: a gap between tokens, or a token. -/
inductive PieceKind where
  | gap
  | token (kind : TokenKind)
  deriving DecidableEq, Repr

structure Piece where
  kind : PieceKind
  text : Text
  rest : Text
  deriving DecidableEq, Repr

namespace Scan

/-- The longest start of the text whose characters satisfy `p`, as a piece. -/
def run (kind : PieceKind) (p : Char → Bool) (s : Text) : Piece :=
  ⟨kind, s.takeWhile p, s.dropWhile p⟩

/-- The first `n` characters as a piece. -/
def cut (kind : PieceKind) (n : Nat) (s : Text) : Piece := ⟨kind, s.take n, s.drop n⟩

/-- The text up to and including the first star-slash, and the rest. -/
def closeComment? : Text → Option (Text × Text)
  | [] => none
  | [_] => none
  | c :: d :: s =>
    if c == '*' && d == '/' then some ([c, d], s)
    else match closeComment? (d :: s) with
      | some (body, rest) => some (c :: body, rest)
      | none => none

def space? : Text → Option Piece
  | [] => none
  | c :: s => if Text.isBlank c then some (run .gap Text.isBlank (c :: s)) else none

/-- The body of a comment between slash-star and star-slash. -/
def blockComment? : Text → Option Piece
  | '/' :: '*' :: s =>
    match closeComment? s with
    | some (body, rest) => some ⟨.gap, '/' :: '*' :: body, rest⟩
    | none => none
  | _ => none

def comment? : Text → Option Piece
  | '-' :: '-' :: s =>
    some ⟨.gap, '-' :: '-' :: s.takeWhile (· != '\n'), s.dropWhile (· != '\n')⟩
  | s => blockComment? s

/-- Text in the quotes that `opening` opens, behind the characters `lead`. -/
def quote? (kind : TokenKind) (lead : Text) (closing : Char) (s : Text) : Option Piece :=
  match Text.closeQuote? closing s with
  | some (body, rest) => some ⟨.token kind, lead ++ body, rest⟩
  | none => none

def string? : Text → Option Piece
  | '\'' :: s => quote? .string ['\''] '\'' s
  | c :: '\'' :: s => if c == 'N' || c == 'n' then quote? .string [c, '\''] '\'' s else none
  | _ => none

/-- A quoted identifier at the start of the text. -/
def ident? : Text → Option Piece
  | '`' :: s => quote? .ident ['`'] '`' s
  | '"' :: s => quote? .ident ['"'] '"' s
  | '[' :: s => quote? .ident ['['] ']' s
  | _ => none

/-- The number of characters of an exponent at the start of the text, or none. -/
def exponentLength : Text → Nat
  | e :: sign :: d :: s =>
    if e == 'e' || e == 'E' then
      if sign == '+' || sign == '-' then
        if Text.isDigit d then 2 + ((d :: s).takeWhile Text.isDigit).length else 0
      else if Text.isDigit sign then 1 + ((sign :: d :: s).takeWhile Text.isDigit).length
      else 0
    else 0
  | [e, d] => if (e == 'e' || e == 'E') && Text.isDigit d then 2 else 0
  | _ => 0

/-- The number of characters of a mantissa at the start of the text: digits
with a point behind or between them, or a point before them. -/
def mantissaLength (s : Text) : Nat :=
  let whole := (s.takeWhile Text.isDigit).length
  match s.dropWhile Text.isDigit with
  | '.' :: rest =>
    let part := (rest.takeWhile Text.isDigit).length
    if whole == 0 && part == 0 then 0 else whole + 1 + part
  | _ => whole

def number? (s : Text) : Option Piece :=
  let m := mantissaLength s
  if m == 0 then none else some (cut (.token .number) (m + exponentLength (s.drop m)) s)

def startsWord (c : Char) : Bool :=
  Text.isAsciiLetter c || c == '_' || c == '#' || c == '@'

def continuesWord (c : Char) : Bool :=
  Text.isWordChar c || c == '$' || c == '#' || c == '@'

def word? : Text → Option Piece
  | [] => none
  | c :: s =>
    if startsWord c then
      some ⟨.token .word, c :: s.takeWhile continuesWord, s.dropWhile continuesWord⟩
    else none

def isMark (c : Char) : Bool := c == '(' || c == ')' || c == ',' || c == ';' || c == '.'

/-- Whether the two characters form one operator. -/
def isPair (c d : Char) : Bool :=
  (c == ':' && d == ':') || (c == '<' && d == '>') || (c == '<' && d == '=')
    || (c == '>' && d == '=') || (c == '!' && d == '=') || (c == '|' && d == '|')

/-- A mark or an operator, which every text that is not empty starts with. -/
def mark : Char → Text → Piece
  | c, [] => ⟨.token (if isMark c then .punct else .op), [c], []⟩
  | c, d :: s =>
    if isMark c then ⟨.token .punct, [c], d :: s⟩
    else if isPair c d then ⟨.token .op, [c, d], s⟩
    else ⟨.token .op, [c], d :: s⟩

/-- The piece at the start of the text `c :: s`. -/
def piece (c : Char) (s : Text) : Piece :=
  match space? (c :: s) with
  | some p => p
  | none => match comment? (c :: s) with
    | some p => p
    | none => match string? (c :: s) with
      | some p => p
      | none => match ident? (c :: s) with
        | some p => p
        | none => match number? (c :: s) with
          | some p => p
          | none => match word? (c :: s) with
            | some p => p
            | none => mark c s

/-- A piece is well cut: it is not empty, and with the rest it makes up the
text. -/
def Cuts (s : Text) (p : Piece) : Prop := p.text ≠ [] ∧ p.text ++ p.rest = s

theorem closeComment?_append {s body rest : Text} (h : closeComment? s = some (body, rest)) :
    body ++ rest = s := by
  fun_induction closeComment? s generalizing body rest <;> grind

theorem cuts_space {s : Text} {p : Piece} (h : space? s = some p) : Cuts s p := by
  fun_cases space? s <;> simp_all [space?]
  subst h
  simp_all [Cuts, run]

theorem cuts_comment {s : Text} {p : Piece} (h : comment? s = some p) : Cuts s p := by
  unfold comment? at h
  split at h
  · simp only [Option.some.injEq] at h
    subst h
    simp [Cuts]
  · unfold blockComment? at h
    split at h
    · split at h
      · simp only [Option.some.injEq] at h
        subst h
        simp [Cuts, closeComment?_append ‹_›]
      · cases h
    · cases h

theorem cuts_quote {kind : TokenKind} {lead s : Text} {closing : Char} {p : Piece}
    (hl : lead ≠ []) (h : quote? kind lead closing s = some p) : Cuts (lead ++ s) p := by
  unfold quote? at h
  split at h
  · simp only [Option.some.injEq] at h
    subst h
    simp [Cuts, hl, Text.closeQuote?_append ‹_›]
  · cases h

theorem cuts_string {s : Text} {p : Piece} (h : string? s = some p) : Cuts s p := by
  unfold string? at h
  split at h
  · exact cuts_quote (by simp) h
  · split at h
    · exact cuts_quote (by simp) h
    · cases h
  · cases h

theorem cuts_ident {s : Text} {p : Piece} (h : ident? s = some p) : Cuts s p := by
  unfold ident? at h
  split at h
  · exact cuts_quote (by simp) h
  · exact cuts_quote (by simp) h
  · exact cuts_quote (by simp) h
  · cases h

theorem mantissaLength_nil : mantissaLength [] = 0 := rfl

theorem cuts_number {s : Text} {p : Piece} (h : number? s = some p) : Cuts s p := by
  cases s with
  | nil => simp [number?, mantissaLength_nil] at h
  | cons c s =>
    simp only [number?] at h
    split at h
    · cases h
    · simp only [Option.some.injEq] at h
      subst h
      refine ⟨?_, List.take_append_drop _ _⟩
      simp only [cut, ne_eq, List.take_eq_nil_iff]
      simp_all

theorem cuts_word {s : Text} {p : Piece} (h : word? s = some p) : Cuts s p := by
  unfold word? at h
  split at h
  · cases h
  · split at h
    · simp only [Option.some.injEq] at h
      subst h
      simp [Cuts]
    · cases h

theorem cuts_mark (c : Char) (s : Text) : Cuts (c :: s) (mark c s) := by
  unfold mark
  split
  · simp [Cuts]
  · split
    · simp [Cuts]
    · split <;> simp [Cuts]

theorem cuts_piece (c : Char) (s : Text) : Cuts (c :: s) (piece c s) := by
  unfold piece
  split
  · exact cuts_space ‹_›
  split
  · exact cuts_comment ‹_›
  split
  · exact cuts_string ‹_›
  split
  · exact cuts_ident ‹_›
  split
  · exact cuts_number ‹_›
  split
  · exact cuts_word ‹_›
  · exact cuts_mark c s

theorem piece_rest_lt (c : Char) (s : Text) : (piece c s).rest.length < (c :: s).length := by
  have h := cuts_piece c s
  have hlen := congrArg List.length h.2
  have := List.length_pos_iff.2 h.1
  rw [List.length_append] at hlen
  omega

def pieces : Text → List Piece
  | [] => []
  | c :: s => piece c s :: pieces (piece c s).rest
termination_by s => s.length
decreasing_by exact piece_rest_lt c s

/-- The tokens of a text that stands at place `pos`, behind a gap if `spaced`
says so. -/
def tokensFrom (pos : Nat) (spaced : Bool) : Text → List Token
  | [] => []
  | c :: s =>
    let p := piece c s
    match p.kind with
    | .gap => tokensFrom (pos + p.text.length) true p.rest
    | .token kind => ⟨kind, p.text, pos, spaced⟩ :: tokensFrom (pos + p.text.length) false p.rest
termination_by s => s.length
decreasing_by all_goals exact piece_rest_lt c s

end Scan

def tokenize (s : Text) : List Token := Scan.tokensFrom 0 false s

end TableDialects
