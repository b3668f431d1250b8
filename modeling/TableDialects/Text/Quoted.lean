import TableDialects.Text.Basic

/- Quoted text: a quote character inside is written twice. A reader takes the
   longest text that ends in a closing quote of its own; where no such quote
   follows, it falls back to the last doubled quote and closes at its first
   half, and it fails only if there is no doubled quote either. -/
namespace TableDialects.Text

/-- The text with every `q` written twice. -/
def double (q : Char) (s : Text) : Text := s.flatMap fun c => if c = q then [c, c] else [c]

/-- The text with every pair of neighbouring `q` written once. -/
def undouble (q : Char) : Text → Text
  | [] => []
  | [c] => [c]
  | c :: d :: s => if c = q ∧ d = q then q :: undouble q s else c :: undouble q (d :: s)

/-- The part of the text up to and including its closing quote `q`, and the
rest behind it. -/
def closeQuote? (q : Char) : Text → Option (Text × Text)
  | [] => none
  | [c] => if c = q then some ([q], []) else none
  | c :: d :: s =>
    if c = q then
      if d = q then
        match closeQuote? q s with
        | some (body, rest) => some (q :: q :: body, rest)
        | none => some ([q], d :: s)
      else some ([q], d :: s)
    else
      match closeQuote? q (d :: s) with
      | some (body, rest) => some (c :: body, rest)
      | none => none

theorem closeQuote?_append {q : Char} {s body rest : Text} (h : closeQuote? q s = some (body, rest)) :
    body ++ rest = s := by
  fun_induction closeQuote? q s generalizing body rest <;> grind

/-- The closing quote that belongs to an opening one. -/
def closerOf (c : Char) : Option Char :=
  if c = '\'' || c = '"' || c = '`' then some c
  else if c = '[' then some ']'
  else none

/-- The quoted part, in any of the four styles, that the text starts with, and
the rest behind it. -/
def quoted? : Text → Option (Text × Text)
  | [] => none
  | c :: s =>
    match closerOf c with
    | none => none
    | some q =>
      match closeQuote? q s with
      | some (body, rest) => some (c :: body, rest)
      | none => none

theorem quoted?_append {s part rest : Text} (h : quoted? s = some (part, rest)) :
    part ++ rest = s := by
  fun_cases quoted? s <;> grind [quoted?, closeQuote?_append]

theorem quoted?_rest_lt {s part rest : Text} (h : quoted? s = some (part, rest)) :
    rest.length < s.length := by
  have happ := congrArg List.length (quoted?_append h)
  have : part ≠ [] := by fun_cases quoted? s <;> grind [quoted?]
  have := List.length_pos_iff.2 this
  grind [List.length_append]

end TableDialects.Text
