import TableDialects.Text.Blank
import TableDialects.Text.Case
import TableDialects.Text.Quoted
import TableDialects.Text.Word

/- Changing text from left to right: at each place a rule may replace what
   stands there; else one character is copied. Quoted text can be copied whole,
   so that no rule looks into it.

   Correspondence (program ↔ model):
     a pattern of the clean-up ↔ `Rule`
     `_keep_quoted`            ↔ `Rule.apply` with `keepQuoted` -/
namespace TableDialects

/-- A rule: from the character before a place, if any, and the text at
it, the replacement and the text behind what it replaces. -/
abbrev Rule := Option Char → Text → Option (Text × Text)

namespace Rule

/-- The last character of `s` before `rest`. -/
def lastBefore (s rest : Text) : Option Char := (s.take (s.length - rest.length)).getLast?

/-- Applies the rule wherever it fits, from left to right. A rule that consumes
nothing does not fit. With `keepQuoted`, text in quotes is copied as it is. -/
def apply (rule : Rule) (keepQuoted : Bool) (before : Option Char) (s : Text) : Text :=
  match s with
  | [] => []
  | c :: tail =>
    match _ : if keepQuoted then Text.quoted? (c :: tail) else none with
    | some (part, rest) => part ++ apply rule keepQuoted part.getLast? rest
    | none =>
      match rule before (c :: tail) with
      | some (new, rest) =>
        if _ : rest.length < tail.length + 1 then
          new ++ apply rule keepQuoted (lastBefore (c :: tail) rest) rest
        else c :: apply rule keepQuoted (some c) tail
      | none => c :: apply rule keepQuoted (some c) tail
termination_by s.length
decreasing_by
  · rename_i h
    split at h
    · exact Text.quoted?_rest_lt h
    · cases h
  · assumption
  · exact Nat.lt_succ_self _
  · exact Nat.lt_succ_self _

/-- The text behind white space, if some comes next. -/
def blanks? : Text → Option Text
  | [] => none
  | c :: s => if Text.isBlank c then some (s.dropWhile Text.isBlank) else none

/-- The text behind white space, which may be absent. -/
def skipBlanks (s : Text) : Text := s.dropWhile Text.isBlank

/-- The text behind word characters, if some come next. -/
def wordChars? : Text → Option Text
  | [] => none
  | c :: s => if Text.isWordChar c then some (s.dropWhile Text.isWordChar) else none

/-- The text behind the character `c`, if it comes next. -/
def char? (c : Char) : Text → Option Text
  | [] => none
  | d :: s => if c = d then some s else none

/-- The text behind the character `c`, which may be absent. -/
def skipChar (c : Char) (s : Text) : Text := (char? c s).getD s

/-- The text behind words with white space between them, letter case apart. -/
def phrase? : List String → Text → Option Text
  | [], s => some s
  | [w], s => Text.afterWord? w s
  | w :: words, s =>
    match (Text.afterWord? w s).bind blanks? with
    | some rest => phrase? words rest
    | none => none

end Rule
end TableDialects
