import TableDialects.Text.Basic

/- White space: the characters that separate words. Beside space and the
   ASCII controls from tab to carriage return these are the four ASCII
   information separators, the next-line control and the Unicode spaces. -/
namespace TableDialects.Text

/-- Whether the character is white space. -/
def isBlank (c : Char) : Bool :=
  let n := c.toNat
  (9 ≤ n && n ≤ 13) || (28 ≤ n && n ≤ 32) || n == 0x85 || n == 0xA0 || n == 0x1680
    || (0x2000 ≤ n && n ≤ 0x200A) || n == 0x2028 || n == 0x2029 || n == 0x202F || n == 0x205F
    || n == 0x3000

/-- The text without white space at its ends. -/
def strip (s : Text) : Text := trim isBlank s

/-- The text without white space at its end. -/
def stripEnd (s : Text) : Text := trimEnd isBlank s

/-- The text without any white space. -/
def squeeze (s : Text) : Text := s.filter fun c => !isBlank c

/-- Every run of white space becomes one space; `inRun` says that the text goes
on with a run already written. -/
def collapseFrom (inRun : Bool) : Text → Text
  | [] => []
  | c :: s =>
    if isBlank c then if inRun then collapseFrom true s else ' ' :: collapseFrom true s
    else c :: collapseFrom false s

/-- Every run of white space becomes one space. -/
def collapse (s : Text) : Text := collapseFrom false s

/-- `current` holds what has been read of the word at hand, its last character first. -/
def wordsFrom (current : Text) : Text → List Text
  | [] => if current.isEmpty then [] else [current.reverse]
  | c :: s =>
    if isBlank c then
      if current.isEmpty then wordsFrom [] s else current.reverse :: wordsFrom [] s
    else wordsFrom (c :: current) s

/-- The words of a text: its longest parts without white space. -/
def words (s : Text) : List Text := wordsFrom [] s

end TableDialects.Text
