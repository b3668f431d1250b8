import TableDialects.Text.Basic
import TableDialects.Text.WordRanges

/- The characters of words: letters and numbers of every script and the low
   line. A word boundary lies between a word character and anything else. -/
namespace TableDialects.Text

def isAsciiLetter (c : Char) : Bool :=
  let n := c.toNat
  (65 ≤ n && n ≤ 90) || (97 ≤ n && n ≤ 122)

def isAsciiDigit (c : Char) : Bool :=
  let n := c.toNat
  48 ≤ n && n ≤ 57

def isWordChar (c : Char) : Bool :=
  if c.toNat < 128 then isAsciiLetter c || isAsciiDigit c || c == '_'
  else Ranges.holds wordRanges c.toNat

/-- Whether a word boundary lies between the character before, if any, and the
text that follows. -/
def atBoundary (before : Option Char) (s : Text) : Bool :=
  (before.any isWordChar) != (s.head?.any isWordChar)

end TableDialects.Text
