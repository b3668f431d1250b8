import TableDialects.Text.Basic
import TableDialects.Text.CaseTable

/- Letter case. Lower case keeps the length of a text, a dotted capital I
   apart; upper case may lengthen it, as in STRASSE. A capital sigma becomes the
   final form at the end of a word and the ordinary one elsewhere.

   Keywords of the clean-up patterns are compared letter by letter without
   case; three ASCII letters have partners outside ASCII there, the Kelvin sign,
   the long s and the Turkish i's. -/
namespace TableDialects.Text

/-- The upper-case form of one character. -/
def upperChar (c : Char) : Text :=
  let n := c.toNat
  if n < 128 then [if 97 ≤ n && n ≤ 122 then Char.ofNat (n - 32) else c]
  else match upperExpansions.find? (fun e => e.1 == n) with
    | some e => e.2.map Char.ofNat
    | none => [Char.ofNat (moveCase upperRuns n)]

def upper (s : Text) : Text := s.flatMap upperChar

/-- The lower-case form of one character other than the capital sigma. -/
def lowerChar (c : Char) : Text :=
  let n := c.toNat
  if n < 128 then [if 65 ≤ n && n ≤ 90 then Char.ofNat (n + 32) else c]
  else if n == 0x130 then ['i', Char.ofNat 0x307]
  else [Char.ofNat (moveCase lowerRuns n)]

/-- Whether the nearest character that counts is a cased one. -/
def nextIsCased (s : Text) : Bool :=
  match s.dropWhile (fun c => Ranges.holds caseIgnorableRanges c.toNat) with
  | [] => false
  | c :: _ => Ranges.holds casedRanges c.toNat

/-- The lower-case form of a capital sigma between the characters before it,
nearest first, and those after it. -/
def lowerSigma (before rest : Text) : Char :=
  if nextIsCased before && !nextIsCased rest then 'ς' else 'σ'

/-- Lower case of a text that follows the characters `before`, nearest first. -/
def lowerAfter (before : Text) : Text → Text
  | [] => []
  | c :: s =>
    (if c == 'Σ' then [lowerSigma before s] else lowerChar c) ++ lowerAfter (c :: before) s

def lower (s : Text) : Text := lowerAfter [] s

/-- Whether the texts are equal up to letter case. -/
def sameName (s t : Text) : Bool := lower s == lower t

/-- Whether `c` is the ASCII letter `l` in either case or one of its partners;
any other `l` has no partner but itself. -/
def sameLetter (l c : Char) : Bool :=
  upperChar l == upperChar c
    || (upperChar l == ['K'] && c.toNat == 0x212A)
    || (upperChar l == ['I'] && c.toNat == 0x130)

/-- What follows `word` in `s`, if `s` starts with it up to letter case. -/
def afterWord? : (word s : Text) → Option Text
  | [], s => some s
  | _ :: _, [] => none
  | l :: word, c :: s => if sameLetter l c then afterWord? word s else none

/-- Characters outside ASCII whose folded form is ASCII. -/
def asciiFolds : List (Nat × Text) := [
  (0xDF, "ss"), (0x17F, "s"), (0x1E9E, "ss"), (0x212A, "k"), (0xFB00, "ff"), (0xFB01, "fi"),
  (0xFB02, "fl"), (0xFB03, "ffi"), (0xFB04, "ffl"), (0xFB05, "st"), (0xFB06, "st")]

/-- The character folded for comparison with lower-case ASCII words. -/
def foldChar (c : Char) : Text :=
  match asciiFolds.find? (fun e => e.1 == c.toNat) with
  | some e => e.2
  | none => lowerChar c

/-- The text folded for comparison with lower-case ASCII words. -/
def fold (s : Text) : Text := s.flatMap foldChar

end TableDialects.Text
