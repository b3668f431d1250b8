import TableDialects.Text.Case
import TableDialects.Text.Blank
import TableDialects.Text.Digit
import TableDialects.Text.Utf8
import TableDialects.Decimal.Double

/- Numerals: texts that stand for numbers. Space may surround them, a sign may
   lead, single low lines may stand between digits, and the digits may be those
   of any script. An integer of more than 4300 digits is refused. -/
namespace TableDialects.Numeral

/-- The most digits an integer numeral may have. -/
def digitLimit : Nat := 4300

/-- The plain form of a character: digits become ASCII ones and spaces outside
ASCII become the space; what else lies outside ASCII belongs to no numeral. -/
def plainChar (c : Char) : Char :=
  if c.toNat < 128 then c
  else if Text.isBlank c then ' '
  else match Text.digitValue? c with
    | some d => Char.ofNat (48 + d)
    | none => '?'

/-- White space around a numeral, in plain form. -/
def isSpace (c : Char) : Bool :=
  let n := c.toNat
  n == 32 || (9 ≤ n && n ≤ 13)

/-- The numeral in plain form, without the space around it. -/
def plainText (s : Text) : Text := Text.trim isSpace (s.map plainChar)

/-- The numeral that bytes spell; a byte outside ASCII belongs to none. -/
def ofBytes (bytes : Text.Bytes) : Text :=
  bytes.map fun b => if b.toNat < 128 then Char.ofNat b.toNat else '?'

def asciiDigit? (c : Char) : Option Nat :=
  let n := c.toNat
  if 48 ≤ n && n ≤ 57 then some (n - 48) else none

def isAsciiDigit (c : Char) : Bool := (asciiDigit? c).isSome

def splitSign : Text → Bool × Text
  | '-' :: s => (true, s)
  | '+' :: s => (false, s)
  | s => (false, s)

/-- Whether every low line has a digit on both sides; `before` says whether a
digit precedes the text. -/
def breaksOk (before : Bool) : Text → Bool
  | [] => true
  | '_' :: s => before && s.head?.any isAsciiDigit && breaksOk false s
  | c :: s => breaksOk (isAsciiDigit c) s

/-- The text without its low lines, if each stands between digits. -/
def dropBreaks? (s : Text) : Option Text :=
  if breaksOk false s then some (s.filter (· != '_')) else none

/-- The number that ASCII digits spell. -/
def ofDigits (digits : Text) : Nat :=
  digits.foldl (fun n c => 10 * n + (asciiDigit? c).getD 0) 0

/-- The integer that a numeral spells. -/
def toInt? (s : Text) : Option Int :=
  let (negative, body) := splitSign (plainText s)
  match dropBreaks? body with
  | none => none
  | some digits =>
    if digits.isEmpty || !digits.all isAsciiDigit || digitLimit < digits.length then none
    else some (if negative then -(ofDigits digits : Int) else ofDigits digits)

def spanDigits (s : Text) : Text × Text := (s.takeWhile isAsciiDigit, s.dropWhile isAsciiDigit)

/-- The power of ten behind a mantissa: nothing, or `e`, a sign and digits. -/
def exponent? : Text → Option Int
  | [] => some 0
  | c :: s =>
    if c == 'e' || c == 'E' then
      let (negative, digits) := splitSign s
      if digits.isEmpty || !digits.all isAsciiDigit then none
      else some (if negative then -(ofDigits digits : Int) else ofDigits digits)
    else none

/-- The digits behind a decimal point, and the rest. -/
def fraction : Text → Text × Text
  | '.' :: s => spanDigits s
  | s => ([], s)

/-- Mantissa and power of ten of an unsigned decimal. -/
def decimal? (s : Text) : Option (Nat × Int) :=
  let (whole, rest) := spanDigits s
  let (part, rest) := fraction rest
  if whole.isEmpty && part.isEmpty then none
  else match exponent? rest with
    | some e => some (ofDigits (whole ++ part), e - part.length)
    | none => none

/-- The double that a numeral spells: a decimal, an infinity or not a number. -/
def toDouble? (s : Text) : Option Double :=
  match dropBreaks? (plainText s) with
  | none => none
  | some text =>
    let (negative, body) := splitSign text
    let name := Text.lower body
    if name == "inf".toList || name == "infinity".toList then some (.infinite negative)
    else if name == "nan".toList then some .nan
    else match decimal? body with
      | some (m, e) => some (.ofDecimal negative m e)
      | none => none

end TableDialects.Numeral
