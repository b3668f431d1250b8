import TableDialects.Decimal.Shortest
import TableDialects.Text.Printable
import TableDialects.Value.Basic

/- The text of a value: a text as it stands, a number in its shortest form,
   and a container with its items, texts inside it in quotes. -/
namespace TableDialects.Value

/-- The number in hexadecimal with at least `width` digits. -/
def hexText (width n : Nat) : Text :=
  let digits := Nat.toDigits 16 n
  List.replicate (width - digits.length) '0' ++ digits

/-- The quote around a text: the single one, unless the text holds it and not
the double one. -/
def quoteFor (s : Text) : Char := if s.contains '\'' && !s.contains '"' then '"' else '\''

/-- A character inside the quotes `q`. -/
def escapeChar (q c : Char) : Text :=
  let n := c.toNat
  if c == q || c == '\\' then ['\\', c]
  else if c == '\n' then "\\n"
  else if c == '\r' then "\\r"
  else if c == '\t' then "\\t"
  else if Text.isPrintable c then [c]
  else if n < 0x100 then "\\x".toList ++ hexText 2 n
  else if n < 0x10000 then "\\u".toList ++ hexText 4 n
  else "\\U".toList ++ hexText 8 n

def quotedText (s : Text) : Text :=
  let q := quoteFor s
  q :: s.flatMap (escapeChar q) ++ [q]

/-- Bytes as characters of ASCII; the others in hexadecimal. The single quote is
escaped inside other quotes, too, if `always` says so. -/
def quotedBytes (always : Bool) (data : Text.Bytes) : Text :=
  let s : Text := data.map fun b => Char.ofNat b.toNat
  let q := quoteFor s
  let escape (c : Char) : Text :=
    if 128 ≤ c.toNat then "\\x".toList ++ hexText 2 c.toNat
    else if always && c == '\'' then ['\\', c]
    else escapeChar q c
  'b' :: q :: s.flatMap escape ++ [q]

mutual

/-- The value as it stands inside a container. -/
def quoted : Value → Text
  | .null => "None"
  | .bool b => if b then "True" else "False"
  | .int n => Text.ofInt n
  | .float x => x.render
  | .text s => quotedText s
  | .bytes data => quotedBytes false data
  | .buffer data => "bytearray(".toList ++ quotedBytes true data ++ [')']
  | .list items => '[' :: Text.join ", " (quotedAll items) ++ [']']
  | .dict entries => '\x7b' :: Text.join ", " (quotedEntries entries) ++ ['\x7d']
  | .stream _ _ _ => "<stream>"

def quotedAll : List Value → List Text
  | [] => []
  | v :: vs => quoted v :: quotedAll vs

def quotedEntries : List (Text × Value) → List Text
  | [] => []
  | (key, v) :: es => (quotedText key ++ ": ".toList ++ quoted v) :: quotedEntries es

end

def toText : Value → Text
  | .text s => s
  | v => quoted v

/-- The text of a value, or the empty text for one that counts as false. -/
def textOrEmpty (v : Value) : Text := if v.isTrue then v.toText else []

end TableDialects.Value
