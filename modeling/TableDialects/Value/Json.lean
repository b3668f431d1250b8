import TableDialects.Decimal.Numeral
import TableDialects.Decimal.Shortest
import TableDialects.Fault
import TableDialects.Value.Basic

/- JSON. Reading is strict but for the numbers NaN, Infinity and -Infinity; an
   object keeps the first place and the last value of a repeated key. Writing is
   compact, or indented with every character outside ASCII escaped. -/
namespace TableDialects.Value

/-! ## Reading -/

def isJsonSpace (c : Char) : Bool := c == ' ' || c == '\t' || c == '\n' || c == '\r'

def skipSpace (s : Text) : Text := s.dropWhile isJsonSpace

/-- The value of a hexadecimal digit. -/
def hexValue? (c : Char) : Option Nat :=
  let n := c.toNat
  if 48 ≤ n && n ≤ 57 then some (n - 48)
  else if 65 ≤ n && n ≤ 70 then some (n - 55)
  else if 97 ≤ n && n ≤ 102 then some (n - 87)
  else none

/-- The number that four hexadecimal digits spell. -/
def hex4? (a b c d : Char) : Option Nat :=
  match hexValue? a, hexValue? b, hexValue? c, hexValue? d with
  | some a, some b, some c, some d => some (((a * 16 + b) * 16 + c) * 16 + d)
  | _, _, _, _ => none

def unescape? (c : Char) : Option Nat :=
  if c == '"' || c == '\\' || c == '/' then some c.toNat
  else if c == 'b' then some 8
  else if c == 'f' then some 12
  else if c == 'n' then some 10
  else if c == 'r' then some 13
  else if c == 't' then some 9
  else none

/-- The code units of a string up to its closing quote, and the text behind. -/
def stringUnits? : Text → Option (List Nat × Text)
  | [] => none
  | '"' :: rest => some ([], rest)
  | '\\' :: 'u' :: a :: b :: c :: d :: rest =>
    match hex4? a b c d, stringUnits? rest with
    | some n, some (units, rest) => some (n :: units, rest)
    | _, _ => none
  | '\\' :: c :: rest =>
    match unescape? c, stringUnits? rest with
    | some n, some (units, rest) => some (n :: units, rest)
    | _, _ => none
  | c :: rest =>
    if c.toNat < 32 || c == '\\' then none
    else match stringUnits? rest with
      | some (units, rest) => some (c.toNat :: units, rest)
      | none => none

/-- The character of a code unit; half a surrogate pair has none of its own. -/
def unitChar (n : Nat) : Char := if n.isValidChar then Char.ofNat n else Char.ofNat 0xFFFD

/-- The characters of code units; a surrogate pair is one character. -/
def joinUnits : List Nat → Text
  | [] => []
  | [n] => [unitChar n]
  | n :: m :: units =>
    if 0xD800 ≤ n && n < 0xDC00 && 0xDC00 ≤ m && m < 0xE000 then
      Char.ofNat (0x10000 + (n - 0xD800) * 0x400 + (m - 0xDC00)) :: joinUnits units
    else unitChar n :: joinUnits (m :: units)

/-- A string behind its opening quote. -/
def jsonString? (s : Text) : Option (Text × Text) :=
  match stringUnits? s with
  | some (units, rest) => some (joinUnits units, rest)
  | none => none

/-- The whole digits of a number: a zero alone, or digits that do not start with
one. -/
def wholeDigits? (s : Text) : Option (Text × Text) :=
  match s with
  | [] => none
  | c :: rest =>
    if c == '0' then some (['0'], rest)
    else if Numeral.isAsciiDigit c then some (Numeral.spanDigits s)
    else none

/-- The digits behind a point, if a digit follows it. -/
def fractionDigits (s : Text) : Text × Text :=
  match s with
  | '.' :: rest =>
    let (digits, behind) := Numeral.spanDigits rest
    if digits.isEmpty then ([], s) else ('.' :: digits, behind)
  | _ => ([], s)

/-- The exponent, if a digit follows its mark. -/
def exponentDigits (s : Text) : Text × Text :=
  match s with
  | [] => ([], s)
  | e :: rest =>
    if e == 'e' || e == 'E' then
      let (sign, rest) := match rest with
        | '+' :: r => (['+'], r)
        | '-' :: r => (['-'], r)
        | _ => ([], rest)
      let (digits, behind) := Numeral.spanDigits rest
      if digits.isEmpty then ([], s) else (e :: sign ++ digits, behind)
    else ([], s)

/-- A number. Digits alone are an integer. -/
def jsonNumber (s : Text) : Except Fault (Value × Text) :=
  let (sign, body) := match s with
    | '-' :: rest => (['-'], rest)
    | _ => ([], s)
  match wholeDigits? body with
  | none => .error .badJson
  | some (whole, rest) =>
    let (part, rest) := fractionDigits rest
    let (exponent, rest) := exponentDigits rest
    if part.isEmpty && exponent.isEmpty then
      match Numeral.toInt? (sign ++ whole) with
      | some n => .ok (.int n, rest)
      | none => .error .badNumber
    else match Numeral.toDouble? (sign ++ whole ++ part ++ exponent) with
      | some x => .ok (.float x, rest)
      | none => .error .badNumber

def jsonWords : List (String × Value) := [
  ("null", .null), ("true", .bool true), ("false", .bool false), ("NaN", .float .nan),
  ("Infinity", .float (.infinite false)), ("-Infinity", .float (.infinite true))]

def jsonWord? : List (String × Value) → Text → Option (Value × Text)
  | [], _ => none
  | (word, v) :: words, s =>
    match Text.after? word.toList s with
    | some rest => some (v, rest)
    | none => jsonWord? words s

/-- The most brackets that may be open at once. -/
def depthLimit : Nat := 990

mutual

/-- Reads a value. Each bracket takes two steps of `fuel` and each item one; `room`
is the number of brackets that may still be opened in one another. -/
def readJson : (fuel room : Nat) → Text → Except Fault (Value × Text)
  | 0, _, _ => .error .badJson
  | fuel + 1, room, s =>
    match s with
    | [] => .error .badJson
    | '"' :: rest =>
      match jsonString? rest with
      | some (t, rest) => .ok (.text t, rest)
      | none => .error .badJson
    | '[' :: rest =>
      match room with
      | 0 => .error .tooDeep
      | room + 1 =>
        match skipSpace rest with
        | ']' :: rest => .ok (.list [], rest)
        | rest => match readItems fuel room rest with
          | .ok (items, rest) => .ok (.list items, rest)
          | .error e => .error e
    | '\x7b' :: rest =>
      match room with
      | 0 => .error .tooDeep
      | room + 1 =>
        match skipSpace rest with
        | '\x7d' :: rest => .ok (.dict [], rest)
        | rest => match readMembers fuel room rest with
          | .ok (entries, rest) => .ok (.dict (setEntries [] entries), rest)
          | .error e => .error e
    | s => match jsonWord? jsonWords s with
      | some found => .ok found
      | none => jsonNumber s

def readItems : (fuel room : Nat) → Text → Except Fault (List Value × Text)
  | 0, _, _ => .error .badJson
  | fuel + 1, room, s =>
    match readJson fuel room s with
    | .error e => .error e
    | .ok (v, rest) =>
      match skipSpace rest with
      | ']' :: rest => .ok ([v], rest)
      | ',' :: rest =>
        match readItems fuel room (skipSpace rest) with
        | .ok (vs, rest) => .ok (v :: vs, rest)
        | .error e => .error e
      | _ => .error .badJson

def readMembers : (fuel room : Nat) → Text → Except Fault (List (Text × Value) × Text)
  | 0, _, _ => .error .badJson
  | fuel + 1, room, s =>
    match s with
    | '"' :: rest =>
      match jsonString? rest with
      | none => .error .badJson
      | some (key, rest) =>
        match skipSpace rest with
        | ':' :: rest =>
          match readJson fuel room (skipSpace rest) with
          | .error e => .error e
          | .ok (v, rest) =>
            match skipSpace rest with
            | '\x7d' :: rest => .ok ([(key, v)], rest)
            | ',' :: rest =>
              match readMembers fuel room (skipSpace rest) with
              | .ok (es, rest) => .ok ((key, v) :: es, rest)
              | .error e => .error e
            | _ => .error .badJson
        | _ => .error .badJson
    | _ => .error .badJson

end

def ofJson (s : Text) : Except Fault Value :=
  match readJson (2 * s.length + 2) depthLimit (skipSpace s) with
  | .error e => .error e
  | .ok (v, rest) => if (skipSpace rest).isEmpty then .ok v else .error .badJson

/-! ## Writing -/

/-- The number in hexadecimal with four digits. -/
def unitHex (n : Nat) : Text :=
  let digits := Nat.toDigits 16 n
  List.replicate (4 - digits.length) '0' ++ digits

/-- A character that JSON cannot hold as it is; others none. -/
def jsonEscape? (c : Char) : Option Text :=
  if c == '"' then some "\\\""
  else if c == '\\' then some "\\\\"
  else if c == '\n' then some "\\n"
  else if c == '\r' then some "\\r"
  else if c == '\t' then some "\\t"
  else if c.toNat == 8 then some "\\b"
  else if c.toNat == 12 then some "\\f"
  else if c.toNat < 32 then some ("\\u".toList ++ unitHex c.toNat)
  else none

/-- A string with only the needed escapes. -/
def jsonText (s : Text) : Text :=
  '"' :: s.flatMap (fun c => (jsonEscape? c).getD [c]) ++ ['"']

/-- A character in ASCII: a surrogate pair for one beyond sixteen bits. -/
def asciiEscape (c : Char) : Text :=
  let n := c.toNat
  if n < 127 then [c]
  else if n < 0x10000 then "\\u".toList ++ unitHex n
  else "\\u".toList ++ unitHex (0xD800 + (n - 0x10000) / 0x400)
    ++ "\\u".toList ++ unitHex (0xDC00 + (n - 0x10000) % 0x400)

def asciiJsonText (s : Text) : Text :=
  '"' :: s.flatMap (fun c => (jsonEscape? c).getD (asciiEscape c)) ++ ['"']

def jsonDouble : Double → Text
  | .nan => "NaN"
  | .infinite negative => if negative then "-Infinity" else "Infinity"
  | x => x.render

mutual

/-- The value as compact JSON; bytes and streams have none. -/
def toJson : Value → Except Fault Text
  | .null => .ok "null"
  | .bool b => .ok (if b then "true" else "false")
  | .int n => .ok (Text.ofInt n)
  | .float x => .ok (jsonDouble x)
  | .text s => .ok (jsonText s)
  | .list items =>
    match toJsonAll items with
    | .ok parts => .ok ('[' :: Text.join [','] parts ++ [']'])
    | .error e => .error e
  | .dict entries =>
    match toJsonEntries entries with
    | .ok parts => .ok ('\x7b' :: Text.join [','] parts ++ ['\x7d'])
    | .error e => .error e
  | .bytes _ => .error .wrongKind
  | .buffer _ => .error .wrongKind
  | .stream _ _ _ => .error .wrongKind

/-- The items of an array. -/
def toJsonAll : List Value → Except Fault (List Text)
  | [] => .ok []
  | v :: vs =>
    match toJson v with
    | .error e => .error e
    | .ok part => match toJsonAll vs with
      | .error e => .error e
      | .ok parts => .ok (part :: parts)

/-- The members of an object. -/
def toJsonEntries : List (Text × Value) → Except Fault (List Text)
  | [] => .ok []
  | (key, v) :: es =>
    match toJson v with
    | .error e => .error e
    | .ok part => match toJsonEntries es with
      | .error e => .error e
      | .ok parts => .ok ((jsonText key ++ ':' :: part) :: parts)

end

/-- Lines of a container, each `indent` deep, between its brackets. -/
def block (indent : Nat) (opening closing : Char) (parts : List Text) : Text :=
  if parts.isEmpty then [opening, closing]
  else
    let inner := '\n' :: List.replicate (2 * (indent + 1)) ' '
    opening :: inner ++ Text.join (',' :: inner) parts ++ '\n' :: List.replicate (2 * indent) ' '
      ++ [closing]

mutual

/-- The value as JSON in ASCII, a line for each item, two spaces for each level.
Bytes and streams are written as null. -/
def indented (indent : Nat) : Value → Text
  | .null => "null"
  | .bool b => if b then "true" else "false"
  | .int n => Text.ofInt n
  | .float x => jsonDouble x
  | .text s => asciiJsonText s
  | .list items => block indent '[' ']' (indentedAll (indent + 1) items)
  | .dict entries => block indent '\x7b' '\x7d' (indentedEntries (indent + 1) entries)
  | .bytes _ => "null"
  | .buffer _ => "null"
  | .stream _ _ _ => "null"

def indentedAll (indent : Nat) : List Value → List Text
  | [] => []
  | v :: vs => indented indent v :: indentedAll indent vs

def indentedEntries (indent : Nat) : List (Text × Value) → List Text
  | [] => []
  | (key, v) :: es =>
    (asciiJsonText key ++ ": ".toList ++ indented indent v) :: indentedEntries indent es

end

end TableDialects.Value
