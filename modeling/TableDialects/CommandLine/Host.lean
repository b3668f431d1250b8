import TableDialects.Text.Word
import TableDialects.Value.Json

/- Hosts in brackets. Between the brackets of an address stands a host of the
   sixth version: eight groups of hexadecimal digits, of which a run may be left
   out once, and the last two of which may be written as four decimal numbers.
   Hosts of later versions say so themselves. -/
namespace TableDialects
namespace CommandLine
namespace Host

def isHexDigit (c : Char) : Bool := (Value.hexValue? c).isSome

/-- Whether a text is a decimal number below 256 without leading zeros. -/
def isOctet (s : Text) : Bool :=
  match s with
  | [] => false
  | c :: more =>
    s.all Text.isAsciiDigit && s.length ≤ 3 && (c != '0' || more.isEmpty)
      && s.foldl (fun n d => 10 * n + (d.toNat - 48)) 0 < 256

/-- Whether a text is four decimal numbers with points between them. -/
def isDotted (s : Text) : Bool :=
  let octets := Text.splitOn '.' s
  octets.length == 4 && octets.all isOctet

def isGroup (s : Text) : Bool := !s.isEmpty && s.length ≤ 4 && s.all isHexDigit

/-- The number of groups in a text, if it is made of groups with colons between
them. Four decimal numbers count as two groups where `dotted` allows them, at
the end. -/
def groupCount? (dotted : Bool) (s : Text) : Option Nat :=
  if s.isEmpty then some 0
  else
    let groups := Text.splitOn ':' s
    match groups.getLast? with
    | none => none
    | some last =>
      if !groups.dropLast.all isGroup then none
      else if isGroup last then some groups.length
      else if dotted && isDotted last then some (groups.length + 1)
      else none

/-- Whether a text is a host of the sixth version, without its zone. -/
def isSixth (s : Text) : Bool :=
  match Text.splitFirst? "::" s with
  | some (before, behind) =>
    match groupCount? false before, groupCount? true behind with
    | some m, some n => m + n ≤ 7
    | _, _ => false
  | none => groupCount? true s == some 8

/-- Whether a text is a host of the sixth version; a zone may follow it behind a
percent sign. -/
def isSixthZoned (s : Text) : Bool :=
  match Text.splitOn '%' s with
  | [host] => isSixth host
  | [host, zone] => isSixth host && !zone.isEmpty
  | _ => false

/-- Whether a text is a host of a later version: its number and its own form. -/
def isLater : Text → Bool
  | 'v' :: s =>
    let version := s.takeWhile isHexDigit
    match s.drop version.length with
    | '.' :: form => !version.isEmpty && !form.isEmpty && !form.contains '\n'
    | _ => false
  | _ => false

def isBracketed (s : Text) : Bool := if s.head? == some 'v' then isLater s else isSixthZoned s

end Host
end CommandLine
end TableDialects
