import TableDialects.CommandLine.Disk
import TableDialects.CommandLine.Host
import TableDialects.Decimal.Numeral
import TableDialects.Text.Blank
import TableDialects.Text.Case

/- Addresses. An output can be named by an address instead of a path; its scheme
   says how it is reached. Nothing can be written that way: an address of a
   known scheme is read in place of a file, one of another scheme is refused.
   Only what is no address is a path. -/
namespace TableDialects
namespace CommandLine

/-- Where an output goes. -/
inductive Destination where
  | file (path : Text)
  /-- To the content that an address led to, which is then dropped. -/
  | dropped
  | refused (fault : Fault)
  deriving DecidableEq, Repr

namespace Address

def knownSchemes : List String := [
  "file", "ftp", "git", "git+ssh", "gopher", "hdl", "http", "https", "imap", "mms", "nfs", "nntp",
  "prospero", "rsync", "rtsp", "rtsps", "rtspu", "sftp", "shttp", "sip", "sips", "snews", "svn",
  "svn+ssh", "tel", "telnet", "wais", "ws", "wss"]

def isSchemeChar (c : Char) : Bool :=
  Text.isAsciiLetter c || Text.isAsciiDigit c || c == '+' || c == '-' || c == '.'

/-- The text without leading blanks and control characters, and without tabs and
line ends anywhere. -/
def cleaned (s : Text) : Text :=
  (s.dropWhile fun c => c ≤ ' ').filter fun c => c != '\t' && c != '\r' && c != '\n'

/-- The scheme of an address, and what follows its colon. -/
def splitScheme? (s : Text) : Option (Text × Text) :=
  let name := s.takeWhile isSchemeChar
  match name, s.drop name.length with
  | c :: _, ':' :: rest => if Text.isAsciiLetter c then some (Text.lower name, rest) else none
  | _, _ => none

def endsHost (c : Char) : Bool := c == '/' || c == '?' || c == '#'

/-- The host behind two slashes, and what follows it. -/
def splitHost? : Text → Option (Text × Text)
  | '/' :: '/' :: s => some (s.takeWhile (!endsHost ·), s.dropWhile (!endsHost ·))
  | _ => none

/-- Characters that stand for one or more, a mark of an address among them. -/
def compoundMarks : List Nat := [
  0x2047, 0x2048, 0x2049, 0x2100, 0x2101, 0x2105, 0x2106, 0x2A74, 0xFE13, 0xFE16, 0xFE55, 0xFE56,
  0xFE5F, 0xFE6B, 0xFF03, 0xFF0F, 0xFF1A, 0xFF1F, 0xFF20]

/-- Whether a text can be the host of an address: brackets come in pairs around a
host of their kind, and no mark of an address is hidden in another character. -/
def isHost (host : Text) : Bool :=
  let opened := host.contains '['
  let closed := host.contains ']'
  let inner := ((host.dropWhile (· != '[')).drop 1).takeWhile (· != ']')
  opened == closed && (!opened || Host.isBracketed inner)
    && host.all fun c => !compoundMarks.contains c.toNat

def decoded (reversed : Text.Bytes) : Text := Text.ofUtf8Lenient reversed.reverse

/-- Decodes bytes that are written as a percent sign and two digits; `run` are the
bytes just before the text, the last one first. -/
def unquoteBehind (run : Text.Bytes) : Text → Text
  | [] => decoded run
  | '%' :: a :: b :: s =>
    match Value.hexValue? a, Value.hexValue? b with
    | some m, some n => unquoteBehind (UInt8.ofNat (16 * m + n) :: run) s
    | _, _ => unquoteBehind (UInt8.ofNat '%'.toNat :: run) (a :: b :: s)
  | c :: s =>
    if c.toNat < 128 then unquoteBehind (UInt8.ofNat c.toNat :: run) s
    else decoded run ++ c :: unquoteBehind [] s

/-- The text with its percent signs decoded. -/
def unquote (s : Text) : Text := unquoteBehind [] s

/-- The text before the last number sign, if there is one. -/
def withoutFragment (s : Text) : Text :=
  match (s.reverse.dropWhile (· != '#')).tail? with
  | some before => before.reverse
  | none => s

/-- Whether the character is a blank or a control character. -/
def isControl (c : Char) : Bool := c ≤ ' ' || c == '\x7f'

/-- The host without its port, and the port. The port follows the last colon
behind any bracket. -/
def splitPort (host : Text) : Text × Option Text :=
  let port := (host.reverse.takeWhile fun c => c != ':' && c != ']').reverse
  match (host.take (host.length - port.length)).getLast? with
  | some ':' => (host.take (host.length - port.length - 1), some port)
  | _ => (host, none)

def isPort (s : Text) : Bool := s.isEmpty || (Numeral.toInt? s).isSome

/-- Why nothing is found at a host on the web. -/
def webFault (host path : Text) : Fault :=
  let (name, port) := splitPort host
  if host.isEmpty then .unreachable
  else if port.any (!isPort ·) || name.any isControl || path.any isControl then .badAddress
  else if path.any (128 ≤ ·.toNat) || host.any (256 ≤ ·.toNat) then .notAscii
  else .unreachable

/-- Reads the file of this machine that an address names. -/
def readLocal (disk : Disk) (host path : Text) : Except Fault Unit :=
  match disk.read (unquote path) with
  | .error .badPath => .error .badPath
  | .error _ => .error .unreachable
  | .ok _ => if host.isEmpty || host == "localhost".toList then .ok () else .error .unreachable

def rooted (path : Text) : Text :=
  if path.isEmpty || path.head? == some '/' then path else '/' :: path

/-- Reads what stands at an address of a known scheme. Only files of this machine
are at hand. -/
def fetch (disk : Disk) (address : Text) : Except Fault Unit :=
  let s := withoutFragment (Text.strip address)
  let name := s.takeWhile fun c => c != ':' && c != '/'
  let rest := s.drop (name.length + 1)
  let (host, path) := match splitHost? rest with
    | some (host, path) => (unquote host, rooted path)
    | none => ([], rest)
  let scheme := Text.lower name
  if scheme == "http".toList || scheme == "https".toList then .error (webFault host path)
  else if scheme == "file".toList then readLocal disk host path
  else .error .unreachable

/-- Whether more names of schemes, each behind two colons, lead to a colon and two
slashes. -/
def leadsToSlashes (fuel : Nat) : Text → Bool
  | ':' :: '/' :: '/' :: _ => true
  | ':' :: ':' :: s =>
    match fuel with
    | 0 => false
    | fuel + 1 =>
      let name := s.takeWhile isSchemeChar
      !name.isEmpty && leadsToSlashes fuel (s.drop name.length)
  | _ => false

/-- Whether a text is an address of some scheme with two slashes; schemes may be
chained by two colons. -/
def isForeign (s : Text) : Bool :=
  s.head?.any Text.isAsciiLetter && leadsToSlashes s.length (s.dropWhile isSchemeChar)

/-- A path with the mark of the home directory replaced: that directory lies
outside the one that a command works in. -/
def expandHome : Text → Text
  | ['~'] => upMark
  | '~' :: '/' :: path => upMark ++ '/' :: path
  | path => path

end Address

/-- Where the output of a name goes. -/
def Destination.ofName (disk : Disk) (name : Text) : Destination :=
  let path := Address.expandHome name
  let text := Address.cleaned path
  let (scheme, rest) := (Address.splitScheme? text).getD ([], text)
  if (Address.splitHost? rest).any fun h => !Address.isHost h.1 then .refused .badPath
  else if Address.knownSchemes.any fun known => known.toList == scheme then
    match Address.fetch disk path with
    | .ok () => .dropped
    | .error fault => .refused fault
  else if Address.isForeign path then .refused .unsupported
  else .file path

end CommandLine
end TableDialects
