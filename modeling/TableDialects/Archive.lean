import TableDialects.Text.Utf8

/- Archives that hold a single file. An archive is a sequence of blocks: a header,
   the content filled up with null characters, and blocks of null characters up
   to the end of a record. A name that does not fit the header, or lies outside
   ASCII, stands in a record of its own before it. Lengths count bytes. -/
namespace TableDialects
namespace Archive

def blockLength : Nat := 512

/-- The length of a record; an archive is made of whole records. -/
def recordLength : Nat := 20 * blockLength

/-- The longest name that fits a header. -/
def nameLength : Nat := 100

def nulls (n : Nat) : Text := List.replicate n '\x00'

def byteLength (s : Text) : Nat := (Text.utf8 s).length

/-- The number of bytes from `n` to the next multiple of `unit`. -/
def gapTo (unit n : Nat) : Nat := (unit - n % unit) % unit

/-- A text filled up with null characters to the end of its last block. -/
def filled (s : Text) : Text := s ++ nulls (gapTo blockLength (byteLength s))

/-- A text in a field of a given length, cut or filled up. -/
def field (length : Nat) (s : Text) : Text := s.take length ++ nulls (length - s.length)

def octal (digits n : Nat) : Text :=
  let shown := Nat.toDigits 8 n
  List.replicate (digits - shown.length) '0' ++ shown

/-- A number in a field of a given length, which ends in a null character. -/
def number (length n : Nat) : Text := octal (length - 1) n ++ nulls 1

/-- The text with a question mark for every character outside ASCII. -/
def asciiOnly (s : Text) : Text := s.map fun c => if c.toNat < 128 then c else '?'

/-- The sum of the bytes of an ASCII text. -/
def byteSum (s : Text) : Nat := s.foldl (fun n c => n + c.toNat) 0

def formatMark : Text := "ustar\x0000"

/-- The header of an entry. Its check sum counts blanks in its own place. -/
def header (name : Text) (mode size : Nat) (kind : Char) : Text :=
  let before := field nameLength (asciiOnly name) ++ number 8 mode ++ number 8 0 ++ number 8 0
    ++ number 12 size ++ number 12 0
  let behind := kind :: field 100 [] ++ formatMark ++ nulls (32 + 32 + 8 + 8 + 155 + 12)
  let sum := byteSum before + 8 * ' '.toNat + byteSum behind
  before ++ number 7 sum ++ ' ' :: behind

/-- The length of a record that holds `rest` bytes beside its own length in decimal
digits. -/
def selfLength (rest : Nat) : Nat :=
  let digits (n : Nat) : Nat := (Text.ofNat n).length
  rest + digits (rest + digits rest)

/-- A property with its value, behind the length of the whole. -/
def property (key value : Text) : Text :=
  let body := ' ' :: key ++ '=' :: value ++ ['\n']
  Text.ofNat (selfLength (byteLength body)) ++ body

/-- The entry that holds a name which the header cannot. -/
def longName (name : Text) : Text :=
  if name.all (·.toNat < 128) && name.length ≤ nameLength then []
  else
    let stated := property "path" name
    header "././@PaxHeader" 0 (byteLength stated) 'x' ++ filled stated

/-- The permissions of the file: its owner may write, all may read. -/
def fileMode : Nat := 6 * 64 + 4 * 8 + 4

/-- The archive with one file. Two empty blocks end it. -/
def ofFile (name content : Text) : Text :=
  let entries := longName name ++ header name fileMode (byteLength content) '0' ++ filled content
    ++ nulls (2 * blockLength)
  entries ++ nulls (gapTo recordLength (byteLength entries))

end Archive
end TableDialects
