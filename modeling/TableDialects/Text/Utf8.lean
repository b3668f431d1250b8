import TableDialects.Text.Basic

/- UTF-8. Reading goes byte by byte through the well-formed sequences of the
   standard; an ill-formed stretch is cut at its longest well-formed beginning,
   and each such stretch is one unit without a character. A strict reader
   refuses it, a lenient one writes the replacement character for it. -/
namespace TableDialects.Text

abbrev Bytes := List UInt8

def utf8Char (c : Char) : Bytes :=
  let n := c.toNat
  if n < 0x80 then [UInt8.ofNat n]
  else if n < 0x800 then [UInt8.ofNat (0xC0 + n / 64), UInt8.ofNat (0x80 + n % 64)]
  else if n < 0x10000 then
    [UInt8.ofNat (0xE0 + n / 4096), UInt8.ofNat (0x80 + n / 64 % 64), UInt8.ofNat (0x80 + n % 64)]
  else
    [UInt8.ofNat (0xF0 + n / 262144), UInt8.ofNat (0x80 + n / 4096 % 64),
      UInt8.ofNat (0x80 + n / 64 % 64), UInt8.ofNat (0x80 + n % 64)]

def utf8 (s : Text) : Bytes := s.flatMap utf8Char

/-- Reads `count` continuation bytes behind the bits `value`; the next one must
lie between `low` and `high`, the ones behind it between 0x80 and 0xBF. -/
def continuation (value low high : Nat) : (count : Nat) → Bytes → Option Nat × Bytes
  | 0, rest => (some value, rest)
  | _ + 1, [] => (none, [])
  | count + 1, b :: rest =>
    if low ≤ b.toNat && b.toNat ≤ high then
      continuation (value * 64 + (b.toNat - 0x80)) 0x80 0xBF count rest
    else (none, b :: rest)

theorem continuation_length_le : ∀ (value low high count : Nat) (bytes : Bytes),
    (continuation value low high count bytes).2.length ≤ bytes.length
  | _, _, _, 0, _ => by simp [continuation]
  | _, _, _, _ + 1, [] => by simp [continuation]
  | value, low, high, count + 1, b :: rest => by
    simp only [continuation]
    split
    · have := continuation_length_le (value * 64 + (b.toNat - 0x80)) 0x80 0xBF count rest
      simp only [List.length_cons]; omega
    · simp

/-- What a lead byte announces: its own bits, the bounds of the byte that
follows, and the number of continuation bytes. -/
def utf8Lead (n : Nat) : Option (Nat × Nat × Nat × Nat) :=
  if n < 0x80 then some (n, 0x80, 0xBF, 0)
  else if n < 0xC2 then none
  else if n < 0xE0 then some (n - 0xC0, 0x80, 0xBF, 1)
  else if n == 0xE0 then some (0, 0xA0, 0xBF, 2)
  else if n == 0xED then some (0xD, 0x80, 0x9F, 2)
  else if n < 0xF0 then some (n - 0xE0, 0x80, 0xBF, 2)
  else if n == 0xF0 then some (0, 0x90, 0xBF, 3)
  else if n < 0xF4 then some (n - 0xF0, 0x80, 0xBF, 3)
  else if n == 0xF4 then some (4, 0x80, 0x8F, 3)
  else none

/-- The unit that starts with the byte `b`: its character, if it is well
formed, and the bytes behind it. -/
def utf8Unit (b : UInt8) (rest : Bytes) : Option Nat × Bytes :=
  match utf8Lead b.toNat with
  | none => (none, rest)
  | some (value, low, high, count) => continuation value low high count rest

theorem utf8Unit_length_le (b : UInt8) (rest : Bytes) :
    (utf8Unit b rest).2.length ≤ rest.length := by
  unfold utf8Unit
  split
  · exact Nat.le_refl _
  · apply continuation_length_le

/-- The units of a byte sequence: a character each, or nothing for an
ill-formed stretch. -/
def utf8Units : Bytes → List (Option Char)
  | [] => []
  | b :: rest =>
    (utf8Unit b rest).1.map Char.ofNat :: utf8Units (utf8Unit b rest).2
termination_by bytes => bytes.length
decreasing_by
  have := utf8Unit_length_le b rest
  simp only [List.length_cons]; omega

/-- The text of well-formed bytes. -/
def ofUtf8? (bytes : Bytes) : Option Text := (utf8Units bytes).mapM id

/-- The text of any bytes, with the replacement character for each ill-formed
stretch. -/
def ofUtf8Lenient (bytes : Bytes) : Text :=
  (utf8Units bytes).map fun u => u.getD (Char.ofNat 0xFFFD)

/-- The hexadecimal digit of a number below sixteen. -/
def hexDigit (n : Nat) : Char := Nat.digitChar n

/-- Two hexadecimal digits for each byte. -/
def hex (bytes : Bytes) : Text :=
  bytes.flatMap fun b => [hexDigit (b.toNat / 16), hexDigit (b.toNat % 16)]

end TableDialects.Text
