import TableDialects.Decimal.Numeral
import TableDialects.Dialect.Basic
import TableDialects.FieldType
import TableDialects.Value.Json
import TableDialects.Value.Show

/- Values of rows in the form that their column type calls for: integers,
   floats, truth values, decoded JSON, bytes or text.

   Correspondence (program ↔ model):
     `parse_boolean`          ↔ `toBoolean?`
     `_native_category`       ↔ `categoryOf`
     `_read_binary`           ↔ `readBinary`
     `convert_to_native_type` ↔ `Value.toNative` -/
namespace TableDialects

namespace Value

/-- The integer a value stands for: numbers are cut to their whole part, texts
and bytes are read as numerals. -/
def toInt : Value → Except Fault Int
  | .bool b => .ok (if b then 1 else 0)
  | .int n => .ok n
  | .float .nan => .error .badNumber
  | .float x => match x.truncate? with
    | some n => .ok n
    | none => .error .tooLarge
  | .text s => match Numeral.toInt? s with
    | some n => .ok n
    | none => .error .badNumber
  | .bytes data => match Numeral.toInt? (Numeral.ofBytes data) with
    | some n => .ok n
    | none => .error .badNumber
  | .buffer data => match Numeral.toInt? (Numeral.ofBytes data) with
    | some n => .ok n
    | none => .error .badNumber
  | _ => .error .wrongKind

/-- The double nearest to an integer, if there is a finite one. -/
def doubleOfInt (n : Int) : Except Fault Double :=
  match Double.ofInt n with
  | .infinite _ => .error .tooLarge
  | x => .ok x

def toDouble : Value → Except Fault Double
  | .bool b => .ok (Double.ofInt (if b then 1 else 0))
  | .int n => doubleOfInt n
  | .float x => .ok x
  | .text s => match Numeral.toDouble? s with
    | some x => .ok x
    | none => .error .badNumber
  | .bytes data => match Numeral.toDouble? (Numeral.ofBytes data) with
    | some x => .ok x
    | none => .error .badNumber
  | .buffer data => match Numeral.toDouble? (Numeral.ofBytes data) with
    | some x => .ok x
    | none => .error .badNumber
  | _ => .error .wrongKind

/-- The integer a column holds: a value that is no integer may still be a
float. -/
def toColumnInt (v : Value) : Except Fault Int :=
  match v.toInt with
  | .error .badNumber =>
    match v.toDouble with
    | .error e => .error e
    | .ok x => (Value.float x).toInt
  | result => result

def toByte : Value → Except Fault UInt8
  | .bool b => .ok (if b then 1 else 0)
  | .int n => if 0 ≤ n && n < 256 then .ok (UInt8.ofNat n.toNat) else .error .badNumber
  | _ => .error .wrongKind

/-- The bytes of items, up to the first that is none. -/
def toByteList : List Value → Except Fault Text.Bytes
  | [] => .ok []
  | v :: vs =>
    match v.toByte with
    | .error e => .error e
    | .ok b => match toByteList vs with
      | .error e => .error e
      | .ok bs => .ok (b :: bs)

/-- The counts that can be asked for lie below this. -/
def countLimit : Int := Int.pow 2 63

/-- The counts of bytes that can be asked for lie below this; bytes take some room
beside their own. -/
def byteCountLimit : Int := countLimit - 33

/-- The largest count that fits in memory. -/
def memoryLimit : Int := Int.pow 2 32

/-- The bytes of a value: of a text its UTF-8, of a count as many zeros, of a
list its items, of a dictionary its keys. -/
def toBytes : Value → Except Fault Text.Bytes
  | .text s => .ok (Text.utf8 s)
  | .bytes data => .ok data
  | .buffer data => .ok data
  | .bool b => .ok (if b then [0] else [])
  | .int n =>
    if byteCountLimit ≤ n || n < -countLimit then .error .tooLarge
    else if n < 0 then .error .badNumber
    else if memoryLimit < n then .error .outOfMemory
    else .ok (List.replicate n.toNat 0)
  | .list items => toByteList items
  | .dict entries => if entries.isEmpty then .ok [] else .error .wrongKind
  | _ => .error .wrongKind

/-- The bytes of a binary column: a stream is read first. -/
def readBinary : Value → Except Fault Text.Bytes
  | .stream data _ fails => if fails then .error .unreadable else data.toBytes
  | v => v.toBytes

def trueTexts : List String := ["1", "true", "on", "yes"]

def falseTexts : List String := ["0", "false", "off", "no", ""]

/-- The truth value that a text names, letter case and space around it apart. -/
def booleanText (s : Text) : Option Bool :=
  let s := Text.lower (Text.strip s)
  if trueTexts.any fun t => t.toList == s then some true
  else if falseTexts.any fun t => t.toList == s then some false
  else none

def toBoolean? : Value → Option Bool
  | .bool b => some b
  | .int n => if n == 0 then some false else if n == 1 then some true else none
  | .float x => if x.isZero then some false else if x.isOne then some true else none
  | .bytes data => booleanText (Text.ofUtf8Lenient data)
  | v => booleanText v.toText

end Value

/-- The dialect that a value names; one that counts as false names none. -/
def Dialect.ofValue (v : Value) : Except Error Dialect :=
  match Dialect.ofName? v.textOrEmpty with
  | some d => .ok d
  | none => .error (.unknownDialect v.toText)

inductive Category where
  | native (type : NativeType)
  | binary
  deriving DecidableEq, Repr

def binaryTypes : List String :=
  ["blob", "tinyblob", "mediumblob", "longblob", "binary", "varbinary", "bytea", "image"]

/-- The kind of value that a type holds, text for an unknown one. Binary types
count as text here. -/
def nativeTypeOf (type : Value) : NativeType :=
  let parts := TypeParts.split (normalType type.textOrEmpty)
  (lookupType nativeTypes parts.base parts.params).getD .string

def categoryOf (type : Value) : Category :=
  let parts := TypeParts.split (normalType type.textOrEmpty)
  if binaryTypes.any fun t => t.toList == parts.base then .binary
  else .native (nativeTypeOf type)

/-- The value in the form that its column type calls for. A truth value is one
or zero for SQLite, and absent if the value names none. -/
def Value.toNative (v type dialect : Value) : Except Error Value :=
  let fault {α : Type} (e : Except Fault α) : Except Error α := e.mapError .fault
  match v with
  | .null => .ok .null
  | v =>
    match categoryOf type with
    | .native .bool =>
      match v.toBoolean? with
      | none => .ok .null
      | some b =>
        match Dialect.ofValue dialect with
        | .error e => .error e
        | .ok .sqlite => .ok (.int (if b then 1 else 0))
        | .ok _ => .ok (.bool b)
    | .native .int => (fault v.toColumnInt).map .int
    | .native .float => (fault v.toDouble).map .float
    | .native .array =>
      let decode (data : Text.Bytes) : Except Error Value :=
        match Text.ofUtf8? data with
        | some s => fault (Value.ofJson s)
        | none => .error (.fault .badUtf8)
      match v with
      | .text s => fault (Value.ofJson s)
      | .bytes data => decode data
      | .buffer data => decode data
      | v => .ok v
    | .binary => (fault v.readBinary).map .bytes
    | .native .string =>
      match v with
      | .bytes data => .ok (.text (Text.ofUtf8Lenient data))
      | v => .ok (.text v.toText)

/-- Whether a stream was closed by the conversion: a binary column reads and
closes it, if it can be closed. -/
def Value.closedBy (v type : Value) : Option Bool :=
  match v with
  | .stream _ closable _ => some (closable && categoryOf type == .binary)
  | _ => none

end TableDialects
