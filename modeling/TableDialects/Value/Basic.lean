import TableDialects.Decimal.Double
import TableDialects.Text.Utf8

/- Values that a database driver or a settings file hands over. -/
namespace TableDialects

/-- A value of a row or of a setting. -/
inductive Value where
  | null
  | bool (b : Bool)
  | int (n : Int)
  | float (x : Double)
  | text (s : Text)
  | bytes (data : Text.Bytes)
  /-- Bytes that their owner may change. -/
  | buffer (data : Text.Bytes)
  | list (items : List Value)
  /-- Entries in order, each key once. -/
  | dict (entries : List (Text × Value))
  /-- A source that yields `data` when it is read, or fails; some sources can be
  closed. -/
  | stream (data : Value) (closable fails : Bool)
  deriving Repr, Inhabited

namespace Value

/-- Whether the value counts as true: it is neither absent, zero nor empty. -/
def isTrue : Value → Bool
  | .null => false
  | .bool b => b
  | .int n => n != 0
  | .float x => !x.isZero
  | .text s => !s.isEmpty
  | .bytes data => !data.isEmpty
  | .buffer data => !data.isEmpty
  | .list items => !items.isEmpty
  | .dict entries => !entries.isEmpty
  | .stream _ _ _ => true

def member? (entries : List (Text × Value)) (key : Text) : Option Value :=
  (entries.find? fun e => e.1 == key).map fun e => e.2

/-- The entries with `key` set: in place if it was there, else at the end. -/
def setEntry (key : Text) (v : Value) : List (Text × Value) → List (Text × Value)
  | [] => [(key, v)]
  | e :: entries => if e.1 == key then (key, v) :: entries else e :: setEntry key v entries

/-- Entries set one after another: a key keeps its first place and its last
value. -/
def setEntries (entries more : List (Text × Value)) : List (Text × Value) :=
  more.foldl (fun es e => setEntry e.1 e.2 es) entries

end Value
end TableDialects
