import TableDialects.Fault

/- What translating leaves beside its result: the changes it made and the
   notices it gave, in order, also when it fails.

   Correspondence (program ↔ model):
     `applied_rewrites`    ↔ `Traced.changes`
     `_record`             ↔ `Traced.record`
     records of the logger ↔ `Traced.notices`

   A change and a notice are kept by their cause; `Change.message` and
   `Notice.message` hold the wording. -/
namespace TableDialects

/-- A change beyond respelling that a statement needed. -/
inductive Change where
  | optionsRemoved
  | temporaryName
  | ifNotExistsRemoved
  | extraAutoIncrement
  | autoIncrementStripped
  | keyMovedToSerial
  | autoIncrementKey
  | toSerial
  | toRowid
  | toIdentity
  | toModifier
  | arrayTo (type : String)
  | enumToText
  | unsignedWidened
  | lengthAdded
  | maxLength (keyword : String)
  | castsRemoved
  | defaultUnwrapped
  | booleanDefault
  | timestampDefault (text : Text)
  | nullKey
  | onUpdateRemoved
  | commentRemoved
  | collateRemoved
  | restrictToNoAction
  | indexDropped
  deriving DecidableEq, Repr

def Change.message : Change → Text
  | .optionsRemoved => "source table options removed"
  | .temporaryName => "TEMPORARY → #table"
  | .ifNotExistsRemoved => "IF NOT EXISTS removed"
  | .extraAutoIncrement => "extra auto-increment stripped"
  | .autoIncrementStripped => "AUTOINCREMENT stripped"
  | .keyMovedToSerial => "PRIMARY KEY moved onto SERIAL column"
  | .autoIncrementKey => "auto-increment column made PRIMARY KEY"
  | .toSerial => "auto-increment → SERIAL"
  | .toRowid => "auto-increment → INTEGER PRIMARY KEY AUTOINCREMENT"
  | .toIdentity => "auto-increment → IDENTITY(1,1)"
  | .toModifier => "auto-increment → AUTO_INCREMENT"
  | .arrayTo type => "array → ".toList ++ type.toList
  | .enumToText => "ENUM → TEXT"
  | .unsignedWidened => "UNSIGNED widened"
  | .lengthAdded => "VARCHAR length added"
  | .maxLength keyword => keyword.toList ++ "(MAX)".toList
  | .castsRemoved => "::casts removed"
  | .defaultUnwrapped => "default parentheses unwrapped"
  | .booleanDefault => "boolean default"
  | .timestampDefault text => text ++ " → CURRENT_TIMESTAMP".toList
  | .nullKey => "PRIMARY KEY NULL → NOT NULL"
  | .onUpdateRemoved => "ON UPDATE removed"
  | .commentRemoved => "COMMENT removed"
  | .collateRemoved => "COLLATE removed"
  | .restrictToNoAction => "RESTRICT → NO ACTION"
  | .indexDropped => "inline index dropped"

/-- How much a notice matters. -/
inductive Level where
  | info
  | warning
  | error
  deriving DecidableEq, Repr

def Level.name : Level → String
  | .info => "INFO"
  | .warning => "WARNING"
  | .error => "ERROR"

/-- What a reader of the log is told. -/
inductive Notice where
  | extraKey (table : Text) (columns : List Text)
  | inlineKeys (table : Text) (count : Nat) (kept : Text)
  | optionsDropped (table leftover : Text)
  | extraAutoIncrement (column : Text)
  | rowidNeedsKey (column : Text)
  | indexDropped (table label : Text) (target : Dialect) (kind : Option String)
  | changesApplied (source target : Dialect) (changes : List Change)
  | statementSkipped (start : Text)
  | statementFailed (message : Text)
  | fileTranslated (count : Nat) (path : Text)
  | inventorySkipped (message : Text)
  | inventoried (count : Nat) (source : Dialect)
  | roundTripFailed (table message : Text)
  deriving DecidableEq, Repr

/-- How much each notice matters. -/
def Notice.level : Notice → Level
  | .changesApplied .. => .info
  | .fileTranslated .. => .info
  | .inventoried .. => .info
  | .statementFailed .. => .error
  | .roundTripFailed .. => .error
  | _ => .warning

def directionLabel (source target : Dialect) : Text :=
  source.name.toList ++ '→' :: target.name.toList

def Notice.message : Notice → Text
  | .extraKey table columns =>
    "Table ".toList ++ table ++ ": extra PRIMARY KEY (".toList ++ Text.join ", " columns
      ++ ") ignored".toList
  | .inlineKeys table count kept =>
    "Table ".toList ++ table ++ ": ".toList ++ Text.ofNat count
      ++ " inline PRIMARY KEY columns, keeping ".toList ++ kept
  | .optionsDropped table leftover =>
    "Table ".toList ++ table ++ ": dropped unsupported table options '".toList ++ leftover
      ++ ['\'']
  | .extraAutoIncrement column =>
    "Column ".toList ++ column
      ++ ": only one auto-increment column per table, dropping it".toList
  | .rowidNeedsKey column =>
    "Column ".toList ++ column
      ++ (": SQLite AUTOINCREMENT needs a single-column INTEGER PRIMARY KEY, " ++
        "dropping AUTOINCREMENT").toList
  | .indexDropped table label target kind =>
    let described := match kind with
      | some kind => "inline ".toList ++ kind.toList ++ " index".toList
      | none => "inline index"
    "Table ".toList ++ table ++ ": index ".toList ++ label ++ " dropped, ".toList
      ++ target.name.toList ++ " has no ".toList ++ described ++ " syntax".toList
  | .changesApplied source target changes =>
    '[' :: directionLabel source target ++ "] Applied ".toList ++ Text.ofNat changes.length
      ++ " rewrites: ".toList ++ Text.join ", " (changes.map Change.message)
  | .statementSkipped start => "Skipping non-CREATE TABLE statement: ".toList ++ start
  | .statementFailed message => "Failed to translate statement: ".toList ++ message
  | .fileTranslated count path =>
    "Translated ".toList ++ Text.ofNat count ++ " statements → ".toList ++ path
  | .inventorySkipped message => "Skipping statement: ".toList ++ message
  | .inventoried count source =>
    "Inventoried ".toList ++ Text.ofNat count ++ " columns from ".toList ++ source.name.toList
      ++ " DDL".toList
  | .roundTripFailed table message => table ++ ": round trip failed: ".toList ++ message

/-- The outcome of an operation with the changes and notices it left. -/
structure Traced (α : Type) where
  outcome : Except Error α
  changes : List Change := []
  notices : List Notice := []

namespace Traced

/-- What comes after an operation that succeeded; a failure keeps its trace and
ends there. -/
def andThen {α β : Type} (x : Traced α) (f : α → Traced β) : Traced β :=
  match x.outcome with
  | .error e => ⟨.error e, x.changes, x.notices⟩
  | .ok a =>
    let y := f a
    ⟨y.outcome, x.changes ++ y.changes, x.notices ++ y.notices⟩

instance : Monad Traced where
  pure a := ⟨.ok a, [], []⟩
  bind := andThen

def record (r : Change) : Traced Unit := ⟨.ok (), [r], []⟩

/-- Leaves a change if the condition holds. -/
def recordIf (c : Bool) (r : Change) : Traced Unit := if c then record r else pure ()

def notify (n : Notice) : Traced Unit := ⟨.ok (), [], [n]⟩

def fail {α : Type} (e : Error) : Traced α := ⟨.error e, [], []⟩

/-- An outcome without a trace. -/
def ofExcept {α : Type} (e : Except Error α) : Traced α := ⟨e, [], []⟩

@[simp] theorem outcome_pure {α : Type} (a : α) : (pure a : Traced α).outcome = .ok a := rfl

@[simp] theorem outcome_record (r : Change) : (record r).outcome = .ok () := rfl

@[simp] theorem outcome_recordIf (c : Bool) (r : Change) : (recordIf c r).outcome = .ok () := by
  unfold recordIf; split <;> rfl

@[simp] theorem outcome_notify (n : Notice) : (notify n).outcome = .ok () := rfl

/-- The outcome of a sequence is that of its last step, unless one fails. -/
theorem outcome_bind {α β : Type} (x : Traced α) (f : α → Traced β) :
    (x >>= f).outcome = x.outcome.bind fun a => (f a).outcome := by
  change (andThen x f).outcome = _
  unfold andThen
  cases x.outcome <;> rfl

/-- A sequence that succeeds had a first step that did, and so had its second. -/
theorem outcome_bind_ok {α β : Type} {x : Traced α} {f : α → Traced β} {b : β}
    (h : (x >>= f).outcome = .ok b) : ∃ a, x.outcome = .ok a ∧ (f a).outcome = .ok b := by
  rw [outcome_bind] at h
  cases hx : x.outcome with
  | error e =>
    rw [hx] at h
    cases h
  | ok a =>
    rw [hx] at h
    exact ⟨a, rfl, h⟩

end Traced
end TableDialects
