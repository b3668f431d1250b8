import TableDialects.Malformed
import TableDialects.Dialect.Basic

/- What can go wrong. A conversion fails because a statement cannot be read,
   because a dialect is unknown, or because nothing leads from one dialect
   to the other; these have a wording of their own and a script can go on behind
   them. A fault lies in the data given: a number that is none, a value of the
   wrong kind, bytes that are no text.

   Correspondence (program ↔ model):
     `DatabaseConversionError`         ↔ `Error.isConversion`
     `UnsupportedDialectError`         ↔ `Error.unknownDialect`
     `UnsupportedTranslationPairError` ↔ `Error.unsupportedPair` -/
namespace TableDialects

/-- What is wrong with given data. -/
inductive Fault where
  /-- A numeral, a byte or a count out of its range or form. -/
  | badNumber
  /-- A value of a kind that cannot be used here. -/
  | wrongKind
  /-- A number too large for its target. -/
  | tooLarge
  /-- A document or section that is no object. -/
  | notObject
  /-- A text that is no JSON. -/
  | badJson
  /-- Bytes that are no UTF-8. -/
  | badUtf8
  /-- A stream, a name or a directory that cannot be used. -/
  | unreadable
  /-- A file that does not exist. -/
  | missingFile
  /-- A directory where a file is needed. -/
  | isDirectory
  /-- A file where a directory is needed. -/
  | notDirectory
  /-- A path with a null character, or an address with a host that is none. -/
  | badPath
  /-- An address or a form of packing of a kind that is not known. -/
  | unsupported
  /-- An address at which nothing is found. -/
  | unreachable
  /-- An address that is not well formed. -/
  | badAddress
  /-- An address with characters outside its alphabet. -/
  | notAscii
  /-- A document with too many brackets in one another. -/
  | tooDeep
  /-- A count of more than fits in memory. -/
  | outOfMemory
  deriving DecidableEq, Repr

/-- Why an operation failed. -/
inductive Error where
  | malformed (cause : Malformed)
  | unknownDialect (name : Text)
  | unsupportedPair (source target : Dialect)
  | fault (fault : Fault)
  deriving DecidableEq, Repr

/-- Whether the failure is one of conversion, behind which a script goes on. -/
def Error.isConversion : Error → Bool
  | .fault _ => false
  | _ => true

/-- The wording of a conversion failure; faults have none. -/
def Error.message : Error → Text
  | .malformed cause => cause.message
  | .unknownDialect name =>
    "Unsupported database dialect: '".toList ++ name ++ "'. Supported: ".toList ++ Dialect.aliasList
  | .unsupportedPair source target =>
    "Unsupported CREATE TABLE translation: from ".toList ++ source.name.toList ++ " to ".toList
      ++ target.name.toList
  | .fault _ => []

end TableDialects
