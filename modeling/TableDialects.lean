import TableDialects.CommandLine.Run
import TableDialects.Main
import TableDialects.Token.Cursor
import TableDialects.Translate.Session
import TableDialects.Value.Literal
import TableDialects.Proofs.Token.Layout
import TableDialects.Proofs.Text.Classes
import TableDialects.Proofs.Token.Slice
import TableDialects.Proofs.Reading.Shape
import TableDialects.Proofs.Reading.Statement
import TableDialects.Proofs.Translate.Places
import TableDialects.Proofs.Translate.Layout
import TableDialects.Proofs.Translate.Key
import TableDialects.Proofs.Token.Printed
import TableDialects.Proofs.Cleanup.Idle
import TableDialects.Proofs.Cleanup.Lines
import TableDialects.Proofs.Cleanup.Width
import TableDialects.Proofs.Written.Tokens
import TableDialects.Proofs.Written.Type
import TableDialects.Proofs.Written.Column
import TableDialects.Proofs.Written.Constraint
import TableDialects.Proofs.Written.Statement
import TableDialects.Proofs.Types.Split
import TableDialects.Proofs.Types.Keyword
import TableDialects.Proofs.Types.Table
import TableDialects.Proofs.Types.Length
import TableDialects.Proofs.Translate.Type
import TableDialects.Proofs.Reading.Section
import TableDialects.Proofs.Dialect.Names
import TableDialects.Proofs.Translate.Constraint
import TableDialects.Proofs.Value.Spelling
import TableDialects.Proofs.Value.Tuple
import TableDialects.Proofs.Translate.Default
import TableDialects.Proofs.Translate.Column
import TableDialects.Proofs.Translate.Statement
import TableDialects.Proofs.Reading.Default
import TableDialects.Proofs.RoundTrip
import TableDialects.Proofs.Reading.Parts
import TableDialects.Proofs.Inventory
import TableDialects.Proofs.Cleanup.Passes
import TableDialects.Proofs.Token.Atoms
import TableDialects.Proofs.Cleanup.Places
import TableDialects.Proofs.Cleanup.LineEnds
import TableDialects.Proofs.Cleanup.Tokens
import TableDialects.Proofs.Script
import TableDialects.Proofs.Validator
import TableDialects.Proofs.Reading.Opening
import TableDialects.Proofs.Tables
import TableDialects.Proofs.Reading.Options
import TableDialects.Proofs.Reading.Order
import TableDialects.Proofs.Translate.Nullability
import TableDialects.Proofs.Reading.Keys
import TableDialects.Proofs.Reading.Groups
import TableDialects.Proofs.Text.LetterCase
import TableDialects.Proofs.Types.Read
import TableDialects.Proofs.Translate.Counting
import TableDialects.Proofs.Translate.Boolean
import TableDialects.Proofs.Translate.Casts
import TableDialects.Proofs.Translate.Parentheses
import TableDialects.Proofs.Decimal.Numeral
import TableDialects.Proofs.Decimal.Nearest
import TableDialects.Proofs.Value.Agreement
import TableDialects.Proofs.Value.Json
import TableDialects.Proofs.Value.Document
import TableDialects.Proofs.Token.Rules
import TableDialects.Proofs.Translate.Respelling
import TableDialects.Proofs.Types.Spelling
import TableDialects.Proofs.Types.Carried
import TableDialects.Proofs.Types.Drift
import TableDialects.Proofs.Translate.CharacterLength
import TableDialects.Proofs.Translate.Session
import TableDialects.Proofs.Cleanup.TypeSpace
import TableDialects.Proofs.Cleanup.TypeWidth
import TableDialects.Proofs.Reading.Cursor
import TableDialects.Proofs.PrimaryKey
import TableDialects.Proofs.Translate.Balance
