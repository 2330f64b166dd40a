import Warden.Text.Blank
import Warden.Text.Letters
import Warden.Text.Numeral
import Warden.Text.Extending
import Warden.Text.Ignorable
import Warden.Text.Unprintable
import Warden.Text.Quoted
import Warden.Decimal.Shortest
import Warden.Json.Numeral
import Warden.Json.Fault
import Warden.Json.Lexeme.Basic
import Warden.Json.Lexeme.Strings
import Warden.Json.Lexeme.Numerals
import Warden.Json.Lexeme.Scalar
import Warden.Json.Passing
import Warden.Json.Reader
import Warden.Json.Record
import Warden.Json.Value
import Warden.Action
import Warden.Scope
import Warden.Role
import Warden.Ability
import Warden.Registry.Basic
import Warden.Registry.Coverage
import Warden.Denial
import Warden.Check
import Warden.Records
import Warden.BuiltIn
import Warden.Policy.Grant
import Warden.Policy.Shape
import Warden.Policy.Document
import Warden.Policy.Load
import Warden.FileTree
import Warden.CommandLine.Options
import Warden.CommandLine.Arguments
import Warden.CommandLine.Run
import Warden.Main
import Warden.Proofs.Registry.Contents
import Warden.Proofs.Registry.Ruling
import Warden.Proofs.Registry.Registrations
import Warden.Proofs.Registry.Listing
import Warden.Proofs.Registry.Noninterference
import Warden.Proofs.Registry.Questions
import Warden.Proofs.Registry.Coverages
import Warden.Proofs.Json.Yielding
import Warden.Proofs.Json.Spelling
import Warden.Proofs.Json.Lexemes
import Warden.Proofs.Json.Skipping
import Warden.Proofs.Json.Reading
import Warden.Proofs.Json.Gathering
import Warden.Proofs.Json.Framing
import Warden.Proofs.Json.Breaking
import Warden.Proofs.Json.Cutting
import Warden.Proofs.Json.Stopping
import Warden.Proofs.Policy.Denotation
import Warden.Proofs.Policy.Reading
import Warden.Proofs.Policy.Truncating
import Warden.Proofs.Json.Writing
import Warden.Proofs.Policy.RoundTrip
import Warden.Proofs.Policy.Granting
import Warden.Proofs.Policy.Copying
import Warden.Proofs.Policy.Applying
import Warden.Proofs.Registry.Growth
import Warden.Proofs.CommandLine.Deciding
import Warden.Proofs.CommandLine.Exporting
import Warden.Proofs.CommandLine.Giving
import Warden.Proofs.CommandLine.Holding
import Warden.Proofs.CommandLine.Failing
import Warden.Proofs.Naming.Spelling
import Warden.Proofs.Naming.Actions
import Warden.Proofs.Naming.Roles
import Warden.Proofs.Policy.Snapshots
import Warden.Proofs.Policy.BuiltInTable
import Warden.Proofs.CommandLine.Lines
import Warden.Proofs.CommandLine.Asking
