import Warden.Policy.Document

namespace Warden

/-!
# Loading policies

* `ReadFailure` — why the content of a file could not be had.
* `PolicyError` — why a policy could not be loaded.
* `Document.load` — the document in a file.
* `Registry.load` — the registry that a policy file makes, or the built-in one without a file.

Files are given by a function from paths to contents, so that loading itself has no effects.
-/

/-- Why the content of a file could not be had. -/
inductive ReadFailure where
  | notFound
  | isDirectory
  | notDirectory
  | notText
  | other (description : String)
  deriving DecidableEq, Repr

/-- A failure in words. -/
def ReadFailure.message : ReadFailure → String
  | notFound => "No such file or directory (os error 2)"
  | isDirectory => "Is a directory (os error 21)"
  | notDirectory => "Not a directory (os error 20)"
  | notText => "stream did not contain valid UTF-8"
  | other description => description

/-- The contents of the files that can be read. -/
abbrev Files : Type :=
  String → Except ReadFailure ByteArray

/-- Why a policy could not be loaded. -/
inductive PolicyError where
  | unreadable (path : String) (failure : ReadFailure)
  | invalid (fault : Json.Fault)
  | unknownRole (text : String)
  deriving DecidableEq, Repr

namespace PolicyError

/-- What is said about a text that is not JSON. -/
def faultMessage : Json.Fault → String
  | .endOfText => "the text ends too early"
  | .malformed => "the text is not JSON"
  | .mismatch cause => cause.message

/-- An error in words. -/
def message : PolicyError → String
  | unreadable path failure => "Failed to read policy " ++ path ++ ": " ++ failure.message
  | invalid fault => "Invalid policy document: " ++ faultMessage fault
  | unknownRole text => "Unknown role '" ++ text ++ "'"

end PolicyError

/-- The text in a file. -/
def Files.text (files : Files) (path : String) : Except ReadFailure String := do
  let bytes ← files path
  match String.fromUTF8? bytes with
  | some text => pure text
  | none => throw .notText

/-- The document in a file. -/
def Document.load (files : Files) (path : String) : Except PolicyError Document := do
  let text ← (files.text path).mapError (PolicyError.unreadable path)
  (Document.ofJson text).mapError PolicyError.invalid

/-- The registry made by the policy in a file, or the built-in one if no file is given. -/
def Registry.load (files : Files) : Option String → Except PolicyError Registry
  | none => pure Registry.empty.grantBuiltIn
  | some path => do
      let document ← Document.load files path
      let (registry, _) ← (Registry.empty.apply document).mapError PolicyError.unknownRole
      pure registry

end Warden
