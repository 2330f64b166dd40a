import Warden.Check
import Warden.CommandLine.Arguments
import Warden.Policy.Load
import Warden.Records

namespace Warden.CommandLine

/-!
# Running an invocation

* `CheckRequest.evaluate` — the check that was asked for, on a registry.
* `Invocation.run` — loads the registry and carries out the command.
* `program` — the whole program, from arguments to exit code and output.
-/

/-- The subject of a check: none if it is anonymous, whatever else was given. -/
def CheckRequest.subject (c : CheckRequest) : Option Subject :=
  if c.anonymous then none else c.role.map fun role => ⟨role, c.user⟩

/-- The resource of a check: owned by the given user alone, or by nobody. -/
def CheckRequest.target (c : CheckRequest) : Resource Id where
  kind := c.resource
  ownedBy := fun user => c.owner == some user

/-- Makes the check. -/
def CheckRequest.evaluate (c : CheckRequest) (r : Registry) : Except NotAuthorized Unit :=
  Id.run (r.check c.action c.target c.subject)

/-- What a command comes to: whether it ends well, and what it prints. -/
structure Outcome where
  allowed : Bool
  output : String
  deriving DecidableEq, Repr

/-- Carries out a command on a registry. -/
def Command.run (r : Registry) : Command → Outcome
  | check request =>
      match request.evaluate r with
      | .ok () => ⟨true, "allowed\n"⟩
      | .error denied => ⟨false, denied.message ++ "\n"⟩
  | list => ⟨true, String.join (r.abilities.map fun a => a.describe ++ "\n")⟩
  | exportPolicy => ⟨true, (Document.ofAbilities r.abilities).toJson ++ "\n"⟩

/-- Loads the registry that an invocation is about and carries out its command. -/
def Invocation.run (i : Invocation) (files : Files) : Except PolicyError Outcome := do
  let registry ← Registry.load files i.policy
  pure (i.command.run registry)

/-! ### The program -/

/-- How the program ends: its exit code, and what it prints to the two outputs. -/
structure Ending where
  code : UInt8
  output : String := ""
  diagnostics : String := ""
  deriving DecidableEq, Repr

/-- How to call the program. -/
def usage : String :=
  "Usage: can [--policy PATH] [-v] check (--role ROLE | --anonymous) [--user ID]\n" ++
    "           --action ACTION --resource TYPE [--owner ID]\n" ++
    "       can [--policy PATH] [-v] list\n" ++
    "       can [--policy PATH] [-v] export\n"

/-- What is said about refused arguments. -/
def UsageError.message : UsageError → String
  | helpRequested => ""
  | nothingGiven => ""
  | missingCommand => "error: no command was given\n"
  | unknownCommand => "error: there is no such command\n"
  | unknownArgument => "error: unexpected argument\n"
  | missingArgument => "error: a required argument is missing\n"
  | conflict => "error: arguments exclude each other\n"
  | missingValue => "error: an option needs a value\n"
  | badValue => "error: an option has a value that it cannot have\n"
  | surplusValue => "error: a flag takes no value\n"

/-- How the program ends when the arguments are refused.  Asking for help is no error. -/
def UsageError.ending : UsageError → Ending
  | helpRequested => { code := 0, output := usage }
  | e => { code := 2, diagnostics := e.message ++ usage }

/-- How the program ends when an invocation was run. -/
def endingOf : Except PolicyError Outcome → Ending
  | .ok outcome => { code := if outcome.allowed then 0 else 1, output := outcome.output }
  | .error e => { code := 1, diagnostics := "Error: " ++ e.message ++ "\n" }

/-- The program. -/
def program (files : Files) (fallback : Option String) (args : List String) : Ending :=
  match Invocation.ofArguments fallback args with
  | .error e => e.ending
  | .ok invocation => endingOf (invocation.run files)

end Warden.CommandLine
