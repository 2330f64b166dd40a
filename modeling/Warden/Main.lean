import Warden.CommandLine.Run

namespace Warden.CommandLine

/-!
# The command

* `readContent` — the content of a file, or why it could not be had.
* `run` — reads the one file that the arguments ask for, if they ask for one, runs the program
  on it, and prints what it says.
-/

/-- A failure to read a file, by its cause. -/
def readFailureOf : IO.Error → ReadFailure
  | .noFileOrDirectory _ _ _ => .notFound
  | .inappropriateType _ code details => ofCode code details
  | .permissionDenied _ code details => ofCode code details
  | e => .other (toString e)
where
  /-- A failure by its number among those of the system, which comes with either sign. -/
  ofCode (code : UInt32) (details : String) : ReadFailure :=
    let number := min code (-code)
    if number = 21 then .isDirectory
    else if number = 20 then .notDirectory
    else .other (details ++ " (os error " ++ toString number ++ ")")

/-- The content of a file. -/
def readContent (path : String) : BaseIO (Except ReadFailure ByteArray) := do
  match ← (IO.FS.readBinFile path).toBaseIO with
  | .ok bytes => pure (.ok bytes)
  | .error e => pure (.error (readFailureOf e))

/-- The policy file that the arguments ask for. -/
def policyPath? (fallback : Option String) (args : List String) : Option String :=
  match Invocation.ofArguments fallback args with
  | .ok invocation => invocation.policy
  | .error _ => none

/-- Runs the program on the file that its arguments ask for. -/
def run (args : List String) : IO UInt32 := do
  let fallback ← IO.getEnv "OPH_POLICY"
  let content ←
    match policyPath? fallback args with
    | some path => readContent path
    | none => pure (.error .notFound)
  let ending := program (fun _ => content) fallback args
  IO.print ending.output
  IO.eprint ending.diagnostics
  return ending.code.toUInt32

end Warden.CommandLine

def main (args : List String) : IO UInt32 :=
  Warden.CommandLine.run args
