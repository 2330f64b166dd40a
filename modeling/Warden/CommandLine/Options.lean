import Warden.Action
import Warden.Role

namespace Warden.CommandLine

/-!
# Options

The options of the command line and what has been given of them.

* `Opt` — the options; `Opt.ofName?` finds one by its long name, `Opt.ofLetter?` by its letter.
* `Settings` — the values given so far at one level of the command line.
* `Settings.put` — takes in one option: its value must be there, the option must be new at this
  level, and the value must be one of its kind, in this order.
-/

/-- Why arguments are refused. -/
inductive UsageError where
  | helpRequested
  | nothingGiven
  | missingCommand
  | unknownCommand
  | unknownArgument
  | missingArgument
  | conflict
  | missingValue
  | badValue
  | surplusValue
  deriving DecidableEq, Repr

/-- The commands. -/
inductive CommandName where
  | check
  | list
  | exportPolicy
  deriving DecidableEq, Repr

/-- The command with the given name. -/
def CommandName.ofName? (name : String) : Option CommandName :=
  if name = "check" then some .check
  else if name = "list" then some .list
  else if name = "export" then some .exportPolicy
  else none

/-- The options. -/
inductive Opt where
  | policy
  | verbose
  | help
  | role
  | user
  | action
  | resource
  | owner
  | anonymous
  deriving DecidableEq, Repr

namespace Opt

/-- The long name of an option. -/
def name : Opt → String
  | policy => "policy"
  | verbose => "verbose"
  | help => "help"
  | role => "role"
  | user => "user"
  | action => "action"
  | resource => "resource"
  | owner => "owner"
  | anonymous => "anonymous"

/-- Whether an option is only given or not, and has no value. -/
def isFlag : Opt → Bool
  | verbose => true
  | help => true
  | anonymous => true
  | _ => false

/-- The options known in front of the command (`none`) or behind it. -/
def known : Option CommandName → List Opt
  | some .check => [policy, verbose, help, role, user, action, resource, owner, anonymous]
  | _ => [policy, verbose, help]

/-- The option with the given long name. -/
def ofName? (level : Option CommandName) (name : String) : Option Opt :=
  (known level).find? fun opt => opt.name == name

/-- The option with the given letter. -/
def ofLetter? (letter : Char) : Option Opt :=
  if letter = 'v' then some verbose else if letter = 'h' then some help else none

end Opt

/-- The values given at one level. -/
structure Settings where
  policy : Option String := none
  verbose : Bool := false
  role : Option Role := none
  user : Option UserId := none
  action : Option Action := none
  resource : Option String := none
  owner : Option UserId := none
  anonymous : Bool := false
  deriving DecidableEq, Repr

namespace Settings

/-- Whether an option has been given. -/
def has (s : Settings) : Opt → Bool
  | .policy => s.policy.isSome
  | .verbose => s.verbose
  | .help => false
  | .role => s.role.isSome
  | .user => s.user.isSome
  | .action => s.action.isSome
  | .resource => s.resource.isSome
  | .owner => s.owner.isSome
  | .anonymous => s.anonymous

/-- Whether nothing has been given that can be given in front of a command. -/
def isBlank (s : Settings) : Bool :=
  s.policy.isNone && !s.verbose

/-- The path of a policy, which must not be empty. -/
def readPath (value : String) : Except UsageError String :=
  if value.isEmpty then .error .missingValue else .ok value

/-- A value that has to be readable. -/
def readValue {α : Type} (value? : Option α) : Except UsageError α :=
  match value? with
  | some value => .ok value
  | none => .error .badValue

/-- Takes in the value of an option that has not been given yet; flags take no value. -/
def assign (s : Settings) (opt : Opt) (value : String) : Except UsageError Settings :=
  match opt with
  | .policy => do
      let path ← readPath value
      pure { s with policy := some path }
  | .role => do
      let role ← readValue (Role.ofText? value)
      pure { s with role := some role }
  | .user => do
      let user ← readValue (Text.readInt64 value.toList)
      pure { s with user := some user }
  | .action => do
      let action ← readValue (Action.ofText? value)
      pure { s with action := some action }
  | .resource => pure { s with resource := some value }
  | .owner => do
      let owner ← readValue (Text.readInt64 value.toList)
      pure { s with owner := some owner }
  | _ => .error .surplusValue

/-- Takes in an option that has a value. -/
def put (s : Settings) (opt : Opt) : Option String → Except UsageError Settings
  | none => .error .missingValue
  | some value => if s.has opt then .error .conflict else s.assign opt value

/-- Takes in a flag. -/
def raise (s : Settings) (opt : Opt) : Except UsageError Settings :=
  if s.has opt then .error .conflict
  else
    match opt with
    | .verbose => .ok { s with verbose := true }
    | .anonymous => .ok { s with anonymous := true }
    | _ => .error .helpRequested

end Settings

end Warden.CommandLine
