import Warden.CommandLine.Options

namespace Warden.CommandLine

/-!
# Arguments

The command line has two levels: options in front of the command, and options behind it.

* `scan` — one level, up to the name of a command or to the end.
* `Invocation` — what the arguments ask for; `Invocation.ofArguments` reads them.

An option that stands apart from its value is taken in only when the next option is met, or at
the end of its level, and the level in front of the command ends after the one behind it.  An
argument that is not known at all is reported before that.
-/

/-- What a level holds while it is read: the options taken in, and one option that may still
    have to be, with its value if that was met. -/
structure Progress where
  settings : Settings := {}
  pending : Option (Opt × Option String) := none

namespace Progress

/-- Takes in the option that is pending. -/
def settle (p : Progress) : Except UsageError Settings :=
  match p.pending with
  | none => .ok p.settings
  | some (opt, value?) => p.settings.put opt value?

/-- Whether the next argument that is no option is the value of an option. -/
def awaitsValue (p : Progress) : Bool :=
  match p.pending with
  | some (_, none) => true
  | _ => false

/-- Meets the value of the option that is pending. -/
def meetValue (p : Progress) (value : String) : Progress :=
  { p with pending := p.pending.map fun (opt, _) => (opt, some value) }

/-- Meets a flag. -/
def meetFlag (p : Progress) (opt : Opt) : Except UsageError Progress := do
  let settings ← p.settle
  let settings ← settings.raise opt
  pure { settings := settings }

/-- Meets an option by its long name, with the value attached to it if there is one. -/
def meetLong (p : Progress) (level : Option CommandName) (name : String)
    (attached : Option String) : Except UsageError Progress :=
  match Opt.ofName? level name, attached with
  | none, _ => .error .unknownArgument
  | some opt, some value =>
      if opt.isFlag then .error .surplusValue
      else do
        let settings ← p.settle
        let settings ← settings.put opt (some value)
        pure { settings := settings }
  | some opt, none =>
      if opt.isFlag then p.meetFlag opt
      else do
        let settings ← p.settle
        pure { settings := settings, pending := some (opt, none) }

/-- Meets options by their letters. -/
def meetLetters (p : Progress) : List Char → Except UsageError Progress
  | [] => .ok p
  | letter :: others =>
      match Opt.ofLetter? letter with
      | none => .error .unknownArgument
      | some opt => do
          let next ← p.meetFlag opt
          next.meetLetters others

end Progress

/-- What an argument looks like. -/
inductive Look where
  | separator
  | long (name : String) (attached : Option String)
  | letters (letters : List Char)
  | plain
  deriving DecidableEq, Repr

/-- The look of an argument.  A lone dash is plain. -/
def Look.of (arg : String) : Look :=
  match arg.toList with
  | ['-', '-'] => .separator
  | '-' :: '-' :: rest =>
      let name := String.ofList (rest.takeWhile (· != '='))
      match rest.dropWhile (· != '=') with
      | [] => .long name none
      | _ :: value => .long name (some (String.ofList value))
  | '-' :: letter :: more => .letters (letter :: more)
  | _ => .plain

/-- The error of an argument that is neither an option nor a value. -/
def strayError : Option CommandName → UsageError
  | none => .unknownCommand
  | some _ => .unknownArgument

/-- The error of the first argument behind a separator, where nothing may stand.  A command
    there is an argument too many, not an unknown command. -/
def separatedError (level : Option CommandName) (arg : String) : UsageError :=
  if (CommandName.ofName? arg).isSome || arg == "help" then .unknownArgument else strayError level

/-- The answer to `help` with the names of commands behind it.  Commands have no commands of
    their own. -/
def helpAnswer : List String → UsageError
  | [] => .helpRequested
  | [name] =>
      if (CommandName.ofName? name).isSome || name == "help" then .helpRequested
      else .unknownCommand
  | _ => .unknownCommand

/-- Reads one level: its progress at the end, and the command met there with the arguments
    behind it. -/
def scan (level : Option CommandName) (p : Progress) :
    List String → Except UsageError (Progress × Option (CommandName × List String))
  | [] => .ok (p, none)
  | arg :: rest =>
      -- An option that waits for its value takes any plain word, the name of a command too.
      let command? := if level.isNone && !p.awaitsValue then CommandName.ofName? arg else none
      match command? with
      | some command => .ok (p, some (command, rest))
      | none =>
          if level.isNone && !p.awaitsValue && arg == "help" then .error (helpAnswer rest)
          else
            match Look.of arg with
            | .separator =>
                match rest with
                | [] => .ok (p, none)
                | stray :: _ => .error (separatedError level stray)
            | .long name attached =>
                match p.meetLong level name attached with
                | .error e => .error e
                | .ok next => scan level next rest
            | .letters letters =>
                match p.meetLetters letters with
                | .error e => .error e
                | .ok next => scan level next rest
            | .plain =>
                if p.awaitsValue then scan level (p.meetValue arg) rest
                else .error (strayError level)

/-! ### Invocations -/

/-- A check to be made: as whom, what, and on which resource. -/
structure CheckRequest where
  role : Option Role
  user : UserId
  action : Action
  resource : String
  owner : Option UserId
  anonymous : Bool
  deriving DecidableEq, Repr

/-- A command with its arguments. -/
inductive Command where
  | check (request : CheckRequest)
  | list
  | exportPolicy
  deriving DecidableEq, Repr

/-- What the arguments ask for. -/
structure Invocation where
  policy : Option String
  verbose : Bool
  command : Command
  deriving DecidableEq, Repr

/-- Ends a level: takes in the pending option, and refuses an empty path from the environment
    where the level gives none. -/
def Progress.finish (p : Progress) (fallback : Option String) : Except UsageError Settings := do
  let settings ← p.settle
  if settings.policy.isNone && fallback == some "" then .error .missingValue else .ok settings

/-- The check that the settings behind the command ask for: not both as a role and anonymous,
    but as one of the two, with an action and a resource type. -/
def Settings.checkRequest (s : Settings) : Except UsageError CheckRequest :=
  if s.role.isSome && s.anonymous then .error .conflict
  else if s.role.isNone && !s.anonymous then .error .missingArgument
  else
    match s.action, s.resource with
    | some action, some resource =>
        .ok
          { role := s.role, user := s.user.getD 0, action := action, resource := resource,
            owner := s.owner, anonymous := s.anonymous }
    | _, _ => .error .missingArgument

/-- The command with the arguments that the settings behind it give. -/
def CommandName.command (name : CommandName) (s : Settings) : Except UsageError Command :=
  match name with
  | check => s.checkRequest.map .check
  | list => .ok .list
  | exportPolicy => .ok .exportPolicy

/-- Reads the arguments.  The policy given behind the command wins over the one in front of it,
    and both over the one in the environment. -/
def Invocation.ofArguments (fallback : Option String) (args : List String) :
    Except UsageError Invocation := do
  let (front, next) ← scan none {} args
  match next with
  | none =>
      let settings ← front.finish fallback
      if settings.isBlank && fallback.isNone then .error .nothingGiven else .error .missingCommand
  | some (name, rest) =>
      -- The level behind the command is ended, and its check made up, before the one in front.
      let (back, _) ← scan (some name) {} rest
      let behind ← back.finish fallback
      let command ← name.command behind
      let ahead ← front.finish fallback
      pure
        { policy := behind.policy <|> ahead.policy <|> fallback
          verbose := behind.verbose || ahead.verbose
          command := command }

end Warden.CommandLine
