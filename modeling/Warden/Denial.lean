import Warden.Action
import Warden.Role

namespace Warden

/-!
# Denials

Why a check was not passed, and the one sentence that says so.
-/

/-- The reason of a denial. -/
inductive Denial where
  | noSubject
  | noAbility (role : Role)
  deriving DecidableEq, Repr

namespace Denial

/-- The role that held no matching ability, if there was a subject at all. -/
def role? : Denial → Option Role
  | noSubject => none
  | noAbility role => some role

/-- The reason in words. -/
def message : Denial → String
  | noSubject => "no subject"
  | noAbility role => "role " ++ role.numeral ++ " holds no matching ability"

end Denial

/-- A denied check: the action, the type of the resource and the reason. -/
structure NotAuthorized where
  action : Action
  kind : String
  reason : Denial
  deriving DecidableEq, Repr

namespace NotAuthorized

/-- The denial in words. -/
def message (e : NotAuthorized) : String :=
  "Not authorized to " ++ e.action.name ++ " " ++ e.kind ++ ": " ++ e.reason.message

/-- The status with which a web server reports a denial. -/
def statusCode (_ : NotAuthorized) : Nat :=
  403

end NotAuthorized

end Warden
