import Warden.Records
import Warden.Registry.Basic

namespace Warden

/-!
# The built-in table

The abilities of the payment host when no policy document is given.
-/

/-- The built-in abilities, in the order in which they are granted. -/
def builtIn : List Ability :=
  let entry (role : Role) (action : Action) (scope : Scope) : Ability :=
    ⟨role, action, scope, false⟩
  let owned (role : Role) (action : Action) (kind : String) : Ability :=
    ⟨role, action, .ofText kind, true⟩
  [entry .admin .manage .anything,
    owned .reader .update User.kind,
    entry .reader .create (.ofText Product.kind),
    owned .reader .update Product.kind,
    entry .reader .create (.ofText Subscription.kind),
    owned .reader .update Subscription.kind,
    owned .anon .create User.kind]

/-- Grants the built-in abilities. -/
def Registry.grantBuiltIn (r : Registry) : Registry :=
  r.grantAll builtIn

end Warden
