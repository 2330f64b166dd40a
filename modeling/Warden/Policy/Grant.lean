import Warden.Ability

namespace Warden

/-!
# Grants

A grant is an ability as a policy document gives it: its role is a number or a text, and only
resolving the text shows whether it denotes a role.

* `RoleRef.resolve` and `RoleRef.ofRole` — between references and roles.
* `Grant.ability` and `Grant.ofAbility` — between grants and abilities.
-/

/-- A role as a policy document refers to it. -/
inductive RoleRef where
  | id (number : Int64)
  | name (text : String)
  deriving DecidableEq, Repr

namespace RoleRef

/-- The role referred to; a text that denotes none is given back as it is. -/
def resolve : RoleRef → Except String Role
  | id number => .ok ⟨number⟩
  | name text =>
      match Role.ofText? text with
      | some role => .ok role
      | none => .error text

/-- The reference to a role: by its name if it has one. -/
def ofRole (role : Role) : RoleRef :=
  match role.name? with
  | some text => name text
  | none => id role.id

end RoleRef

/-- An ability whose role may still have to be resolved. -/
structure Grant where
  role : RoleRef
  action : Action
  scope : Scope
  ownerOnly : Bool
  deriving DecidableEq, Repr

namespace Grant

/-- The ability that is granted, or the text that denotes no role. -/
def ability (g : Grant) : Except String Ability := do
  let role ← g.role.resolve
  pure ⟨role, g.action, g.scope, g.ownerOnly⟩

/-- The grant of an ability. -/
def ofAbility (a : Ability) : Grant :=
  ⟨.ofRole a.role, a.action, a.scope, a.ownerOnly⟩

end Grant

end Warden
