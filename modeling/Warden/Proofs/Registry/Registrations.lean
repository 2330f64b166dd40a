import Warden.Policy.Document
import Warden.Proofs.Registry.Contents

namespace Warden

/-!
# Registrations

Abilities come into a registry one by one, as the built-in table, or with a policy document.  All
of these ways come down to grants of single abilities, so a registry is known from the list of the
abilities that were registered, its history.

* `Registration` — one registration, in any of the five ways.
* `Registration.abilities` — what it registers; a document that does not resolve registers nothing.
* `Registry.register` and `Registry.registerAll` — the registry after one, and after several.
* `Registry.registerAll_eq_grantAll` — the registry after several is the one in which their history
  has been granted.
-/

/-- A way in which abilities come into a registry. -/
inductive Registration where
  | grant (ability : Ability)
  | authorise (role : Role) (action : Action) (scope : Scope)
  | authoriseOwner (role : Role) (action : Action) (scope : Scope)
  | builtIn
  | apply (document : Document)

/-- The abilities that a registration registers, in their order. -/
def Registration.abilities : Registration → List Ability
  | grant ability => [ability]
  | authorise role action scope => [⟨role, action, scope, false⟩]
  | authoriseOwner role action scope => [⟨role, action, scope, true⟩]
  | builtIn => Warden.builtIn
  | apply document =>
      match document.abilities with
      | .ok abilities => abilities
      | .error _ => []

/-- All abilities that several registrations register, one after another. -/
def history (steps : List Registration) : List Ability :=
  steps.flatMap Registration.abilities

namespace Registry

/-- The registry after a registration.  One that fails leaves it as it was. -/
def register (r : Registry) : Registration → Registry
  | .grant ability => r.grant ability
  | .authorise role action scope => r.authorise role action scope
  | .authoriseOwner role action scope => r.authoriseOwner role action scope
  | .builtIn => r.grantBuiltIn
  | .apply document =>
      match r.apply document with
      | .ok (applied, _) => applied
      | .error _ => r

/-- The registry after several registrations. -/
def registerAll (r : Registry) (steps : List Registration) : Registry :=
  steps.foldl register r

@[simp] theorem grantAll_nil (r : Registry) : r.grantAll [] = r := rfl

theorem grantAll_append (r : Registry) (before after : List Ability) :
    r.grantAll (before ++ after) = (r.grantAll before).grantAll after :=
  List.foldl_append

/-- A document whose references all resolve has its abilities granted in their order. -/
theorem apply_of_abilities (r : Registry) {d : Document} {abilities : List Ability}
    (h : d.abilities = .ok abilities) :
    r.apply d = .ok (r.grantAll abilities, abilities.length) := by
  unfold apply
  rw [h]
  rfl

/-- A document with a reference that does not resolve is not applied. -/
theorem apply_of_unknown (r : Registry) {d : Document} {text : String}
    (h : d.abilities = .error text) : r.apply d = .error text := by
  unfold apply
  rw [h]
  rfl

/-- Every registration grants its abilities in their order, and does nothing else. -/
theorem register_eq_grantAll (r : Registry) (step : Registration) :
    r.register step = r.grantAll step.abilities := by
  cases step with
  | grant ability => rfl
  | authorise role action scope => rfl
  | authoriseOwner role action scope => rfl
  | builtIn => rfl
  | apply document =>
    simp only [register, Registration.abilities]
    cases habilities : document.abilities with
    | error text => simp [apply_of_unknown r habilities]
    | ok abilities => simp [apply_of_abilities r habilities]

/-- Several registrations grant their history. -/
theorem registerAll_eq_grantAll (r : Registry) (steps : List Registration) :
    r.registerAll steps = r.grantAll (history steps) := by
  unfold registerAll
  induction steps generalizing r with
  | nil => rfl
  | cons step steps ih =>
    rw [List.foldl_cons, ih, register_eq_grantAll, ← grantAll_append]
    rfl

end Registry

end Warden
