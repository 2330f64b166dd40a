import Warden.Denial
import Warden.Registry.Coverage

namespace Warden

/-!
# Checks

A check decides whether a subject may act on a resource.

* `Registry.ruling` — what role, action and resource type alone decide.  Each action that can
  allow the wanted one is looked up on its own; an unrestricted ability settles the matter, and
  owner-only abilities leave it to the owner.
* `Registry.check` — the ruling, carried out: ownership is asked only if the ruling leaves the
  matter to it, so at most once.
* `Registry.allows` — whether a check is passed.
-/

/-- What can be said before anybody is asked who owns the resource. -/
inductive Ruling where
  | granted
  | ifOwner
  | refused
  deriving DecidableEq, Repr

namespace Registry

/-- What the abilities of a role say about an action on a type of resources. -/
def ruling (r : Registry) (role : Role) (action : Action) (kind : String) : Ruling :=
  let coverages := action.candidates.map fun candidate => r.coverage role candidate kind
  if coverages.any (·.unrestricted) then .granted
  else if coverages.any (·.ownerOnly) then .ifOwner
  else .refused

variable {m : Type → Type} [Monad m]

/-- Decides whether a subject may act on a resource.  Without a subject the answer is no. -/
def check (r : Registry) (action : Action) (resource : Resource m) (subject : Option Subject) :
    m (Except NotAuthorized Unit) :=
  match subject with
  | none => pure (.error ⟨action, resource.kind, .noSubject⟩)
  | some subject =>
      let denied := Except.error ⟨action, resource.kind, .noAbility subject.role⟩
      match r.ruling subject.role action resource.kind with
      | .granted => pure (.ok ())
      | .refused => pure denied
      | .ifOwner => do
          let owned ← resource.ownedBy subject.user
          pure (if owned then .ok () else denied)

/-- Whether a check is passed. -/
def allows (r : Registry) (action : Action) (resource : Resource m) (subject : Option Subject) :
    m Bool := do
  let answer ← r.check action resource subject
  pure answer.isOk

/-! ### Checks of one action -/

/-- Decides whether a subject may see a resource. -/
def «show» (r : Registry) (resource : Resource m) (subject : Option Subject) :
    m (Except NotAuthorized Unit) :=
  r.check .«show» resource subject

/-- Decides whether a subject may list resources. -/
def list (r : Registry) (resource : Resource m) (subject : Option Subject) :
    m (Except NotAuthorized Unit) :=
  r.check .list resource subject

/-- Decides whether a subject may create a resource. -/
def create (r : Registry) (resource : Resource m) (subject : Option Subject) :
    m (Except NotAuthorized Unit) :=
  r.check .create resource subject

/-- Decides whether a subject may change a resource. -/
def update (r : Registry) (resource : Resource m) (subject : Option Subject) :
    m (Except NotAuthorized Unit) :=
  r.check .update resource subject

/-- Decides whether a subject may remove a resource. -/
def destroy (r : Registry) (resource : Resource m) (subject : Option Subject) :
    m (Except NotAuthorized Unit) :=
  r.check .destroy resource subject

/-- Decides whether a subject may do anything with a resource. -/
def manage (r : Registry) (resource : Resource m) (subject : Option Subject) :
    m (Except NotAuthorized Unit) :=
  r.check .manage resource subject

end Registry

end Warden
