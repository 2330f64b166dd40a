import Warden.Action
import Warden.Role
import Warden.Scope

namespace Warden

/-!
# Abilities

An ability says that a role may perform an action on the resources of a scope, on all of them
or only on those that the subject owns.  It is weighed against a `Resource`, whose ownership
predicate may have effects in a monad `m`: a check that consults it is itself a computation in
`m`, so it can be seen when, and for whom, ownership is asked.

* `Ability.appliesTo` — whether the scope covers a resource type.
* `Ability.permits` — whether the ability alone lets a subject act on a resource.
* `Slot` — the pair of role and action under which abilities are kept, with its order.
-/

/-! ### Subjects and resources -/

/-- Whoever wants to act: a user in a role. -/
structure Subject where
  role : Role
  user : UserId
  deriving DecidableEq, Repr

/-- What is acted on: a resource type and the question who owns this one. -/
structure Resource (m : Type → Type) where
  kind : String
  ownedBy : UserId → m Bool

/-- The resource whose ownership predicate writes down each user it is asked about. -/
def Resource.observed (resource : Resource Id) : Resource (StateM (List UserId)) where
  kind := resource.kind
  ownedBy := fun user => do
    modify fun asked => asked ++ [user]
    pure (resource.ownedBy user)

/-! ### Abilities -/

/-- What a role may do, and on which resources. -/
structure Ability where
  role : Role
  action : Action
  scope : Scope
  ownerOnly : Bool
  deriving DecidableEq, Repr, Inhabited

/-- A role and an action: the key under which abilities are kept. -/
structure Slot where
  role : Role
  action : Action
  deriving DecidableEq, Repr

namespace Slot

/-- Slots are ordered by the number of the role, then by the order of the actions. -/
def order (s t : Slot) : Ordering :=
  (compare s.role.id t.role.id).then (compare s.action.rank t.action.rank)

instance : Ord Slot := ⟨order⟩

/-- The order, as one lexicographic comparison. -/
theorem order_eq : order = compareLex (compareOn (·.role.id)) (compareOn (·.action.rank)) := rfl

instance : Std.TransCmp order := by
  rw [order_eq]
  infer_instance

instance : Std.LawfulEqCmp order where
  eq_of_compare := by
    intro s t h
    obtain ⟨⟨r⟩, a⟩ := s
    obtain ⟨⟨r'⟩, a'⟩ := t
    simp only [order, Ordering.then_eq_eq, Std.LawfulEqCmp.compare_eq_iff_eq] at h
    obtain ⟨rfl, ha⟩ := h
    -- Actions at the same place in their order are the same.
    rw [Action.rank_injective ha]

end Slot

namespace Ability

/-- The slot an ability belongs in. -/
def slot (a : Ability) : Slot :=
  ⟨a.role, a.action⟩

/-- Whether an ability covers a resource type. -/
def appliesTo (a : Ability) (kind : String) : Bool :=
  a.scope.covers kind

/-- Whether an ability alone lets a subject act on a resource: it covers the type, and if it is
    for owners only the subject owns the resource. -/
def permits (a : Ability) (resource : Resource Id) (subject : Subject) : Bool :=
  a.appliesTo resource.kind && (!a.ownerOnly || resource.ownedBy subject.user)

/-- One line that says what an ability allows. -/
def describe (a : Ability) : String :=
  "role " ++ a.role.numeral ++ " may " ++ a.action.name ++ " " ++ a.scope.text ++
    (if a.ownerOnly then " (owner only)" else "")

end Ability

end Warden
