import Warden.Registry.Basic

namespace Warden

/-!
# Coverage

What the abilities of one slot say about one resource type.  The abilities that cover the type
are read in the order in which they were granted, up to the first one without an owner
restriction: whatever stands behind it can change no decision.
-/

/-- Whether abilities were found that hold for all resources of a type, or for owned ones. -/
structure Coverage where
  unrestricted : Bool := false
  ownerOnly : Bool := false
  deriving DecidableEq, Repr

namespace Coverage

/-- What a list of abilities amounts to, all of which cover the type in question. -/
def ofAbilities : List Ability → Coverage
  | [] => {}
  | a :: rest =>
      if a.ownerOnly then { ofAbilities rest with ownerOnly := true }
      else { unrestricted := true }

@[simp] theorem ofAbilities_nil : ofAbilities [] = {} := rfl

theorem ofAbilities_cons_of_ownerOnly {a : Ability} (h : a.ownerOnly = true)
    (rest : List Ability) :
    ofAbilities (a :: rest) = { ofAbilities rest with ownerOnly := true } := by
  simp [ofAbilities, h]

theorem ofAbilities_cons_of_unrestricted {a : Ability} (h : a.ownerOnly = false)
    (rest : List Ability) : ofAbilities (a :: rest) = { unrestricted := true } := by
  simp [ofAbilities, h]

end Coverage

/-- What a registry says about a role, an action and a resource type. -/
def Registry.coverage (r : Registry) (role : Role) (action : Action) (kind : String) : Coverage :=
  Coverage.ofAbilities ((r.shelf ⟨role, action⟩).filter (·.appliesTo kind))

end Warden
