import Warden.Proofs.Registry.Registrations
import Warden.Proofs.Registry.Ruling

namespace Warden

/-!
# What coverage reports

Coverage reads the shelf of one role and one action up to the first ability that covers the type
without an owner restriction.  So its two flags are not alike: an unrestricted ability is reported
wherever it stands, an owner-only one only if it stands in front of every unrestricted one.

* `Ability.CountsFor` — an ability of the role and the action that covers the type.
* `OwnerOnlyFirst` — an owner-only ability with no unrestricted one before it.
* `Coverage.ownerOnly_ofAbilities_filter_iff` — the reading of one shelf, by induction on it.
* `Registry.coverage_grantAll` — coverage is made of the granted abilities that count.
* `Registry.coverage_registerAll` — what both flags say about the history of a registry.
-/

/-- An ability counts for a role, an action and a type of resources: it was registered for this role
    and this action, and it covers the type. -/
def Ability.CountsFor (a : Ability) (role : Role) (action : Action) (kind : String) : Prop :=
  a.role = role ∧ a.action = action ∧ a.appliesTo kind = true

instance (role : Role) (action : Action) (kind : String) :
    DecidablePred fun a : Ability => a.CountsFor role action kind :=
  fun _ => inferInstanceAs (Decidable (_ ∧ _ ∧ _))

/-- What counts is what covers the type on the shelf of the role and the action. -/
theorem Ability.countsFor_iff_slot {a : Ability} {role : Role} {action : Action} {kind : String} :
    a.CountsFor role action kind ↔ a.slot = ⟨role, action⟩ ∧ a.appliesTo kind = true := by
  rw [CountsFor, slot, Slot.mk.injEq, and_assoc]

/-! ### One shelf -/

section Shelf

variable {P : Ability → Prop} {a : Ability} {abilities : List Ability}

/-- Among the abilities with a property an owner-only one stands before the first one without a
    restriction, or anywhere if there is no such one. -/
def OwnerOnlyFirst (P : Ability → Prop) (abilities : List Ability) : Prop :=
  ∃ before a after, abilities = before ++ a :: after ∧ P a ∧ a.ownerOnly = true ∧
    ∀ b ∈ before, P b → b.ownerOnly = true

theorem not_ownerOnlyFirst_nil : ¬ OwnerOnlyFirst P [] := by
  rintro ⟨before, a, after, heq, -⟩
  simp at heq

/-- The first ability is the one that is found, or it does not stand in the way of another. -/
theorem ownerOnlyFirst_cons_iff :
    OwnerOnlyFirst P (a :: abilities) ↔
      (P a ∧ a.ownerOnly = true) ∨ ((P a → a.ownerOnly = true) ∧ OwnerOnlyFirst P abilities) := by
  constructor
  · rintro ⟨before, c, after, heq, hc, howner, hbefore⟩
    cases before with
    | nil =>
      obtain ⟨rfl, -⟩ := List.cons.inj heq
      exact .inl ⟨hc, howner⟩
    | cons b before =>
      obtain ⟨rfl, rfl⟩ := List.cons.inj heq
      rw [List.forall_mem_cons] at hbefore
      exact .inr ⟨hbefore.1, before, c, after, rfl, hc, howner, hbefore.2⟩
  · rintro (⟨ha, howner⟩ | ⟨ha, before, c, after, rfl, hc, howner, hbefore⟩)
    · exact ⟨[], a, abilities, rfl, ha, howner, by simp⟩
    · exact ⟨a :: before, c, after, rfl, hc, howner, List.forall_mem_cons.mpr ⟨ha, hbefore⟩⟩

/-- An owner-only ability is reported exactly when none without a restriction stands before it.
    What is filtered out neither counts nor stands in the way. -/
theorem Coverage.ownerOnly_ofAbilities_filter_iff [DecidablePred P] :
    (ofAbilities (abilities.filter fun a => decide (P a))).ownerOnly = true ↔
      OwnerOnlyFirst P abilities := by
  induction abilities with
  | nil => simpa using not_ownerOnlyFirst_nil
  | cons a abilities ih =>
    rw [ownerOnlyFirst_cons_iff, ← ih]
    by_cases hP : P a
    · cases howner : a.ownerOnly with
      | false => simp [hP, ofAbilities_cons_of_unrestricted howner]
      | true => simp [hP, ofAbilities_cons_of_ownerOnly howner]
    · simp [hP]

end Shelf

/-! ### Registries -/

namespace Registry

variable {role : Role} {action : Action} {kind : String}

/-- Coverage looks at the abilities that count, in the order of their registration, and at no
    others. -/
theorem coverage_grantAll (history : List Ability) :
    (empty.grantAll history).coverage role action kind =
      Coverage.ofAbilities (history.filter fun a => decide (a.CountsFor role action kind)) := by
  have hcounts : ∀ a : Ability, (a.appliesTo kind && decide (a.slot = ⟨role, action⟩)) =
      decide (a.CountsFor role action kind) := by
    intro a
    rw [decide_eq_decide.mpr Ability.countsFor_iff_slot, Bool.decide_and, Bool.decide_eq_true,
      Bool.and_comm]
  rw [coverage, shelf_grantAll, shelf_empty, List.nil_append, List.filter_filter]
  simp only [hcounts]

/-- **What coverage reports.**  After any registrations, and for every role, action and type of
    resources, coverage is unrestricted exactly when an ability that counts was registered without
    an owner restriction.  It is owner-only exactly when an owner-only ability that counts was
    registered before the first such one.  Abilities that do not count have no influence: coverage
    is the same as if they had never been registered. -/
theorem coverage_registerAll (steps : List Registration) (role : Role) (action : Action)
    (kind : String) :
    (((empty.registerAll steps).coverage role action kind).unrestricted = true ↔
      ∃ a ∈ history steps, a.CountsFor role action kind ∧ a.ownerOnly = false) ∧
    (((empty.registerAll steps).coverage role action kind).ownerOnly = true ↔
      OwnerOnlyFirst (fun a => a.CountsFor role action kind) (history steps)) ∧
    (empty.registerAll steps).coverage role action kind =
      (empty.grantAll ((history steps).filter fun a =>
        decide (a.CountsFor role action kind))).coverage role action kind := by
  rw [registerAll_eq_grantAll]
  refine ⟨?_, ?_, ?_⟩
  · rw [coverage_grantAll, Coverage.unrestricted_ofAbilities_iff]
    simp only [List.mem_filter, decide_eq_true_eq, and_assoc]
  · rw [coverage_grantAll, Coverage.ownerOnly_ofAbilities_filter_iff]
  · rw [coverage_grantAll, coverage_grantAll, List.filter_filter]
    simp only [Bool.and_self]

/-- Behind an unrestricted ability an owner-only one is not reported any more. -/
example :
    (empty.registerAll [.authorise .admin .manage .anything,
      .authoriseOwner .admin .manage (.resource "pages")]).coverage .admin .manage "pages" =
      ⟨true, false⟩ := by decide +kernel

end Registry

end Warden
