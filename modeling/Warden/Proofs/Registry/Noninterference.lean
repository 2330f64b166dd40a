import Warden.Proofs.Registry.Ruling

namespace Warden

/-!
# What a check cannot see

Of all abilities that a registry holds a check sees only whether there is a relevant one without an
owner restriction, and whether there is a relevant one with it.  How many there are, in which order
they were registered, and what else is held, makes no difference.

* `Ability.IsRelevant` — an ability of the role, for the action or to manage, that covers the type.
* `Registry.HasRelevant` — a relevant ability with the given owner restriction is held.
* `Registry.ruling_congr` — the ruling depends on nothing else.
* `Registry.check_congr` — in any monad, a check depends on the ruling and on the one question that
  may be asked.
* `Registry.check_noninterference` — two registries that hold the same kinds of relevant abilities
  answer alike and ask alike.
-/

/-- An ability is relevant to a check: it is one of the role, it is for the wanted action or to
    manage, and it covers the type of the resource. -/
def Ability.IsRelevant (a : Ability) (role : Role) (action : Action) (kind : String) : Prop :=
  a.role = role ∧ (a.action = action ∨ a.action = .manage) ∧ a.scope.covers kind = true

instance (a : Ability) (role : Role) (action : Action) (kind : String) :
    Decidable (a.IsRelevant role action kind) :=
  inferInstanceAs (Decidable (_ ∧ _ ∧ _))

/-- What is relevant is what bears on the check. -/
theorem Ability.bearsOn_iff_isRelevant {a : Ability} {role : Role} {action : Action}
    {kind : String} : a.bearsOn role action kind = true ↔ a.IsRelevant role action kind := by
  rw [bearsOn_iff, Action.implies_iff]
  exact Iff.rfl

namespace Registry

/-- A relevant ability is held that is for owners only, or one that is not. -/
def HasRelevant (r : Registry) (role : Role) (action : Action) (kind : String)
    (ownerOnly : Bool) : Prop :=
  ∃ a ∈ r.abilities, a.IsRelevant role action kind ∧ a.ownerOnly = ownerOnly

instance (r : Registry) (role : Role) (action : Action) (kind : String) (ownerOnly : Bool) :
    Decidable (r.HasRelevant role action kind ownerOnly) :=
  inferInstanceAs (Decidable (∃ a ∈ r.abilities, _))

/-! ### Rulings -/

section Rulings

variable {r r₁ r₂ : Registry} {role : Role} {action : Action} {kind : String}

theorem ruling_eq_granted_iff_hasRelevant :
    r.ruling role action kind = .granted ↔ r.HasRelevant role action kind false := by
  simp only [ruling_eq_granted_iff, Ability.bearsOn_iff_isRelevant]
  exact Iff.rfl

theorem ruling_eq_refused_iff_hasRelevant :
    r.ruling role action kind = .refused ↔
      ∀ ownerOnly, ¬ r.HasRelevant role action kind ownerOnly := by
  simp only [ruling_eq_refused_iff, Ability.bearsOn_iff_isRelevant]
  constructor
  · rintro hnone ownerOnly ⟨a, ha, hrelevant, -⟩
    exact hnone ⟨a, ha, hrelevant⟩
  · rintro hnone ⟨a, ha, hrelevant⟩
    exact hnone a.ownerOnly ⟨a, ha, hrelevant, rfl⟩

/-- The ruling depends on the owner restrictions of the relevant abilities only. -/
theorem ruling_congr {role' : Role} {kind' : String}
    (h : ∀ ownerOnly, r₁.HasRelevant role action kind ownerOnly ↔
      r₂.HasRelevant role' action kind' ownerOnly) :
    r₁.ruling role action kind = r₂.ruling role' action kind' := by
  have hgranted : r₁.ruling role action kind = .granted ↔
      r₂.ruling role' action kind' = .granted := by
    rw [ruling_eq_granted_iff_hasRelevant, ruling_eq_granted_iff_hasRelevant]
    exact h false
  have hrefused : r₁.ruling role action kind = .refused ↔
      r₂.ruling role' action kind' = .refused := by
    rw [ruling_eq_refused_iff_hasRelevant, ruling_eq_refused_iff_hasRelevant]
    exact forall_congr' fun ownerOnly => not_congr (h ownerOnly)
  -- The third ruling is the one that is neither of the other two.
  cases hfirst : r₁.ruling role action kind with
  | granted => exact (hgranted.mp hfirst).symm
  | refused => exact (hrefused.mp hfirst).symm
  | ifOwner =>
    rw [hfirst] at hgranted hrefused
    cases hsecond : r₂.ruling role' action kind' with
    | granted => exact absurd (hgranted.mpr hsecond) (by simp)
    | refused => exact absurd (hrefused.mpr hsecond) (by simp)
    | ifOwner => rfl

/-- Registries that list the same abilities have the same rulings. -/
theorem ruling_eq_of_abilities_eq (h : r₁.abilities = r₂.abilities) :
    r₁.ruling role action kind = r₂.ruling role action kind :=
  ruling_congr fun ownerOnly => by rw [HasRelevant, HasRelevant, h]

end Rulings

/-! ### Checks -/

section Checks

variable {m : Type → Type} [Monad m] {r₁ r₂ : Registry} {action : Action} {s₁ s₂ : Subject}
  {resource₁ resource₂ : Resource m}

/-- The same ruling and the same answer to the one question make the same check. -/
theorem check_congr (hrole : s₁.role = s₂.role) (hkind : resource₁.kind = resource₂.kind)
    (howned : resource₁.ownedBy s₁.user = resource₂.ownedBy s₂.user)
    (hruling : r₁.ruling s₁.role action resource₁.kind =
      r₂.ruling s₂.role action resource₂.kind) :
    r₁.check action resource₁ (some s₁) = r₂.check action resource₂ (some s₂) := by
  simp only [check]
  rw [hruling, hrole, hkind, howned]

/-- Registries that list the same abilities make the same checks. -/
theorem check_eq_of_abilities_eq (h : r₁.abilities = r₂.abilities) (action : Action)
    (resource : Resource m) (subject : Option Subject) :
    r₁.check action resource subject = r₂.check action resource subject := by
  cases subject with
  | none => rfl
  | some s => exact check_congr rfl rfl rfl (ruling_eq_of_abilities_eq h)

end Checks

/-- Resources with the same answer to a question have it also while they are observed. -/
theorem ownedBy_observed_congr {resource₁ resource₂ : Resource Id} {user₁ user₂ : UserId}
    (huser : user₁ = user₂) (howned : resource₁.ownedBy user₁ = resource₂.ownedBy user₂) :
    resource₁.observed.ownedBy user₁ = resource₂.observed.ownedBy user₂ := by
  simp only [Resource.observed]
  rw [howned, huser]

/-- **Unrelated abilities are invisible.**  Let two registries hold whatever they hold, and let the
    relevant abilities of one have the same owner restrictions as those of the other.  Then subjects
    of the same role and number get the same answer, with the same reason if it is a denial, on
    resources of the same type with the same answer to the question who owns them, and this question
    is asked as often and for the same user. -/
theorem check_noninterference {r₁ r₂ : Registry} {action : Action} {s₁ s₂ : Subject}
    {resource₁ resource₂ : Resource Id} (hrole : s₁.role = s₂.role) (huser : s₁.user = s₂.user)
    (hkind : resource₁.kind = resource₂.kind)
    (howned : resource₁.ownedBy s₁.user = resource₂.ownedBy s₂.user)
    (hrelevant : ∀ ownerOnly, r₁.HasRelevant s₁.role action resource₁.kind ownerOnly ↔
      r₂.HasRelevant s₂.role action resource₂.kind ownerOnly) :
    Id.run (r₁.check action resource₁ (some s₁)) = Id.run (r₂.check action resource₂ (some s₂)) ∧
    ∀ asked, (r₁.check action resource₁.observed (some s₁)).run asked =
      (r₂.check action resource₂.observed (some s₂)).run asked := by
  have hruling := ruling_congr hrelevant
  have hobserved : r₁.check action resource₁.observed (some s₁) =
      r₂.check action resource₂.observed (some s₂) :=
    check_congr hrole hkind (ownedBy_observed_congr huser howned) hruling
  refine ⟨?_, fun asked => ?_⟩
  · rw [check_congr hrole hkind howned hruling]
  · rw [hobserved]

/-- A registry in which readers may change their own pages, among other things, and one in which
    they may do so twice and to all of their own resources: a reader who does not own the page is
    asked about once in either, and denied. -/
theorem check_noninterference_sample :
    let pages : Resource Id := ⟨"pages", fun user => user == 6⟩
    let reader : Subject := ⟨.reader, 5⟩
    let r₁ := empty.grantAll [⟨.admin, .manage, .anything, false⟩,
      ⟨.reader, .update, .resource "pages", true⟩, ⟨.reader, .show, .resource "pages", false⟩]
    let r₂ := empty.grantAll [⟨.reader, .manage, .anything, true⟩,
      ⟨.reader, .update, .resource "users", false⟩, ⟨.reader, .manage, .anything, true⟩]
    (∀ ownerOnly, r₁.HasRelevant .reader .update "pages" ownerOnly ↔
      r₂.HasRelevant .reader .update "pages" ownerOnly) ∧
    (r₁.check .update pages.observed (some reader)).run [] =
      (r₂.check .update pages.observed (some reader)).run [] ∧
    (r₁.check .update pages.observed (some reader)).run [] =
      (.error ⟨.update, "pages", .noAbility .reader⟩, [5]) := by
  intro pages reader r₁ r₂
  have hrelevant : ∀ ownerOnly, r₁.HasRelevant .reader .update "pages" ownerOnly ↔
      r₂.HasRelevant .reader .update "pages" ownerOnly := by decide +kernel
  have hsame : _ ∧ ∀ asked, (r₁.check .update pages.observed (some reader)).run asked =
      (r₂.check .update pages.observed (some reader)).run asked :=
    check_noninterference rfl rfl rfl rfl hrelevant
  refine ⟨hrelevant, hsame.2 [], ?_⟩
  have hruling : r₁.ruling .reader .update "pages" = .ifOwner := by decide +kernel
  simp only [check, pages, reader, Resource.observed, hruling]
  rfl

end Registry

end Warden
