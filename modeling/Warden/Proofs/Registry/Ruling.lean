import Warden.Check
import Warden.Proofs.Registry.Contents

namespace Warden

/-!
# What decides a check

A check looks up one shelf for each action that can allow the wanted one, reads each shelf up to
its first unrestricted ability, and asks the owner at most once.  Here it is shown to be a plain
scan of all abilities that are held.

* `Ability.bearsOn` — whether an ability has a say in a check at all.
* `Registry.ruling_eq_granted_iff`, `ruling_eq_refused_iff`, `ruling_eq_ifOwner_iff` — the ruling
  in terms of the abilities that bear on the check, wherever they stand.
* `Registry.Permits` — the plain scan: some ability of the subject's role lets it act.
* `Registry.check_eq_scan` — a check is passed exactly when the scan finds such an ability, and
  it is denied with the reason that the subject gives.
-/

/-! ### Coverage -/

namespace Coverage

/-- An unrestricted ability is found wherever it stands. -/
theorem unrestricted_ofAbilities_iff {abilities : List Ability} :
    (ofAbilities abilities).unrestricted = true ↔ ∃ a ∈ abilities, a.ownerOnly = false := by
  induction abilities with
  | nil => simp
  | cons a rest ih =>
    cases h : a.ownerOnly with
    | false => simp [ofAbilities_cons_of_unrestricted h, h]
    | true => simp [ofAbilities_cons_of_ownerOnly h, h, ih]

/-- An owner-only ability that was found is there. -/
theorem exists_of_ownerOnly_ofAbilities {abilities : List Ability}
    (h : (ofAbilities abilities).ownerOnly = true) : ∃ a ∈ abilities, a.ownerOnly = true := by
  cases abilities with
  | nil => cases h
  | cons a rest =>
    cases ha : a.ownerOnly with
    | false => simp [ofAbilities_cons_of_unrestricted ha] at h
    | true => exact ⟨a, List.mem_cons_self, ha⟩

/-- The first of several abilities is always found. -/
theorem found_ofAbilities_of_ne_nil {abilities : List Ability} (h : abilities ≠ []) :
    (ofAbilities abilities).unrestricted = true ∨ (ofAbilities abilities).ownerOnly = true := by
  cases abilities with
  | nil => exact absurd rfl h
  | cons a rest =>
    cases ha : a.ownerOnly with
    | false => left; rw [ofAbilities_cons_of_unrestricted ha]
    | true => right; rw [ofAbilities_cons_of_ownerOnly ha]

end Coverage

/-! ### Abilities that have a say -/

/-- Whether an ability has a say in a check: it is one of the role, its action implies the wanted
    one, and it covers the type of the resource. -/
def Ability.bearsOn (a : Ability) (role : Role) (action : Action) (kind : String) : Bool :=
  decide (a.role = role) && a.action.implies action && a.appliesTo kind

theorem Ability.bearsOn_iff {a : Ability} {role : Role} {action : Action} {kind : String} :
    a.bearsOn role action kind = true ↔
      a.role = role ∧ a.action.implies action = true ∧ a.appliesTo kind = true := by
  simp only [bearsOn, Bool.and_eq_true, decide_eq_true_eq, and_assoc]

theorem Action.implies_iff_mem_candidates {held wanted : Action} :
    held.implies wanted = true ↔ held ∈ wanted.candidates := by
  rw [Action.implies, List.contains_iff_mem]

namespace Registry

variable {r : Registry} {role : Role} {action : Action} {kind : String}

/-- The abilities that cover a type on the shelf of a role and an action. -/
theorem mem_covering_iff {a : Ability} :
    a ∈ (r.shelf ⟨role, action⟩).filter (·.appliesTo kind) ↔
      a ∈ r.abilities ∧ a.role = role ∧ a.action = action ∧ a.appliesTo kind = true := by
  rw [List.mem_filter, mem_shelf_iff, Ability.slot, Slot.mk.injEq, and_assoc, and_assoc]

/-- What bears on a check is what covers the type on one of the shelves that are looked up. -/
theorem bearsOn_iff_exists_candidate {a : Ability} :
    a ∈ r.abilities ∧ a.bearsOn role action kind = true ↔
      ∃ candidate ∈ action.candidates,
        a ∈ (r.shelf ⟨role, candidate⟩).filter (·.appliesTo kind) := by
  rw [Ability.bearsOn_iff, Action.implies_iff_mem_candidates]
  constructor
  · rintro ⟨ha, hrole, haction, hkind⟩
    exact ⟨a.action, haction, mem_covering_iff.mpr ⟨ha, hrole, rfl, hkind⟩⟩
  · rintro ⟨candidate, hcandidate, hmem⟩
    obtain ⟨ha, hrole, rfl, hkind⟩ := mem_covering_iff.mp hmem
    exact ⟨ha, hrole, hcandidate, hkind⟩

/-! ### Rulings -/

/-- One of the coverages that are looked up is unrestricted exactly when an unrestricted ability
    bears on the check. -/
theorem exists_unrestricted_iff :
    (∃ candidate ∈ action.candidates, (r.coverage role candidate kind).unrestricted = true) ↔
      ∃ a ∈ r.abilities, a.bearsOn role action kind = true ∧ a.ownerOnly = false := by
  simp only [coverage, Coverage.unrestricted_ofAbilities_iff]
  constructor
  · rintro ⟨candidate, hcandidate, a, ha, howner⟩
    obtain ⟨hmem, hbears⟩ := bearsOn_iff_exists_candidate.mpr ⟨candidate, hcandidate, ha⟩
    exact ⟨a, hmem, hbears, howner⟩
  · rintro ⟨a, hmem, hbears, howner⟩
    obtain ⟨candidate, hcandidate, ha⟩ := bearsOn_iff_exists_candidate.mp ⟨hmem, hbears⟩
    exact ⟨candidate, hcandidate, a, ha, howner⟩

/-- Something is found on the shelves that are looked up exactly when something bears on the
    check.  Each shelf is read only in part, but never so that all of it goes unseen. -/
theorem exists_found_iff :
    (∃ candidate ∈ action.candidates, (r.coverage role candidate kind).unrestricted = true ∨
        (r.coverage role candidate kind).ownerOnly = true) ↔
      ∃ a ∈ r.abilities, a.bearsOn role action kind = true := by
  constructor
  · rintro ⟨candidate, hcandidate, hfound⟩
    -- Either flag comes from an ability on the shelf.
    have hexists : ∃ a, a ∈ (r.shelf ⟨role, candidate⟩).filter (·.appliesTo kind) := by
      rcases hfound with h | h
      · obtain ⟨a, ha, _⟩ := Coverage.unrestricted_ofAbilities_iff.mp h
        exact ⟨a, ha⟩
      · obtain ⟨a, ha, _⟩ := Coverage.exists_of_ownerOnly_ofAbilities h
        exact ⟨a, ha⟩
    obtain ⟨a, ha⟩ := hexists
    obtain ⟨hmem, hbears⟩ := bearsOn_iff_exists_candidate.mpr ⟨candidate, hcandidate, ha⟩
    exact ⟨a, hmem, hbears⟩
  · rintro ⟨a, hmem, hbears⟩
    -- `a` itself may go unseen, but its shelf is not empty.
    obtain ⟨candidate, hcandidate, ha⟩ := bearsOn_iff_exists_candidate.mp ⟨hmem, hbears⟩
    exact ⟨candidate, hcandidate, Coverage.found_ofAbilities_of_ne_nil (List.ne_nil_of_mem ha)⟩

/-- An unrestricted ability settles the check. -/
theorem ruling_eq_granted_iff :
    r.ruling role action kind = .granted ↔
      ∃ a ∈ r.abilities, a.bearsOn role action kind = true ∧ a.ownerOnly = false := by
  rw [← exists_unrestricted_iff]
  simp only [ruling, List.any_map, List.any_eq_true, Function.comp_apply]
  split
  case isTrue h => exact iff_of_true rfl h
  case isFalse h => split <;> exact iff_of_false (by simp) h

/-- Without any ability that bears on it the check is refused. -/
theorem ruling_eq_refused_iff :
    r.ruling role action kind = .refused ↔
      ¬ ∃ a ∈ r.abilities, a.bearsOn role action kind = true := by
  rw [← exists_found_iff]
  simp only [ruling, List.any_map, List.any_eq_true, Function.comp_apply]
  split
  case isTrue h =>
    obtain ⟨candidate, hcandidate, hfound⟩ := h
    exact iff_of_false (by simp) fun hnot => hnot ⟨candidate, hcandidate, .inl hfound⟩
  case isFalse hfree =>
    split
    case isTrue h =>
      obtain ⟨candidate, hcandidate, hfound⟩ := h
      exact iff_of_false (by simp) fun hnot => hnot ⟨candidate, hcandidate, .inr hfound⟩
    case isFalse howned =>
      refine iff_of_true rfl ?_
      rintro ⟨candidate, hcandidate, hfound | hfound⟩
      · exact hfree ⟨candidate, hcandidate, hfound⟩
      · exact howned ⟨candidate, hcandidate, hfound⟩

/-- The matter is left to the owner exactly when something bears on the check, and all of it is
    owner-only. -/
theorem ruling_eq_ifOwner_iff :
    r.ruling role action kind = .ifOwner ↔
      (∃ a ∈ r.abilities, a.bearsOn role action kind = true) ∧
        ∀ a ∈ r.abilities, a.bearsOn role action kind = true → a.ownerOnly = true := by
  -- The third ruling is the one that is neither of the other two.
  have hother : r.ruling role action kind = .ifOwner ↔
      ¬ r.ruling role action kind = .refused ∧ ¬ r.ruling role action kind = .granted := by
    cases r.ruling role action kind <;> simp
  rw [hother, ruling_eq_granted_iff, ruling_eq_refused_iff, Classical.not_not]
  simp only [not_exists, not_and, Bool.not_eq_false]

/-! ### The plain scan -/

/-- The plain scan: there is a subject, and some ability of its role whose action implies the
    wanted one lets it act on the resource. -/
def Permits (r : Registry) (action : Action) (resource : Resource Id)
    (subject : Option Subject) : Prop :=
  ∃ s, subject = some s ∧ ∃ a ∈ r.abilities,
    a.role = s.role ∧ a.action.implies action = true ∧ a.permits resource s = true

/-- The reason of a denial, which depends on the subject alone. -/
def denialOf : Option Subject → Denial
  | none => .noSubject
  | some s => .noAbility s.role

variable {resource : Resource Id} {s : Subject}

/-- For a subject the scan looks for an ability that bears on the check and either has no owner
    restriction or meets the owner. -/
theorem permits_some_iff :
    r.Permits action resource (some s) ↔
      ∃ a ∈ r.abilities, a.bearsOn s.role action resource.kind = true ∧
        (a.ownerOnly = false ∨ Id.run (resource.ownedBy s.user) = true) := by
  have hsome : r.Permits action resource (some s) ↔ ∃ a ∈ r.abilities,
      a.role = s.role ∧ a.action.implies action = true ∧ a.permits resource s = true := by
    simp [Permits]
  rw [hsome]
  simp only [Ability.bearsOn_iff, Ability.permits, Bool.and_eq_true, Bool.or_eq_true,
    Bool.not_eq_true', and_assoc]
  exact Iff.rfl

theorem not_permits_none : ¬ r.Permits action resource none := by
  rintro ⟨s, hs, _⟩
  cases hs

instance (r : Registry) (action : Action) (resource : Resource Id) :
    (subject : Option Subject) → Decidable (r.Permits action resource subject)
  | none => isFalse not_permits_none
  | some _ => decidable_of_iff _ permits_some_iff.symm

/-- The check of a subject, by whether the scan finds an ability. -/
theorem run_check_some :
    Id.run (r.check action resource (some s)) =
      if r.Permits action resource (some s) then .ok ()
      else .error ⟨action, resource.kind, .noAbility s.role⟩ := by
  simp only [check]
  cases hruling : r.ruling s.role action resource.kind with
  | granted =>
    obtain ⟨a, hmem, hbears, howner⟩ := ruling_eq_granted_iff.mp hruling
    rw [if_pos (permits_some_iff.mpr ⟨a, hmem, hbears, .inl howner⟩)]
    rfl
  | refused =>
    have hnone := ruling_eq_refused_iff.mp hruling
    rw [if_neg]
    · rfl
    · intro hpermits
      obtain ⟨a, hmem, hbears, _⟩ := permits_some_iff.mp hpermits
      exact hnone ⟨a, hmem, hbears⟩
  | ifOwner =>
    -- Whatever bears on the check is owner-only, so one answer decides for all of it.
    obtain ⟨⟨a, hmem, hbears⟩, hall⟩ := ruling_eq_ifOwner_iff.mp hruling
    cases howned : Id.run (resource.ownedBy s.user) with
    | true =>
      rw [if_pos (permits_some_iff.mpr ⟨a, hmem, hbears, .inr howned⟩)]
      simp [howned]
    | false =>
      rw [if_neg]
      · simp [howned]
      · intro hpermits
        obtain ⟨b, hb, hbearsb, hfree | howns⟩ := permits_some_iff.mp hpermits
        · rw [hall b hb hbearsb] at hfree
          cases hfree
        · exact absurd (howned.symm.trans howns) (by simp)

theorem run_check_none :
    Id.run (r.check action resource none) = .error ⟨action, resource.kind, .noSubject⟩ := rfl

/-- A check that the scan lets pass. -/
theorem run_check_eq_ok_iff {subject : Option Subject} :
    Id.run (r.check action resource subject) = .ok () ↔ r.Permits action resource subject := by
  cases subject with
  | none => exact iff_of_false (by rw [run_check_none]; simp) not_permits_none
  | some s =>
    rw [run_check_some]
    split
    case isTrue h => exact iff_of_true rfl h
    case isFalse h => exact iff_of_false (by simp) h

/-- A check that the scan does not let pass. -/
theorem run_check_eq_error_iff {subject : Option Subject} :
    Id.run (r.check action resource subject) =
        .error ⟨action, resource.kind, denialOf subject⟩ ↔
      ¬ r.Permits action resource subject := by
  cases subject with
  | none => exact iff_of_true rfl not_permits_none
  | some s =>
    rw [run_check_some]
    split
    case isTrue h => exact iff_of_false (by simp) (fun hnot => hnot h)
    case isFalse h => exact iff_of_true rfl h

theorem run_allows_iff {subject : Option Subject} :
    Id.run (r.allows action resource subject) = true ↔ r.Permits action resource subject := by
  rw [← run_check_eq_ok_iff]
  show (Id.run (r.check action resource subject)).isOk = true ↔ _
  cases Id.run (r.check action resource subject) <;> simp [Except.isOk, Except.toBool]

/-- **A check is a plain scan.**  For every registry, action, resource and subject the check is
    passed exactly when the scan of all abilities finds one that lets the subject act; otherwise
    it is denied with the action, the type of the resource, and the reason that the subject
    gives.  The question `allows` and the checks of one action say the same. -/
theorem check_eq_scan (r : Registry) (action : Action) (resource : Resource Id)
    (subject : Option Subject) :
    (Id.run (r.check action resource subject) = .ok () ↔ r.Permits action resource subject) ∧
    (Id.run (r.check action resource subject) =
        .error ⟨action, resource.kind, denialOf subject⟩ ↔
      ¬ r.Permits action resource subject) ∧
    (Id.run (r.allows action resource subject) = true ↔ r.Permits action resource subject) ∧
    r.show resource subject = r.check .show resource subject ∧
    r.list resource subject = r.check .list resource subject ∧
    r.create resource subject = r.check .create resource subject ∧
    r.update resource subject = r.check .update resource subject ∧
    r.destroy resource subject = r.check .destroy resource subject ∧
    r.manage resource subject = r.check .manage resource subject :=
  ⟨run_check_eq_ok_iff, run_check_eq_error_iff, run_allows_iff, rfl, rfl, rfl, rfl, rfl, rfl⟩

end Registry

end Warden
