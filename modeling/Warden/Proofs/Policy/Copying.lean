import Warden.Proofs.Policy.Granting
import Warden.Proofs.Policy.RoundTrip
import Warden.Proofs.Registry.Listing
import Warden.Proofs.Registry.Noninterference

namespace Warden

/-!
# Copies of a registry

What a registry holds can be written as a policy document, and whoever reads it gets a registry that
holds the same, but for one thing: the text of a scope cannot tell the single resource type named
`*` from all types, so an ability for that type alone comes back as one for all of them.

* `Document.abilities_ofAbilities` — a document of abilities grants these abilities.
* `Registry.copy` — the registry that is written and read back; `Registry.copy_eq` says what it is.
* `Ability.IsBare` — an ability for the single type named `*`; `Registry.HoldsBare`, that one is held.
* `Registry.PermitsBare` — such an ability would let a subject act if it were one for all types.
* `Registry.copy_check` — the copy allows that, and otherwise answers like the registry.
* `Registry.copy_widens` — that may be more than the registry allows.
-/

/-! ### Documents of abilities -/

/-- The reference to a role denotes that role, whether or not it has a name. -/
theorem RoleRef.resolve_ofRole (role : Role) : (RoleRef.ofRole role).resolve = .ok role := by
  unfold ofRole
  cases hname : role.name? with
  | none => rfl
  | some text =>
    obtain ⟨entry, hfind, rfl⟩ := Option.map_eq_some_iff.mp hname
    obtain rfl : entry.2 = role := by simpa using List.find?_some hfind
    -- There are three roles that have a name.
    have hresolve : ∀ entry ∈ Role.named, (RoleRef.name entry.1).resolve = .ok entry.2 := by
      decide +kernel
    exact hresolve entry (List.mem_of_find?_eq_some hfind)

theorem Grant.ability_ofAbility (a : Ability) : (Grant.ofAbility a).ability = .ok a :=
  Grant.ability_eq_ok_iff.mpr ⟨a.role, RoleRef.resolve_ofRole a.role, rfl⟩

namespace Document

/-- A document of abilities grants them in their order. -/
theorem abilities_ofAbilities (abilities : List Ability) :
    (ofAbilities abilities).abilities = .ok abilities := by
  refine mapM_eq_ok_iff.mpr (List.forall₂_map_left_iff.mpr ?_)
  exact List.forall₂_same.mpr fun a _ => Grant.ability_ofAbility a

/-- The document that is read when one of abilities was written. -/
theorem normalised_ofAbilities (abilities : List Ability) :
    (ofAbilities abilities).normalised = ofAbilities (abilities.map Ability.normalised) := by
  simp only [normalised, ofAbilities, List.map_map]
  rfl

/-- Whatever spells a document of abilities is read as one of what is read back of each of them. -/
theorem ofJson_ofAbilities {abilities : List Ability} {text : String}
    (h : Json.SpellsText (ofAbilities abilities).encode text) :
    ofJson text = .ok (ofAbilities (abilities.map Ability.normalised)) := by
  rw [← normalised_ofAbilities]
  exact (reads_decode.read h _).mpr (denotes_encode _)

end Document

/-! ### Scopes that are read back -/

/-- An ability that is not for the single type named `*` is read back as it was. -/
theorem Ability.normalised_of_scope_ne {a : Ability} (h : a.scope ≠ .resource Scope.wildcard) :
    a.normalised = a := by
  rw [normalised, Scope.normalised, if_neg h]

theorem map_normalised_eq_self {abilities : List Ability}
    (h : ∀ a ∈ abilities, a.scope ≠ .resource Scope.wildcard) :
    abilities.map Ability.normalised = abilities := by
  rw [List.map_congr_left fun a ha => Ability.normalised_of_scope_ne (h a ha)]
  exact List.map_id' abilities

/-- A scope covers at least as much when it is read back, and everything if it was the one of the
    single type named `*`. -/
theorem Scope.covers_normalised_iff {s : Scope} {kind : String} :
    s.normalised.covers kind = true ↔ s = .resource wildcard ∨ s.covers kind = true := by
  unfold normalised
  split
  case isTrue h => exact iff_of_true rfl (.inl h)
  case isFalse h => exact ⟨.inr, fun hor => hor.resolve_left h⟩

/-- An ability for the single type named `*` that is one of the role, for the wanted action or to
    manage. -/
def Ability.IsBare (a : Ability) (role : Role) (action : Action) : Prop :=
  a.role = role ∧ (a.action = action ∨ a.action = .manage) ∧ a.scope = .resource Scope.wildcard

instance (a : Ability) (role : Role) (action : Action) : Decidable (a.IsBare role action) :=
  inferInstanceAs (Decidable (_ ∧ _ ∧ _))

theorem Ability.IsBare.isRelevant {a : Ability} {role : Role} {action : Action} {kind : String}
    (h : a.IsBare role action) (hkind : kind = Scope.wildcard) :
    a.IsRelevant role action kind := by
  obtain ⟨hrole, haction, hscope⟩ := h
  rw [hkind]
  exact ⟨hrole, haction, by rw [hscope]; exact beq_self_eq_true Scope.wildcard⟩

/-- An ability is relevant when it is read back if it was so before, or if it is one for the single
    type named `*`. -/
theorem Ability.isRelevant_normalised_iff {a : Ability} {role : Role} {action : Action}
    {kind : String} : a.normalised.IsRelevant role action kind ↔
      a.IsBare role action ∨ a.IsRelevant role action kind := by
  simp only [IsBare, IsRelevant, ← and_or_left, ← Scope.covers_normalised_iff]
  exact Iff.rfl

/-- Abilities stay in order when they are read back. -/
theorem pairwise_map_normalised {abilities : List Ability}
    (h : abilities.Pairwise fun a b => a.le b = true) :
    (abilities.map Ability.normalised).Pairwise fun a b => a.le b = true :=
  List.pairwise_map.mpr h

namespace Registry

/-! ### Copies -/

/-- The registry that is made from the document of all abilities of a registry, written and read
    back. -/
def copy (r : Registry) : Except PolicyError Registry := do
  let document ← (Document.ofJson (Document.ofAbilities r.abilities).toJson).mapError .invalid
  let (copied, _) ← (empty.apply document).mapError .unknownRole
  pure copied

/-- A registry can always be copied, and the copy holds what is read back of each ability. -/
theorem copy_eq (r : Registry) :
    r.copy = .ok (empty.grantAll (r.abilities.map Ability.normalised)) := by
  have hspells : Json.SpellsText (Document.ofAbilities r.abilities).encode
      (Document.ofAbilities r.abilities).toJson :=
    Json.spellsText_pretty (Document.isWritable_encode _)
  have hread : (Document.ofJson (Document.ofAbilities r.abilities).toJson).mapError
      PolicyError.invalid = .ok (Document.ofAbilities (r.abilities.map Ability.normalised)) :=
    mapError_eq_ok_iff.mpr (Document.ofJson_ofAbilities hspells)
  have hgranted : (empty.apply (Document.ofAbilities (r.abilities.map Ability.normalised))).mapError
      PolicyError.unknownRole = .ok (empty.grantAll (r.abilities.map Ability.normalised), _) :=
    mapError_eq_ok_iff.mpr (apply_of_abilities empty (Document.abilities_ofAbilities _))
  exact bind_eq_ok_iff.mpr ⟨_, hread, bind_eq_ok_iff.mpr ⟨_, hgranted, rfl⟩⟩

/-- What a copy lists is what is read back of each ability listed. -/
theorem exists_copy (r : Registry) :
    ∃ c, r.copy = .ok c ∧ c.abilities = r.abilities.map Ability.normalised :=
  ⟨_, r.copy_eq, abilities_grantAll_of_sorted (pairwise_map_normalised r.pairwise_abilities)⟩

/-- An ability for the single type named `*` is held that is one of the role, for the wanted action
    or to manage. -/
def HoldsBare (r : Registry) (role : Role) (action : Action) : Prop :=
  ∃ a ∈ r.abilities, a.IsBare role action

instance (r : Registry) (role : Role) (action : Action) : Decidable (r.HoldsBare role action) :=
  inferInstanceAs (Decidable (∃ a ∈ r.abilities, _))

/-- An ability for the single type named `*` would let the subject act on the resource if it were
    one for all types. -/
def PermitsBare (r : Registry) (action : Action) (resource : Resource Id) (s : Subject) : Prop :=
  ∃ a ∈ r.abilities, a.IsBare s.role action ∧
    (a.ownerOnly = false ∨ Id.run (resource.ownedBy s.user) = true)

section Access

variable {r c : Registry} {action : Action}

/-- What the copy permits is what the registry permits, and what it would permit if its abilities
    for the single type named `*` were for all types. -/
theorem permits_iff_of_abilities_normalised {resource : Resource Id} {s : Subject}
    (hc : c.abilities = r.abilities.map Ability.normalised) :
    c.Permits action resource (some s) ↔
      r.PermitsBare action resource s ∨ r.Permits action resource (some s) := by
  simp only [permits_some_iff, PermitsBare, Ability.bearsOn_iff_isRelevant, hc, List.mem_map,
    exists_exists_and_eq_and, Ability.isRelevant_normalised_iff]
  constructor
  · rintro ⟨a, ha, hbare | hrelevant, howner⟩
    · exact .inl ⟨a, ha, hbare, howner⟩
    · exact .inr ⟨a, ha, hrelevant, howner⟩
  · rintro (⟨a, ha, hbare, howner⟩ | ⟨a, ha, hrelevant, howner⟩)
    · exact ⟨a, ha, .inl hbare, howner⟩
    · exact ⟨a, ha, .inr hrelevant, howner⟩

/-- What is relevant is the same in the copy, if no ability for the type named `*` has a say or the
    check is about that type. -/
theorem hasRelevant_iff_of_not_holdsBare {role : Role} {kind : String} {ownerOnly : Bool}
    (hc : c.abilities = r.abilities.map Ability.normalised)
    (hbare : r.HoldsBare role action → kind = Scope.wildcard) :
    c.HasRelevant role action kind ownerOnly ↔ r.HasRelevant role action kind ownerOnly := by
  simp only [HasRelevant, hc, List.mem_map, exists_exists_and_eq_and,
    Ability.isRelevant_normalised_iff]
  constructor
  · rintro ⟨a, ha, hisBare | hrelevant, howner⟩
    -- The type named `*` is covered by its own scope.
    · have hkind := hbare ⟨a, ha, hisBare⟩
      exact ⟨a, ha, hisBare.isRelevant hkind, howner⟩
    · exact ⟨a, ha, hrelevant, howner⟩
  · rintro ⟨a, ha, hrelevant, howner⟩
    exact ⟨a, ha, .inr hrelevant, howner⟩

end Access

/-- **A copy answers like the registry, except through the scope of the single type named `*`.**
    Every registry can be copied.  The copy holds the same abilities, each with the scope that is
    read back.  It allows what an ability for the type named `*` would allow if it were for all
    types, and otherwise gives the same answer as the registry; so it never allows less.  Unless
    such an ability has a say in a check about another type, the check is the same down to the
    question who owns the resource. -/
theorem copy_check (r : Registry) :
    ∃ c, r.copy = .ok c ∧ c.abilities = r.abilities.map Ability.normalised ∧
      (∀ (action : Action) (resource : Resource Id) (s : Subject),
        (r.PermitsBare action resource s → Id.run (c.check action resource (some s)) = .ok ()) ∧
        (¬ r.PermitsBare action resource s →
          Id.run (c.check action resource (some s)) =
            Id.run (r.check action resource (some s)))) ∧
      ∀ (m : Type → Type) [Monad m] (action : Action) (resource : Resource m)
        (subject : Option Subject),
        (∀ s, subject = some s → r.HoldsBare s.role action → resource.kind = Scope.wildcard) →
          c.check action resource subject = r.check action resource subject := by
  obtain ⟨c, hcopy, hc⟩ := r.exists_copy
  refine ⟨c, hcopy, hc, fun action resource s => ⟨fun hbare => ?_, fun hbare => ?_⟩, ?_⟩
  · exact run_check_eq_ok_iff.mpr ((permits_iff_of_abilities_normalised hc).mpr (.inl hbare))
  · have hsame : c.Permits action resource (some s) ↔ r.Permits action resource (some s) :=
      (permits_iff_of_abilities_normalised hc).trans (or_iff_right hbare)
    simp only [run_check_some, hsame]
  · intro m _ action resource subject hbare
    cases subject with
    | none => rfl
    | some s =>
      refine check_congr rfl rfl rfl (ruling_congr fun ownerOnly => ?_)
      exact hasRelevant_iff_of_not_holdsBare hc (hbare s rfl)

/-- A registry that holds an ability for the single type named `*`, and one for pages. -/
def sampleBare : Registry :=
  empty.grantAll [⟨⟨7⟩, .show, .resource Scope.wildcard, false⟩,
    ⟨.reader, .update, .resource "pages", true⟩]

/-- Role 7 may see users by the copy, but not by the registry. -/
theorem copy_widens :
    let users : Resource Id := ⟨"users", fun _ => false⟩
    ∃ c, sampleBare.copy = .ok c ∧
      Id.run (sampleBare.check .show users (some ⟨⟨7⟩, 1⟩)) =
        .error ⟨.show, "users", .noAbility ⟨7⟩⟩ ∧
      Id.run (c.check .show users (some ⟨⟨7⟩, 1⟩)) = .ok () := by
  intro users
  refine ⟨_, sampleBare.copy_eq, ?_, ?_⟩
  · have hruling : sampleBare.ruling ⟨7⟩ .show "users" = .refused := by decide +kernel
    simp only [check, users, hruling]
    rfl
  · have hruling : (empty.grantAll (sampleBare.abilities.map Ability.normalised)).ruling ⟨7⟩ .show
        "users" = .granted := by decide +kernel
    simp only [check, users, hruling]
    rfl

/-- A reader, to whom that ability says nothing, is answered alike on the page of somebody else, and
    role 7 is answered alike on the type named `*`, but allowed on users. -/
theorem copy_check_sampleBare :
    let page : Resource Id := ⟨"pages", fun user => user == 6⟩
    let star : Resource Id := ⟨Scope.wildcard, fun _ => false⟩
    let users : Resource Id := ⟨"users", fun _ => false⟩
    ¬ sampleBare.HoldsBare .reader .update ∧ sampleBare.HoldsBare ⟨7⟩ .show ∧
    sampleBare.PermitsBare .show users ⟨⟨7⟩, 1⟩ ∧
    ∃ c, sampleBare.copy = .ok c ∧
      c.check .update page (some ⟨.reader, 5⟩) =
        sampleBare.check .update page (some ⟨.reader, 5⟩) ∧
      c.check .show star (some ⟨⟨7⟩, 1⟩) = sampleBare.check .show star (some ⟨⟨7⟩, 1⟩) ∧
      Id.run (c.check .show users (some ⟨⟨7⟩, 1⟩)) = .ok () := by
  intro page star users
  have hreader : ¬ sampleBare.HoldsBare .reader .update := by decide +kernel
  have hseven : ∃ a ∈ sampleBare.abilities, a.IsBare ⟨7⟩ .show ∧ a.ownerOnly = false := by
    decide +kernel
  obtain ⟨a, ha, hbare, hfree⟩ := hseven
  have hpermits : sampleBare.PermitsBare .show users ⟨⟨7⟩, 1⟩ := ⟨a, ha, hbare, .inl hfree⟩
  obtain ⟨c, hcopy, -, hanswers, hsame⟩ := copy_check sampleBare
  refine ⟨hreader, ⟨a, ha, hbare⟩, hpermits, c, hcopy, ?_, ?_, ?_⟩
  · refine hsame Id .update page _ fun s hs hheld => ?_
    rw [← Option.some.inj hs] at hheld
    exact absurd hheld hreader
  · exact hsame Id .show star _ fun _ _ _ => rfl
  · exact (hanswers .show users ⟨⟨7⟩, 1⟩).1 hpermits

end Registry

end Warden
