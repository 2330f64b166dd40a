import Warden.Proofs.CommandLine.Exporting
import Warden.Proofs.Policy.Snapshots

namespace Warden

/-!
# What the built-in table allows

The table has seven entries.  Through roles, implied actions, wildcards and owners they come to a
short rule, which says for every subject, action and resource whether a check is passed.

* `AllowedByTable` — the rule.
* `Ability.isRelevant_manage_anything_iff` and `isRelevant_narrow_iff` — what one entry of the table
  has a say in.
* `Registry.HoldsTable` — a registry holds the entries of the table and nothing else;
  `hasRelevant_false_iff` and `hasRelevant_true_iff` say what that gives to all and to owners.
* `Registry.AnswersByTable` — a registry answers all checks by the rule.
* `Registry.builtIn_answersByTable` — so does the registry in which the table was granted, and the
  one that is made from its document, written and read back.
-/

/-! ### The rule -/

/-- The subject owns the resource. -/
def Subject.Owns (s : Subject) (resource : Resource Id) : Prop :=
  Id.run (resource.ownedBy s.user) = true

instance (s : Subject) (resource : Resource Id) : Decidable (s.Owns resource) :=
  inferInstanceAs (Decidable (_ = _))

/-- Administrators may do everything.  Readers may change users, products and subscriptions that
    they own, and create products and subscriptions.  Who has not signed in may create a user that
    is their own. -/
def AllowedByTable (action : Action) (resource : Resource Id) (s : Subject) : Prop :=
  s.role = .admin ∨
  (s.role = .reader ∧
    (action = .update ∧ resource.kind ∈ ["users", "products", "subscriptions"] ∧
        s.Owns resource ∨
      action = .create ∧ resource.kind ∈ ["products", "subscriptions"])) ∨
  (s.role = .anon ∧ action = .create ∧ resource.kind = "users" ∧ s.Owns resource)

instance (action : Action) (resource : Resource Id) (s : Subject) :
    Decidable (AllowedByTable action resource s) :=
  inferInstanceAs (Decidable (_ ∨ (_ ∧ (_ ∧ _ ∧ _ ∨ _ ∧ _)) ∨ (_ ∧ _ ∧ _ ∧ _)))

/-- Every other role may do nothing. -/
theorem AllowedByTable.role_mem {action : Action} {resource : Resource Id} {s : Subject}
    (h : AllowedByTable action resource s) : s.role ∈ [Role.anon, .reader, .admin] := by
  rcases h with hrole | ⟨hrole, -⟩ | ⟨hrole, -⟩ <;> simp [hrole]

/-! ### The entries -/

/-- The table, written out. -/
theorem builtIn_eq : builtIn =
    [⟨.admin, .manage, .anything, false⟩,
      ⟨.reader, .update, .resource "users", true⟩,
      ⟨.reader, .create, .resource "products", false⟩,
      ⟨.reader, .update, .resource "products", true⟩,
      ⟨.reader, .create, .resource "subscriptions", false⟩,
      ⟨.reader, .update, .resource "subscriptions", true⟩,
      ⟨.anon, .create, .resource "users", true⟩] := by
  decide +kernel

namespace Ability

variable {holder role : Role} {held action : Action} {covered kind : String} {ownerOnly : Bool}

/-- An ability to manage everything has a say in all checks of its role. -/
theorem isRelevant_manage_anything_iff :
    IsRelevant ⟨holder, .manage, .anything, ownerOnly⟩ role action kind ↔ role = holder :=
  ⟨fun h => h.1.symm, fun h => ⟨h.symm, .inr rfl, rfl⟩⟩

/-- An ability for a narrow action and one type has a say in that action and type only. -/
theorem isRelevant_narrow_iff (h : held ≠ .manage) :
    IsRelevant ⟨holder, held, .resource covered, ownerOnly⟩ role action kind ↔
      role = holder ∧ action = held ∧ kind = covered := by
  constructor
  · rintro ⟨hrole, haction, hcovers⟩
    exact ⟨hrole.symm, (haction.resolve_right h).symm, (eq_of_beq hcovers).symm⟩
  · rintro ⟨rfl, rfl, rfl⟩
    exact ⟨rfl, .inl rfl, beq_self_eq_true kind⟩

end Ability

namespace Registry

/-! ### Registries that hold the table -/

/-- A registry holds the entries of the table and nothing else, in any order and number. -/
def HoldsTable (r : Registry) : Prop :=
  ∀ a, a ∈ r.abilities ↔ a ∈ builtIn

/-- What was granted to nothing is the table if it is a listing of it. -/
theorem holdsTable_grantAll {granted : List Ability} (h : ∀ a, a ∈ granted ↔ a ∈ builtIn) :
    (empty.grantAll granted).HoldsTable := by
  intro a
  rw [mem_abilities_grantAll_iff, abilities_empty]
  exact (or_iff_right List.not_mem_nil).trans (h a)

theorem holdsTable_grantBuiltIn : empty.grantBuiltIn.HoldsTable :=
  holdsTable_grantAll fun _ => Iff.rfl

section HoldsTable

variable {r : Registry} {role : Role} {action : Action} {kind : String}

/-- What the table gives without an owner restriction. -/
theorem hasRelevant_false_iff (h : r.HoldsTable) :
    r.HasRelevant role action kind false ↔
      role = .admin ∨ role = .reader ∧ action = .create ∧ kind ∈ ["products", "subscriptions"] := by
  simp [HasRelevant, h _, builtIn_eq, Ability.isRelevant_manage_anything_iff,
    Ability.isRelevant_narrow_iff, and_or_left]

/-- What the table gives to owners. -/
theorem hasRelevant_true_iff (h : r.HoldsTable) :
    r.HasRelevant role action kind true ↔
      role = .reader ∧ action = .update ∧ kind ∈ ["users", "products", "subscriptions"] ∨
      role = .anon ∧ action = .create ∧ kind = "users" := by
  simp [HasRelevant, h _, builtIn_eq, Ability.isRelevant_manage_anything_iff,
    Ability.isRelevant_narrow_iff, and_or_left, or_assoc]

end HoldsTable

/-! ### Answers by the table -/

section Answers

variable {r : Registry} {action : Action} {resource : Resource Id} {s : Subject}

/-- The scan finds something that is for everybody, or something for owners and the owner. -/
theorem permits_some_iff_hasRelevant :
    r.Permits action resource (some s) ↔ r.HasRelevant s.role action resource.kind false ∨
      r.HasRelevant s.role action resource.kind true ∧ s.Owns resource := by
  simp only [permits_some_iff, Ability.bearsOn_iff_isRelevant]
  constructor
  · rintro ⟨a, ha, hrelevant, howner⟩
    cases hownerOnly : a.ownerOnly with
    | false => exact .inl ⟨a, ha, hrelevant, hownerOnly⟩
    | true =>
      rw [hownerOnly] at howner
      exact .inr ⟨⟨a, ha, hrelevant, hownerOnly⟩, howner.resolve_left (by simp)⟩
  · rintro (⟨a, ha, hrelevant, hfree⟩ | ⟨⟨a, ha, hrelevant, -⟩, howns⟩)
    · exact ⟨a, ha, hrelevant, .inl hfree⟩
    · exact ⟨a, ha, hrelevant, .inr howns⟩

/-- In a registry that holds the table the scan follows the rule. -/
theorem permits_iff_allowedByTable (h : r.HoldsTable) :
    r.Permits action resource (some s) ↔ AllowedByTable action resource s := by
  rw [permits_some_iff_hasRelevant, hasRelevant_false_iff h, hasRelevant_true_iff h]
  constructor
  · rintro ((hadmin | ⟨hreader, hcreate⟩) | ⟨⟨hreader, hupdate, hkind⟩ | ⟨hanon, hcreate, hkind⟩,
      howns⟩)
    · exact .inl hadmin
    · exact .inr (.inl ⟨hreader, .inr hcreate⟩)
    · exact .inr (.inl ⟨hreader, .inl ⟨hupdate, hkind, howns⟩⟩)
    · exact .inr (.inr ⟨hanon, hcreate, hkind, howns⟩)
  · rintro (hadmin | ⟨hreader, ⟨hupdate, hkind, howns⟩ | hcreate⟩ | ⟨hanon, hcreate, hkind, howns⟩)
    · exact .inl (.inl hadmin)
    · exact .inr ⟨.inl ⟨hreader, hupdate, hkind⟩, howns⟩
    · exact .inl (.inr ⟨hreader, hcreate⟩)
    · exact .inr ⟨.inr ⟨hanon, hcreate, hkind⟩, howns⟩

end Answers

/-- A registry answers all checks by the rule: what it allows is passed, all the rest is denied to
    the role of the subject, and without a subject nothing is passed. -/
structure AnswersByTable (r : Registry) : Prop where
  ok_iff : ∀ (action : Action) (resource : Resource Id) (s : Subject),
    Id.run (r.check action resource (some s)) = .ok () ↔ AllowedByTable action resource s
  error_iff : ∀ (action : Action) (resource : Resource Id) (s : Subject),
    Id.run (r.check action resource (some s)) =
      .error ⟨action, resource.kind, .noAbility s.role⟩ ↔ ¬ AllowedByTable action resource s
  noSubject : ∀ (action : Action) (resource : Resource Id),
    Id.run (r.check action resource none) = .error ⟨action, resource.kind, .noSubject⟩
  otherRole : ∀ (action : Action) (resource : Resource Id) (s : Subject),
    s.role ∉ [Role.anon, .reader, .admin] →
      Id.run (r.check action resource (some s)) =
        .error ⟨action, resource.kind, .noAbility s.role⟩

/-- Whoever holds the table and nothing else answers by the rule. -/
theorem HoldsTable.answersByTable {r : Registry} (h : r.HoldsTable) : r.AnswersByTable := by
  have herror : ∀ (action : Action) (resource : Resource Id) (s : Subject),
      Id.run (r.check action resource (some s)) =
        .error ⟨action, resource.kind, .noAbility s.role⟩ ↔ ¬ AllowedByTable action resource s := by
    intro action resource s
    rw [← permits_iff_allowedByTable h]
    exact run_check_eq_error_iff
  refine ⟨fun action resource s => ?_, herror, fun _ _ => run_check_none,
    fun action resource s hrole => (herror action resource s).mpr fun hallowed => ?_⟩
  · rw [← permits_iff_allowedByTable h]
    exact run_check_eq_ok_iff
  · exact hrole hallowed.role_mem

/-! ### The document of the table -/

/-- Whatever spells the document of the table is read as that document. -/
theorem ofJson_builtIn {text : String} (h : Json.SpellsText Document.builtIn.encode text) :
    Document.ofJson text = .ok Document.builtIn := by
  have hread := Document.ofJson_ofAbilities h
  -- No entry is for the single type named `*`, so all scopes come back.
  rwa [map_normalised_eq_self fun a ha =>
    scope_ne_of_mem_builtIn a ((holdsTable_grantBuiltIn a).mp ha)] at hread

/-- **What the built-in table allows.**  The registry in which the table was granted answers all
    checks by the rule: for every subject, action and resource.  So does the registry that is made
    from the document of the table, after the document was written, with line breaks or without, and
    read back. -/
theorem builtIn_answersByTable :
    empty.grantBuiltIn.AnswersByTable ∧
    Document.ofJson Document.builtIn.toJson = .ok Document.builtIn ∧
    Document.ofJson Document.builtIn.encode.compact = .ok Document.builtIn ∧
    ∃ applied, empty.apply Document.builtIn = .ok (applied, builtIn.length) ∧
      Document.builtIn.applyInPlace.run.run empty = (.ok builtIn.length, applied) ∧
      applied.AnswersByTable := by
  have hwritable := Document.isWritable_encode Document.builtIn
  have happly : empty.apply Document.builtIn =
      .ok (empty.grantAll empty.grantBuiltIn.abilities, builtIn.length) :=
    empty.apply_ofAbilities empty.grantBuiltIn
  refine ⟨holdsTable_grantBuiltIn.answersByTable, ofJson_builtIn (Json.spellsText_pretty hwritable),
    ofJson_builtIn (Json.spellsText_compact hwritable), _, happly, run_applyInPlace_of_apply happly,
    (holdsTable_grantAll holdsTable_grantBuiltIn).answersByTable⟩

/-- By the document of the table a reader may change the own product but not remove it, a visitor may
    not offer one, and role 7, which the table does not know, may not even see it. -/
theorem builtIn_answersByTable_sampleProduct :
    let own : Resource Id := Product.resource ⟨1, 5⟩
    Role.mk 7 ∉ [Role.anon, .reader, .admin] ∧
    ∃ applied, empty.apply Document.builtIn = .ok (applied, builtIn.length) ∧
      Id.run (applied.check .update own (some ⟨.reader, 5⟩)) = .ok () ∧
      Id.run (applied.check .destroy own (some ⟨.reader, 5⟩)) =
        .error ⟨.destroy, "products", .noAbility .reader⟩ ∧
      Id.run (applied.check .create own (some User.anon.subject)) =
        .error ⟨.create, "products", .noAbility .anon⟩ ∧
      Id.run (applied.check .show own (some ⟨⟨7⟩, 5⟩)) =
        .error ⟨.show, "products", .noAbility ⟨7⟩⟩ := by
  intro own
  have hother : Role.mk 7 ∉ [Role.anon, .reader, .admin] := by decide +kernel
  obtain ⟨-, -, -, applied, happly, -, hanswers⟩ := builtIn_answersByTable
  refine ⟨hother, applied, happly, ?_, ?_, ?_, hanswers.otherRole .show own ⟨⟨7⟩, 5⟩ hother⟩
  · exact (hanswers.ok_iff .update own ⟨.reader, 5⟩).mpr (by decide +kernel)
  · exact (hanswers.error_iff .destroy own ⟨.reader, 5⟩).mpr (by decide +kernel)
  · exact (hanswers.error_iff .create own User.anon.subject).mpr (by decide +kernel)

end Registry

end Warden
