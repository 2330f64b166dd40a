import Warden.Proofs.Policy.Granting

namespace Warden

/-!
# Applying a document

A document is applied as a whole or not at all.  To see that, it is applied here to a registry that
is changed in place, where whatever was granted before a failure would stay.

* `RoleRef.resolve_eq_error_iff` — the references that do not resolve.
* `Document.Resolves` and `Document.FirstUnknown` — all references of a document resolve, or the
  first one that does not is the given text; `Document.abilities_eq_error_iff` ties the latter to
  what the document grants.
* `Document.applyInPlace` — all references are resolved, then the abilities are granted one after
  another; `Document.run_applyInPlace` compares it with `Registry.apply`.
* `Document.apply_all_or_nothing` — the registry afterwards, in both cases.
-/

/-! ### References that do not resolve -/

/-- A reference that does not resolve is a text that denotes no role, and this text is given back. -/
theorem RoleRef.resolve_eq_error_iff {ref : RoleRef} {text : String} :
    ref.resolve = .error text ↔ ref = .name text ∧ Role.ofText? text = none := by
  cases ref with
  | id number => exact iff_of_false (by rintro ⟨⟩) (by rintro ⟨⟨⟩, _⟩)
  | name text' =>
    simp only [resolve, RoleRef.name.injEq]
    cases hrole : Role.ofText? text' with
    | some role => exact iff_of_false (by rintro ⟨⟩) (by rintro ⟨rfl, h⟩; simp [hrole] at h)
    | none =>
      constructor
      · intro h
        obtain rfl := Except.error.inj h
        exact ⟨rfl, hrole⟩
      · rintro ⟨rfl, -⟩
        rfl

/-- A grant has an ability exactly if its reference resolves. -/
theorem Grant.exists_ability_iff {g : Grant} :
    (∃ a, g.ability = .ok a) ↔ ∃ role, g.role.resolve = .ok role := by
  simp only [Grant.ability_eq_ok_iff]
  constructor
  · rintro ⟨_, role, hrole, -⟩
    exact ⟨role, hrole⟩
  · rintro ⟨role, hrole⟩
    exact ⟨_, role, hrole, rfl⟩

/-- An ability is what a grant gives: the role is the one its reference resolves to, and the rest is
    the same. -/
def Grant.Gives (g : Grant) (a : Ability) : Prop :=
  g.role.resolve = .ok a.role ∧ a.action = g.action ∧ a.scope = g.scope ∧ a.ownerOnly = g.ownerOnly

theorem Grant.gives_iff {g : Grant} {a : Ability} : g.Gives a ↔ g.ability = .ok a := by
  rw [Grant.ability_eq_ok_iff]
  constructor
  · rintro ⟨hrole, haction, hscope, howner⟩
    exact ⟨a.role, hrole, by rw [← haction, ← hscope, ← howner]⟩
  · rintro ⟨role, hrole, rfl⟩
    exact ⟨hrole, rfl, rfl, rfl⟩

theorem Grant.ability_eq_error_iff {g : Grant} {text : String} :
    g.ability = .error text ↔ g.role.resolve = .error text := by
  unfold Grant.ability
  simp [bind_eq_error_iff, pure, Except.pure]

namespace Document

/-- All references of a document resolve. -/
def Resolves (d : Document) : Prop :=
  ∀ g ∈ d.grants, ∃ role, g.role.resolve = .ok role

/-- The first reference of a document that does not resolve is the given text, which denotes no
    role. -/
def FirstUnknown (d : Document) (text : String) : Prop :=
  ∃ before g after, d.grants = before ++ g :: after ∧
    (∀ g' ∈ before, ∃ role, g'.role.resolve = .ok role) ∧
    g.role = .name text ∧ Role.ofText? text = none

/-- A document names a text, instead of granting abilities, exactly if that text is the first one in
    it that does not resolve. -/
theorem abilities_eq_error_iff {d : Document} {text : String} :
    d.abilities = .error text ↔ d.FirstUnknown text := by
  rw [abilities, mapM_eq_error_iff]
  simp only [FirstUnknown, Grant.exists_ability_iff, Grant.ability_eq_error_iff,
    RoleRef.resolve_eq_error_iff]

/-- A document whose references do not all resolve has a first one that does not. -/
theorem exists_firstUnknown {d : Document} (h : ¬ d.Resolves) : ∃ text, d.FirstUnknown text := by
  cases habilities : d.abilities with
  | error text => exact ⟨text, abilities_eq_error_iff.mp habilities⟩
  | ok abilities =>
    refine absurd (fun g hg => ?_) h
    exact Grant.exists_ability_iff.mp (exists_of_mapM_eq_ok habilities g hg)

/-- A document is not applied exactly if a text is the first one in it that does not resolve. -/
theorem apply_eq_error_iff {r : Registry} {d : Document} {text : String} :
    r.apply d = .error text ↔ d.FirstUnknown text := by
  rw [← abilities_eq_error_iff]
  simp [Registry.apply, bind_eq_error_iff, pure, Except.pure]

/-! ### Changing a registry in place -/

/-- Applies a document to a registry that is changed in place, and says how many abilities were
    granted.  All references are resolved before the first ability is granted; what has been granted
    stays, whatever happens afterwards. -/
def applyInPlace (d : Document) : ExceptT PolicyError (StateM Registry) Nat := do
  let abilities ← d.grants.mapM fun g => ExceptT.mk (pure (g.ability.mapError .unknownRole))
  abilities.forM fun a => modify fun r => r.grant a
  pure abilities.length

section Runs

variable {ε ε' σ α β : Type}

/-- A list that is mapped without a look at the state is mapped without a change to it. -/
theorem run_mapM_mk_pure (f : α → Except ε β) (xs : List α) (s : σ) :
    (xs.mapM fun x => (ExceptT.mk (pure (f x)) : ExceptT ε (StateM σ) β)).run.run s =
      (xs.mapM f, s) := by
  induction xs with
  | nil => rfl
  | cons x xs ih =>
    rw [List.mapM_cons, List.mapM_cons]
    cases f x with
    | error e => rfl
    | ok y =>
      simp only [ExceptT.run_bind, StateT.run_bind, ExceptT.run_mk, pure_bind, ih]
      cases xs.mapM f <;> rfl

/-- Errors can be renamed after a list was mapped as well as at each of its elements. -/
theorem mapM_mapError (f : α → Except ε β) (rename : ε → ε') (xs : List α) :
    (xs.mapM fun x => (f x).mapError rename) = (xs.mapM f).mapError rename := by
  induction xs with
  | nil => rfl
  | cons x xs ih =>
    rw [List.mapM_cons, List.mapM_cons, ih]
    cases f x with
    | error e => rfl
    | ok y => cases xs.mapM f <;> rfl

/-- Abilities that are granted one after another in place are all granted in the end. -/
theorem run_forM_grant (granted : List Ability) (r : Registry) :
    (granted.forM fun a => (modify fun r => r.grant a :
      ExceptT PolicyError (StateM Registry) PUnit)).run.run r = (.ok (), r.grantAll granted) := by
  induction granted generalizing r with
  | nil => rfl
  | cons a granted ih => exact ih (r.grant a)

end Runs

/-- In place a document is applied as it is to a value: the registry ends as the new one, or stays as
    it was. -/
theorem run_applyInPlace (d : Document) (r : Registry) :
    d.applyInPlace.run.run r =
      match r.apply d with
      | .ok (applied, count) => (.ok count, applied)
      | .error text => (.error (.unknownRole text), r) := by
  have hresolved : (d.grants.mapM fun g => (ExceptT.mk (pure (g.ability.mapError .unknownRole)) :
      ExceptT PolicyError (StateM Registry) Ability)).run.run r =
        (d.abilities.mapError PolicyError.unknownRole, r) := by
    rw [run_mapM_mk_pure, mapM_mapError]
    rfl
  simp only [applyInPlace, ExceptT.run_bind, StateT.run_bind, hresolved]
  cases habilities : d.abilities with
  | error text =>
    rw [Registry.apply_of_unknown r habilities]
    rfl
  | ok abilities =>
    rw [Registry.apply_of_abilities r habilities]
    -- The loop runs on the registry that the resolution has left alone.
    show StateT.run (ExceptT.run (abilities.forM _) >>= _) r = _
    rw [StateT.run_bind, run_forM_grant]
    rfl

/-- **A document is applied as a whole or not at all.**  If all references resolve, the abilities of
    the grants are granted one after another, in the order of the document, and their number is
    returned.  If one does not, the first such text in the order of the document is returned as it
    is, and the registry stays as it was; so what it lists, how much it holds and what it answers to
    any check is the same as before. -/
theorem apply_all_or_nothing (d : Document) (r : Registry) :
    (d.Resolves → ∃ abilities, List.Forall₂ Grant.Gives d.grants abilities ∧
      r.apply d = .ok (r.grantAll abilities, d.grants.length) ∧
      d.applyInPlace.run.run r = (.ok d.grants.length, r.grantAll abilities)) ∧
    (¬ d.Resolves → ∃ text, d.FirstUnknown text ∧ r.apply d = .error text ∧
      d.applyInPlace.run.run r = (.error (.unknownRole text), r)) := by
  refine ⟨fun hresolves => ?_, fun hfails => ?_⟩
  · obtain ⟨abilities, habilities⟩ := exists_abilities hresolves
    have hgives : List.Forall₂ Grant.Gives d.grants abilities :=
      (mapM_eq_ok_iff.mp habilities).imp fun _ _ => Grant.gives_iff.mpr
    have happly := Registry.apply_of_abilities r habilities
    rw [← hgives.length_eq] at happly
    exact ⟨abilities, hgives, happly, by rw [run_applyInPlace, happly]⟩
  · obtain ⟨text, hfirst⟩ := exists_firstUnknown hfails
    have happly := Registry.apply_of_unknown r (abilities_eq_error_iff.mpr hfirst)
    exact ⟨text, hfirst, happly, by rw [run_applyInPlace, happly]⟩

/-- A document whose second and fourth grants name no role. -/
def sampleUnknown : Document :=
  ⟨[⟨.id 1, .show, .resource "pages", false⟩, ⟨.name " Owner ", .show, .resource "pages", true⟩,
    ⟨.name "ADMIN", .manage, .anything, false⟩, ⟨.name "guest", .list, .anything, false⟩]⟩

/-- The document without these two. -/
def sampleKnown : Document :=
  ⟨[⟨.id 1, .show, .resource "pages", false⟩, ⟨.name "ADMIN", .manage, .anything, false⟩]⟩

theorem firstUnknown_sampleUnknown : sampleUnknown.FirstUnknown " Owner " := by
  have howner : Role.ofText? " Owner " = none := by decide +kernel
  refine ⟨[_], _, _, rfl, fun g hg => ⟨⟨1⟩, ?_⟩, rfl, howner⟩
  rw [List.mem_singleton.mp hg]
  rfl

/-- A registry that already holds something stays as it was under the former, and gets two more
    abilities by the latter. -/
theorem apply_all_or_nothing_sampleUnknown :
    let held := Registry.empty.grant ⟨.reader, .create, .resource "products", false⟩
    sampleUnknown.applyInPlace.run.run held = (.error (.unknownRole " Owner "), held) ∧
    sampleKnown.applyInPlace.run.run held = (.ok 2, held.grantAll
      [⟨⟨1⟩, .show, .resource "pages", false⟩, ⟨.admin, .manage, .anything, false⟩]) := by
  intro held
  have hadmin : (RoleRef.name "ADMIN").resolve = .ok .admin := by decide +kernel
  refine ⟨?_, ?_⟩
  · have hfirst := abilities_eq_error_iff.mpr firstUnknown_sampleUnknown
    have hfails : ¬ sampleUnknown.Resolves := by
      intro hresolves
      obtain ⟨abilities, habilities⟩ := exists_abilities hresolves
      rw [hfirst] at habilities
      cases habilities
    obtain ⟨text, htext, -, hplace⟩ := (apply_all_or_nothing sampleUnknown held).2 hfails
    -- There is only one text that is the first.
    have hsame := (abilities_eq_error_iff.mpr htext).symm.trans hfirst
    rw [hplace, Except.error.inj hsame]
  · have hresolves : sampleKnown.Resolves :=
      List.forall_mem_cons.mpr ⟨⟨_, rfl⟩, List.forall_mem_singleton.mpr ⟨_, hadmin⟩⟩
    obtain ⟨abilities, hgives, -, hplace⟩ := (apply_all_or_nothing sampleKnown held).1 hresolves
    have hknown : sampleKnown.abilities =
        .ok [⟨⟨1⟩, .show, .resource "pages", false⟩, ⟨.admin, .manage, .anything, false⟩] := by
      decide +kernel
    have habilities := mapM_eq_ok_iff.mpr (hgives.imp fun _ _ => Grant.gives_iff.mp)
    rw [hplace, Except.ok.inj (habilities.symm.trans hknown)]
    rfl

end Document

end Warden
