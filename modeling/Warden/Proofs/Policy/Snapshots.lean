import Warden.Proofs.Policy.Applying
import Warden.Proofs.Policy.Copying

namespace Warden

/-!
# Snapshots

What a registry lists is a snapshot of its history: by role and action, no longer in the order of
registration.  Yet wherever the history could be registered, its snapshot can be applied instead, as
a document in memory, and nobody can tell the difference.

* `Registry.SameAnswers` — two registries that list the same, hold as much, and make the same checks.
* `Registry.sameAnswers_grantAll` — what is granted counts slot by slot only.
* `Registry.apply_ofAbilities` — a document of abilities can be applied to every registry.
* `Registry.apply_snapshot` — the snapshot of a history in place of the history.
-/

namespace Registry

/-- Two registries list the same abilities, hold as many, and make the same checks in every monad. -/
structure SameAnswers (r₁ r₂ : Registry) : Prop where
  abilities_eq : r₁.abilities = r₂.abilities
  len_eq : r₁.len = r₂.len
  check_eq : ∀ (m : Type → Type) [Monad m] (action : Action) (resource : Resource m)
    (subject : Option Subject), r₁.check action resource subject = r₂.check action resource subject

/-- Whatever can be asked of a registry is answered from the listing. -/
theorem sameAnswers_of_abilities_eq {r₁ r₂ : Registry} (h : r₁.abilities = r₂.abilities) :
    r₁.SameAnswers r₂ where
  abilities_eq := h
  len_eq := by rw [len_eq_length, len_eq_length, h]
  check_eq := fun _ _ action resource subject => check_eq_of_abilities_eq h action resource subject

/-- What is granted counts slot by slot only: the order among different slots makes no difference,
    whatever the registry held before. -/
theorem sameAnswers_grantAll (r : Registry) {granted granted' : List Ability}
    (h : ∀ slot, granted.filter (fun a => decide (a.slot = slot)) =
      granted'.filter fun a => decide (a.slot = slot)) :
    (r.grantAll granted).SameAnswers (r.grantAll granted') := by
  refine sameAnswers_of_abilities_eq ?_
  refine Ability.eq_of_sorted (pairwise_abilities _) (pairwise_abilities _) fun slot => ?_
  rw [filter_abilities, filter_abilities, shelf_grantAll, shelf_grantAll, h]

/-- In each slot a snapshot shows the history. -/
theorem filter_abilities_grantAll_empty (history : List Ability) (slot : Slot) :
    (empty.grantAll history).abilities.filter (fun a => decide (a.slot = slot)) =
      history.filter fun a => decide (a.slot = slot) := by
  rw [filter_abilities, shelf_grantAll, shelf_empty, List.nil_append]

/-- A document that can be applied is applied in place as well, with the same result. -/
theorem run_applyInPlace_of_apply {target applied : Registry} {d : Document} {count : Nat}
    (h : target.apply d = .ok (applied, count)) :
    d.applyInPlace.run.run target = (.ok count, applied) := by
  rw [Document.run_applyInPlace, h]

/-- A document of what a registry lists can be applied to every registry, and grants all of it. -/
theorem apply_ofAbilities (target source : Registry) :
    target.apply (Document.ofAbilities source.abilities) =
      .ok (target.grantAll source.abilities, source.len) := by
  rw [len_eq_length]
  exact apply_of_abilities target (Document.abilities_ofAbilities source.abilities)

/-- **A snapshot can take the place of its history.**  Take a registry with any history, and the
    document of what it lists.  Applied in memory to a registry with any other history, the document
    is always accepted, says how many abilities the first registry holds, and leaves the second one
    as if it had been given the history itself: with the same listing, the same number of abilities
    and the same checks.  In particular the document of the built-in table does the same to every
    registry as granting the table, whose order is another one. -/
theorem apply_snapshot (before later : List Registration) :
    let target := empty.registerAll before
    let source := empty.registerAll later
    (∃ applied, target.apply (Document.ofAbilities source.abilities) = .ok (applied, source.len) ∧
      (Document.ofAbilities source.abilities).applyInPlace.run.run target =
        (.ok source.len, applied) ∧
      applied.SameAnswers (empty.registerAll (before ++ later))) ∧
    ∃ applied, target.apply Document.builtIn = .ok (applied, builtIn.length) ∧
      Document.builtIn.applyInPlace.run.run target = (.ok builtIn.length, applied) ∧
      applied.SameAnswers target.grantBuiltIn := by
  intro target source
  have hsource : source = empty.grantAll (history later) := registerAll_eq_grantAll empty later
  have hboth : empty.registerAll (before ++ later) = target.grantAll (history later) := by
    rw [← registerAll_eq_grantAll]
    exact List.foldl_append
  have happly := target.apply_ofAbilities source
  have htable : target.apply Document.builtIn =
      .ok (target.grantAll empty.grantBuiltIn.abilities, builtIn.length) :=
    target.apply_ofAbilities empty.grantBuiltIn
  refine ⟨⟨_, happly, run_applyInPlace_of_apply happly, ?_⟩, _, htable,
    run_applyInPlace_of_apply htable, ?_⟩
  · rw [hboth, hsource]
    exact sameAnswers_grantAll target (filter_abilities_grantAll_empty (history later))
  · exact sameAnswers_grantAll target (filter_abilities_grantAll_empty builtIn)

/-- The table and its snapshot are in different orders. -/
example : empty.grantBuiltIn.abilities ≠ builtIn := by decide +kernel

end Registry

end Warden
