import Warden.BuiltIn

namespace Warden.Registry

/-!
# What a registry holds

The listing of a registry goes shelf by shelf, so what it holds is known from the shelves, and
those are known from what was granted.

* `mem_abilities_iff` — an ability is listed exactly when it stands on the shelf of its slot.
* `shelf_grantAll` — a shelf after several grants: what stood there, and behind it those of the
  new abilities that belong there.
* `mem_abilities_grantAll_iff` — nothing else is listed after several grants.
-/

/-! ### Shelves and listing -/

/-- A shelf that the map holds is the shelf of its slot. -/
theorem shelf_of_getElem? {r : Registry} {slot : Slot} {shelf : Array Ability}
    (h : r.shelves[slot]? = some shelf) : r.shelf slot = shelf.toList := by
  rw [Registry.shelf, h, Option.getD_some]

/-- An ability is listed exactly when it stands on the shelf of its slot. -/
theorem mem_abilities_iff {r : Registry} {a : Ability} :
    a ∈ r.abilities ↔ a ∈ r.shelf a.slot := by
  simp only [abilities, List.mem_flatMap]
  constructor
  · rintro ⟨⟨slot, shelf⟩, hentry, ha⟩
    have hshelf := shelf_of_getElem? (Std.TreeMap.mem_toList_iff_getElem?_eq_some.mp hentry)
    -- The shelf holds abilities of its own slot only, so it is the one of `a`.
    have hmem : a ∈ r.shelf slot := by rw [hshelf]; exact ha
    rw [slot_of_mem_shelf hmem]
    exact hmem
  · intro ha
    cases hshelf : r.shelves[a.slot]? with
    | none => simp [Registry.shelf, hshelf] at ha
    | some shelf =>
      rw [shelf_of_getElem? hshelf] at ha
      exact ⟨(a.slot, shelf), Std.TreeMap.mem_toList_iff_getElem?_eq_some.mpr hshelf, ha⟩

/-- What stands on a shelf is what is listed of its role and action. -/
theorem mem_shelf_iff {r : Registry} {slot : Slot} {a : Ability} :
    a ∈ r.shelf slot ↔ a ∈ r.abilities ∧ a.slot = slot := by
  rw [mem_abilities_iff]
  constructor
  · intro ha
    have hslot := slot_of_mem_shelf ha
    exact ⟨by rw [hslot]; exact ha, hslot⟩
  · rintro ⟨ha, rfl⟩
    exact ha

/-! ### Grants -/

/-- Several grants put each ability behind what stands on its shelf, in their order. -/
theorem shelf_grantAll (r : Registry) (history : List Ability) (slot : Slot) :
    (r.grantAll history).shelf slot =
      r.shelf slot ++ history.filter fun a => decide (a.slot = slot) := by
  unfold grantAll
  induction history generalizing r with
  | nil => simp
  | cons a history ih =>
    -- The others are granted to a registry that holds `a` already.
    rw [List.foldl_cons, ih, shelf_grant]
    by_cases h : a.slot = slot <;> simp [h]

@[simp] theorem abilities_empty : empty.abilities = [] := rfl

/-- After several grants a registry holds what it held and what was granted. -/
theorem mem_abilities_grantAll_iff {r : Registry} {history : List Ability} {a : Ability} :
    a ∈ (r.grantAll history).abilities ↔ a ∈ r.abilities ∨ a ∈ history := by
  rw [mem_abilities_iff, shelf_grantAll, List.mem_append, ← mem_abilities_iff]
  simp

end Warden.Registry
