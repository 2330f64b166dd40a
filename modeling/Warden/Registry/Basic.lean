import Std.Data.TreeMap
import Warden.Ability

namespace Warden

/-!
# The registry of abilities

A registry keeps the abilities that were granted.  Nothing is dropped or merged: an ability
granted twice is held twice.

* `Registry` — one shelf for each slot, in the order of the slots; on a shelf the abilities
  stand in the order in which they were granted.
* `Registry.grant` — puts one ability on its shelf.
* `Registry.abilities` — all shelves, one after another.
* `Registry.shelf` — the view through which all other statements go (`shelf_grant`).
-/

/-- The abilities granted so far, kept by slot. -/
structure Registry where
  shelves : Std.TreeMap Slot (Array Ability) Slot.order
  slot_eq : ∀ (slot : Slot) (shelf : Array Ability), shelves[slot]? = some shelf →
    ∀ a ∈ shelf, a.slot = slot

namespace Registry

/-- The registry in which nothing has been granted. -/
def empty : Registry where
  shelves := ∅
  slot_eq := by
    intro slot shelf h
    simp at h

instance : Inhabited Registry := ⟨empty⟩

/-- Holds one more ability, at the end of its shelf. -/
def grant (r : Registry) (a : Ability) : Registry where
  shelves := r.shelves.alter a.slot fun shelf? => some ((shelf?.getD #[]).push a)
  slot_eq := by
    intro slot shelf h b hb
    rw [Std.TreeMap.getElem?_alter] at h
    split at h
    -- On its own shelf `b` stood there before, or it is the new ability.
    case isTrue heq =>
      obtain rfl : a.slot = slot := Std.LawfulEqCmp.eq_of_compare heq
      obtain rfl := Option.some.inj h
      rcases Array.mem_push.mp hb with hb | rfl
      · cases hshelf : r.shelves[a.slot]? with
        | none => simp [hshelf] at hb
        | some old => exact r.slot_eq a.slot old hshelf b (by simpa [hshelf] using hb)
      · rfl
    -- Every other shelf is as it was.
    case isFalse => exact r.slot_eq slot shelf h b hb

/-- Holds several more abilities, granted one after another. -/
def grantAll (r : Registry) (history : List Ability) : Registry :=
  history.foldl grant r

/-- Grants an ability for every resource of a scope. -/
def authorise (r : Registry) (role : Role) (action : Action) (scope : Scope) : Registry :=
  r.grant ⟨role, action, scope, false⟩

/-- Grants an ability for those resources of a scope that the subject owns. -/
def authoriseOwner (r : Registry) (role : Role) (action : Action) (scope : Scope) : Registry :=
  r.grant ⟨role, action, scope, true⟩

/-- The abilities held in one slot, in the order in which they were granted. -/
def shelf (r : Registry) (slot : Slot) : List Ability :=
  (r.shelves[slot]?.getD #[]).toList

/-- All abilities held: by role, then by action, then in the order in which they were granted. -/
def abilities (r : Registry) : List Ability :=
  r.shelves.toList.flatMap fun entry => entry.2.toList

/-- How many abilities are held. -/
def len (r : Registry) : Nat :=
  r.shelves.foldl (fun n _ shelf => n + shelf.size) 0

/-- Whether no ability is held. -/
def isEmpty (r : Registry) : Bool :=
  r.len == 0

/-! ### The shelves -/

@[simp] theorem shelf_empty (slot : Slot) : empty.shelf slot = [] := by
  simp [shelf, empty]

/-- A grant goes to the end of its own shelf and leaves all others alone. -/
theorem shelf_grant (r : Registry) (a : Ability) (slot : Slot) :
    (r.grant a).shelf slot = if a.slot = slot then r.shelf slot ++ [a] else r.shelf slot := by
  simp only [shelf, grant, Std.TreeMap.getElem?_alter]
  by_cases h : a.slot = slot
  · subst h
    simp
  · have hne : Slot.order a.slot slot ≠ .eq := fun e => h (Std.LawfulEqCmp.eq_of_compare e)
    simp [h, hne]

/-- A shelf holds abilities of its own slot only. -/
theorem slot_of_mem_shelf {r : Registry} {slot : Slot} {a : Ability} (h : a ∈ r.shelf slot) :
    a.slot = slot := by
  unfold shelf at h
  cases hshelf : r.shelves[slot]? with
  | none => simp [hshelf] at h
  | some abilities => exact r.slot_eq slot abilities hshelf a (by simpa [hshelf] using h)

end Registry

end Warden
