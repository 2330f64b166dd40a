import Warden.Text.Blank
import Warden.Text.Letters

namespace Warden

/-!
# Actions

The closed vocabulary of what a subject may do with a resource.

* `Action` — five narrow actions and `manage`, which implies all of them.
* `Action.candidates a` — the actions whose abilities can allow `a`.
* `Action.ofText? s` — the action that a text names, in any ASCII case, between blanks, with
  or without the ending `resource`; `Action.resolve` gives back a text that names none.
-/

/-- What a subject wants to do. -/
inductive Action where
  | «show»
  | list
  | create
  | update
  | destroy
  | manage
  deriving DecidableEq, Repr, Inhabited

namespace Action

/-- All actions, in their order. -/
def all : List Action :=
  [«show», list, create, update, destroy, manage]

/-- The place of an action in the order. -/
def rank : Action → Nat
  | «show» => 0
  | list => 1
  | create => 2
  | update => 3
  | destroy => 4
  | manage => 5

instance : Ord Action := ⟨fun a b => compare a.rank b.rank⟩

/-- The name by which an action is written. -/
def name : Action → String
  | «show» => "show"
  | list => "list"
  | create => "create"
  | update => "update"
  | destroy => "destroy"
  | manage => "manage"

/-- The actions whose abilities can allow `a`: itself, and `manage` for a narrow one. -/
def candidates : Action → List Action
  | manage => [manage]
  | a => [a, manage]

/-- Whether an ability for `held` can allow the action `wanted`. -/
def implies (held wanted : Action) : Bool :=
  wanted.candidates.contains held

/-! ### Reading -/

/-- The ending that action names may carry. -/
def ending : List Char :=
  "resource".toList

/-- The text without one trailing `ending`, if it has one. -/
def dropEnding (s : List Char) : List Char :=
  if ending.isSuffixOf s then s.take (s.length - ending.length) else s

/-- The action that a text names, if any. -/
def ofText? (s : String) : Option Action :=
  let core := dropEnding (Text.lower (Text.trim s.toList))
  all.find? fun a => a.name.toList == core

/-- The action that a text names; a text that names none is given back as it is. -/
def resolve (s : String) : Except String Action :=
  match ofText? s with
  | some action => .ok action
  | none => .error s

/-! ### The order and the names -/

theorem mem_all (a : Action) : a ∈ all := by
  cases a <;> decide

theorem rank_injective {a b : Action} (h : a.rank = b.rank) : a = b := by
  cases a <;> cases b <;> first | rfl | cases h

theorem name_injective {a b : Action} (h : a.name = b.name) : a = b := by
  cases a <;> cases b <;> first | rfl | (revert h; decide)

/-- An ability implies an action exactly when it is for that action or for `manage`. -/
theorem implies_iff {held wanted : Action} :
    held.implies wanted = true ↔ held = wanted ∨ held = manage := by
  cases held <;> cases wanted <;> decide

/-! ### Reading, tried out -/

example : ofText? " ShowResource\n" = some «show» := by decide +kernel

example : ofText? "resource" = none ∧ ofText? "showresourceresource" = none ∧
    ofText? "show resource" = none := by decide +kernel

end Action

end Warden
