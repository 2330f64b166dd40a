namespace Warden

/-!
# Scopes

Which resource types an ability covers: one type, or all of them.

* `Scope.ofText` — the reading of a scope, in which `*` stands for all types.
* `Scope.text` — the writing of it.  The scope of the single type named `*` is a value of its
  own but has the same text as the wildcard, so reading what was written gives back every
  scope except that one (`ofText_text`).
-/

/-- The resource types that an ability covers. -/
inductive Scope where
  | anything
  | resource (kind : String)
  deriving DecidableEq, Repr, Inhabited

namespace Scope

/-- The text that stands for all resource types. -/
def wildcard : String :=
  "*"

/-- The scope that a text denotes. -/
def ofText (text : String) : Scope :=
  if text = wildcard then anything else resource text

/-- The text of a scope. -/
def text : Scope → String
  | anything => wildcard
  | resource kind => kind

/-- Whether a scope covers a resource type. -/
def covers : Scope → String → Bool
  | anything, _ => true
  | resource kind, other => kind == other

@[simp] theorem text_ofText (text : String) : (ofText text).text = text := by
  unfold ofText
  split
  case isTrue h => exact h.symm
  case isFalse => rfl

/-- Reading undoes writing for every scope but that of the single type named `*`. -/
theorem ofText_text {scope : Scope} (h : scope ≠ resource wildcard) :
    ofText scope.text = scope := by
  cases scope with
  | anything => rfl
  | resource kind =>
    have hkind : kind ≠ wildcard := fun e => h (e ▸ rfl)
    simp [ofText, text, hkind]

theorem covers_ofText_iff {text kind : String} :
    (ofText text).covers kind = true ↔ text = wildcard ∨ text = kind := by
  by_cases h : text = wildcard <;> simp [ofText, covers, h]

end Scope

end Warden
