import Mathlib.Data.List.Forall2
import Warden.Policy.Document

namespace Warden

/-!
# What policy values are denoted by

The values that stand for actions, scopes, references, grants and whole documents, told without
any reader.

* `Json.Numeral.Denotes` — the integers that a numeral stands for.
* `RoleRef.Denotes`, `Action.Denotes`, `Scope.Denotes`, `Role.Denotes` — single values.
* `HasParts` — the parts of a grant or an ability: in an object by their names, each once and among
  members of any other names, or in an array by their places.
* `Grant.Denotes`, `Ability.Denotes`, `Document.Denotes` — what the parts come to.
-/

namespace Json

/-- The integer that a numeral stands for: it has neither a fraction nor an exponent, and it is
    not a negative zero. -/
def Numeral.Denotes (n : Numeral) (i : Int) : Prop :=
  n.fraction = none ∧ n.exponent = none ∧ Text.signedValue n.negative n.whole = i ∧
    (n.negative = true → i ≠ 0)

/-- The values that stand behind a key in an object, in their order. -/
def valuesOf (key : String) (members : List (List Char × Json)) : List Json :=
  (members.filter fun m => String.ofList m.1 == key).map Prod.snd

theorem valuesOf_cons_of_eq {key : String} {k : List Char} (h : String.ofList k = key) (v : Json)
    (ms : List (List Char × Json)) : valuesOf key ((k, v) :: ms) = v :: valuesOf key ms := by
  simp [valuesOf, h]

theorem valuesOf_cons_of_ne {key : String} {k : List Char} (h : String.ofList k ≠ key) (v : Json)
    (ms : List (List Char × Json)) : valuesOf key ((k, v) :: ms) = valuesOf key ms := by
  simp [valuesOf, h]

end Json

/-! ### Single values -/

/-- A string stands for the role of that name, an integer for the role of that number. -/
inductive RoleRef.Denotes : Json → RoleRef → Prop
  | name (text : String) : Denotes (.ofString text) (.name text)
  | id {n : Json.Numeral} {number : Int64} :
      n.Denotes number.toInt → Denotes (.number n) (.id number)

/-- An integer stands for the role of that number. -/
def Role.Denotes (v : Json) (role : Role) : Prop :=
  ∃ n, v = .number n ∧ n.Denotes role.id.toInt

/-- A string stands for the action that it names. -/
def Action.Denotes (v : Json) (action : Action) : Prop :=
  ∃ text, v = .ofString text ∧ Action.ofText? text = some action

/-- A string stands for the scope of that resource type, and `*` for all of them. -/
def Scope.Denotes (v : Json) (scope : Scope) : Prop :=
  ∃ text, v = .ofString text ∧ scope = .ofText text

/-! ### Grants and abilities -/

/-- The values of the four parts of a grant or an ability.  In an object they stand behind their
    names, the first three of them exactly once; in an array they stand in their order, and
    whatever follows the third counts for the last one. -/
inductive HasParts (scopeName ownerName : String) :
    Json → Json → Json → Json → List Json → Prop
  | named {members : List (List Char × Json)} {role action scope : Json} :
      Json.valuesOf "role" members = [role] → Json.valuesOf "action" members = [action] →
      Json.valuesOf scopeName members = [scope] →
      HasParts scopeName ownerName (.object members) role action scope
        (Json.valuesOf ownerName members)
  | placed (role action scope : Json) (owner : List Json) :
      HasParts scopeName ownerName (.array (role :: action :: scope :: owner)) role action scope
        owner

/-- The values of a part that may be left out: none at all for its default, or one. -/
inductive OptionalDenotes {β : Type} (R : Json → β → Prop) (default : β) :
    List Json → β → Prop
  | unset : OptionalDenotes R default [] default
  | set {v : Json} {x : β} : R v x → OptionalDenotes R default [v] x

/-- A truth value stands for itself. -/
def FlagDenotes (v : Json) (flag : Bool) : Prop :=
  v = .boolean flag

/-- A grant and its parts. -/
def Grant.Denotes (v : Json) (g : Grant) : Prop :=
  ∃ role action scope owner, HasParts "resource" "owner" v role action scope owner ∧
    RoleRef.Denotes role g.role ∧ Action.Denotes action g.action ∧
    Scope.Denotes scope g.scope ∧ OptionalDenotes FlagDenotes false owner g.ownerOnly

/-- An ability and its parts. -/
def Ability.Denotes (v : Json) (a : Ability) : Prop :=
  ∃ role action scope owner, HasParts "scope" "owner_only" v role action scope owner ∧
    Role.Denotes role a.role ∧ Action.Denotes action a.action ∧
    Scope.Denotes scope a.scope ∧ OptionalDenotes FlagDenotes false owner a.ownerOnly

/-! ### Documents -/

/-- An array stands for the grants of its elements, in their order. -/
def GrantsDenote (v : Json) (grants : List Grant) : Prop :=
  ∃ items, v = .array items ∧ List.Forall₂ Grant.Denotes items grants

/-- A document and its only part, which stands behind its name in an object or alone in an array,
    and without which there are no grants. -/
inductive Document.Denotes : Json → Document → Prop
  | named {members : List (List Char × Json)} {d : Document} :
      OptionalDenotes GrantsDenote [] (Json.valuesOf "grants" members) d.grants →
      Denotes (.object members) d
  | placed {vs : List Json} {d : Document} :
      OptionalDenotes GrantsDenote [] vs d.grants → Denotes (.array vs) d

end Warden
