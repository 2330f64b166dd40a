import Warden.Json.Record
import Warden.Json.Value
import Warden.Policy.Grant

namespace Warden

/-!
# The JSON of policy values

How actions, scopes, roles, references, abilities and grants are read and written.

* `Action.decode`, `Scope.decode`, … — reading, with the mismatches that each value can have.
* `Action.encode`, `Scope.encode`, … — writing.
* `Draft` — the four fields of an ability or a grant, as far as they were read.
-/

open Json (Reader Record Field)

/-! ### Single values -/

/-- Reads an action by its name. -/
def Action.decode : Reader Action := do
  let text ← Reader.string
  match Action.ofText? text with
  | some action => pure action
  | none => Reader.refuse (.unknownAction text)

/-- Reads a scope from its text. -/
def Scope.decode : Reader Scope := do
  let text ← Reader.string
  pure (.ofText text)

/-- Reads a role by its number. -/
def Role.decode : Reader Role := do
  let id ← Reader.int64
  pure ⟨id⟩

/-- The most containers that may be open at once around a value that is kept. -/
def depthLimit : Nat :=
  127

/-- The reference that a value stands for, if it does. -/
def RoleRef.ofScalar? : Json.Scalar → Option RoleRef
  | .text chars => some (name (String.ofList chars))
  | .number n => n.integer?.bind fun i => if Text.inInt64 i then some (id (Int64.ofInt i)) else none
  | _ => none

/-- The fault of a container in place of a reference, inside `depth` others.  The container is
    read to its end before it is refused. -/
def RoleRef.containerFault (depth : Nat) (text : List Char) : Json.Fault :=
  match Json.pass .kept (some (depthLimit - depth)) [] .value text with
  | .error fault => fault
  | .ok _ => .mismatch .noRole

/-- Reads a reference to a role inside `depth` containers: a string, or a number in range. -/
def RoleRef.decode (depth : Nat) : Reader RoleRef where
  run := fun s =>
    match Json.skipGaps s with
    | '[' :: rest => .error (containerFault depth ('[' :: rest))
    | '\x7b' :: rest => .error (containerFault depth ('\x7b' :: rest))
    | text =>
        match Json.scanScalar .kept text with
        | .error fault => .error fault
        | .ok (x, rest) =>
            match ofScalar? x with
            | some ref => .ok (ref, rest)
            | none => .error (.mismatch .noRole)
  length_le := by
    intro s rest ref h
    split at h
    case h_1 => cases h
    case h_2 => cases h
    case h_3 =>
      split at h
      · cases h
      · next hscalar =>
        split at h
        · cases h
          exact Nat.le_trans (Nat.le_of_lt (Json.length_scanScalar_lt hscalar))
            (Json.length_skipGaps_le s)
        · cases h

/-- An action is written by its name. -/
def Action.encode (a : Action) : Json :=
  .ofString a.name

/-- A scope is written as its text. -/
def Scope.encode (s : Scope) : Json :=
  .ofString s.text

/-- A role is written as its number. -/
def Role.encode (r : Role) : Json :=
  .ofInt r.id.toInt

/-- A reference is written as the number or the text that it is. -/
def RoleRef.encode : RoleRef → Json
  | id number => .ofInt number.toInt
  | name text => .ofString text

/-! ### Abilities and grants -/

/-- The fields of an ability or a grant that have been read. -/
structure Draft (ρ : Type) where
  role : Option ρ := none
  action : Option Action := none
  scope : Option Scope := none
  ownerOnly : Option Bool := none

/-- The record of an ability or a grant: four fields, of which the last may be left out. -/
def Draft.record {ρ α : Type} (title scopeName ownerName : String) (role : Reader ρ)
    (make : ρ → Action → Scope → Bool → α) : Record (Draft ρ) α where
  title := title
  fields :=
    [{ name := "role", optional := false, isFilled := (·.role.isSome),
       fill := fun d => do
        let value ← role
        pure { d with role := some value } },
     { name := "action", optional := false, isFilled := (·.action.isSome),
       fill := fun d => do
        let value ← Action.decode
        pure { d with action := some value } },
     { name := scopeName, optional := false, isFilled := (·.scope.isSome),
       fill := fun d => do
        let value ← Scope.decode
        pure { d with scope := some value } },
     { name := ownerName, optional := true, isFilled := (·.ownerOnly.isSome),
       fill := fun d => do
        let value ← Reader.boolean
        pure { d with ownerOnly := some value } }]
  blank := {}
  finish := fun d =>
    match d.role, d.action, d.scope with
    | none, _, _ => .error (.missing "role")
    | _, none, _ => .error (.missing "action")
    | _, _, none => .error (.missing scopeName)
    | some role, some action, some scope =>
        .ok (make role action scope (d.ownerOnly.getD false))

/-- Reads an ability. -/
def Ability.decode : Reader Ability :=
  (Draft.record "Ability" "scope" "owner_only" Role.decode Ability.mk).reader

/-- Reads a grant inside `depth` containers. -/
def Grant.decode (depth : Nat) : Reader Grant :=
  (Draft.record "Grant" "resource" "owner" (RoleRef.decode (depth + 1)) Grant.mk).reader

/-- An ability is written with all its fields. -/
def Ability.encode (a : Ability) : Json :=
  .object
    [("role".toList, a.role.encode), ("action".toList, a.action.encode),
      ("scope".toList, a.scope.encode), ("owner_only".toList, .boolean a.ownerOnly)]

/-- A grant is written without its last field if that is false. -/
def Grant.encode (g : Grant) : Json :=
  .object
    ([("role".toList, g.role.encode), ("action".toList, g.action.encode),
      ("resource".toList, g.scope.encode)] ++
      if g.ownerOnly then [("owner".toList, .boolean true)] else [])

end Warden
