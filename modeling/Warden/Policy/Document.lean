import Warden.BuiltIn
import Warden.Policy.Shape

namespace Warden

/-!
# Policy documents

A policy document is a list of grants that replaces the built-in table.

* `Document.ofJson` and `Document.toJson` — reading and writing.
* `Document.ofAbilities` — a document of what a registry holds.
* `Registry.apply` — registers all grants of a document, or none if a role does not resolve.
-/

open Json (Reader Record Field)

/-- A list of grants. -/
structure Document where
  grants : List Grant
  deriving DecidableEq, Repr

namespace Document

/-! ### Text -/

/-- The record of a document: one field, which may be left out. -/
def record : Record (Option (List Grant)) Document where
  title := "PolicyDocument"
  fields :=
    [{ name := "grants", optional := true, isFilled := Option.isSome,
       fill := fun _ => do
        let grants ← Reader.items (Grant.decode 2)
        pure (some grants) }]
  blank := none
  finish := fun grants => .ok ⟨grants.getD []⟩

/-- Reads a document. -/
def decode : Reader Document :=
  record.reader

/-- The document that a text holds. -/
def ofJson (text : String) : Except Json.Fault Document :=
  decode.read text

/-- A document is written with its one field. -/
def encode (d : Document) : Json :=
  .object [("grants".toList, .array (d.grants.map Grant.encode))]

/-- The text of a document, with one field on each line. -/
def toJson (d : Document) : String :=
  d.encode.pretty

/-! ### Abilities -/

/-- The document that grants the given abilities. -/
def ofAbilities (abilities : List Ability) : Document :=
  ⟨abilities.map Grant.ofAbility⟩

/-- The built-in table as a document. -/
def builtIn : Document :=
  ofAbilities Registry.empty.grantBuiltIn.abilities

/-- The abilities that a document grants, or the first text in it that denotes no role. -/
def abilities (d : Document) : Except String (List Ability) :=
  d.grants.mapM Grant.ability

end Document

/-- Registers the grants of a document in their order, and says how many there were.  If a role
    does not resolve, nothing is registered and the text is given that denotes no role. -/
def Registry.apply (r : Registry) (d : Document) : Except String (Registry × Nat) := do
  let abilities ← d.abilities
  pure (r.grantAll abilities, abilities.length)

end Warden
