import Warden.Text.Blank
import Warden.Text.Letters
import Warden.Text.Numeral

namespace Warden

/-!
# Roles

A role is a signed 64-bit number.  Roles are discrete keys: no role inherits from another, and
their order only decides the order of listings.  Three roles have names.

* `Role.ofName?` and `Role.name?` — between the names and the roles.
* `Role.ofText?` — a role by its name, in any ASCII case, or else by its number.
-/

/-- The number of a user. -/
abbrev UserId := Int64

/-- A role, known by its number. -/
structure Role where
  id : Int64
  deriving DecidableEq, Repr, Inhabited

namespace Role

instance : Ord Role := ⟨fun r s => compare r.id s.id⟩

/-- The role of those who have not signed in. -/
def anon : Role := ⟨0⟩

/-- The role of signed-in users. -/
def reader : Role := ⟨10⟩

/-- The role of administrators. -/
def admin : Role := ⟨100⟩

/-- The roles that have a name, with their names. -/
def named : List (String × Role) :=
  [("anon", anon), ("reader", reader), ("admin", admin)]

/-- The numeral of a role. -/
def numeral (r : Role) : String :=
  Text.writeInt64 r.id

/-- The name of a role, if it has one. -/
def name? (r : Role) : Option String :=
  (named.find? fun entry => entry.2 == r).map Prod.fst

/-- The role with the given name, in any ASCII case and between blanks. -/
def ofName? (text : String) : Option Role :=
  let core := Text.lower (Text.trim text.toList)
  (named.find? fun entry => entry.1.toList == core).map Prod.snd

/-- The role with the given number, between blanks. -/
def ofNumber? (text : String) : Option Role :=
  (Text.readInt64 (Text.trim text.toList)).map Role.mk

/-- The role that a text denotes, by name or else by number. -/
def ofText? (text : String) : Option Role :=
  ofName? text <|> ofNumber? text

example : ofText? " Reader\t" = some reader ∧ ofText? "+010" = some reader ∧
    ofText? "owner" = none := by decide +kernel

end Role

end Warden
