import Warden.Json.Numeral
import Warden.Text.Quoted

namespace Warden.Json

/-!
# Faults

Why a text is not the JSON that was asked for.

* `Fault` — the text ends too early, or is malformed, or is JSON of the wrong shape.
* `Mismatch` — the ways in which the shape can be wrong, with one message each.
-/

/-- A value that is not a container. -/
inductive Scalar where
  | null
  | boolean (value : Bool)
  | number (numeral : Numeral)
  | text (chars : List Char)
  deriving DecidableEq, Repr

/-- A value of the wrong type, as far as it was looked at: containers only as they open. -/
inductive Found where
  | scalar (value : Scalar)
  | sequence
  | map
  deriving DecidableEq, Repr

/-- What was asked for in its place. -/
inductive Wanted where
  | string
  | integer
  | boolean
  | sequence
  | record (title : String)
  deriving DecidableEq, Repr

/-- A wrong shape. -/
inductive Mismatch where
  | wrongType (found : Found) (wanted : Wanted)
  | tooLarge (value : Int)
  | tooShort (count : Nat) (title : String)
  | repeated (field : String)
  | missing (field : String)
  | unknownAction (text : String)
  | noRole
  deriving DecidableEq, Repr

/-- A reason why reading failed. -/
inductive Fault where
  | endOfText
  | malformed
  | mismatch (cause : Mismatch)
  deriving DecidableEq, Repr

/-! ### Messages -/

/-- A scalar as messages call it. -/
def Scalar.describe : Scalar → String
  | null => "null"
  | boolean value => "boolean `" ++ (if value then "true" else "false") ++ "`"
  | number numeral => numeral.describe
  | text chars => "string " ++ String.ofList (Text.quoted chars)

/-- A value as messages call it. -/
def Found.describe : Found → String
  | scalar value => value.describe
  | sequence => "sequence"
  | map => "map"

/-- A type as messages call it. -/
def Wanted.describe : Wanted → String
  | string => "a string"
  | integer => "i64"
  | boolean => "a boolean"
  | sequence => "a sequence"
  | record title => "struct " ++ title

/-- A wrong shape in words. -/
def Mismatch.message : Mismatch → String
  | wrongType found wanted => "invalid type: " ++ found.describe ++ ", expected " ++ wanted.describe
  | tooLarge value =>
      "invalid value: integer `" ++ String.ofList (Text.writeInt value) ++ "`, expected i64"
  | tooShort count title =>
      "invalid length " ++ String.ofList (Text.writeInt count) ++ ", expected struct " ++ title ++
        " with 4 elements"
  | repeated field => "duplicate field `" ++ field ++ "`"
  | missing field => "missing field `" ++ field ++ "`"
  | unknownAction text => "Unknown action '" ++ text ++ "'"
  | noRole => "data did not match any variant of untagged enum RoleRef"

end Warden.Json
