import Warden.Decimal.Shortest
import Warden.Text.Numeral

namespace Warden.Json

/-!
# JSON numerals

A numeral is kept as it was spelled: its sign and its three runs of digits.  What it denotes
depends on the spelling.

* `Numeral.integer?` — a numeral without fraction and exponent denotes an integer if the value
  fits into 64 bits, without a sign from 0 to `2 ^ 64 - 1`, with a minus sign from `-2 ^ 63`
  to -1.
* `Numeral.magnitude?` — every other numeral denotes a double.  Its digits are collected from
  the left while they fit into 64 bits, the collected number is rounded to a double, and that is
  multiplied or divided by the double nearest to the power of ten that remains.
-/

/-- A numeral as spelled: the digits before the point, those behind it if there is a point, and
    the exponent with its sign if there is one. -/
structure Numeral where
  negative : Bool
  whole : List Char
  fraction : Option (List Char)
  exponent : Option (Bool × List Char)
  deriving DecidableEq, Repr

namespace Numeral

/-- The numeral of an integer. -/
def ofInt (n : Int) : Numeral where
  negative := n < 0
  whole := Nat.toDigits 10 n.natAbs
  fraction := none
  exponent := none

/-- A numeral in characters; the exponent's sign is written only if it is a minus. -/
def text (n : Numeral) : List Char :=
  (if n.negative then ['-'] else []) ++ n.whole ++
    (match n.fraction with
      | none => []
      | some digits => '.' :: digits) ++
    (match n.exponent with
      | none => []
      | some (negative, digits) => 'e' :: (if negative then '-' :: digits else digits))

/-- The integer that a numeral denotes, if it denotes an integer. -/
def integer? (n : Numeral) : Option Int :=
  let value := Text.digitsValue n.whole
  if n.fraction.isSome || n.exponent.isSome then none
  else if n.negative then
    if 0 < value && Int64.minValue.toInt ≤ -(value : Int) then some (-(value : Int)) else none
  else if value < UInt64.size then some value
  else none

/-! ### Doubles -/

/-- Appends digits to a number while it fits into 64 bits; also how many were appended. -/
def collect (n : Nat) : List Char → Nat × Nat
  | [] => (n, 0)
  | d :: ds =>
      let next := 10 * n + (d.toNat - '0'.toNat)
      if next < UInt64.size then
        let (value, count) := collect next ds
        (value, count + 1)
      else
        (n, 0)

/-- The digits that fit into 64 bits, as a number, and the power of ten by which the numeral
    exceeds it. -/
def significand (n : Numeral) : Nat × Int :=
  -- Digits in front of the point that are left out raise the power, those behind it that are
  -- taken in lower it.
  let (wholePart, taken) := collect 0 n.whole
  let (value, places) := collect wholePart (n.fraction.getD [])
  let shift : Int :=
    match n.exponent with
    | none => 0
    | some (negative, digits) => Text.signedValue negative digits
  (value, (n.whole.length - taken : Nat) - places + shift)

/-- The double nearest to a power of ten. -/
def powerOfTen (k : Nat) : Float :=
  Float.ofScientific 1 false k

/-- Divides a double by a power of ten, in steps of at most `10 ^ 308`. -/
def scaleDown (x : Float) (k : Nat) : Float :=
  if k ≤ 308 then x / powerOfTen k
  -- Once the double has come down to zero it stays there.
  else if x == 0 then x
  else scaleDown (x / powerOfTen 308) (k - 308)
termination_by k

/-- Multiplies a double by a power of ten, unless the result is beyond all doubles. -/
def scaleUp? (x : Float) (k : Nat) : Option Float :=
  if k ≤ 308 then
    let y := x * powerOfTen k
    if y.isInf then none else some y
  else if x == 0 then some x
  else none

/-- The double that a numeral denotes, without its sign, unless it is beyond all doubles. -/
def magnitude? (n : Numeral) : Option Float :=
  let (value, shift) := n.significand
  if 0 ≤ shift then scaleUp? (Float.ofNat value) shift.toNat
  else some (scaleDown (Float.ofNat value) (-shift).toNat)

/-- Whether a numeral denotes an integer or a double at all. -/
def inRange (n : Numeral) : Bool :=
  n.integer?.isSome || n.magnitude?.isSome

/-- What a numeral denotes, as messages call it. -/
def describe (n : Numeral) : String :=
  match n.integer? with
  | some i => "integer `" ++ String.ofList (Text.writeInt i) ++ "`"
  | none =>
      let digits := Decimal.plain.writeDouble (n.magnitude?.getD 0)
      "floating point `" ++ (if n.negative then "-" else "") ++ String.ofList digits ++ "`"

/-! ### Numerals, described -/

example : describe ⟨true, ['0'], none, none⟩ = "floating point `-0.0`" := by decide +kernel

example : describe ⟨false, "99999999999999999999999".toList, none, none⟩ =
    "floating point `1e+23`" := by decide +kernel

example : inRange ⟨false, ['1'], none, some (false, "400".toList)⟩ = false := by decide +kernel

end Numeral

end Warden.Json
