namespace Warden.Text

/-!
# Decimal numerals

* `digitsValue ds` — the number that a list of ASCII digits denotes, leading zeros allowed.
* `readInt64 s` — the signed 64-bit number a text denotes: an optional sign, at least one
  digit, nothing else, and a value within the range.
* `writeInt n` — the shortest numeral of `n`: a minus sign if `n` is negative, no leading zeros.
-/

/-- The number denoted by a list of ASCII digits. -/
def digitsValue (ds : List Char) : Nat :=
  ds.foldl (fun n d => 10 * n + (d.toNat - '0'.toNat)) 0

/-- Whether a number lies in the signed 64-bit range. -/
def inInt64 (n : Int) : Bool :=
  Int64.minValue.toInt ≤ n && n ≤ Int64.maxValue.toInt

/-- A sign in front of a numeral, and what follows it. -/
def splitSign : List Char → Bool × List Char
  | '-' :: ds => (true, ds)
  | '+' :: ds => (false, ds)
  | ds => (false, ds)

/-- The number with the given sign and digits. -/
def signedValue (negative : Bool) (ds : List Char) : Int :=
  if negative then -(digitsValue ds : Int) else digitsValue ds

/-- The signed 64-bit number denoted by a text, if it denotes one. -/
def readInt64 (s : List Char) : Option Int64 :=
  let (negative, ds) := splitSign s
  if !ds.isEmpty && ds.all Char.isDigit && inInt64 (signedValue negative ds) then
    some (Int64.ofInt (signedValue negative ds))
  else
    none

/-- The numeral of an integer. -/
def writeInt (n : Int) : List Char :=
  (if n < 0 then ['-'] else []) ++ Nat.toDigits 10 n.natAbs

/-- The numeral of a signed 64-bit number. -/
def writeInt64 (n : Int64) : String :=
  String.ofList (writeInt n.toInt)

/-! ### Boundary cases -/

example : readInt64 "9223372036854775807".toList = some 9223372036854775807 := by decide +kernel

example : readInt64 "9223372036854775808".toList = none := by decide +kernel

example : readInt64 "-9223372036854775808".toList = some (-9223372036854775808) := by
  decide +kernel

example : writeInt64 (-9223372036854775808) = "-9223372036854775808" ∧ writeInt64 0 = "0" := by
  decide +kernel

example : readInt64 "+05".toList = some 5 ∧ readInt64 "-0".toList = some 0 := by decide +kernel

example : readInt64 "".toList = none ∧ readInt64 "-".toList = none ∧
    readInt64 "+-1".toList = none := by decide +kernel

end Warden.Text
