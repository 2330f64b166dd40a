namespace Warden.Decimal

/-!
# The shortest decimal of a double

A positive double stands for an interval of reals, those that round to it.  Its shortest decimal
is the one with the fewest digits in that interval; of two with equally many digits the one
nearer to the double, and the one with an even last digit if both are equally near.

* `Span` — a value with the ends of its interval, over one denominator.
* `Span.ofDouble` — the interval of a positive finite double.
* `Span.shortest` — the shortest decimal, as digits and the exponent of the first digit.
* `Layout.write` — a decimal in positional or scientific notation.
-/

/-- A positive value and the interval of reals that it stands for, as numerators over `den`. -/
structure Span where
  low : Nat
  value : Nat
  high : Nat
  den : Nat
  closed : Bool

namespace Span

/-- The interval of the double `mantissa * 2 ^ exponent`; below a power of two the next double
    is only half as far away, unless the doubles there are subnormal. -/
def ofBinary (mantissa : Nat) (exponent : Int) : Span :=
  let below := if mantissa = Nat.pow 2 52 ∧ exponent > -1074 then 1 else 2
  let up := Nat.pow 2 exponent.toNat
  { low := (4 * mantissa - below) * up
    value := 4 * mantissa * up
    high := (4 * mantissa + 2) * up
    den := 4 * Nat.pow 2 (-exponent).toNat
    closed := mantissa % 2 = 0 }

/-- The interval of a positive finite double. -/
def ofDouble (x : Float) : Span :=
  let bits := x.toBits.toNat
  let field : Nat := bits / Nat.pow 2 52 % Nat.pow 2 11
  let rest : Nat := bits % Nat.pow 2 52
  if field = 0 then ofBinary rest (-1074) else ofBinary (Nat.pow 2 52 + rest) ((field : Int) - 1075)

/-- The same interval in units of `10 ^ exponent`. -/
def scale (s : Span) (exponent : Int) : Span :=
  let up := Nat.pow 10 (-exponent).toNat
  { s with
    low := s.low * up
    value := s.value * up
    high := s.high * up
    den := s.den * Nat.pow 10 exponent.toNat }

/-- Whether a whole number lies in the interval. -/
def contains (s : Span) (n : Nat) : Bool :=
  if s.closed then s.low ≤ n * s.den && n * s.den ≤ s.high
  else s.low < n * s.den && n * s.den < s.high

/-- The whole number in the interval that is nearest to its value, if there is one next to it. -/
def nearest? (s : Span) : Option Nat :=
  let n := s.value / s.den
  match s.contains n, s.contains (n + 1) with
  | false, false => none
  | true, false => some n
  | false, true => some (n + 1)
  | true, true =>
      match compare (2 * (s.value % s.den)) s.den with
      | .lt => some n
      | .gt => some (n + 1)
      | .eq => some (if n % 2 = 0 then n else n + 1)

/-- The exponent of the first significant digit of the value, searched among the steps down
    from `10 ^ 0` when the value is below one. -/
def leadingExponent (s : Span) : Int :=
  if s.den ≤ s.value then ((Nat.toDigits 10 (s.value / s.den)).length : Int) - 1
  else
    match (List.range 400).find? fun k => s.den ≤ s.value * Nat.pow 10 (k + 1) with
    | some k => -(k + 1)
    | none => -400

/-- The shortest decimal: its digits without trailing zeros, and the exponent of the first. -/
def shortest (s : Span) : List Char × Int :=
  -- One digit more is tried at a time, on the grid that ends at that digit.
  let lead := s.leadingExponent
  let candidate (count : Nat) : Option (List Char × Int) :=
    (s.scale (lead - count)).nearest?.map fun n =>
      let digits := Nat.toDigits 10 n
      ((digits.reverse.dropWhile (· == '0')).reverse, lead - count + (digits.length - 1 : Nat))
  ((List.range 17).findSome? candidate).getD (['0'], 0)

end Span

/-! ### Notation -/

/-- Which exponents are written out in positional notation. -/
structure Layout where
  least : Int
  greatest : Int

namespace Layout

/-- A decimal, given by its digits and the exponent of the first.  Positional notation always
    has a digit behind the point; scientific notation always has a sign in the exponent. -/
def write (l : Layout) (digits : List Char) (exponent : Int) : List Char :=
  if l.least ≤ exponent ∧ exponent ≤ l.greatest then
    if 0 ≤ exponent then
      let places := exponent.toNat + 1
      let whole := digits.take places ++ List.replicate (places - digits.length) '0'
      let fraction := digits.drop places
      whole ++ '.' :: if fraction.isEmpty then ['0'] else fraction
    else
      '0' :: '.' :: List.replicate ((-exponent).toNat - 1) '0' ++ digits
  else
    let mantissa :=
      match digits with
      | d :: e :: rest => d :: '.' :: e :: rest
      | short => short
    mantissa ++ 'e' :: (if exponent < 0 then '-' else '+') :: Nat.toDigits 10 exponent.natAbs

/-- A finite double that is not negative. -/
def writeDouble (l : Layout) (x : Float) : List Char :=
  if x == 0 then l.write ['0'] 0
  else
    let (digits, exponent) := (Span.ofDouble x).shortest
    l.write digits exponent

end Layout

/-- Doubles from `10 ^ -5` to below `10 ^ 16` are written without an exponent. -/
def plain : Layout :=
  ⟨-5, 15⟩

/-! ### Doubles, written -/

example : plain.writeDouble 0 = "0.0".toList ∧ plain.writeDouble 1500 = "1500.0".toList ∧
    plain.writeDouble 0.5 = "0.5".toList := by decide +kernel

example : plain.writeDouble 1e15 = "1000000000000000.0".toList ∧
    plain.writeDouble 1e16 = "1e+16".toList := by decide +kernel

example : plain.writeDouble 18446744073709551616 = "1.8446744073709552e+19".toList := by
  decide +kernel

example : plain.writeDouble 5e-324 = "5e-324".toList := by decide +kernel

end Warden.Decimal
