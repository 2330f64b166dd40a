import Warden.Json.Lexeme.Basic

namespace Warden.Json

/-!
# Numerals

* `scanWhole`, `scanFraction`, `scanExponent` — the parts of a numeral.
* `scanNumeral` — a numeral as spelled.
* `scanNumber` — a numeral that also has to be in range if it is kept.
-/

/-- The fault of a numeral in which a digit is missing in front of `s`. -/
def missingDigit (use : Use) (s : List Char) : Fault :=
  if s.isEmpty && use = .kept then .endOfText else .malformed

/-- Reads at least one digit. -/
def scanDigits (use : Use) (s : List Char) : Except Fault (List Char × List Char) :=
  let digits := s.takeWhile Char.isDigit
  let rest := s.dropWhile Char.isDigit
  if digits.isEmpty then .error (missingDigit use rest) else .ok (digits, rest)

/-- Reads the digits before the point: a zero alone, or digits that do not begin with zero. -/
def scanWhole (use : Use) : Scan (List Char)
  | '0' :: s => if (s.head?.any Char.isDigit) then .error .malformed else .ok (['0'], s)
  | s => scanDigits use s

/-- Reads a point and the digits behind it, if there is a point. -/
def scanFraction (use : Use) : Scan (Option (List Char))
  | '.' :: s =>
      match scanDigits use s with
      | .error fault => .error fault
      | .ok (digits, rest) => .ok (some digits, rest)
  | s => .ok (none, s)

/-- Reads an exponent, if there is one. -/
def scanExponent (use : Use) : Scan (Option (Bool × List Char))
  | c :: s =>
      if c = 'e' ∨ c = 'E' then
        let (negative, unsigned) := Text.splitSign s
        match scanDigits use unsigned with
        | .error fault => .error fault
        | .ok (digits, rest) => .ok (some (negative, digits), rest)
      else .ok (none, c :: s)
  | [] => .ok (none, [])

/-- A minus sign, if there is one, and what follows. -/
def splitMinus : List Char → Bool × List Char
  | '-' :: s => (true, s)
  | s => (false, s)

/-- Reads a numeral. -/
def scanNumeral (use : Use) (s : List Char) : Except Fault (Numeral × List Char) :=
  let (negative, s) := splitMinus s
  match scanWhole use s with
  | .error fault => .error fault
  | .ok (whole, s) =>
      match scanFraction use s with
      | .error fault => .error fault
      | .ok (fraction, s) =>
          match scanExponent use s with
          | .error fault => .error fault
          | .ok (exponent, s) => .ok (⟨negative, whole, fraction, exponent⟩, s)

/-- Reads a numeral, which must be in range if it is kept. -/
def scanNumber (use : Use) (s : List Char) : Except Fault (Numeral × List Char) :=
  match scanNumeral use s with
  | .error fault => .error fault
  | .ok (n, rest) =>
      if use = .kept ∧ n.inRange = false then .error .malformed else .ok (n, rest)

/-! ### What is left -/

theorem length_scanDigits_lt {use : Use} {s rest digits : List Char}
    (h : scanDigits use s = .ok (digits, rest)) : rest.length < s.length := by
  simp only [scanDigits] at h
  split at h
  case isTrue => cases h
  case isFalse hne =>
    cases h
    have hlen := congrArg List.length (List.takeWhile_append_dropWhile (p := Char.isDigit) (l := s))
    have hpos := List.length_pos_iff.mpr (fun e => hne (List.isEmpty_iff.mpr e))
    simp only [List.length_append] at hlen
    omega

theorem length_scanWhole_lt {use : Use} {s rest whole : List Char}
    (h : scanWhole use s = .ok (whole, rest)) : rest.length < s.length := by
  unfold scanWhole at h
  split at h
  case h_1 =>
    split at h
    · cases h
    · cases h; simp
  case h_2 => exact length_scanDigits_lt h

theorem length_scanFraction_le {use : Use} {s rest : List Char} {fraction : Option (List Char)}
    (h : scanFraction use s = .ok (fraction, rest)) : rest.length ≤ s.length := by
  unfold scanFraction at h
  split at h
  case h_1 =>
    split at h
    · cases h
    · next hdigits =>
      cases h
      have := length_scanDigits_lt hdigits
      simp only [List.length_cons]
      omega
  case h_2 => cases h; exact Nat.le_refl _

theorem length_splitSign_le (s : List Char) : (Text.splitSign s).2.length ≤ s.length := by
  unfold Text.splitSign
  split <;> simp

theorem length_scanExponent_le {use : Use} {s rest : List Char}
    {exponent : Option (Bool × List Char)} (h : scanExponent use s = .ok (exponent, rest)) :
    rest.length ≤ s.length := by
  unfold scanExponent at h
  split at h
  case h_1 c s =>
    split at h
    · split at h
      next negative unsigned hsign =>
      have hlen := length_splitSign_le s
      rw [hsign] at hlen
      simp only at hlen
      split at h
      · cases h
      · next hdigits =>
        cases h
        have := length_scanDigits_lt hdigits
        simp only [List.length_cons]
        omega
    · cases h; exact Nat.le_refl _
  case h_2 => cases h; exact Nat.le_refl _

theorem length_splitMinus_le (s : List Char) : (splitMinus s).2.length ≤ s.length := by
  unfold splitMinus
  split <;> simp

theorem length_scanNumeral_lt {use : Use} {s rest : List Char} {n : Numeral}
    (h : scanNumeral use s = .ok (n, rest)) : rest.length < s.length := by
  unfold scanNumeral at h
  have hminus := length_splitMinus_le s
  split at h
  next negative unsigned hsign =>
  rw [hsign] at hminus
  split at h
  · cases h
  · next hwhole =>
    have hwhole := length_scanWhole_lt hwhole
    split at h
    · cases h
    · next hfraction =>
      have hfraction := length_scanFraction_le hfraction
      split at h
      · cases h
      · next hexponent =>
        have hexponent := length_scanExponent_le hexponent
        cases h
        simp only at hminus
        omega

theorem length_scanNumber_lt {use : Use} {s rest : List Char} {n : Numeral}
    (h : scanNumber use s = .ok (n, rest)) : rest.length < s.length := by
  unfold scanNumber at h
  split at h
  · cases h
  · next hnumeral =>
    split at h
    · cases h
    · cases h
      exact length_scanNumeral_lt hnumeral

end Warden.Json
