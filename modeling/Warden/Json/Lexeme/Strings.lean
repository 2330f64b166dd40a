import Warden.Json.Lexeme.Basic

namespace Warden.Json

/-!
# Strings

A string stands between quotes; a backslash in it introduces an escape.

* `scanUnit` — four hexadecimal digits, which denote a sixteen-bit unit.
* `scanEscape` — an escape: one letter, a unit, or two units that are surrogates.
* `scanString` — a string behind its opening quote.
-/

/-! ### Escapes -/

/-- The value of a hexadecimal digit of either case. -/
def hexDigit? (c : Char) : Option Nat :=
  if '0' ≤ c ∧ c ≤ '9' then some (c.toNat - '0'.toNat)
  else if 'a' ≤ c ∧ c ≤ 'f' then some (c.toNat - 'a'.toNat + 10)
  else if 'A' ≤ c ∧ c ≤ 'F' then some (c.toNat - 'A'.toNat + 10)
  else none

/-- The sixteen-bit unit that four hexadecimal digits denote. -/
def hexUnit? (a b c d : Char) : Option Nat := do
  let a ← hexDigit? a
  let b ← hexDigit? b
  let c ← hexDigit? c
  let d ← hexDigit? d
  pure (4096 * a + 256 * b + 16 * c + d)

/-- Reads four hexadecimal digits.  The text ends too early if less than four bytes are left of
    it in UTF-8. -/
def scanUnit : Scan Nat
  | a :: b :: c :: d :: s =>
      match hexUnit? a b c d with
      | some n => .ok (n, s)
      | none => .error .malformed
  -- Fewer than four characters: if they make up four bytes, one of them is no digit.
  | s => if s.foldl (fun n c => n + c.utf8Size) 0 < 4 then .error .endOfText else .error .malformed

/-- The character that two surrogates denote together. -/
def joinSurrogates? (high low : Nat) : Option Char :=
  if 0xDC00 ≤ low ∧ low ≤ 0xDFFF then
    some (Char.ofNat (0x10000 + 0x400 * (high - 0xD800) + (low - 0xDC00)))
  else none

/-- Reads the low surrogate that has to follow a high one, and joins the two. -/
def scanLowSurrogate (high : Nat) : Scan Char
  | [] => .error .endOfText
  | ['\\'] => .error .endOfText
  | '\\' :: 'u' :: s =>
      match scanUnit s with
      | .error fault => .error fault
      | .ok (low, rest) =>
          match joinSurrogates? high low with
          | some c => .ok (c, rest)
          | none => .error .malformed
  | _ => .error .malformed

/-- The characters with an escape of one letter. -/
def shortEscape? (c : Char) : Option Char :=
  if c = '"' then some '"'
  else if c = '\\' then some '\\'
  else if c = '/' then some '/'
  else if c = 'b' then some '\x08'
  else if c = 'f' then some '\x0c'
  else if c = 'n' then some '\n'
  else if c = 'r' then some '\r'
  else if c = 't' then some '\t'
  else none

/-- Reads an escape behind its backslash.  In a skipped string surrogates may stand alone. -/
def scanEscape (use : Use) : Scan Char
  | [] => .error .endOfText
  | 'u' :: s =>
      match scanUnit s with
      | .error fault => .error fault
      | .ok (n, rest) =>
          if use = .skipped then .ok (Char.ofNat n, rest)
          else if 0xDC00 ≤ n ∧ n ≤ 0xDFFF then .error .malformed
          else if 0xD800 ≤ n ∧ n ≤ 0xDBFF then scanLowSurrogate n rest
          else .ok (Char.ofNat n, rest)
  | c :: s =>
      match shortEscape? c with
      | some char => .ok (char, s)
      | none => .error .malformed

theorem length_scanUnit_le {s rest : List Char} {n : Nat} (h : scanUnit s = .ok (n, rest)) :
    rest.length ≤ s.length := by
  unfold scanUnit at h
  split at h
  · split at h
    · cases h
      simp only [List.length_cons]
      omega
    · cases h
  · split at h <;> cases h

theorem length_scanLowSurrogate_le {high : Nat} {s rest : List Char} {c : Char}
    (h : scanLowSurrogate high s = .ok (c, rest)) : rest.length ≤ s.length := by
  unfold scanLowSurrogate at h
  split at h
  case h_1 => cases h
  case h_2 => cases h
  case h_3 s =>
    split at h
    · cases h
    · next hunit =>
      split at h
      · cases h
        have := length_scanUnit_le hunit
        simp only [List.length_cons]
        omega
      · cases h
  case h_4 => cases h

theorem length_scanEscape_le {use : Use} {s rest : List Char} {c : Char}
    (h : scanEscape use s = .ok (c, rest)) : rest.length ≤ s.length := by
  unfold scanEscape at h
  split at h
  case h_1 => cases h
  case h_2 s =>
    split at h
    · cases h
    · next hunit =>
      have hlen := length_scanUnit_le hunit
      simp only [List.length_cons]
      split at h
      · cases h; omega
      · split at h
        · cases h
        · split at h
          · have := length_scanLowSurrogate_le h
            omega
          · cases h; omega
  case h_3 =>
    split at h
    · cases h
      simp
    · cases h

/-! ### Strings -/

/-- Reads a string behind its opening quote. -/
def scanString (use : Use) : Scan (List Char)
  | [] => .error .endOfText
  | '"' :: s => .ok ([], s)
  | '\\' :: s =>
      match _hescape : scanEscape use s with
      | .error fault => .error fault
      | .ok (c, rest) =>
          match scanString use rest with
          | .error fault => .error fault
          | .ok (chars, rest) => .ok (c :: chars, rest)
  | c :: s =>
      if c.toNat < 0x20 then .error .malformed
      else
        match scanString use s with
        | .error fault => .error fault
        | .ok (chars, rest) => .ok (c :: chars, rest)
termination_by s => s.length
decreasing_by
  · have := length_scanEscape_le _hescape
    simp only [List.length_cons]
    omega
  · simp

theorem length_scanString_le {use : Use} {s rest chars : List Char}
    (h : scanString use s = .ok (chars, rest)) : rest.length ≤ s.length := by
  fun_induction scanString use s generalizing chars rest with
  | case1 => cases h
  | case2 s => cases h; simp
  | case3 => cases h
  | case4 => simp_all
  | case5 s c mid hescape chars' rest' hstring ih =>
    have := length_scanEscape_le hescape
    have := ih hstring
    cases h
    simp only [List.length_cons]
    omega
  | case6 => cases h
  | case7 => simp_all
  | case8 c s _ _ _ chars' rest' hstring ih =>
    have := ih hstring
    cases h
    simp only [List.length_cons]
    omega

end Warden.Json
