import Warden.Json.Lexeme.Numerals
import Warden.Json.Lexeme.Strings

namespace Warden.Json

/-!
# Scalars

* `scanScalar` — a value that is not a container, told by its first character.
* `length_scanScalar_lt` — reading one uses up at least one character.
-/

/-- Reads a value that is not a container. -/
def scanScalar (use : Use) (s : List Char) : Except Fault (Scalar × List Char) :=
  match s with
  | [] => .error .endOfText
  | '"' :: s => (scanString use s).map fun (chars, rest) => (.text chars, rest)
  | 'n' :: s => (scanWord ['u', 'l', 'l'] s).map (.null, ·)
  | 't' :: s => (scanWord ['r', 'u', 'e'] s).map (.boolean true, ·)
  | 'f' :: s => (scanWord ['a', 'l', 's', 'e'] s).map (.boolean false, ·)
  | c :: s =>
      if c = '-' ∨ c.isDigit then
        (scanNumber use (c :: s)).map fun (n, rest) => (.number n, rest)
      else .error .malformed

theorem length_scanScalar_lt {use : Use} {s rest : List Char} {x : Scalar}
    (h : scanScalar use s = .ok (x, rest)) : rest.length < s.length := by
  unfold scanScalar at h
  split at h
  case h_1 => cases h
  case h_2 =>
    obtain ⟨_, hstring, heq⟩ := exists_of_map_eq_ok h
    cases heq
    exact Nat.lt_succ_of_le (length_scanString_le hstring)
  case h_3 =>
    obtain ⟨_, hword, heq⟩ := exists_of_map_eq_ok h
    cases heq
    exact Nat.lt_succ_of_le (length_scanWord_le hword)
  case h_4 =>
    obtain ⟨_, hword, heq⟩ := exists_of_map_eq_ok h
    cases heq
    exact Nat.lt_succ_of_le (length_scanWord_le hword)
  case h_5 =>
    obtain ⟨_, hword, heq⟩ := exists_of_map_eq_ok h
    cases heq
    exact Nat.lt_succ_of_le (length_scanWord_le hword)
  case h_6 =>
    split at h
    · obtain ⟨_, hnumber, heq⟩ := exists_of_map_eq_ok h
      cases heq
      exact length_scanNumber_lt hnumber
    · cases h

end Warden.Json
