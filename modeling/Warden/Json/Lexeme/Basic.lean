import Warden.Json.Fault

namespace Warden.Json

/-!
# Lexemes

Strings, numerals and words are read from the front of a text.  A scanner gives what it read
and the text behind it, or the first fault it met; a lemma says that what is left is never
longer than what was given.

A value is read for one of two uses.  One that is *kept* must denote something: its strings must
pair their surrogates and its numerals must be in range.  One that is *skipped* only has to be
well formed, and a numeral that breaks off in it counts as malformed even at the end of the text.

* `Use`, `Scan` — what scanners are told, and what they give.
* `skipGaps`, `scanWord` — white space, and words spelled letter by letter.
-/

/-- What becomes of a value that is read. -/
inductive Use where
  | kept
  | skipped
  deriving DecidableEq, Repr

/-- A reading of the front of a text: what was read, and the text behind it. -/
abbrev Scan (α : Type) : Type :=
  List Char → Except Fault (α × List Char)

/-- A successful `map` comes from a success. -/
theorem exists_of_map_eq_ok {α β : Type} {x : Except Fault α} {f : α → β} {b : β}
    (h : x.map f = .ok b) : ∃ a, x = .ok a ∧ f a = b := by
  cases x with
  | error => cases h
  | ok a => exact ⟨a, rfl, Except.ok.inj h⟩

/-! ### White space -/

/-- White space between lexemes. -/
def isGap (c : Char) : Bool :=
  c == ' ' || c == '\t' || c == '\n' || c == '\r'

/-- The text without leading white space. -/
def skipGaps (s : List Char) : List Char :=
  s.dropWhile isGap

theorem length_skipGaps_le (s : List Char) : (skipGaps s).length ≤ s.length :=
  (List.dropWhile_sublist _).length_le

/-- What stands behind the first character after white space is shorter than the whole. -/
theorem length_lt_of_skipGaps {s rest : List Char} {c : Char} (h : skipGaps s = c :: rest) :
    rest.length < s.length := by
  have := length_skipGaps_le s
  rw [h] at this
  exact this

/-! ### Words -/

/-- Reads past the rest of a word. -/
def scanWord : List Char → List Char → Except Fault (List Char)
  | [], s => .ok s
  | _ :: _, [] => .error .endOfText
  | w :: ws, c :: s => if w = c then scanWord ws s else .error .malformed

theorem length_scanWord_le {word s rest : List Char} (h : scanWord word s = .ok rest) :
    rest.length ≤ s.length := by
  fun_induction scanWord word s with
  | case1 s => cases h; exact Nat.le_refl _
  | case2 => cases h
  | case3 w ws s ih => exact Nat.le_succ_of_le (ih h)
  | case4 => cases h

end Warden.Json
