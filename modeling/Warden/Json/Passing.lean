import Warden.Json.Lexeme.Scalar

namespace Warden.Json

/-!
# Passing over a value

A value that nobody converts is read past, whatever its depth: the containers that are open are
kept on a stack and the text is gone through once.

* `Bracket` — the two kinds of containers.
* `Await` — what the text has to go on with.
* `pass` — reads to the end of the outermost value.  Opening more containers than `room` allows
  is a fault.
-/

/-- The kinds of containers. -/
inductive Bracket where
  | square
  | curly
  deriving DecidableEq, Repr

/-- The character that closes a container. -/
def Bracket.closing : Bracket → Char
  | square => ']'
  | curly => '}'

/-- What the text has to go on with. -/
inductive Await where
  | value
  | key
  | first
  | more
  deriving DecidableEq, Repr

/-- How often a state can follow on another before the text gets shorter. -/
def Await.rank : Await → Nat
  | value => 0
  | key => 0
  | first => 1
  | more => 0

/-- What stands in a container: values, or keys with values. -/
def Bracket.content : Bracket → Await
  | square => .value
  | curly => .key

/-- Reads a key behind its opening quote, and the colon behind it. -/
def passKey (use : Use) (s : List Char) : Except Fault (List Char) :=
  match scanString use s with
  | .error fault => .error fault
  | .ok (_, rest) =>
      match skipGaps rest with
      | [] => .error .endOfText
      | ':' :: rest => .ok rest
      | _ :: _ => .error .malformed

theorem length_passKey_le {use : Use} {s rest : List Char} (h : passKey use s = .ok rest) :
    rest.length ≤ s.length := by
  unfold passKey at h
  split at h
  · cases h
  · next hstring =>
    have hmid := length_scanString_le hstring
    split at h
    · cases h
    · next hcolon =>
      cases h
      exact Nat.le_trans (Nat.le_of_lt (length_lt_of_skipGaps hcolon)) hmid
    · cases h

/-- Whether one more container may be opened inside those that are open. -/
def hasRoom (room : Option Nat) (opened : List Bracket) : Bool :=
  room.all (opened.length < ·)

/-- Reads to the end of the outermost value and gives the text behind it. -/
def pass (use : Use) (room : Option Nat) (opened : List Bracket) (await : Await) (s : List Char) :
    Except Fault (List Char) :=
  match await, opened with
  | .value, opened =>
      match _hgap : skipGaps s with
      | '[' :: rest =>
          if hasRoom room opened then pass use room (.square :: opened) .first rest
          else .error .malformed
      | '{' :: rest =>
          if hasRoom room opened then pass use room (.curly :: opened) .first rest
          else .error .malformed
      | text =>
          match _hscalar : scanScalar use text with
          | .error fault => .error fault
          | .ok (_, rest) => pass use room opened .more rest
  | .key, opened =>
      match _hgap : skipGaps s with
      | [] => .error .endOfText
      | '"' :: rest =>
          match _hkey : passKey use rest with
          | .error fault => .error fault
          | .ok rest => pass use room opened .value rest
      | _ :: _ => .error .malformed
  | .first, [] => .ok s
  | .first, b :: outer =>
      match _hgap : skipGaps s with
      | [] => .error .endOfText
      | c :: rest =>
          if c = b.closing then pass use room outer .more rest
          else pass use room (b :: outer) b.content (c :: rest)
  | .more, [] => .ok s
  | .more, b :: outer =>
      match _hgap : skipGaps s with
      | [] => .error .endOfText
      | c :: rest =>
          if c = b.closing then pass use room outer .more rest
          else if c = ',' then pass use room (b :: outer) b.content rest
          else .error .malformed
termination_by (s.length, await.rank)
decreasing_by
  all_goals
    have hlen := length_skipGaps_le s
    rw [_hgap] at hlen
    simp only [Prod.lex_def, Await.rank, List.length_cons] at hlen ⊢
  · omega
  · omega
  · have := length_scanScalar_lt _hscalar
    omega
  · have := length_passKey_le _hkey
    omega
  · omega
  · cases b <;> simp only [Bracket.content] <;> omega
  · omega
  · cases b <;> simp only [Bracket.content] <;> omega

theorem length_pass_le {use : Use} {room : Option Nat} {opened : List Bracket} {await : Await}
    {s rest : List Char} (h : pass use room opened await s = .ok rest) :
    rest.length ≤ s.length := by
  fun_induction pass use room opened await s with
  -- The text does not go on as it has to.
  | case2 | case4 | case5 | case7 | case8 | case10 | case12 | case16 | case19 => cases h
  -- The outermost value has been read.
  | case11 | case15 => cases h; exact Nat.le_refl _
  -- One character has been read behind white space.
  | case1 _ _ _ hgap _ ih | case3 _ _ _ hgap _ ih | case13 _ _ _ _ hgap ih
  | case17 _ _ _ _ hgap ih | case18 _ _ _ _ hgap _ ih =>
    exact Nat.le_trans (ih h) (Nat.le_of_lt (length_lt_of_skipGaps hgap))
  -- Only white space has been passed.
  | case14 _ _ _ _ _ hgap _ ih => exact Nat.le_trans (ih h) (length_lt_of_skipGaps hgap)
  | case6 s _ _ _ _ _ hscalar ih =>
    have hgap := length_skipGaps_le s
    have hscalar := length_scanScalar_lt hscalar
    exact Nat.le_trans (ih h) (Nat.le_of_lt (Nat.lt_of_lt_of_le hscalar hgap))
  | case9 _ _ _ hgap _ hkey ih =>
    have hkey := length_passKey_le hkey
    exact Nat.le_trans (ih h) (Nat.le_trans hkey (Nat.le_of_lt (length_lt_of_skipGaps hgap)))

end Warden.Json
