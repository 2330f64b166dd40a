import Warden.Json.Passing

namespace Warden.Json

/-!
# Readers

A reader turns the front of a text into a value, in a single pass: the first fault in the text
is the one that is reported, whether it is malformed JSON or JSON of the wrong shape.

* `Reader α` — a scan that never gives back more text than it was given.
* `Reader.scalar` — a value that is not a container; a value of another type is a mismatch, and
  a container is one as soon as it opens.
* `Reader.items` — an array of values, one after another.
* `Reader.read` — a whole text, with nothing but white space behind the value.
-/

/-- A reading of values from the front of a text. -/
structure Reader (α : Type) where
  run : Scan α
  length_le : ∀ {s rest : List Char} {a : α}, run s = .ok (a, rest) → rest.length ≤ s.length

namespace Reader

/-! ### Combining readers -/

/-- Reads nothing. -/
def pure {α : Type} (a : α) : Reader α where
  run := fun s => .ok (a, s)
  length_le := by
    intro s rest b h
    cases h
    exact Nat.le_refl _

/-- Refuses without looking at the text. -/
def refuse {α : Type} (cause : Mismatch) : Reader α where
  run := fun _ => .error (.mismatch cause)
  length_le := by
    intro s rest b h
    cases h

/-- Reads with `x`, then with what `f` makes of the value. -/
def bind {α β : Type} (x : Reader α) (f : α → Reader β) : Reader β where
  run := fun s =>
    match x.run s with
    | .error fault => .error fault
    | .ok (a, rest) => (f a).run rest
  length_le := by
    intro s rest b h
    split at h
    case h_1 => cases h
    case h_2 a mid hx => exact Nat.le_trans ((f a).length_le h) (x.length_le hx)

instance : Monad Reader where
  pure := Reader.pure
  bind := Reader.bind

@[simp] theorem run_pure {α : Type} (a : α) (s : List Char) :
    (Pure.pure a : Reader α).run s = .ok (a, s) := rfl

theorem run_bind {α β : Type} (x : Reader α) (f : α → Reader β) (s : List Char) :
    (x >>= f).run s =
      match x.run s with
      | .error fault => .error fault
      | .ok (a, rest) => (f a).run rest := rfl

/-- Gives a value, or refuses if there is none to give. -/
def ofExcept {α : Type} : Except Mismatch α → Reader α
  | .ok a => pure a
  | .error cause => refuse cause

/-! ### Scalars -/

/-- Reads a value that is not a container and accepts it as what was wanted. -/
def scalar {α : Type} (wanted : Wanted) (accept : Scalar → Option α) : Reader α where
  run := fun s =>
    match skipGaps s with
    | '[' :: _ => .error (.mismatch (.wrongType .sequence wanted))
    | '{' :: _ => .error (.mismatch (.wrongType .map wanted))
    | text =>
        match scanScalar .kept text with
        | .error fault => .error fault
        | .ok (x, rest) =>
            match accept x with
            | some a => .ok (a, rest)
            | none => .error (.mismatch (.wrongType (.scalar x) wanted))
  length_le := by
    intro s rest a h
    have hgap := length_skipGaps_le s
    split at h
    case h_1 => cases h
    case h_2 => cases h
    case h_3 =>
      split at h
      case h_1 => cases h
      case h_2 hscalar =>
        have := length_scanScalar_lt hscalar
        split at h
        · cases h; omega
        · cases h

/-- Reads a string. -/
def string : Reader String :=
  scalar .string fun
    | .text chars => some (String.ofList chars)
    | _ => none

/-- Reads a truth value. -/
def boolean : Reader Bool :=
  scalar .boolean fun
    | .boolean value => some value
    | _ => none

/-- Reads an integer, which may lie above the signed range. -/
def integer : Reader Int :=
  scalar .integer fun
    | .number n => n.integer?
    | _ => none

/-- Reads a signed 64-bit integer. -/
def int64 : Reader Int64 := do
  let n ← integer
  if Text.inInt64 n then pure (Int64.ofInt n) else refuse (.tooLarge n)

/-! ### Punctuation -/

/-- Where the text goes on inside a container: behind it, or at its next member. -/
inductive Turn where
  | closed (rest : List Char)
  | member (text : List Char)

/-- How much text is left in a turn. -/
def Turn.length : Turn → Nat
  | closed rest => rest.length
  | member text => text.length

/-- Moves to the next element of an array, over the comma that separates it from the one
    before. -/
def nextElement (isFirst : Bool) (s : List Char) : Except Fault Turn :=
  match skipGaps s with
  | [] => .error .endOfText
  | c :: rest =>
      if c = ']' then .ok (.closed rest)
      else if isFirst then .ok (.member (c :: rest))
      else if c = ',' then
        match skipGaps rest with
        | [] => .error .endOfText
        | d :: rest => if d = ']' then .error .malformed else .ok (.member (d :: rest))
      else .error .malformed

/-- Moves behind the quote of the next key of an object, over the comma that separates it from
    the member before. -/
def nextKey (isFirst : Bool) (s : List Char) : Except Fault Turn :=
  match skipGaps s with
  | [] => .error .endOfText
  | c :: rest =>
      if c = '\x7d' then .ok (.closed rest)
      else if isFirst then
        if c = '"' then .ok (.member rest) else .error .malformed
      else if c = ',' then
        match skipGaps rest with
        | [] => .error .endOfText
        | d :: rest => if d = '"' then .ok (.member rest) else .error .malformed
      else .error .malformed

theorem length_nextElement {isFirst : Bool} {s : List Char} {turn : Turn}
    (h : nextElement isFirst s = .ok turn) :
    turn.length ≤ s.length ∧ (isFirst = false → turn.length < s.length) := by
  unfold nextElement at h
  split at h
  case h_1 => cases h
  case h_2 c rest hc =>
    have hrest : rest.length < s.length := length_lt_of_skipGaps hc
    split at h
    · cases h
      exact ⟨Nat.le_of_lt hrest, fun _ => hrest⟩
    · split at h
      case isTrue hfirst =>
        cases h
        exact ⟨hrest, fun hnot => by simp [hfirst] at hnot⟩
      case isFalse =>
        split at h
        · split at h
          · cases h
          · next d rest' hd =>
            have hrest' : rest'.length < rest.length := length_lt_of_skipGaps hd
            split at h
            · cases h
            · cases h
              simp only [Turn.length, List.length_cons]
              omega
        · cases h

theorem length_nextKey {isFirst : Bool} {s : List Char} {turn : Turn}
    (h : nextKey isFirst s = .ok turn) : turn.length < s.length := by
  unfold nextKey at h
  split at h
  case h_1 => cases h
  case h_2 c rest hc =>
    have hrest : rest.length < s.length := length_lt_of_skipGaps hc
    split at h
    · cases h
      exact hrest
    · split at h
      · split at h
        · cases h
          exact hrest
        · cases h
      · split at h
        · split at h
          · cases h
          · next hd =>
            split at h
            · cases h
              exact Nat.lt_trans (length_lt_of_skipGaps hd) hrest
            · cases h
        · cases h

/-- Reads the colon between a key and its value. -/
def colon : Reader Unit where
  run := fun s =>
    match skipGaps s with
    | [] => .error .endOfText
    | c :: rest => if c = ':' then .ok ((), rest) else .error .malformed
  length_le := by
    intro s rest _ h
    split at h
    case h_1 => cases h
    case h_2 hcolon =>
      split at h
      · cases h
        exact Nat.le_of_lt (length_lt_of_skipGaps hcolon)
      · cases h

/-- Reads past a value of any kind. -/
def skip : Reader Unit where
  run := fun s =>
    match pass .skipped none [] .value s with
    | .error fault => .error fault
    | .ok rest => .ok ((), rest)
  length_le := by
    intro s rest _ h
    split at h
    case h_1 => cases h
    case h_2 hpass =>
      cases h
      exact length_pass_le hpass

/-! ### Containers -/

/-- Reads the elements of an array up to its end. -/
def elementsFrom {α : Type} (item : Reader α) (isFirst : Bool) (s : List Char) :
    Except Fault (List α × List Char) :=
  match _hturn : nextElement isFirst s with
  | .error fault => .error fault
  | .ok (.closed rest) => .ok ([], rest)
  | .ok (.member text) =>
      match _hitem : item.run text with
      | .error fault => .error fault
      | .ok (a, rest) =>
          match elementsFrom item false rest with
          | .error fault => .error fault
          | .ok (as, rest) => .ok (a :: as, rest)
termination_by (s.length, isFirst.toNat)
decreasing_by
  have hturn := length_nextElement _hturn
  have hitem := item.length_le _hitem
  simp only [Turn.length] at hturn
  simp only [Prod.lex_def]
  -- From the second element on a comma has been read; the first one uses up the flag.
  cases isFirst with
  | false => exact Or.inl (Nat.lt_of_le_of_lt hitem (hturn.2 rfl))
  | true =>
    rcases Nat.lt_or_eq_of_le (Nat.le_trans hitem hturn.1) with hlt | heq
    · exact Or.inl hlt
    · exact Or.inr ⟨heq, by decide⟩

theorem length_elementsFrom_le {α : Type} {item : Reader α} {isFirst : Bool}
    {s rest : List Char} {as : List α} (h : elementsFrom item isFirst s = .ok (as, rest)) :
    rest.length ≤ s.length := by
  fun_induction elementsFrom item isFirst s generalizing as rest with
  | case1 => cases h
  | case2 _ _ _ hturn => cases h; exact (length_nextElement hturn).1
  | case3 => cases h
  | case4 => simp_all
  | case5 isFirst s text hturn a mid hitem as' rest' hrest ih =>
    have h1 := (length_nextElement hturn).1
    have h2 := item.length_le hitem
    have h3 := ih hrest
    cases h
    simp only [Turn.length] at h1
    omega

/-- Reads an array. -/
def items {α : Type} (item : Reader α) : Reader (List α) where
  run := fun s =>
    match skipGaps s with
    | '[' :: rest => elementsFrom item true rest
    | _ => (scalar .sequence (fun _ => (none : Option (List α)))).run s
  length_le := by
    intro s rest as h
    split at h
    case h_1 hopen =>
      exact Nat.le_trans (length_elementsFrom_le h) (Nat.le_of_lt (length_lt_of_skipGaps hopen))
    case h_2 => exact length_le _ h

/-! ### Whole texts -/

/-- Reads a text that holds one value and nothing else but white space. -/
def read {α : Type} (x : Reader α) (text : String) : Except Fault α :=
  match x.run text.toList with
  | .error fault => .error fault
  | .ok (a, rest) => if (skipGaps rest).isEmpty then .ok a else .error .malformed

end Reader

end Warden.Json
