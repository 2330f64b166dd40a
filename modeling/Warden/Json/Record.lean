import Warden.Json.Reader

namespace Warden.Json

/-!
# Records

A record is written as an object, with its fields in any order among fields of other names,
which are skipped, or as an array of its fields in the order of declaration.

* `Field σ` — a field of a record whose parts are gathered in a draft of type `σ`.
* `Record σ α` — the fields, the empty draft, and the value made of a full one.
* `Record.reader` — the reader of both forms.  A field that occurs twice is a mismatch when its
  key is met the second time; a field that is missing is one at the end of the object.
-/

/-- A field: its name, whether it may be left out, whether a draft has it already, and how its
    value is read into a draft. -/
structure Field (σ : Type) where
  name : String
  optional : Bool
  isFilled : σ → Bool
  fill : σ → Reader σ

/-- A record type. -/
structure Record (σ α : Type) where
  title : String
  fields : List (Field σ)
  blank : σ
  finish : σ → Except Mismatch α

namespace Record

variable {σ α : Type}

/-! ### Objects -/

/-- Reads what stands behind a key. -/
def member (r : Record σ α) (draft : σ) (key : String) : Reader σ :=
  match r.fields.find? fun field => field.name == key with
  | some field =>
      -- The key alone shows the repetition; what stands behind it is not looked at.
      if field.isFilled draft then .refuse (.repeated field.name)
      else do
        Reader.colon
        field.fill draft
  | none => do
      Reader.colon
      Reader.skip
      pure draft

/-- Reads the members of an object up to its end. -/
def membersFrom (r : Record σ α) (isFirst : Bool) (draft : σ) (s : List Char) :
    Except Fault (σ × List Char) :=
  match _hturn : Reader.nextKey isFirst s with
  | .error fault => .error fault
  | .ok (.closed rest) => .ok (draft, rest)
  | .ok (.member text) =>
      match _hkey : scanString .kept text with
      | .error fault => .error fault
      | .ok (key, rest) =>
          match _hmember : (r.member draft (String.ofList key)).run rest with
          | .error fault => .error fault
          | .ok (next, rest) => membersFrom r false next rest
termination_by s.length
decreasing_by
  have hturn := Reader.length_nextKey _hturn
  have hkey := length_scanString_le _hkey
  have hmember := (r.member draft (String.ofList key)).length_le _hmember
  simp only [Reader.Turn.length] at hturn
  omega

theorem length_membersFrom_le {r : Record σ α} {isFirst : Bool} {draft : σ}
    {s rest : List Char} {full : σ} (h : membersFrom r isFirst draft s = .ok (full, rest)) :
    rest.length ≤ s.length := by
  fun_induction membersFrom r isFirst draft s with
  | case1 => cases h
  | case2 _ _ _ _ hturn => cases h; exact Nat.le_of_lt (Reader.length_nextKey hturn)
  | case3 => cases h
  | case4 => cases h
  | case5 isFirst draft s text hturn key mid hkey draft' rest' hmember ih =>
    have h1 := Reader.length_nextKey hturn
    have h2 := length_scanString_le hkey
    have h3 := (r.member draft (String.ofList key)).length_le hmember
    have h4 := ih h
    simp only [Reader.Turn.length] at h1
    omega

/-! ### Arrays -/

/-- Reads the end of an array that has an element for every field. -/
def closeArray (s : List Char) : Except Fault (List Char) :=
  match skipGaps s with
  | [] => .error .endOfText
  | c :: rest => if c = ']' then .ok rest else .error .malformed

/-- Reads the remaining elements of an array, of which `count` were read before. -/
def elementsFrom (r : Record σ α) (count : Nat) (draft : σ) :
    List (Field σ) → List Char → Except Fault (σ × List Char)
  | [], s =>
      match closeArray s with
      | .error fault => .error fault
      | .ok rest => .ok (draft, rest)
  | field :: fields, s =>
      match Reader.nextElement (count == 0) s with
      | .error fault => .error fault
      | .ok (.closed rest) =>
          if field.optional then .ok (draft, rest)
          else .error (.mismatch (.tooShort count r.title))
      | .ok (.member text) =>
          match (field.fill draft).run text with
          | .error fault => .error fault
          | .ok (next, rest) => elementsFrom r (count + 1) next fields rest

theorem length_elementsFrom_le {r : Record σ α} {count : Nat} {draft : σ}
    {fields : List (Field σ)} {s rest : List Char} {full : σ}
    (h : elementsFrom r count draft fields s = .ok (full, rest)) : rest.length ≤ s.length := by
  fun_induction elementsFrom r count draft fields s with
  | case1 => cases h
  | case2 _ _ s _ hclose =>
    cases h
    unfold closeArray at hclose
    split at hclose
    · cases hclose
    · next hc =>
      split at hclose
      · cases hclose
        exact Nat.le_of_lt (length_lt_of_skipGaps hc)
      · cases hclose
  | case3 => cases h
  | case4 _ _ _ _ _ _ hturn => cases h; exact (Reader.length_nextElement hturn).1
  | case5 => cases h
  | case6 => cases h
  | case7 count draft field fields s text hturn draft' mid hfill ih =>
    have h1 := (Reader.length_nextElement hturn).1
    have h2 := (field.fill draft).length_le hfill
    have h3 := ih h
    simp only [Reader.Turn.length] at h1
    omega

/-! ### Both forms -/

/-- Reads the draft of a record in either form. -/
def draft (r : Record σ α) : Reader σ where
  run := fun s =>
    match skipGaps s with
    | '[' :: rest => r.elementsFrom 0 r.blank r.fields rest
    | '{' :: rest => r.membersFrom true r.blank rest
    | _ => (Reader.scalar (.record r.title) (fun _ => (none : Option σ))).run s
  length_le := by
    intro s rest full h
    split at h
    case h_1 hopen =>
      exact Nat.le_trans (length_elementsFrom_le h) (Nat.le_of_lt (length_lt_of_skipGaps hopen))
    case h_2 hopen =>
      exact Nat.le_trans (length_membersFrom_le h) (Nat.le_of_lt (length_lt_of_skipGaps hopen))
    case h_3 => exact Reader.length_le _ h

/-- Reads a record in either form. -/
def reader (r : Record σ α) : Reader α := do
  let full ← r.draft
  Reader.ofExcept (r.finish full)

end Record

end Warden.Json
