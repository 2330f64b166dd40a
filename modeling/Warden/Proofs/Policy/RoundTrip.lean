import Warden.Proofs.Json.Writing
import Warden.Proofs.Policy.Reading

namespace Warden

/-!
# Reading what was written

Every policy value is read back from its text, compact or with line breaks, as it was, but for one
thing: the scope of the single resource type named `*` has the text of the wildcard, and is read as
that.

* `Scope.normalised`, `Grant.normalised`, … — the values with that one thing changed.
* `RoleRef.denotes_encode`, `Grant.denotes_encode`, … — what the written values denote.
* `decode_encode` — all values, in both ways of writing.
-/

open Json (Reader SpellsText)

/-! ### Normal forms -/

/-- The scope that a written scope is read as. -/
def Scope.normalised (s : Scope) : Scope :=
  if s = .resource wildcard then .anything else s

/-- An ability with the scope that it is read with. -/
def Ability.normalised (a : Ability) : Ability :=
  { a with scope := a.scope.normalised }

/-- A grant with the scope that it is read with. -/
def Grant.normalised (g : Grant) : Grant :=
  { g with scope := g.scope.normalised }

/-- A document with the scopes that it is read with. -/
def Document.normalised (d : Document) : Document :=
  ⟨d.grants.map Grant.normalised⟩

theorem Scope.ofText_text_eq (s : Scope) : Scope.ofText s.text = s.normalised := by
  unfold Scope.normalised
  split
  case isTrue h => rw [h]; rfl
  case isFalse h => exact Scope.ofText_text h

/-! ### Integers -/

/-- The digits of a number denote it. -/
theorem Text.digitsValue_toDigits (n : Nat) : Text.digitsValue (Nat.toDigits 10 n) = n := by
  have h := Nat.ofDigitChars_ten_toDigits (n := n)
  rw [Nat.ofDigitChars_eq_foldl] at h
  exact h

/-- The numeral of an integer denotes it. -/
theorem Json.Numeral.denotes_ofInt (i : Int) : (Json.Numeral.ofInt i).Denotes i := by
  refine ⟨rfl, rfl, ?_, ?_⟩
  · simp only [Json.Numeral.ofInt, Text.signedValue, Text.digitsValue_toDigits, decide_eq_true_eq]
    split <;> omega
  · intro hnegative
    have hlt : i < 0 := by simpa [Json.Numeral.ofInt] using hnegative
    omega

/-! ### What written values denote -/

theorem Action.denotes_encode (a : Action) : Action.Denotes a.encode a := by
  refine ⟨a.name, rfl, ?_⟩
  cases a <;> decide +kernel

theorem Scope.denotes_encode (s : Scope) : Scope.Denotes s.encode s.normalised :=
  ⟨s.text, rfl, (Scope.ofText_text_eq s).symm⟩

theorem Role.denotes_encode (r : Role) : Role.Denotes r.encode r :=
  ⟨.ofInt r.id.toInt, rfl, Json.Numeral.denotes_ofInt r.id.toInt⟩

/-- A name stays a name, whatever it looks like, and a number stays a number. -/
theorem RoleRef.denotes_encode (r : RoleRef) : RoleRef.Denotes r.encode r := by
  cases r with
  | id number => exact .id (Json.Numeral.denotes_ofInt number.toInt)
  | name text => exact .name text

theorem Ability.denotes_encode (a : Ability) : Ability.Denotes a.encode a.normalised :=
  ⟨_, _, _, _, .named rfl rfl rfl, a.role.denotes_encode, a.action.denotes_encode,
    a.scope.denotes_encode, .set rfl⟩

/-- A grant is written without its last part exactly when that is the default. -/
theorem Grant.denotes_encode (g : Grant) : Grant.Denotes g.encode g.normalised := by
  obtain ⟨role, action, scope, ownerOnly⟩ := g
  cases ownerOnly with
  | true =>
    -- The last part is there.
    exact ⟨_, _, _, _, .named rfl rfl rfl, role.denotes_encode, action.denotes_encode,
      scope.denotes_encode, .set rfl⟩
  | false =>
    exact ⟨_, _, _, _, .named rfl rfl rfl, role.denotes_encode, action.denotes_encode,
      scope.denotes_encode, .unset⟩

theorem Document.denotes_encode (d : Document) : Document.Denotes d.encode d.normalised := by
  refine .named (.set ⟨d.grants.map Grant.encode, rfl, ?_⟩)
  simp only [Document.normalised, List.forall₂_map_left_iff, List.forall₂_map_right_iff]
  exact List.forall₂_same.mpr fun g _ => g.denotes_encode

/-! ### What is written can be read -/

theorem RoleRef.isWritable_encode (r : RoleRef) : r.encode.IsWritable := by
  cases r with
  | id number =>
    show Json.IsWritable (.number (.ofInt number.toInt))
    rw [Json.IsWritable]
    exact Json.Numeral.isWritable_ofInt number.toInt
  | name text =>
    show Json.IsWritable (.text text.toList)
    rw [Json.IsWritable]
    exact True.intro

theorem Role.isWritable_encode (r : Role) : r.encode.IsWritable :=
  RoleRef.isWritable_encode (.id r.id)

theorem Action.isWritable_encode (a : Action) : a.encode.IsWritable :=
  RoleRef.isWritable_encode (.name a.name)

theorem Scope.isWritable_encode (s : Scope) : s.encode.IsWritable :=
  RoleRef.isWritable_encode (.name s.text)

theorem Ability.isWritable_encode (a : Ability) : a.encode.IsWritable := by
  simp [Ability.encode, Json.IsWritable, Json.MembersWritable, a.role.isWritable_encode,
    a.action.isWritable_encode, a.scope.isWritable_encode]

theorem Grant.isWritable_encode (g : Grant) : g.encode.IsWritable := by
  obtain ⟨role, action, scope, ownerOnly⟩ := g
  cases ownerOnly <;> simp [Grant.encode, Json.IsWritable, Json.MembersWritable,
    role.isWritable_encode, action.isWritable_encode, scope.isWritable_encode]

theorem itemsWritable_map_encode (grants : List Grant) :
    Json.ItemsWritable (grants.map Grant.encode) := by
  induction grants with
  | nil => simp [Json.ItemsWritable]
  | cons g grants ih =>
    rw [List.map_cons, Json.ItemsWritable]
    exact ⟨g.isWritable_encode, ih⟩

theorem Document.isWritable_encode (d : Document) : d.encode.IsWritable := by
  simp [Document.encode, Json.IsWritable, Json.MembersWritable, itemsWritable_map_encode]

/-! ### Round trips -/

/-- Whatever is written, compact or with line breaks, is read back as its normal form. -/
def RoundTrips {α : Type} (decode : Reader α) (encode : α → Json) (normal : α → α) : Prop :=
  ∀ a, decode.read (encode a).compact = .ok (normal a) ∧
    decode.read (encode a).pretty = .ok (normal a)

/-- A reader that knows what written values denote reads them back. -/
theorem roundTrips_of_reads {α : Type} {decode : Reader α} {R : Json → α → Prop}
    {encode : α → Json} {normal : α → α} (hreads : decode.Reads R)
    (hwritable : ∀ a, (encode a).IsWritable) (hdenotes : ∀ a, R (encode a) (normal a)) :
    RoundTrips decode encode normal := by
  intro a
  -- Both texts spell the same value, and the reader looks at nothing else.
  constructor
  · exact (hreads.read (Json.spellsText_compact (hwritable a)) _).mpr (hdenotes a)
  · exact (hreads.read (Json.spellsText_pretty (hwritable a)) _).mpr (hdenotes a)

/-- **Reading undoes writing.**  Every document is read back from its text, compact or with line
    breaks, with its grants in their order and nothing changed but the scopes of the single type
    named `*`; so is every action, scope, role, reference, grant and ability. -/
theorem decode_encode_eq_normalised :
    (∀ d : Document, Document.ofJson d.toJson = .ok d.normalised ∧
      Document.ofJson d.encode.compact = .ok d.normalised) ∧
    RoundTrips Action.decode Action.encode id ∧
    RoundTrips Scope.decode Scope.encode Scope.normalised ∧
    RoundTrips Role.decode Role.encode id ∧
    (∀ depth, RoundTrips (RoleRef.decode depth) RoleRef.encode id) ∧
    (∀ depth, RoundTrips (Grant.decode depth) Grant.encode Grant.normalised) ∧
    RoundTrips Ability.decode Ability.encode Ability.normalised := by
  refine ⟨fun d => ?_, ?_, ?_, ?_, fun depth => ?_, fun depth => ?_, ?_⟩
  · have h := roundTrips_of_reads Document.reads_decode Document.isWritable_encode
      Document.denotes_encode d
    exact ⟨h.2, h.1⟩
  · exact roundTrips_of_reads Action.reads_decode Action.isWritable_encode Action.denotes_encode
  · exact roundTrips_of_reads Scope.reads_decode Scope.isWritable_encode Scope.denotes_encode
  · exact roundTrips_of_reads Role.reads_decode Role.isWritable_encode Role.denotes_encode
  · exact roundTrips_of_reads (RoleRef.reads_decode depth) RoleRef.isWritable_encode
      RoleRef.denotes_encode
  · exact roundTrips_of_reads (Grant.reads_decode depth) Grant.isWritable_encode
      Grant.denotes_encode
  · exact roundTrips_of_reads Ability.reads_decode Ability.isWritable_encode
      Ability.denotes_encode

end Warden
