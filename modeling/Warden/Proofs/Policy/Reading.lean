import Warden.Proofs.Json.Gathering
import Warden.Proofs.Policy.Denotation

namespace Warden

/-!
# Reading policy values

A policy text is read as what the value spelled in it denotes, and refused if that denotes
nothing.

* `RoleRef.reads_decode`, `Action.reads_decode`, … — single values.
* `Draft.gathers_iff`, `Draft.linesUp_iff` — the four parts of a grant or an ability, found by
  their names or by their places.
* `Grant.reads_decode`, `Ability.reads_decode`, `Document.reads_decode` — whole records.
* `Document.ofJson_eq_ok_iff_denotes` — a document, from any text of any value.
-/

open Json (Reader Record Field Spells SpellsText)
open Json.Reader

/-! ### Single values -/

/-- A numeral denotes a signed 64-bit number exactly when it is read as that number. -/
theorem Json.Numeral.integer?_eq_some_iff {n : Json.Numeral} {number : Int64} :
    n.integer? = some number.toInt ↔ n.Denotes number.toInt := by
  have hle := number.minValue_le_toInt
  have hlt := number.toInt_lt
  have hsize : UInt64.size = 2 ^ 64 := rfl
  obtain ⟨negative, whole, fraction, exponent⟩ := n
  simp only [Json.Numeral.integer?, Json.Numeral.Denotes, Text.signedValue]
  cases fraction with
  | some _ => simp
  | none =>
    cases exponent with
    | some _ => simp
    | none =>
      simp only [Option.isSome_none, Bool.or_self, Bool.false_eq_true, if_false, true_and]
      -- Integers of 64 bits are read with and without a sign; a signed number is among them.
      cases negative with
      | true =>
        simp only [if_true, Bool.and_eq_true, decide_eq_true_eq, true_implies]
        split
        · simp only [Option.some.injEq]
          omega
        · simp only [reduceCtorEq, false_iff]
          omega
      | false =>
        simp only [Bool.false_eq_true, if_false, false_implies, and_true]
        split
        · simp only [Option.some.injEq]
        · simp only [reduceCtorEq, false_iff]
          omega

theorem Role.reads_decode : Role.decode.Reads Role.Denotes := by
  refine (reads_int64.bind fun id => Settles.pure (⟨id⟩ : Role)).of_iff fun v role => ?_
  simp only [Role.Denotes, Json.Numeral.integer?_eq_some_iff]
  constructor
  · rintro ⟨id, hn, rfl⟩
    exact hn
  · intro hn
    exact ⟨role.id, hn, rfl⟩

theorem Action.reads_decode : Action.decode.Reads Action.Denotes := by
  refine reads_string.bind (Q := fun text action => Action.ofText? text = some action) ?_
  intro text s action after
  cases Action.ofText? text with
  | none => simp [Json.Reader.refuse]
  | some named => simp [eq_comm]

theorem Scope.reads_decode : Scope.decode.Reads Scope.Denotes :=
  reads_string.bind fun text => Settles.pure (Scope.ofText text)

/-- A reference is a scalar, at whatever depth it stands: every container is refused there, in one
    way or another. -/
theorem RoleRef.reads_scalar (depth : Nat) : (RoleRef.decode depth).Reads fun v ref =>
    ∃ y : Json.Scalar, v = y.json ∧ RoleRef.ofScalar? y = some ref := by
  refine reads_of_accept ?_ ?_ ?_
  · intro s t c hgap hc ref after
    obtain ⟨-, hsquare, hcurly, -⟩ := hc.ne
    simp only [RoleRef.decode, hgap]
    split
    · next h => cases h; exact absurd rfl hsquare
    · next h => cases h; exact absurd rfl hcurly
    · cases Json.scanScalar .kept (c :: t) with
      | error fault => simp
      | ok result =>
        obtain ⟨y, rest⟩ := result
        cases haccepted : RoleRef.ofScalar? y with
        | none => simp [haccepted]
        | some _ => simp [haccepted, and_comm]
  · intro s t c hgap hc ref after
    simp only [RoleRef.decode, hgap]
    rcases hc with rfl | rfl <;> simp
  · intro y ref h
    cases y with
    | number n =>
      cases hn : n.integer? with
      | none => simp [RoleRef.ofScalar?, hn] at h
      | some i => exact Json.Reader.inRange_of_integer? hn
    | _ => rfl

/-- The scalars that are accepted as a reference. -/
theorem RoleRef.ofScalar?_eq_some_iff {y : Json.Scalar} {ref : RoleRef} :
    RoleRef.ofScalar? y = some ref ↔ RoleRef.Denotes y.json ref := by
  cases y with
  | null => exact iff_of_false (by simp [ofScalar?]) (by rintro ⟨⟩)
  | boolean value => exact iff_of_false (by simp [ofScalar?]) (by rintro ⟨⟩)
  | number n =>
    constructor
    · intro h
      cases hn : n.integer? with
      | none => simp [ofScalar?, hn] at h
      | some i =>
        -- The integer is in range, so it is the signed number that it is cut down to.
        simp only [ofScalar?, hn, Option.bind_some] at h
        split at h
        · next hrange =>
          cases h
          have hi : i = (Int64.ofInt i).toInt := eq_toInt_iff.mpr ⟨hrange, rfl⟩
          refine .id (Json.Numeral.integer?_eq_some_iff.mp ?_)
          rw [hn, ← hi]
        · cases h
    · intro h
      cases h with
      | @id _ number hn =>
        obtain ⟨hrange, hid⟩ := eq_toInt_iff.mp (Eq.refl number.toInt)
        simp [ofScalar?, Json.Numeral.integer?_eq_some_iff.mpr hn, hrange]
  | text chars =>
    constructor
    · intro h
      cases h
      have hchars : Json.Scalar.json (.text chars) = .ofString (String.ofList chars) := by
        simp [Json.Scalar.json, Json.ofString]
      rw [hchars]
      exact .name _
    · rintro ⟨text⟩
      simp [ofScalar?]

theorem RoleRef.reads_decode (depth : Nat) : (RoleRef.decode depth).Reads RoleRef.Denotes := by
  refine (RoleRef.reads_scalar depth).of_iff fun v ref => ?_
  simp only [RoleRef.ofScalar?_eq_some_iff]
  constructor
  · rintro ⟨y, rfl, hy⟩
    exact hy
  · intro h
    cases h with
    | name text => exact ⟨.text text.toList, rfl, .name text⟩
    | id hn => exact ⟨.number _, rfl, .id hn⟩

/-! ### Parts -/

section Parts

variable {β : Type} {R : Json → β → Prop} {v : Json} {vs : List Json}

/-- What the values of a part come to, given what it was before: it is filled by at most one of
    them, and only if it was empty. -/
def PartFrom (R : Json → β → Prop) : List Json → Option β → Option β → Prop
  | [], before, after => after = before
  | [v], before, after => before = none ∧ ∃ x, R v x ∧ after = some x
  | _ :: _ :: _, _, _ => False

/-- A part that a value has filled takes up no other one. -/
theorem partFrom_cons_iff
    {before after : Option β} :
    PartFrom R (v :: vs) before after ↔
      before = none ∧ ∃ x, R v x ∧ PartFrom R vs (some x) after := by
  match vs with
  | [] => rfl
  | [_] => simp [PartFrom]
  | _ :: _ :: _ => simp [PartFrom]

/-- A part of an empty draft that has to be filled. -/
theorem partFrom_none_some_iff {x : β} :
    PartFrom R vs none (some x) ↔ ∃ v, vs = [v] ∧ R v x := by
  match vs with
  | [] => simp [PartFrom]
  | [_] => simp [PartFrom]
  | _ :: _ :: _ => simp [PartFrom]

/-- A part of an empty draft that may be left out. -/
theorem partFrom_none_getD_iff {default x : β} :
    (∃ after, PartFrom R vs none after ∧ after.getD default = x) ↔
      OptionalDenotes R default vs x := by
  constructor
  · rintro ⟨after, hpart, rfl⟩
    -- Two values are too many, whatever they are.
    match vs, hpart with
    | [], hpart =>
      obtain rfl : after = none := hpart
      exact .unset
    | [_], ⟨_, y, hy, hafter⟩ =>
      obtain rfl : after = some y := hafter
      exact .set hy
  · rintro (_ | hx)
    · exact ⟨none, rfl, rfl⟩
    · exact ⟨some x, ⟨rfl, x, hx, rfl⟩, rfl⟩

end Parts

/-! ### The four parts -/

namespace Draft

variable {ρ α : Type}

/-- What a value does to a part of a draft that has the given name. -/
def Fills (scopeName : String) (R : Json → ρ → Prop) (name : String) (draft : Draft ρ) (v : Json)
    (next : Draft ρ) : Prop :=
  if name = "role" then ∃ x, R v x ∧ next = { draft with role := some x }
  else if name = "action" then ∃ x, Action.Denotes v x ∧ next = { draft with action := some x }
  else if name = scopeName then ∃ x, Scope.Denotes v x ∧ next = { draft with scope := some x }
  else ∃ x, FlagDenotes v x ∧ next = { draft with ownerOnly := some x }

variable {title scopeName ownerName : String} {role : Reader ρ} {R : Json → ρ → Prop}
  {make : ρ → Action → Scope → Bool → α}

/-- The names of the parts, none of which is another one. -/
theorem ne_of_nodup (hnames : ["role", "action", scopeName, ownerName].Nodup) :
    ("role" ≠ scopeName ∧ "role" ≠ ownerName) ∧ ("action" ≠ scopeName ∧ "action" ≠ ownerName) ∧
      scopeName ≠ ownerName := by
  simp only [List.nodup_cons, List.mem_cons, List.not_mem_nil, or_false, not_or] at hnames
  obtain ⟨⟨-, hrole⟩, haction, hscope, -⟩ := hnames
  exact ⟨hrole, haction, hscope⟩

theorem fills_scope_iff (hnames : ["role", "action", scopeName, ownerName].Nodup)
    {draft next : Draft ρ} {v : Json} :
    Fills scopeName R scopeName draft v next ↔
      ∃ x, Scope.Denotes v x ∧ next = { draft with scope := some x } := by
  obtain ⟨⟨hrole, -⟩, ⟨haction, -⟩, -⟩ := ne_of_nodup hnames
  rw [Fills, if_neg hrole.symm, if_neg haction.symm, if_pos rfl]

theorem fills_owner_iff (hnames : ["role", "action", scopeName, ownerName].Nodup)
    {draft next : Draft ρ} {v : Json} :
    Fills scopeName R ownerName draft v next ↔
      ∃ x, FlagDenotes v x ∧ next = { draft with ownerOnly := some x } := by
  obtain ⟨⟨-, hrole⟩, ⟨-, haction⟩, hscope⟩ := ne_of_nodup hnames
  rw [Fills, if_neg hrole.symm, if_neg haction.symm, if_neg hscope.symm]

/-- Each field fills its own part. -/
theorem reads_fill (hrole : role.Reads R)
    (hnames : ["role", "action", scopeName, ownerName].Nodup) :
    ∀ field ∈ (Draft.record title scopeName ownerName role make).fields, ∀ draft,
      (field.fill draft).Reads (Fills scopeName R field.name draft) := by
  intro field hfield draft
  simp only [Draft.record, List.mem_cons, List.not_mem_nil, or_false] at hfield
  rcases hfield with rfl | rfl | rfl | rfl
  · refine (hrole.bind fun x => Settles.pure _).of_iff fun v next => ?_
    simp [Fills]
  · refine (Action.reads_decode.bind fun x => Settles.pure _).of_iff fun v next => ?_
    simp [Fills]
  · refine (Scope.reads_decode.bind fun x => Settles.pure _).of_iff fun v next => ?_
    rw [fills_scope_iff hnames]
  · refine (reads_boolean.bind fun x => Settles.pure _).of_iff fun v next => ?_
    rw [fills_owner_iff hnames]
    rfl

/-- What a member of an object does to a draft. -/
theorem takes_iff (hnames : ["role", "action", scopeName, ownerName].Nodup) {draft next : Draft ρ}
    {key : List Char} {v : Json} :
    (Draft.record title scopeName ownerName role make).Takes (Fills scopeName R) draft (key, v)
        next ↔
      if String.ofList key = "role" then
        draft.role = none ∧ ∃ x, R v x ∧ next = { draft with role := some x }
      else if String.ofList key = "action" then
        draft.action = none ∧ ∃ x, Action.Denotes v x ∧ next = { draft with action := some x }
      else if String.ofList key = scopeName then
        draft.scope = none ∧ ∃ x, Scope.Denotes v x ∧ next = { draft with scope := some x }
      else if String.ofList key = ownerName then
        draft.ownerOnly = none ∧
          ∃ x, FlagDenotes v x ∧ next = { draft with ownerOnly := some x }
      else next = draft := by
  obtain ⟨⟨hroleScope, hroleOwner⟩, ⟨hactionScope, hactionOwner⟩, hscopeOwner⟩ :=
    ne_of_nodup hnames
  -- The first field of the name of the key takes the value.
  by_cases h1 : String.ofList key = "role"
  · simp [Record.Takes, Draft.record, Fills, h1]
  by_cases h2 : String.ofList key = "action"
  · simp [Record.Takes, Draft.record, Fills, h2]
  by_cases h3 : String.ofList key = scopeName
  · simp [Record.Takes, Draft.record, fills_scope_iff hnames, h3, hroleScope, hroleScope.symm,
      hactionScope, hactionScope.symm]
  by_cases h4 : String.ofList key = ownerName
  · simp [Record.Takes, Draft.record, fills_owner_iff hnames, h4, hroleOwner, hroleOwner.symm,
      hactionOwner, hactionOwner.symm, hscopeOwner, hscopeOwner.symm]
  · simp [Record.Takes, Draft.record, h1, h2, h3, h4, Ne.symm h1, Ne.symm h2, Ne.symm h3,
      Ne.symm h4]

/-- The members of an object fill each part with the values behind its name, in whatever order
    they stand and whatever stands between them. -/
theorem gathers_iff (hnames : ["role", "action", scopeName, ownerName].Nodup)
    {ms : List (List Char × Json)} {draft full : Draft ρ} :
    (Draft.record title scopeName ownerName role make).Gathers (Fills scopeName R) draft ms full ↔
      PartFrom R (Json.valuesOf "role" ms) draft.role full.role ∧
      PartFrom Action.Denotes (Json.valuesOf "action" ms) draft.action full.action ∧
      PartFrom Scope.Denotes (Json.valuesOf scopeName ms) draft.scope full.scope ∧
      PartFrom FlagDenotes (Json.valuesOf ownerName ms) draft.ownerOnly full.ownerOnly := by
  obtain ⟨⟨hroleScope, hroleOwner⟩, ⟨hactionScope, hactionOwner⟩, hscopeOwner⟩ :=
    ne_of_nodup hnames
  induction ms generalizing draft with
  | nil =>
    obtain ⟨role, action, scope, ownerOnly⟩ := draft
    obtain ⟨role', action', scope', ownerOnly'⟩ := full
    constructor
    · rintro ⟨⟩
      exact ⟨rfl, rfl, rfl, rfl⟩
    · rintro ⟨hrole, haction, hscope, howner⟩
      obtain rfl : role' = role := hrole
      obtain rfl : action' = action := haction
      obtain rfl : scope' = scope := hscope
      obtain rfl : ownerOnly' = ownerOnly := howner
      exact .nil
  | cons m ms ih =>
    obtain ⟨key, v⟩ := m
    simp only [Record.gathers_cons_iff, takes_iff hnames, ih]
    -- The member fills the part of its name and leaves the other three as they are.
    by_cases h1 : String.ofList key = "role"
    · have h2 : String.ofList key ≠ "action" := by rw [h1]; decide
      have h3 : String.ofList key ≠ scopeName := by rw [h1]; exact hroleScope
      have h4 : String.ofList key ≠ ownerName := by rw [h1]; exact hroleOwner
      rw [Json.valuesOf_cons_of_eq h1, Json.valuesOf_cons_of_ne h2, Json.valuesOf_cons_of_ne h3,
        Json.valuesOf_cons_of_ne h4, partFrom_cons_iff]
      simp only [if_pos h1]
      constructor
      · rintro ⟨_, ⟨hempty, x, hx, rfl⟩, hrole, hothers⟩
        exact ⟨⟨hempty, x, hx, hrole⟩, hothers⟩
      · rintro ⟨⟨hempty, x, hx, hrole⟩, hothers⟩
        exact ⟨_, ⟨hempty, x, hx, rfl⟩, hrole, hothers⟩
    by_cases h2 : String.ofList key = "action"
    · have h3 : String.ofList key ≠ scopeName := by rw [h2]; exact hactionScope
      have h4 : String.ofList key ≠ ownerName := by rw [h2]; exact hactionOwner
      rw [Json.valuesOf_cons_of_ne h1, Json.valuesOf_cons_of_eq h2, Json.valuesOf_cons_of_ne h3,
        Json.valuesOf_cons_of_ne h4, partFrom_cons_iff]
      simp only [if_neg h1, if_pos h2]
      constructor
      · rintro ⟨_, ⟨hempty, x, hx, rfl⟩, hrole, haction, hothers⟩
        exact ⟨hrole, ⟨hempty, x, hx, haction⟩, hothers⟩
      · rintro ⟨hrole, ⟨hempty, x, hx, haction⟩, hothers⟩
        exact ⟨_, ⟨hempty, x, hx, rfl⟩, hrole, haction, hothers⟩
    by_cases h3 : String.ofList key = scopeName
    · have h4 : String.ofList key ≠ ownerName := by rw [h3]; exact hscopeOwner
      rw [Json.valuesOf_cons_of_ne h1, Json.valuesOf_cons_of_ne h2, Json.valuesOf_cons_of_eq h3,
        Json.valuesOf_cons_of_ne h4, partFrom_cons_iff]
      simp only [if_neg h1, if_neg h2, if_pos h3]
      constructor
      · rintro ⟨_, ⟨hempty, x, hx, rfl⟩, hrole, haction, hscope, howner⟩
        exact ⟨hrole, haction, ⟨hempty, x, hx, hscope⟩, howner⟩
      · rintro ⟨hrole, haction, ⟨hempty, x, hx, hscope⟩, howner⟩
        exact ⟨_, ⟨hempty, x, hx, rfl⟩, hrole, haction, hscope, howner⟩
    rw [Json.valuesOf_cons_of_ne h1, Json.valuesOf_cons_of_ne h2, Json.valuesOf_cons_of_ne h3]
    by_cases h4 : String.ofList key = ownerName
    · rw [Json.valuesOf_cons_of_eq h4, partFrom_cons_iff]
      simp only [if_neg h1, if_neg h2, if_neg h3, if_pos h4]
      constructor
      · rintro ⟨_, ⟨hempty, x, hx, rfl⟩, hrole, haction, hscope, howner⟩
        exact ⟨hrole, haction, hscope, hempty, x, hx, howner⟩
      · rintro ⟨hrole, haction, hscope, hempty, x, hx, howner⟩
        exact ⟨_, ⟨hempty, x, hx, rfl⟩, hrole, haction, hscope, howner⟩
    · rw [Json.valuesOf_cons_of_ne h4]
      simp only [if_neg h1, if_neg h2, if_neg h3, if_neg h4, exists_eq_left]

/-- The elements of an array fill the parts by their places: the first three have to be there, and
    one more may be. -/
theorem linesUp_iff (hnames : ["role", "action", scopeName, ownerName].Nodup)
    {vs : List Json} {full : Draft ρ} :
    Record.LinesUp (Fills scopeName R) {}
        (Draft.record title scopeName ownerName role make).fields vs full ↔
      ∃ v action scope owner x a s, vs = v :: action :: scope :: owner ∧ R v x ∧
        Action.Denotes action a ∧ Scope.Denotes scope s ∧
        full.role = some x ∧ full.action = some a ∧ full.scope = some s ∧
        PartFrom FlagDenotes owner none full.ownerOnly := by
  constructor
  -- The array cannot end before the third element, since the first three fields are needed.
  · rintro (_ | hneeded | ⟨⟨x, hx, rfl⟩, _ | hneeded | ⟨⟨a, ha, rfl⟩, _ | hneeded | ⟨hs, hlast⟩⟩⟩)
    · cases hneeded
    · cases hneeded
    · cases hneeded
    · obtain ⟨s, hS, rfl⟩ := (fills_scope_iff hnames).mp hs
      rcases hlast with _ | _ | ⟨ho, ⟨⟩⟩
      · exact ⟨_, _, _, [], x, a, s, rfl, hx, ha, hS, rfl, rfl, rfl, rfl⟩
      · obtain ⟨b, hb, rfl⟩ := (fills_owner_iff hnames).mp ho
        exact ⟨_, _, _, [_], x, a, s, rfl, hx, ha, hS, rfl, rfl, rfl, rfl, b, hb, rfl⟩
  · rintro ⟨v, action, scope, owner, x, a, s, rfl, hx, ha, hs, hrole, haction, hscopePart, hpart⟩
    obtain ⟨role', action', scope', ownerOnly'⟩ := full
    obtain rfl : role' = some x := hrole
    obtain rfl : action' = some a := haction
    obtain rfl : scope' = some s := hscopePart
    refine .next ⟨x, hx, rfl⟩ (.next ⟨a, ha, rfl⟩
      (.next ((fills_scope_iff hnames).mpr ⟨s, hs, rfl⟩) ?_))
    match owner, hpart with
    | [], hpart =>
      obtain rfl : ownerOnly' = none := hpart
      exact .short rfl
    | [o], ⟨_, b, ho, hafter⟩ =>
      obtain rfl : ownerOnly' = some b := hafter
      exact .next ((fills_owner_iff hnames).mpr ⟨b, ho, rfl⟩) .done

/-- What a full draft is made into. -/
theorem finish_eq_ok_iff {full : Draft ρ} {a : α} :
    (Draft.record title scopeName ownerName role make).finish full = .ok a ↔
      ∃ x action scope, full.role = some x ∧ full.action = some action ∧
        full.scope = some scope ∧ make x action scope (full.ownerOnly.getD false) = a := by
  obtain ⟨role, action, scope, ownerOnly⟩ := full
  cases role <;> cases action <;> cases scope <;> simp [Draft.record]

/-- The record of a grant or an ability is read from values that have its parts. -/
theorem reads_reader (hrole : role.Reads R)
    (hnames : ["role", "action", scopeName, ownerName].Nodup) :
    (Draft.record title scopeName ownerName role make).reader.Reads fun v a =>
      ∃ r action scope owner, HasParts scopeName ownerName v r action scope owner ∧
        ∃ x b s flag, R r x ∧ Action.Denotes action b ∧ Scope.Denotes scope s ∧
          OptionalDenotes FlagDenotes false owner flag ∧ make x b s flag = a := by
  refine (Record.reads_reader (reads_fill hrole hnames)).of_iff fun v a => ?_
  simp only [finish_eq_ok_iff, ← partFrom_none_getD_iff]
  constructor
  · rintro ⟨full, ⟨vs, rfl, hlines⟩ | ⟨ms, rfl, hgathers⟩, x, b, s, hx, hb, hs, rfl⟩
    -- The draft was filled from an array, then from an object.
    · obtain ⟨r, action, scope, owner, x', b', s', rfl, hR, hA, hS, hx', hb', hs', hpart⟩ :=
        (linesUp_iff hnames).mp hlines
      obtain rfl : x' = x := Option.some.inj (hx'.symm.trans hx)
      obtain rfl : b' = b := Option.some.inj (hb'.symm.trans hb)
      obtain rfl : s' = s := Option.some.inj (hs'.symm.trans hs)
      exact ⟨r, action, scope, owner, .placed r action scope owner, x', b', s', _, hR, hA, hS,
        ⟨full.ownerOnly, hpart, rfl⟩, rfl⟩
    · obtain ⟨hrole, haction, hscope, howner⟩ := (gathers_iff hnames).mp hgathers
      rw [hx] at hrole
      rw [hb] at haction
      rw [hs] at hscope
      obtain ⟨r, hr, hR⟩ := partFrom_none_some_iff.mp hrole
      obtain ⟨action, ha, hA⟩ := partFrom_none_some_iff.mp haction
      obtain ⟨scope, hscope, hS⟩ := partFrom_none_some_iff.mp hscope
      exact ⟨r, action, scope, _, .named hr ha hscope, x, b, s, _, hR, hA, hS,
        ⟨full.ownerOnly, howner, rfl⟩, rfl⟩
  · rintro ⟨r, action, scope, owner, hparts, x, b, s, _, hR, hA, hS, ⟨after, hpart, rfl⟩, rfl⟩
    refine ⟨⟨some x, some b, some s, after⟩, ?_, x, b, s, rfl, rfl, rfl, rfl⟩
    cases hparts with
    | named hr ha hs =>
      refine .inr ⟨_, rfl, (gathers_iff hnames).mpr ⟨?_, ?_, ?_, hpart⟩⟩
      · exact partFrom_none_some_iff.mpr ⟨r, hr, hR⟩
      · exact partFrom_none_some_iff.mpr ⟨action, ha, hA⟩
      · exact partFrom_none_some_iff.mpr ⟨scope, hs, hS⟩
    | placed =>
      exact .inl ⟨_, rfl, (linesUp_iff hnames).mpr
        ⟨r, action, scope, owner, x, b, s, rfl, hR, hA, hS, rfl, rfl, rfl, hpart⟩⟩

end Draft

theorem Ability.reads_decode : Ability.decode.Reads Ability.Denotes := by
  refine (Draft.reads_reader Role.reads_decode (by decide)).of_iff fun v a => ?_
  constructor
  · rintro ⟨role, action, scope, owner, hparts, x, b, s, flag, hx, hb, hs, hflag, rfl⟩
    exact ⟨role, action, scope, owner, hparts, hx, hb, hs, hflag⟩
  · rintro ⟨role, action, scope, owner, hparts, hx, hb, hs, hflag⟩
    exact ⟨role, action, scope, owner, hparts, a.role, a.action, a.scope, a.ownerOnly, hx, hb, hs,
      hflag, rfl⟩

theorem Grant.reads_decode (depth : Nat) : (Grant.decode depth).Reads Grant.Denotes := by
  refine (Draft.reads_reader (RoleRef.reads_decode (depth + 1)) (by decide)).of_iff fun v g => ?_
  constructor
  · rintro ⟨role, action, scope, owner, hparts, x, b, s, flag, hx, hb, hs, hflag, rfl⟩
    exact ⟨role, action, scope, owner, hparts, hx, hb, hs, hflag⟩
  · rintro ⟨role, action, scope, owner, hparts, hx, hb, hs, hflag⟩
    exact ⟨role, action, scope, owner, hparts, g.role, g.action, g.scope, g.ownerOnly, hx, hb, hs,
      hflag, rfl⟩

/-! ### Documents -/

namespace Document

/-- What a value makes of the one part of a document. -/
def Fills (_ : String) (_ : Option (List Grant)) (v : Json) (next : Option (List Grant)) : Prop :=
  ∃ grants, GrantsDenote v grants ∧ next = some grants

/-- The members of an object fill the one part with the values behind its name. -/
theorem gathers_iff {ms : List (List Char × Json)} {draft full : Option (List Grant)} :
    record.Gathers Fills draft ms full ↔
      PartFrom GrantsDenote (Json.valuesOf "grants" ms) draft full := by
  induction ms generalizing draft with
  | nil =>
    constructor
    · rintro ⟨⟩
      rfl
    · intro h
      obtain rfl : full = draft := h
      exact .nil
  | cons m ms ih =>
    obtain ⟨key, v⟩ := m
    simp only [Record.gathers_cons_iff, ih]
    by_cases hkey : String.ofList key = "grants"
    -- The part is filled and must have been empty; any other member is passed over.
    · have htakes : ∀ next, record.Takes Fills draft (key, v) next ↔
          draft = none ∧ Fills "grants" draft v next := by
        intro next
        simp [Record.Takes, record, hkey]
      rw [Json.valuesOf_cons_of_eq hkey, partFrom_cons_iff]
      simp only [htakes]
      constructor
      · rintro ⟨_, ⟨hempty, grants, hgrants, rfl⟩, hothers⟩
        exact ⟨hempty, grants, hgrants, hothers⟩
      · rintro ⟨hempty, grants, hgrants, hothers⟩
        exact ⟨_, ⟨hempty, grants, hgrants, rfl⟩, hothers⟩
    · have htakes : ∀ next, record.Takes Fills draft (key, v) next ↔ next = draft := by
        intro next
        simp [Record.Takes, record, Ne.symm hkey]
      rw [Json.valuesOf_cons_of_ne hkey]
      simp only [htakes, exists_eq_left]

/-- The elements of an array fill the one part if there is at most one of them. -/
theorem linesUp_iff {vs : List Json} {full : Option (List Grant)} :
    Record.LinesUp Fills none record.fields vs full ↔ PartFrom GrantsDenote vs none full := by
  constructor
  · rintro (_ | _ | ⟨⟨grants, hgrants, rfl⟩, ⟨⟩⟩)
    · rfl
    · exact ⟨rfl, grants, hgrants, rfl⟩
  · intro h
    match vs, h with
    | [], h =>
      obtain rfl : full = none := h
      exact .short rfl
    | [_], ⟨_, grants, hgrants, hfull⟩ =>
      obtain rfl : full = some grants := hfull
      exact .next ⟨grants, hgrants, rfl⟩ .done

theorem finish_eq_ok_iff {full : Option (List Grant)} {d : Document} :
    record.finish full = .ok d ↔ full.getD [] = d.grants := by
  obtain ⟨grants⟩ := d
  simp [record]

theorem reads_decode : decode.Reads Denotes := by
  have hfill : ∀ field ∈ record.fields, ∀ draft,
      (field.fill draft).Reads (Fills field.name draft) := by
    intro field hfield draft
    obtain rfl := List.mem_singleton.mp hfield
    exact (Grant.reads_decode 2).items.bind fun grants => Settles.pure (some grants)
  refine (Record.reads_reader hfill).of_iff fun v d => ?_
  simp only [finish_eq_ok_iff]
  constructor
  · rintro ⟨full, ⟨vs, rfl, hlines⟩ | ⟨ms, rfl, hgathers⟩, hd⟩
    · exact .placed (partFrom_none_getD_iff.mp ⟨full, linesUp_iff.mp hlines, hd⟩)
    · exact .named (partFrom_none_getD_iff.mp ⟨full, gathers_iff.mp hgathers, hd⟩)
  · rintro (hpart | hpart)
    · obtain ⟨after, hafter, hd⟩ := partFrom_none_getD_iff.mpr hpart
      exact ⟨after, .inr ⟨_, rfl, gathers_iff.mpr hafter⟩, hd⟩
    · obtain ⟨after, hafter, hd⟩ := partFrom_none_getD_iff.mpr hpart
      exact ⟨after, .inl ⟨_, rfl, linesUp_iff.mpr hafter⟩, hd⟩

/-! ### A text, read -/

/-- A policy text with a member of another name, with white space and with an escaped letter. -/
def sampleText : String :=
  " \x7b\"x\": [null],\n\"grants\":[[\"\\u0061non\",\"show\",\"*\" ]]\x7d"

/-- The value spelled in it. -/
def sampleValue : Json :=
  .object [("x".toList, .array [.null]),
    ("grants".toList, .array [.array [.ofString "anon", .ofString "show", .ofString "*"]])]

/-- The document denoted by it. -/
def sample : Document :=
  ⟨[⟨.name "anon", .show, .anything, false⟩]⟩

theorem spellsText_sample : SpellsText sampleValue sampleText := by
  have hspace : Json.IsGaps [' '] := by simp [Json.IsGaps, Json.isGap]
  have hline : Json.IsGaps ['\n'] := by simp [Json.IsGaps, Json.isGap]
  have hunit : Json.SpellsUnit 'a'.toNat ['0', '0', '6', '1'] :=
    .digits (k := 0) (l := 0) (m := 6) (n := 1) ⟨by decide, .inl rfl⟩ ⟨by decide, .inl rfl⟩
      ⟨by decide, .inl rfl⟩ ⟨by decide, .inl rfl⟩
  have hanon : Json.SpellsString "anon".toList "\\u0061non".toList :=
    .cons (.unit hunit) (Json.spellsString_self (by decide) : Json.SpellsString "non".toList _)
  have hgrant : Spells (.array [.ofString "anon", .ofString "show", .ofString "*"]) _ :=
    .array .nil (.text hanon) (.next .nil .nil (.text (Json.spellsString_self (by decide)))
      (.next .nil .nil (.text (Json.spellsString_self (by decide))) (.close hspace)))
  have hx : Json.SpellsMember ("x".toList, .array [.null]) _ :=
    .keyed .nil (Json.spellsString_self (by decide)) .nil hspace (.array .nil .null (.close .nil))
  have hgrants : Json.SpellsMember ("grants".toList, .array [.array [.ofString "anon",
      .ofString "show", .ofString "*"]]) _ :=
    .keyed hline (Json.spellsString_self (by decide)) .nil .nil (.array .nil hgrant (.close .nil))
  exact ⟨[' '], _, [], hspace, .object hx (.next .nil hgrants (.close .nil)), .nil, by decide⟩

theorem denotes_sample : Denotes sampleValue sample := by
  have hgrant : Grant.Denotes (.array [.ofString "anon", .ofString "show", .ofString "*"])
      ⟨.name "anon", .show, .anything, false⟩ :=
    ⟨_, _, _, _, .placed _ _ _ [], .name "anon", ⟨"show", rfl, by decide +kernel⟩,
      ⟨"*", rfl, rfl⟩, .unset⟩
  exact .named (.set ⟨_, rfl, .cons hgrant .nil⟩)

/-! ### All texts -/

/-- **A policy text is read as what its value denotes.**  Given any spelling of a value, whatever
    its white space and its escapes, the reader gives a document exactly when the value denotes
    it; so it gives none if the value has not the shape of a document. -/
theorem ofJson_eq_ok_iff_denotes {v : Json} {text : String} (h : SpellsText v text)
    (d : Document) : ofJson text = .ok d ↔ Denotes v d :=
  reads_decode.read h d

/-- The sample is read as the document that it denotes. -/
theorem ofJson_sampleText :
    SpellsText sampleValue sampleText ∧ (ofJson sampleText = .ok sample ↔
      Denotes sampleValue sample) ∧ ofJson sampleText = .ok sample :=
  ⟨spellsText_sample, ofJson_eq_ok_iff_denotes spellsText_sample sample,
    (ofJson_eq_ok_iff_denotes spellsText_sample sample).mpr denotes_sample⟩

end Document

end Warden
