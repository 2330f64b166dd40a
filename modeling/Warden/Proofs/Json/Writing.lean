import Warden.Proofs.Json.Spelling

namespace Warden.Json

/-!
# What is written is a spelling

The text that is written for a value spells that value, with or without line breaks, if its
numerals are well formed, as those of integers are.

* `spellsChar_writeChar` — every character is escaped so that it can be read back.
* `Numeral.IsWritable`, `Numeral.isWritable_ofInt` — numerals, and those of integers.
* `spells_write` — a value at any depth of indentation.
* `spellsText_compact` and `spellsText_pretty` — whole texts.
-/

/-! ### Strings -/

theorem isHexDigit_digitChar {n : Nat} (h : n < 16) : IsHexDigit (Nat.digitChar n) n :=
  ⟨h, .inl rfl⟩

/-- Four digits denote the unit that they were made from. -/
theorem spellsUnit_fourDigits {n : Nat} (h : n < 0x10000) : SpellsUnit n (fourDigits n) := by
  have hunit : ((16 * (n / 4096 % 16) + n / 256 % 16) * 16 + n / 16 % 16) * 16 + n % 16 = n := by
    omega
  have hspells := SpellsUnit.digits (isHexDigit_digitChar (n := n / 4096 % 16) (by omega))
    (isHexDigit_digitChar (n := n / 256 % 16) (by omega))
    (isHexDigit_digitChar (n := n / 16 % 16) (by omega))
    (isHexDigit_digitChar (n := n % 16) (by omega))
  rw [hunit] at hspells
  exact hspells

/-- A character is written as it is, by a letter, or, below the space, by its unit. -/
theorem spellsChar_writeChar (c : Char) : SpellsChar c (writeChar c) := by
  unfold writeChar
  split
  case isTrue h => subst h; exact .letter (by decide)
  case isFalse hquote =>
    split
    case isTrue h => subst h; exact .letter (by decide)
    case isFalse hslash =>
      split
      case isTrue h => subst h; exact .letter (by decide)
      split
      case isTrue h => subst h; exact .letter (by decide)
      split
      case isTrue h => subst h; exact .letter (by decide)
      split
      case isTrue h => subst h; exact .letter (by decide)
      split
      case isTrue h => subst h; exact .letter (by decide)
      split
      case isTrue h => exact .unit (spellsUnit_fourDigits (by omega))
      case isFalse h => exact .plain (by omega) hquote hslash

theorem spellsString_flatMap (chars : List Char) :
    SpellsString chars (chars.flatMap writeChar) := by
  induction chars with
  | nil => exact .nil
  | cons c chars ih =>
    rw [List.flatMap_cons]
    exact .cons (spellsChar_writeChar c) ih

/-! ### Numerals -/

/-- A numeral with at least one digit wherever digits are due, and without superfluous zeros in
    front. -/
def Numeral.IsWritable (n : Numeral) : Prop :=
  IsWhole n.whole ∧ (∀ digits ∈ n.fraction, IsDigits digits) ∧
    ∀ exponent ∈ n.exponent, IsDigits exponent.2

theorem spellsNumeral_text {n : Numeral} (h : n.IsWritable) : SpellsNumeral n n.text := by
  obtain ⟨negative, whole, fraction, exponent⟩ := n
  obtain ⟨hwhole, hfraction, hexponent⟩ := h
  unfold Numeral.text
  rw [List.append_assoc, List.append_assoc]
  refine .parts hwhole ?_ ?_
  · cases fraction with
    | none => exact .none
    | some digits => exact .some (hfraction digits rfl)
  · rcases exponent with _ | ⟨negative, digits⟩
    · exact .none
    · cases negative with
      | true => exact .some (.inl rfl) .minus (hexponent _ rfl)
      | false => exact .some (.inl rfl) .none (hexponent _ rfl)

/-- The digits of a positive number do not begin with a zero. -/
theorem head?_toDigits_ne {n : Nat} (h : 0 < n) : (Nat.toDigits 10 n).head? ≠ some '0' := by
  have hsmall : ∀ n < 10, 0 < n → Nat.digitChar n ≠ '0' := by decide
  induction n using Nat.strongRecOn with
  | ind n ih =>
    rw [Nat.toDigits_eq_if (by decide)]
    split
    case isTrue hn => simpa using hsmall n hn h
    case isFalse hn =>
      -- The first digit is that of the number without its last digit.
      have hrest := ih (n / 10) (by omega) (by omega)
      rw [List.head?_eq_some_head Nat.toDigits_ne_nil] at hrest
      rw [List.head?_append, List.head?_eq_some_head Nat.toDigits_ne_nil, Option.some_or]
      exact hrest

theorem isWhole_toDigits (n : Nat) : IsWhole (Nat.toDigits 10 n) := by
  rcases Nat.eq_zero_or_pos n with rfl | hpos
  · left
    exact Nat.toDigits_zero 10
  · right
    refine ⟨⟨Nat.toDigits_ne_nil, fun c hc => ?_⟩, head?_toDigits_ne hpos⟩
    exact Nat.isDigit_of_mem_toDigits (by decide) (by decide) hc

theorem Numeral.isWritable_ofInt (i : Int) : (Numeral.ofInt i).IsWritable :=
  ⟨isWhole_toDigits i.natAbs, by rintro _ ⟨⟩, by rintro _ ⟨⟩⟩

/-! ### Values -/

mutual

/-- Whether all numerals in a value can be written. -/
def IsWritable : Json → Prop
  | null => True
  | boolean _ => True
  | number n => n.IsWritable
  | text _ => True
  | array items => ItemsWritable items
  | object members => MembersWritable members

/-- The same for the elements of an array. -/
def ItemsWritable : List Json → Prop
  | [] => True
  | item :: items => IsWritable item ∧ ItemsWritable items

/-- The same for the members of an object. -/
def MembersWritable : List (List Char × Json) → Prop
  | [] => True
  | (_, value) :: members => IsWritable value ∧ MembersWritable members

end

/-- A line starts with white space, if there are lines at all. -/
theorem isGaps_newline (sp : Spacing) (depth : Nat) : IsGaps (sp.newline depth) := by
  intro c hc
  unfold Spacing.newline at hc
  split at hc
  · rcases List.mem_cons.mp hc with rfl | hspace
    · decide
    · rw [List.eq_of_mem_replicate hspace]
      decide
  · cases hc

/-- A colon may have a space behind it. -/
theorem exists_colon_eq (sp : Spacing) : ∃ g, IsGaps g ∧ sp.colon = ':' :: g := by
  unfold Spacing.colon
  split
  · exact ⟨[' '], by intro c hc; simp_all [isGap], rfl⟩
  · exact ⟨[], .nil, rfl⟩

/-- A key, the colon and a value make up a member. -/
theorem spellsMember_write (sp : Spacing) (key : List Char) {g s : List Char} {v : Json}
    (hg : IsGaps g) (hs : Spells v s) :
    SpellsMember (key, v) (g ++ (writeString key ++ (sp.colon ++ s))) := by
  obtain ⟨g', hg', hcolon⟩ := exists_colon_eq sp
  have hspells := SpellsMember.keyed hg (spellsString_flatMap key) .nil hg' hs
  simpa [writeString, hcolon] using hspells

mutual

/-- The text of a value at a depth of indentation spells it. -/
theorem spells_write (sp : Spacing) : (depth : Nat) → (v : Json) → v.IsWritable →
    Spells v (v.write sp depth)
  | _, .null, _ => by rw [write]; exact .null
  | _, .boolean true, _ => by rw [write]; exact .isTrue
  | _, .boolean false, _ => by rw [write]; exact .isFalse
  | _, .number n, h => by
    have hn : n.IsWritable := by simpa [IsWritable] using h
    rw [write]
    exact .number (spellsNumeral_text hn)
  | _, .text chars, _ => by rw [write]; exact .text (spellsString_flatMap chars)
  | _, .array [], _ => by rw [write]; exact .emptyArray .nil
  | depth, .array (item :: items), h => by
    obtain ⟨hitem, hitems⟩ : item.IsWritable ∧ ItemsWritable items := by
      simpa [IsWritable, ItemsWritable] using h
    have hspells := Spells.array (isGaps_newline sp (depth + 1))
      (spells_write sp (depth + 1) item hitem)
      (spellsItems_write sp (depth + 1) items hitems (isGaps_newline sp depth))
    rw [write]
    simpa using hspells
  | _, .object [], _ => by rw [write]; exact .emptyObject .nil
  | depth, .object ((key, value) :: members), h => by
    obtain ⟨hvalue, hmembers⟩ : value.IsWritable ∧ MembersWritable members := by
      simpa [IsWritable, MembersWritable] using h
    have hspells := Spells.object
      (spellsMember_write sp key (isGaps_newline sp (depth + 1))
        (spells_write sp (depth + 1) value hvalue))
      (spellsMembers_write sp (depth + 1) members hmembers (isGaps_newline sp depth))
    rw [write]
    simpa using hspells

/-- The elements behind the first one, and the end of their array. -/
theorem spellsItems_write (sp : Spacing) : (depth : Nat) → (items : List Json) →
    ItemsWritable items → ∀ {g : List Char}, IsGaps g →
      SpellsItems items (writeItems sp depth items ++ (g ++ [']']))
  | _, [], _, _, hg => by rw [writeItems]; exact .close hg
  | depth, item :: items, h, g, hg => by
    obtain ⟨hitem, hitems⟩ : item.IsWritable ∧ ItemsWritable items := by
      simpa [ItemsWritable] using h
    have hspells := SpellsItems.next .nil (isGaps_newline sp depth)
      (spells_write sp depth item hitem) (spellsItems_write sp depth items hitems hg)
    rw [writeItems]
    simpa using hspells

/-- The members behind the first one, and the end of their object. -/
theorem spellsMembers_write (sp : Spacing) : (depth : Nat) →
    (members : List (List Char × Json)) → MembersWritable members → ∀ {g : List Char}, IsGaps g →
      SpellsMembers members (writeMembers sp depth members ++ (g ++ ['}']))
  | _, [], _, _, hg => by rw [writeMembers]; exact .close hg
  | depth, (key, value) :: members, h, g, hg => by
    obtain ⟨hvalue, hmembers⟩ : value.IsWritable ∧ MembersWritable members := by
      simpa [MembersWritable] using h
    have hspells := SpellsMembers.next .nil
      (spellsMember_write sp key (isGaps_newline sp depth) (spells_write sp depth value hvalue))
      (spellsMembers_write sp depth members hmembers hg)
    rw [writeMembers]
    simpa using hspells

end

theorem spellsText_compact {v : Json} (h : v.IsWritable) : SpellsText v v.compact :=
  ⟨[], v.write .compact 0, [], .nil, spells_write .compact 0 v h, .nil, by simp [compact]⟩

theorem spellsText_pretty {v : Json} (h : v.IsWritable) : SpellsText v v.pretty :=
  ⟨[], v.write .pretty 0, [], .nil, spells_write .pretty 0 v h, .nil, by simp [pretty]⟩

end Warden.Json
