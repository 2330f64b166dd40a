import Warden.Json.Value

namespace Warden.Json

/-!
# The spellings of a value

A value has many texts: white space may stand between any two tokens, a character of a string
may be escaped in several ways, and an exponent may have a capital letter or a plus sign.

* `SpellsString`, `SpellsNumeral` — the texts of strings (between their quotes) and of numerals.
* `Spells v s` — the text `s`, without white space around it, is a spelling of the value `v`.
* `SpellsText v text` — the same of a whole text, which may have white space around the value.

The members of an object are spelled in their order, and a key may be spelled more than once.
-/

/-! ### White space -/

/-- Nothing but white space. -/
def IsGaps (s : List Char) : Prop :=
  ∀ c ∈ s, isGap c = true

/-! ### Strings -/

/-- A hexadecimal digit, of either case, and its value. -/
def IsHexDigit (c : Char) (n : Nat) : Prop :=
  n < 16 ∧ (c = Nat.digitChar n ∨ c = (Nat.digitChar n).toUpper)

/-- Four hexadecimal digits and the sixteen-bit unit that they denote. -/
inductive SpellsUnit : Nat → List Char → Prop
  | digits {a b c d : Char} {k l m n : Nat} :
      IsHexDigit a k → IsHexDigit b l → IsHexDigit c m → IsHexDigit d n →
      SpellsUnit (((16 * k + l) * 16 + m) * 16 + n) [a, b, c, d]

/-- The escapes of one letter, with the characters that they stand for. -/
def shortEscapes : List (Char × Char) :=
  [('"', '"'), ('\\', '\\'), ('/', '/'), ('b', '\x08'), ('f', '\x0c'), ('n', '\n'), ('r', '\r'),
    ('t', '\t')]

/-- The spellings of one character of a string: as it is, by a letter, by its unit, or by the two
    surrogates of UTF-16. -/
inductive SpellsChar : Char → List Char → Prop
  | plain {c : Char} : 0x20 ≤ c.toNat → c ≠ '"' → c ≠ '\\' → SpellsChar c [c]
  | letter {letter c : Char} : (letter, c) ∈ shortEscapes → SpellsChar c ['\\', letter]
  | unit {c : Char} {s : List Char} : SpellsUnit c.toNat s → SpellsChar c ('\\' :: 'u' :: s)
  | pair {c : Char} {high low : Nat} {s t : List Char} :
      0xD800 ≤ high → high ≤ 0xDBFF → 0xDC00 ≤ low → low ≤ 0xDFFF →
      c.toNat = 0x10000 + 0x400 * (high - 0xD800) + (low - 0xDC00) →
      SpellsUnit high s → SpellsUnit low t →
      SpellsChar c ('\\' :: 'u' :: (s ++ '\\' :: 'u' :: t))

/-- The spellings of a string between its quotes. -/
inductive SpellsString : List Char → List Char → Prop
  | nil : SpellsString [] []
  | cons {c : Char} {cs s t : List Char} :
      SpellsChar c s → SpellsString cs t → SpellsString (c :: cs) (s ++ t)

/-- Whether a character may stand for itself. -/
def isPlain (c : Char) : Bool :=
  0x20 ≤ c.toNat && c != '"' && c != '\\'

/-- Characters that need no escape stand for themselves. -/
theorem spellsString_self {chars : List Char} (h : chars.all isPlain = true) :
    SpellsString chars chars := by
  induction chars with
  | nil => exact .nil
  | cons c chars ih =>
    rw [List.all_cons, Bool.and_eq_true] at h
    obtain ⟨⟨hspace, hquote⟩, hslash⟩ : (0x20 ≤ c.toNat ∧ c ≠ '"') ∧ c ≠ '\\' := by
      simpa [isPlain] using h.1
    exact .cons (.plain hspace hquote hslash) (ih h.2)

/-! ### Numerals -/

/-- One or more digits. -/
def IsDigits (s : List Char) : Prop :=
  s ≠ [] ∧ ∀ c ∈ s, c.isDigit = true

/-- The digits before the point: a zero alone, or digits that do not begin with zero. -/
def IsWhole (s : List Char) : Prop :=
  s = ['0'] ∨ (IsDigits s ∧ s.head? ≠ some '0')

/-- The spelling of a fraction. -/
inductive SpellsFraction : Option (List Char) → List Char → Prop
  | none : SpellsFraction none []
  | some {digits : List Char} : IsDigits digits → SpellsFraction (some digits) ('.' :: digits)

/-- The spellings of the sign of an exponent. -/
inductive SpellsSign : Bool → List Char → Prop
  | minus : SpellsSign true ['-']
  | plus : SpellsSign false ['+']
  | none : SpellsSign false []

/-- The spellings of an exponent. -/
inductive SpellsExponent : Option (Bool × List Char) → List Char → Prop
  | none : SpellsExponent none []
  | some {letter : Char} {negative : Bool} {sign digits : List Char} :
      letter = 'e' ∨ letter = 'E' → SpellsSign negative sign → IsDigits digits →
      SpellsExponent (some (negative, digits)) (letter :: (sign ++ digits))

/-- The spellings of a numeral. -/
inductive SpellsNumeral : Numeral → List Char → Prop
  | parts {negative : Bool} {whole : List Char} {fraction : Option (List Char)}
      {exponent : Option (Bool × List Char)} {f e : List Char} :
      IsWhole whole → SpellsFraction fraction f → SpellsExponent exponent e →
      SpellsNumeral ⟨negative, whole, fraction, exponent⟩
        ((if negative then ['-'] else []) ++ (whole ++ (f ++ e)))

/-! ### Values -/

mutual

/-- The spellings of a value, without white space around it. -/
inductive Spells : Json → List Char → Prop
  | null : Spells .null ['n', 'u', 'l', 'l']
  | isTrue : Spells (.boolean true) ['t', 'r', 'u', 'e']
  | isFalse : Spells (.boolean false) ['f', 'a', 'l', 's', 'e']
  | number {n : Numeral} {s : List Char} : SpellsNumeral n s → Spells (.number n) s
  | text {chars s : List Char} : SpellsString chars s → Spells (.text chars) ('"' :: (s ++ ['"']))
  | emptyArray {g : List Char} : IsGaps g → Spells (.array []) ('[' :: (g ++ [']']))
  | array {g s t : List Char} {v : Json} {vs : List Json} :
      IsGaps g → Spells v s → SpellsItems vs t → Spells (.array (v :: vs)) ('[' :: (g ++ (s ++ t)))
  | emptyObject {g : List Char} : IsGaps g → Spells (.object []) ('{' :: (g ++ ['}']))
  | object {s t : List Char} {m : List Char × Json} {ms : List (List Char × Json)} :
      SpellsMember m s → SpellsMembers ms t → Spells (.object (m :: ms)) ('{' :: (s ++ t))

/-- The spellings of the elements behind another one, with the bracket that closes the array. -/
inductive SpellsItems : List Json → List Char → Prop
  | close {g : List Char} : IsGaps g → SpellsItems [] (g ++ [']'])
  | next {g g' s t : List Char} {v : Json} {vs : List Json} :
      IsGaps g → IsGaps g' → Spells v s → SpellsItems vs t →
      SpellsItems (v :: vs) (g ++ ',' :: (g' ++ (s ++ t)))

/-- The spellings of a member, from the white space in front of its key to the end of its value. -/
inductive SpellsMember : List Char × Json → List Char → Prop
  | keyed {g g' g'' key k s : List Char} {v : Json} :
      IsGaps g → SpellsString key k → IsGaps g' → IsGaps g'' → Spells v s →
      SpellsMember (key, v) (g ++ '"' :: (k ++ '"' :: (g' ++ ':' :: (g'' ++ s))))

/-- The spellings of the members behind another one, with the brace that closes the object. -/
inductive SpellsMembers : List (List Char × Json) → List Char → Prop
  | close {g : List Char} : IsGaps g → SpellsMembers [] (g ++ ['}'])
  | next {g s t : List Char} {m : List Char × Json} {ms : List (List Char × Json)} :
      IsGaps g → SpellsMember m s → SpellsMembers ms t →
      SpellsMembers (m :: ms) (g ++ ',' :: (s ++ t))

end

/-- The spellings of a value as a whole text, with white space around it. -/
def SpellsText (v : Json) (text : String) : Prop :=
  ∃ g s g', IsGaps g ∧ Spells v s ∧ IsGaps g' ∧ text.toList = g ++ (s ++ g')

/-- White space may be added behind a text. -/
theorem SpellsText.append {v : Json} {text : String} (h : SpellsText v text) {gap : String}
    (hgap : IsGaps gap.toList) : SpellsText v (text ++ gap) := by
  obtain ⟨g, s, g', hg, hs, hg', htext⟩ := h
  refine ⟨g, s, g' ++ gap.toList, hg, hs, ?_, ?_⟩
  · intro c hc
    rcases List.mem_append.mp hc with hc | hc
    · exact hg' c hc
    · exact hgap c hc
  · simp only [String.toList_append, htext, List.append_assoc]

/-! ### What may stand behind a value -/

/-- What may stand behind a value: nothing, white space, a comma, or the end of a container. -/
def EndsValue (rest : List Char) : Prop :=
  ∀ c ∈ rest.head?, isGap c = true ∨ c = ',' ∨ c = ']' ∨ c = '}'

theorem IsGaps.nil : IsGaps [] := by
  intro c hc
  cases hc

theorem skipGaps_append {g : List Char} (hg : IsGaps g) (s : List Char) :
    skipGaps (g ++ s) = skipGaps s := by
  unfold skipGaps
  exact List.dropWhile_append_of_pos hg

theorem skipGaps_cons {c : Char} (hc : isGap c = false) (s : List Char) :
    skipGaps (c :: s) = c :: s := by
  unfold skipGaps
  rw [List.dropWhile_cons_of_neg (by simp [hc])]

/-- White space is skipped up to the first other character. -/
theorem skipGaps_append_cons {g : List Char} (hg : IsGaps g) {c : Char} (hc : isGap c = false)
    (s : List Char) : skipGaps (g ++ c :: s) = c :: s := by
  rw [skipGaps_append hg, skipGaps_cons hc]

/-- White space is skipped up to the comma in front of an element. -/
theorem skipGaps_comma_element {g : List Char} (hg : IsGaps g) (g' s t rest : List Char) :
    skipGaps (g ++ ',' :: (g' ++ (s ++ t)) ++ rest) = ',' :: (g' ++ (s ++ (t ++ rest))) := by
  simp only [List.append_assoc, List.cons_append]
  exact skipGaps_append_cons hg (by decide) _

/-- White space is skipped up to the comma in front of a member, whose own white space is part of
    its spelling. -/
theorem skipGaps_comma_member {g : List Char} (hg : IsGaps g) (s t rest : List Char) :
    skipGaps (g ++ ',' :: (s ++ t) ++ rest) = ',' :: (s ++ (t ++ rest)) := by
  simp only [List.append_assoc, List.cons_append]
  exact skipGaps_append_cons hg (by decide) _

theorem IsGaps.skipGaps_eq {g : List Char} (hg : IsGaps g) : skipGaps g = [] := by
  have h := skipGaps_append hg []
  rw [List.append_nil] at h
  exact h

theorem EndsValue.nil : EndsValue [] := by
  intro c hc
  cases hc

/-- White space in front of something that may stand behind a value may stand there too. -/
theorem EndsValue.append {g rest : List Char} (hg : IsGaps g) (hrest : EndsValue rest) :
    EndsValue (g ++ rest) := by
  cases g with
  | nil => exact hrest
  | cons d g =>
    intro c hc
    obtain rfl : d = c := by simpa using hc
    exact .inl (hg d List.mem_cons_self)

theorem EndsValue.cons {c : Char} (h : c = ',' ∨ c = ']' ∨ c = '}') (rest : List Char) :
    EndsValue (c :: rest) := by
  intro d hd
  obtain rfl : c = d := by simpa using hd
  exact .inr h

theorem IsGaps.endsValue {g : List Char} (hg : IsGaps g) : EndsValue g := by
  have h := EndsValue.nil.append hg
  rw [List.append_nil] at h
  exact h

/-- An element ends where the next one, or the end of the array, begins. -/
theorem SpellsItems.endsValue {vs : List Json} {t : List Char} (h : SpellsItems vs t)
    (rest : List Char) : EndsValue (t ++ rest) := by
  cases h with
  | close hg =>
    rw [List.append_assoc]
    exact (EndsValue.cons (.inr (.inl rfl)) rest).append hg
  | next hg _ _ _ =>
    rw [List.append_assoc]
    exact (EndsValue.cons (.inl rfl) _).append hg

/-- A member ends where the next one, or the end of the object, begins. -/
theorem SpellsMembers.endsValue {ms : List (List Char × Json)} {t : List Char}
    (h : SpellsMembers ms t) (rest : List Char) : EndsValue (t ++ rest) := by
  cases h with
  | close hg =>
    rw [List.append_assoc]
    exact (EndsValue.cons (.inr (.inr rfl)) rest).append hg
  | next hg _ _ =>
    rw [List.append_assoc]
    exact (EndsValue.cons (.inl rfl) _).append hg

/-- A member begins with the quote of its key, behind white space. -/
theorem SpellsMember.skipGaps_eq {m : List Char × Json} {s : List Char} (h : SpellsMember m s)
    (rest : List Char) : ∃ t, skipGaps (s ++ rest) = '"' :: t := by
  cases h with
  | keyed hg _ _ _ _ =>
    rw [List.append_assoc, List.cons_append, skipGaps_append_cons hg (by decide)]
    exact ⟨_, rfl⟩

end Warden.Json
