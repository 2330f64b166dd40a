import Mathlib.Data.List.TakeDrop
import Warden.Json.Lexeme.Scalar
import Warden.Proofs.Json.Spelling

namespace Warden.Json

/-!
# Reading what was spelled: lexemes

A scanner that is given the spelling of a lexeme gives the lexeme back, and the text behind it.

* `scanString_of_spells` — strings.  A skipped string may come out differently, since surrogates
  are not joined there, but it ends in the same place.
* `scanNumeral_of_spells` — numerals, if what follows cannot go on with them.
* `scanScalar_of_spells` — every value that is not a container.
-/

/-! ### Units -/

theorem hexDigit?_of_isHexDigit {c : Char} {n : Nat} (h : IsHexDigit c n) :
    hexDigit? c = some n := by
  -- Sixteen digits of either case: all of them are tried.
  have hsmall : ∀ n < 16, hexDigit? (Nat.digitChar n) = some n := by decide
  have hcapital : ∀ n < 16, hexDigit? (Nat.digitChar n).toUpper = some n := by decide
  obtain ⟨hn, rfl | rfl⟩ := h
  · exact hsmall n hn
  · exact hcapital n hn

theorem scanUnit_of_spells {n : Nat} {s : List Char} (h : SpellsUnit n s) (rest : List Char) :
    scanUnit (s ++ rest) = .ok (n, rest) := by
  cases h with
  | digits ha hb hc hd =>
    simp only [List.cons_append, List.nil_append, scanUnit, hexUnit?,
      hexDigit?_of_isHexDigit ha, hexDigit?_of_isHexDigit hb, hexDigit?_of_isHexDigit hc,
      hexDigit?_of_isHexDigit hd, Option.bind_eq_bind, Option.bind_some, Option.pure_def]
    simp only [Except.ok.injEq, Prod.mk.injEq, and_true]
    omega

/-! ### Strings -/

theorem scanString_quote (use : Use) (s : List Char) :
    scanString use ('"' :: s) = .ok ([], s) := by
  rw [scanString]

/-- An escape gives one character more. -/
theorem scanString_escape {use : Use} {s rest : List Char} {c : Char}
    (h : scanEscape use s = .ok (c, rest)) :
    scanString use ('\\' :: s) =
      (scanString use rest).map fun (chars, rest) => (c :: chars, rest) := by
  rw [scanString]
  split
  · next hescape =>
    rw [h] at hescape
    cases hescape
  · next hescape =>
    rw [h] at hescape
    cases hescape
    cases scanString use rest <;> rfl

/-- A character that stands for itself. -/
theorem scanString_plain {use : Use} {c : Char} (hc : 0x20 ≤ c.toNat) (hquote : c ≠ '"')
    (hslash : c ≠ '\\') (s : List Char) :
    scanString use (c :: s) =
      (scanString use s).map fun (chars, rest) => (c :: chars, rest) := by
  rw [scanString.eq_def]
  split
  · next h => cases h
  · next h => cases h; exact absurd rfl hquote
  · next h => cases h; exact absurd rfl hslash
  · next h =>
    cases h
    rw [if_neg (by omega)]
    cases scanString use s <;> rfl

/-- No character is a surrogate. -/
theorem not_surrogate (c : Char) : c.toNat < 0xD800 ∨ 0xDFFF < c.toNat := by
  rcases c.valid with h | h
  · exact .inl h
  · exact .inr h.1

theorem scanEscape_letter {use : Use} {letter c : Char} (h : (letter, c) ∈ shortEscapes)
    (s : List Char) : scanEscape use (letter :: s) = .ok (c, s) := by
  simp only [shortEscapes, List.mem_cons, Prod.mk.injEq, List.not_mem_nil, or_false] at h
  rcases h with ⟨rfl, rfl⟩ | ⟨rfl, rfl⟩ | ⟨rfl, rfl⟩ | ⟨rfl, rfl⟩ | ⟨rfl, rfl⟩ | ⟨rfl, rfl⟩ |
    ⟨rfl, rfl⟩ | ⟨rfl, rfl⟩ <;> rfl

theorem scanEscape_unit {use : Use} {c : Char} {s : List Char} (h : SpellsUnit c.toNat s)
    (rest : List Char) : scanEscape use ('u' :: (s ++ rest)) = .ok (c, rest) := by
  have hc := not_surrogate c
  simp only [scanEscape, scanUnit_of_spells h]
  by_cases huse : use = .skipped
  · rw [if_pos huse, Char.ofNat_toNat]
  · rw [if_neg huse, if_neg (by omega), if_neg (by omega), Char.ofNat_toNat]

/-- A skipped escape gives one unit, a surrogate too. -/
theorem scanEscape_skipped {n : Nat} {s : List Char} (h : SpellsUnit n s) (rest : List Char) :
    scanEscape .skipped ('u' :: (s ++ rest)) = .ok (Char.ofNat n, rest) := by
  simp only [scanEscape, scanUnit_of_spells h, if_true]

/-- Two surrogates are joined in a kept string. -/
theorem scanEscape_pair {c : Char} {high low : Nat} {s t : List Char}
    (hhigh : 0xD800 ≤ high ∧ high ≤ 0xDBFF) (hlow : 0xDC00 ≤ low ∧ low ≤ 0xDFFF)
    (hc : c.toNat = 0x10000 + 0x400 * (high - 0xD800) + (low - 0xDC00))
    (hs : SpellsUnit high s) (ht : SpellsUnit low t) (rest : List Char) :
    scanEscape .kept ('u' :: (s ++ '\\' :: 'u' :: (t ++ rest))) = .ok (c, rest) := by
  have hjoin : joinSurrogates? high low = some c := by
    rw [joinSurrogates?, if_pos hlow, ← hc, Char.ofNat_toNat]
  simp only [scanEscape, scanUnit_of_spells hs]
  rw [if_neg (by decide), if_neg (by omega), if_pos hhigh]
  simp only [scanLowSurrogate, scanUnit_of_spells ht, hjoin]

/-- What a spelled character becomes: a kept one is read as it is. -/
theorem scanString_char (use : Use) {c : Char} {s : List Char} (h : SpellsChar c s) :
    ∃ cs, (use = .kept → cs = [c]) ∧ ∀ t, scanString use (s ++ t) =
      (scanString use t).map fun (chars, rest) => (cs ++ chars, rest) := by
  cases h with
  | plain hc hquote hslash => exact ⟨[c], fun _ => rfl, scanString_plain hc hquote hslash⟩
  | letter hletter =>
    exact ⟨[c], fun _ => rfl, fun t => scanString_escape (scanEscape_letter hletter t)⟩
  | unit hunit =>
    exact ⟨[c], fun _ => rfl, fun t => scanString_escape (scanEscape_unit hunit t)⟩
  | @pair _ high low s t hhigh hhigh' hlow hlow' hc hs ht =>
    cases use with
    | kept =>
      refine ⟨[c], fun _ => rfl, fun rest => scanString_escape ?_⟩
      have h := scanEscape_pair ⟨hhigh, hhigh'⟩ ⟨hlow, hlow'⟩ hc hs ht rest
      simpa using h
    | skipped =>
      -- Two characters come out where one was spelled.
      refine ⟨[Char.ofNat high, Char.ofNat low], fun h => absurd h (by decide), fun rest => ?_⟩
      have hfirst := scanEscape_skipped hs ('\\' :: 'u' :: (t ++ rest))
      have hsecond := scanEscape_skipped ht rest
      have happ : '\\' :: 'u' :: (s ++ '\\' :: 'u' :: t) ++ rest =
          '\\' :: 'u' :: (s ++ '\\' :: 'u' :: (t ++ rest)) := by simp
      rw [happ, scanString_escape hfirst, scanString_escape hsecond]
      cases scanString .skipped rest <;> rfl

/-- A spelled string is read up to its closing quote, and as it is if it is kept. -/
theorem scanString_of_spells (use : Use) {chars s : List Char} (h : SpellsString chars s)
    (rest : List Char) :
    ∃ cs, (use = .kept → cs = chars) ∧ scanString use (s ++ '"' :: rest) = .ok (cs, rest) := by
  induction h with
  | nil => exact ⟨[], fun _ => rfl, scanString_quote use rest⟩
  | cons hchar _ ih =>
    obtain ⟨cs, hkept, hrun⟩ := scanString_char use hchar
    obtain ⟨more, hmore, hrest⟩ := ih
    refine ⟨cs ++ more, fun huse => ?_, ?_⟩
    · rw [hkept huse, hmore huse]
      rfl
    · rw [List.append_assoc, hrun, hrest]
      rfl

theorem scanString_kept_of_spells {chars s : List Char} (h : SpellsString chars s)
    (rest : List Char) : scanString .kept (s ++ '"' :: rest) = .ok (chars, rest) := by
  obtain ⟨cs, hkept, hrun⟩ := scanString_of_spells .kept h rest
  rw [hrun, hkept rfl]

/-! ### Numerals -/

/-- What cannot go on with a run of digits. -/
def EndsDigits (rest : List Char) : Prop :=
  ∀ c ∈ rest.head?, c.isDigit = false

/-- What can stand behind a value cannot go on with a numeral. -/
theorem EndsValue.head_ne {rest : List Char} (h : EndsValue rest) :
    ∀ c ∈ rest.head?, c.isDigit = false ∧ c ≠ '.' ∧ c ≠ 'e' ∧ c ≠ 'E' := by
  intro c hc
  have hcases := h c hc
  simp only [isGap, Bool.or_eq_true, beq_iff_eq] at hcases
  rcases hcases with (((rfl | rfl) | rfl) | rfl) | rfl | rfl | rfl <;> decide

theorem EndsDigits.cons {c : Char} (hc : c.isDigit = false) (s : List Char) :
    EndsDigits (c :: s) := by
  intro d hd
  obtain rfl : c = d := by simpa using hd
  exact hc

theorem EndsValue.endsDigits {rest : List Char} (h : EndsValue rest) : EndsDigits rest :=
  fun c hc => (h.head_ne c hc).1

/-- A run of digits is read as a whole. -/
theorem scanDigits_of_isDigits (use : Use) {s rest : List Char} (hs : IsDigits s)
    (hrest : EndsDigits rest) : scanDigits use (s ++ rest) = .ok (s, rest) := by
  -- The run of digits ends where `rest` begins.
  have hstop : rest.takeWhile Char.isDigit = [] ∧ rest.dropWhile Char.isDigit = rest := by
    cases rest with
    | nil => exact ⟨rfl, rfl⟩
    | cons c rest =>
      have hc : c.isDigit = false := hrest c rfl
      simp [hc]
  have htake : (s ++ rest).takeWhile Char.isDigit = s := by
    rw [List.takeWhile_append_of_pos hs.2, hstop.1, List.append_nil]
  have hdrop : (s ++ rest).dropWhile Char.isDigit = rest := by
    rw [List.dropWhile_append_of_pos hs.2, hstop.2]
  simp only [scanDigits, htake, hdrop]
  rw [if_neg (by simpa using hs.1)]

theorem scanWhole_of_isWhole (use : Use) {s rest : List Char} (hs : IsWhole s)
    (hrest : EndsDigits rest) : scanWhole use (s ++ rest) = .ok (s, rest) := by
  rcases hs with rfl | ⟨hdigits, hzero⟩
  · have hnone : rest.head?.any Char.isDigit = false := by
      cases rest with
      | nil => rfl
      | cons c rest => exact hrest c rfl
    show (if rest.head?.any Char.isDigit = true then _ else Except.ok (['0'], rest)) = _
    rw [if_neg (by simp [hnone])]
  · rw [← scanDigits_of_isDigits use hdigits hrest]
    unfold scanWhole
    split
    · next heq =>
      -- The digits do not begin with zero.
      cases s with
      | nil => exact absurd rfl hdigits.1
      | cons c s =>
        cases heq
        exact absurd rfl hzero
    · rfl

theorem scanFraction_of_spells (use : Use) {fraction : Option (List Char)} {s rest : List Char}
    (hs : SpellsFraction fraction s) (hdigits : EndsDigits rest) (hpoint : rest.head? ≠ some '.') :
    scanFraction use (s ++ rest) = .ok (fraction, rest) := by
  cases hs with
  | none =>
    rw [List.nil_append]
    unfold scanFraction
    split
    · exact absurd rfl hpoint
    · rfl
  | some hs => simp only [List.cons_append, scanFraction, scanDigits_of_isDigits use hs hdigits]

/-- The sign of an exponent is split off from its digits. -/
theorem splitSign_of_spells {negative : Bool} {sign digits : List Char}
    (hsign : SpellsSign negative sign) (hdigits : IsDigits digits) (rest : List Char) :
    Text.splitSign (sign ++ (digits ++ rest)) = (negative, digits ++ rest) := by
  cases hsign with
  | minus => rfl
  | plus => rfl
  | none =>
    -- Without a sign the text begins with a digit, and a digit is no sign.
    obtain ⟨hne, hall⟩ := hdigits
    cases digits with
    | nil => exact absurd rfl hne
    | cons d digits =>
      have hd : d.isDigit = true := hall d List.mem_cons_self
      show Text.splitSign (d :: (digits ++ rest)) = _
      unfold Text.splitSign
      split
      · next h => cases h; exact absurd hd (by decide)
      · next h => cases h; exact absurd hd (by decide)
      · rfl

/-- What is split off from a text is a sign. -/
theorem exists_spellsSign_splitSign (s : List Char) :
    ∃ sign, SpellsSign (Text.splitSign s).1 sign ∧ s = sign ++ (Text.splitSign s).2 := by
  unfold Text.splitSign
  split
  · exact ⟨['-'], .minus, rfl⟩
  · exact ⟨['+'], .plus, rfl⟩
  · exact ⟨[], .none, rfl⟩

theorem scanExponent_of_spells (use : Use) {exponent : Option (Bool × List Char)}
    {s rest : List Char} (hs : SpellsExponent exponent s) (hrest : EndsValue rest) :
    scanExponent use (s ++ rest) = .ok (exponent, rest) := by
  cases hs with
  | none =>
    cases rest with
    | nil => rfl
    | cons c rest =>
      obtain ⟨-, -, he, hcapital⟩ := hrest.head_ne c rfl
      show (if c = 'e' ∨ c = 'E' then _ else Except.ok (none, c :: rest)) = _
      rw [if_neg (by simp [he, hcapital])]
  | some hletter hsign hdigits =>
    simp only [List.cons_append, List.append_assoc, scanExponent, if_pos hletter,
      splitSign_of_spells hsign hdigits, scanDigits_of_isDigits use hdigits hrest.endsDigits]

/-- A numeral begins with a minus sign or a digit. -/
theorem SpellsNumeral.exists_cons {n : Numeral} {s : List Char} (h : SpellsNumeral n s) :
    ∃ c t, s = c :: t ∧ (c = '-' ∨ c.isDigit = true) := by
  cases h with
  | @parts negative whole _ _ f e hwhole _ _ =>
    cases negative with
    | true => exact ⟨'-', whole ++ (f ++ e), rfl, .inl rfl⟩
    | false =>
      rcases hwhole with rfl | ⟨⟨hne, hall⟩, _⟩
      · exact ⟨'0', f ++ e, rfl, .inr rfl⟩
      · cases whole with
        | nil => exact absurd rfl hne
        | cons d whole => exact ⟨d, whole ++ (f ++ e), rfl, .inr (hall d List.mem_cons_self)⟩

/-- The sign of a numeral is split off from what follows it. -/
theorem splitMinus_of_isWhole (negative : Bool) {whole : List Char} (hwhole : IsWhole whole)
    (rest : List Char) :
    splitMinus ((if negative then ['-'] else []) ++ (whole ++ rest)) =
      (negative, whole ++ rest) := by
  cases negative with
  | true => rfl
  | false =>
    rcases hwhole with rfl | ⟨⟨hne, hall⟩, _⟩
    · rfl
    · cases whole with
      | nil => exact absurd rfl hne
      | cons d whole =>
        have hd : d.isDigit = true := hall d List.mem_cons_self
        show splitMinus (d :: (whole ++ rest)) = _
        unfold splitMinus
        split
        · next h => cases h; exact absurd hd (by decide)
        · rfl

theorem scanNumeral_of_spells (use : Use) {n : Numeral} {s rest : List Char}
    (hs : SpellsNumeral n s) (hrest : EndsValue rest) :
    scanNumeral use (s ++ rest) = .ok (n, rest) := by
  cases hs with
  | @parts negative whole fraction exponent f e hwhole hf he =>
    -- Neither the fraction nor the digits in front of it can go on with what follows them.
    have hafter : EndsDigits (e ++ rest) ∧ (e ++ rest).head? ≠ some '.' := by
      cases he with
      | none =>
        exact ⟨hrest.endsDigits, fun hpoint => (hrest.head_ne '.' hpoint).2.1 rfl⟩
      | some hletter _ _ =>
        rcases hletter with rfl | rfl
        · exact ⟨.cons (by decide) _, by simp⟩
        · exact ⟨.cons (by decide) _, by simp⟩
    have hbehind : EndsDigits (f ++ (e ++ rest)) := by
      cases hf with
      | none => exact hafter.1
      | some _ => exact .cons (by decide) _
    simp only [scanNumeral, List.append_assoc, splitMinus_of_isWhole negative hwhole,
      scanWhole_of_isWhole use hwhole hbehind, scanFraction_of_spells use hf hafter.1 hafter.2,
      scanExponent_of_spells use he hrest]

/-! ### Scalars -/

/-- A scalar as a value. -/
def Scalar.json : Scalar → Json
  | null => .null
  | boolean value => .boolean value
  | number numeral => .number numeral
  | text chars => .text chars

/-- Whether a scalar denotes something: a numeral has to be in range. -/
def Scalar.inRange : Scalar → Bool
  | number numeral => numeral.inRange
  | _ => true

/-- What a scalar can begin with. -/
def BeginsScalar (c : Char) : Prop :=
  c = '"' ∨ c = 'n' ∨ c = 't' ∨ c = 'f' ∨ c = '-' ∨ c.isDigit = true

theorem BeginsScalar.ne {c : Char} (h : BeginsScalar c) :
    isGap c = false ∧ c ≠ '[' ∧ c ≠ '{' ∧ c ≠ ']' := by
  rcases h with rfl | rfl | rfl | rfl | rfl | hdigit
  · decide
  · decide
  · decide
  · decide
  · decide
  -- None of the characters in question is a digit.
  · have hne : ∀ d : Char, d.isDigit = false → c ≠ d := by
      rintro d hd rfl
      rw [hdigit] at hd
      cases hd
    refine ⟨?_, hne _ (by decide), hne _ (by decide), hne _ (by decide)⟩
    simp [isGap, hne ' ' (by decide), hne '\t' (by decide), hne '\n' (by decide),
      hne '\r' (by decide)]

theorem Spells.exists_beginsScalar {x : Scalar} {s : List Char} (h : Spells x.json s) :
    ∃ c t, s = c :: t ∧ BeginsScalar c := by
  cases x with
  | null => cases h; exact ⟨_, _, rfl, .inr (.inl rfl)⟩
  | boolean value =>
    cases h with
    | isTrue => exact ⟨_, _, rfl, .inr (.inr (.inl rfl))⟩
    | isFalse => exact ⟨_, _, rfl, .inr (.inr (.inr (.inl rfl)))⟩
  | number n =>
    cases h with
    | number hn =>
      obtain ⟨c, t, rfl, hc⟩ := hn.exists_cons
      exact ⟨c, t, rfl, .inr (.inr (.inr (.inr hc)))⟩
  | text chars => cases h with | text hs => exact ⟨_, _, rfl, .inl rfl⟩

/-- A value is a scalar or a container. -/
theorem eq_scalar_or_container (v : Json) :
    (∃ x : Scalar, v = x.json) ∨ (∃ vs, v = .array vs) ∨ ∃ ms, v = .object ms := by
  cases v with
  | null => exact .inl ⟨.null, rfl⟩
  | boolean value => exact .inl ⟨.boolean value, rfl⟩
  | number n => exact .inl ⟨.number n, rfl⟩
  | text chars => exact .inl ⟨.text chars, rfl⟩
  | array vs => exact .inr (.inl ⟨vs, rfl⟩)
  | object ms => exact .inr (.inr ⟨ms, rfl⟩)

/-- The spelling of a value begins neither with white space nor with a closing bracket. -/
theorem Spells.exists_cons {v : Json} {s : List Char} (h : Spells v s) :
    ∃ c t, s = c :: t ∧ isGap c = false ∧ c ≠ ']' := by
  rcases eq_scalar_or_container v with ⟨x, rfl⟩ | ⟨vs, rfl⟩ | ⟨ms, rfl⟩
  · obtain ⟨c, t, rfl, hc⟩ := h.exists_beginsScalar
    exact ⟨c, t, rfl, hc.ne.1, hc.ne.2.2.2⟩
  · cases h <;> exact ⟨_, _, rfl, by decide, by decide⟩
  · cases h <;> exact ⟨_, _, rfl, by decide, by decide⟩

/-- White space is skipped up to a spelled value. -/
theorem Spells.skipGaps_append {v : Json} {g s : List Char} (h : Spells v s) (hg : IsGaps g)
    (rest : List Char) : skipGaps (g ++ (s ++ rest)) = s ++ rest := by
  obtain ⟨c, t, rfl, hc, _⟩ := h.exists_cons
  exact skipGaps_append_cons hg hc (t ++ rest)

theorem scanScalar_number (use : Use) {c : Char} (hc : c = '-' ∨ c.isDigit = true)
    (s : List Char) :
    scanScalar use (c :: s) =
      (scanNumber use (c :: s)).map fun (n, rest) => (.number n, rest) := by
  unfold scanScalar
  split
  · next h => cases h
  · next h => cases h; exact absurd hc (by decide)
  · next h => cases h; exact absurd hc (by decide)
  · next h => cases h; exact absurd hc (by decide)
  · next h => cases h; exact absurd hc (by decide)
  · next h =>
    cases h
    rw [if_pos hc]

theorem scanScalar_of_spellsNumeral (use : Use) {n : Numeral} {s rest : List Char}
    (hs : SpellsNumeral n s) (hrest : EndsValue rest) :
    scanScalar use (s ++ rest) =
      if use = .kept ∧ n.inRange = false then .error .malformed else .ok (.number n, rest) := by
  obtain ⟨c, t, rfl, hc⟩ := hs.exists_cons
  have hscan := scanNumeral_of_spells use hs hrest
  rw [List.cons_append] at hscan ⊢
  rw [scanScalar_number use hc, scanNumber, hscan]
  by_cases hrange : use = .kept ∧ n.inRange = false
  · simp only [if_pos hrange]
    rfl
  · simp only [if_neg hrange]
    rfl

/-- A spelled scalar is read to its end, and as it is if it is kept; a kept numeral must be in
    range. -/
theorem scanScalar_of_spells (use : Use) {x : Scalar} {s rest : List Char}
    (hs : Spells x.json s) (hrest : EndsValue rest) :
    ∃ y, (use = .kept → y = x) ∧ scanScalar use (s ++ rest) =
      if use = .kept ∧ x.inRange = false then .error .malformed else .ok (y, rest) := by
  cases x with
  | null =>
    cases hs
    refine ⟨.null, fun _ => rfl, ?_⟩
    rw [if_neg (by simp [Scalar.inRange])]
    rfl
  | boolean value =>
    refine ⟨.boolean value, fun _ => rfl, ?_⟩
    rw [if_neg (by simp [Scalar.inRange])]
    cases hs with
    | isTrue => rfl
    | isFalse => rfl
  | number n =>
    cases hs with
    | number hn =>
      exact ⟨.number n, fun _ => rfl, scanScalar_of_spellsNumeral use hn hrest⟩
  | text chars =>
    cases hs with
    | @text _ t hstring =>
      obtain ⟨cs, hkept, hrun⟩ := scanString_of_spells use hstring rest
      refine ⟨.text cs, fun huse => by rw [hkept huse], ?_⟩
      have happ : '"' :: (t ++ ['"']) ++ rest = '"' :: (t ++ '"' :: rest) := by simp
      rw [happ, if_neg (by simp [Scalar.inRange])]
      simp only [scanScalar, hrun]
      rfl

end Warden.Json
