import Mathlib.Data.List.TakeWhile
import Warden.Proofs.Json.Framing

namespace Warden.Json

/-!
# Texts that are cut off: numerals and scalars

A numeral has no end of its own.  One that is cut off is a shorter numeral, or it breaks off where a
digit has to follow.

* `exists_spells_of_scanNumeral` — what is read as a numeral is spelled there.
* `IsBroken` — a numeral that breaks off; `scanNumeral_of_isBroken` says which fault it is.
* `SpellsNumeral.cut` — what is left of a numeral that is cut off.
* `scanScalar_cut` — scalars of all kinds.
-/

/-! ### Numerals as they are spelled -/

theorem isDigits_of_scanDigits {use : Use} {s digits rest : List Char}
    (h : scanDigits use s = .ok (digits, rest)) : s = digits ++ rest ∧ IsDigits digits := by
  simp only [scanDigits] at h
  split at h
  case isTrue => cases h
  case isFalse hne =>
    cases h
    refine ⟨List.takeWhile_append_dropWhile.symm, fun hnil => hne ?_, fun c hc => ?_⟩
    · rw [hnil]
      rfl
    · exact List.mem_takeWhile_imp hc

theorem isWhole_of_scanWhole {use : Use} {s whole rest : List Char}
    (h : scanWhole use s = .ok (whole, rest)) : s = whole ++ rest ∧ IsWhole whole := by
  unfold scanWhole at h
  split at h
  case h_1 =>
    split at h
    · cases h
    · cases h
      exact ⟨rfl, .inl rfl⟩
  case h_2 hzero =>
    obtain ⟨rfl, hdigits⟩ := isDigits_of_scanDigits h
    refine ⟨rfl, .inr ⟨hdigits, fun hhead => ?_⟩⟩
    obtain ⟨t, rfl⟩ : ∃ t, whole = '0' :: t := by
      cases whole with
      | nil => cases hhead
      | cons c t => exact ⟨t, by rw [Option.some.inj hhead]⟩
    exact hzero (t ++ rest) rfl

theorem exists_spells_of_scanFraction {use : Use} {s rest : List Char}
    {fraction : Option (List Char)} (h : scanFraction use s = .ok (fraction, rest)) :
    ∃ f, s = f ++ rest ∧ SpellsFraction fraction f := by
  unfold scanFraction at h
  split at h
  case h_1 =>
    split at h
    · cases h
    · next hscan =>
      cases h
      obtain ⟨rfl, hdigits⟩ := isDigits_of_scanDigits hscan
      exact ⟨_, rfl, .some hdigits⟩
  case h_2 =>
    cases h
    exact ⟨[], rfl, .none⟩

theorem exists_spells_of_scanExponent {use : Use} {s rest : List Char}
    {exponent : Option (Bool × List Char)} (h : scanExponent use s = .ok (exponent, rest)) :
    ∃ e, s = e ++ rest ∧ SpellsExponent exponent e := by
  unfold scanExponent at h
  split at h
  case h_2 =>
    cases h
    exact ⟨[], rfl, .none⟩
  case h_1 c s =>
    split at h
    case isFalse =>
      cases h
      exact ⟨[], rfl, .none⟩
    case isTrue hletter =>
      obtain ⟨sign, hsign, hs⟩ := exists_spellsSign_splitSign s
      simp only at h
      split at h
      · cases h
      · next hscan =>
        cases h
        obtain ⟨hrest, hdigits⟩ := isDigits_of_scanDigits hscan
        refine ⟨c :: (sign ++ _), ?_, .some hletter hsign hdigits⟩
        rw [List.cons_append, List.append_assoc, ← hrest, ← hs]

/-- What is read as a numeral is a spelling of it. -/
theorem exists_spells_of_scanNumeral {use : Use} {s rest : List Char} {n : Numeral}
    (h : scanNumeral use s = .ok (n, rest)) : ∃ c, s = c ++ rest ∧ SpellsNumeral n c := by
  have hminus : s = (if (splitMinus s).1 then ['-'] else []) ++ (splitMinus s).2 := by
    unfold splitMinus
    split <;> rfl
  simp only [scanNumeral] at h
  split at h
  · cases h
  · next hscan =>
    obtain ⟨hs, hwhole⟩ := isWhole_of_scanWhole hscan
    split at h
    · cases h
    · next hscan =>
      obtain ⟨f, rfl, hfraction⟩ := exists_spells_of_scanFraction hscan
      split at h
      · cases h
      · next hscan =>
        obtain ⟨e, rfl, hexponent⟩ := exists_spells_of_scanExponent hscan
        cases h
        refine ⟨_, ?_, .parts hwhole hfraction hexponent⟩
        rw [hs] at hminus
        simpa only [List.append_assoc] using hminus

/-- No bracket stands in a numeral. -/
theorem SpellsNumeral.not_mem {n : Numeral} {s : List Char} (h : SpellsNumeral n s) : '[' ∉ s := by
  have hdigits : ∀ {s}, IsDigits s → '[' ∉ s := fun hs hmem => by cases hs.2 '[' hmem
  cases h with
  | @parts negative whole fraction exponent f e hwhole hf he =>
  have hsign : '[' ∉ if negative = true then ['-'] else [] := by cases negative <;> decide
  have hw : '[' ∉ whole := by
    rcases hwhole with rfl | ⟨hs, -⟩
    · decide
    · exact hdigits hs
  have hf : '[' ∉ f := by
    cases hf with
    | none => exact List.not_mem_nil
    | some hs => simp [hdigits hs]
  have he : '[' ∉ e := by
    cases he with
    | none => exact List.not_mem_nil
    | some hletter hsign hs =>
      rcases hletter with rfl | rfl <;> cases hsign <;> simp [hdigits hs]
  simp only [List.mem_append, not_or]
  exact ⟨hsign, hw, hf, he⟩

/-! ### Numerals that break off -/

/-- A numeral that breaks off where a digit has to follow: behind its minus sign, behind its point, or
    behind the letter of its exponent and the sign there. -/
inductive IsBroken : List Char → Prop
  | minus : IsBroken ['-']
  | point {negative : Bool} {whole s : List Char} :
      SpellsNumeral ⟨negative, whole, none, none⟩ s → IsBroken (s ++ ['.'])
  | exponent {negative negative' : Bool} {whole s sign : List Char} {fraction : Option (List Char)}
      {letter : Char} :
      SpellsNumeral ⟨negative, whole, fraction, none⟩ s → letter = 'e' ∨ letter = 'E' →
      SpellsSign negative' sign → IsBroken (s ++ letter :: sign)

theorem scanDigits_nil (use : Use) : scanDigits use [] = .error (missingDigit use []) := rfl

/-- A numeral that breaks off lacks a digit. -/
theorem scanNumeral_of_isBroken (use : Use) {s : List Char} (h : IsBroken s) :
    scanNumeral use s = .error (missingDigit use []) := by
  cases h with
  | minus => rfl
  | @point negative whole s hs =>
    cases hs with
    | parts hwhole hf he =>
      cases hf
      cases he
      have hpoint : EndsDigits ['.'] := .cons (by decide) []
      simp only [List.append_nil, List.append_assoc, scanNumeral,
        splitMinus_of_isWhole negative hwhole, scanWhole_of_isWhole use hwhole hpoint, scanFraction,
        scanDigits_nil]
  | @exponent negative negative' whole s sign fraction letter hs hletter hsign =>
    cases hs with
    | @parts _ _ _ _ f _ hwhole hf he =>
      cases he
      have hafter : EndsDigits (letter :: sign) ∧ (letter :: sign).head? ≠ some '.' := by
        rcases hletter with rfl | rfl
        · exact ⟨.cons (by decide) _, by simp⟩
        · exact ⟨.cons (by decide) _, by simp⟩
      have hbehind : EndsDigits (f ++ letter :: sign) := by
        cases hf with
        | none => exact hafter.1
        | some _ => exact .cons (by decide) _
      have hnone : (Text.splitSign sign).2 = [] := by
        cases hsign <;> rfl
      simp only [List.append_nil, List.append_assoc, scanNumeral,
        splitMinus_of_isWhole negative hwhole, scanWhole_of_isWhole use hwhole hbehind,
        scanFraction_of_spells use hf hafter.1 hafter.2, scanExponent, if_pos hletter, hnone,
        scanDigits_nil]

theorem IsBroken.exists_cons {s : List Char} (h : IsBroken s) :
    ∃ c t, s = c :: t ∧ (c = '-' ∨ c.isDigit = true) := by
  cases h with
  | minus => exact ⟨_, _, rfl, .inl rfl⟩
  | point hs =>
    obtain ⟨c, t, rfl, hc⟩ := hs.exists_cons
    exact ⟨c, _, rfl, hc⟩
  | exponent hs _ _ =>
    obtain ⟨c, t, rfl, hc⟩ := hs.exists_cons
    exact ⟨c, _, rfl, hc⟩

/-- A numeral that breaks off ends in a minus sign, a point, or the letter or the sign of an
    exponent. -/
theorem IsBroken.getLast?_mem {s : List Char} (h : IsBroken s) :
    ∃ c ∈ ['-', '.', 'e', 'E', '+'], s.getLast? = some c := by
  cases h with
  | minus => exact ⟨'-', by decide, rfl⟩
  | point _ => exact ⟨'.', by decide, by simp⟩
  | @exponent _ _ _ s _ _ letter _ hletter hsign =>
    cases hsign with
    | minus => exact ⟨'-', by decide, by simp⟩
    | plus => exact ⟨'+', by decide, by simp⟩
    | none =>
      refine ⟨letter, ?_, by simp⟩
      rcases hletter with rfl | rfl <;> decide

/-- One numeral is a front of another one, by what they denote. -/
structure Numeral.IsFrontOf (n' n : Numeral) : Prop where
  negative : n'.negative = n.negative
  whole : n'.whole <+: n.whole
  fraction : n.fraction = none → n'.fraction = none
  exponent : n.exponent = none → n'.exponent = none

/-- What is left of digits that are cut off. -/
theorem IsDigits.front {s t : List Char} (h : IsDigits (s ++ t)) (hs : s ≠ []) : IsDigits s :=
  ⟨hs, fun c hc => h.2 c (List.mem_append_left t hc)⟩

theorem IsWhole.front {s t : List Char} (h : IsWhole (s ++ t)) (hs : s ≠ []) : IsWhole s := by
  obtain ⟨c, s, rfl⟩ := List.exists_cons_of_ne_nil hs
  rcases h with h | ⟨hdigits, hzero⟩
  · obtain ⟨rfl, hnil⟩ := List.cons.inj h
    rw [(List.append_eq_nil_iff.mp hnil).1]
    exact .inl rfl
  · exact .inr ⟨hdigits.front hs, hzero⟩

theorem SpellsFraction.eq_nil {s : List Char} (h : SpellsFraction Option.none s) : s = [] := by
  cases h
  rfl

theorem SpellsExponent.eq_nil {s : List Char} (h : SpellsExponent Option.none s) : s = [] := by
  cases h
  rfl

/-- A fraction that is cut off behind its point breaks off, or it has fewer digits. -/
theorem SpellsFraction.cut {fraction : Option (List Char)} {p m : List Char}
    (h : SpellsFraction fraction (p ++ m)) (hp : p ≠ []) :
    p = ['.'] ∨ ∃ fraction', SpellsFraction fraction' p := by
  obtain ⟨c, p, rfl⟩ := List.exists_cons_of_ne_nil hp
  cases h with
  | some hdigits =>
    by_cases hnil : p = []
    · exact .inl (by rw [hnil])
    · exact .inr ⟨Option.some p, .some (hdigits.front hnil)⟩

/-- An exponent that is cut off breaks off behind its letter or its sign, or it has fewer digits. -/
theorem SpellsExponent.cut {exponent : Option (Bool × List Char)} {p m : List Char}
    (h : SpellsExponent exponent (p ++ m)) (hp : p ≠ []) :
    (∃ letter negative sign, p = letter :: sign ∧ (letter = 'e' ∨ letter = 'E') ∧
      SpellsSign negative sign) ∨ ∃ exponent', SpellsExponent exponent' p := by
  obtain ⟨c, p, rfl⟩ := List.exists_cons_of_ne_nil hp
  generalize hs : c :: p ++ m = s at h
  cases h with
  | none => cases hs
  | @some letter negative sign digits hletter hsign hdigits =>
    obtain ⟨rfl, hbehind⟩ := List.cons.inj hs
    rcases List.append_eq_append_iff.mp hbehind with ⟨m', hcut, -⟩ | ⟨p, rfl, rfl⟩
    · -- The cut falls into the sign, which has one character at most.
      have hfront : p = [] ∨ p = sign := by
        cases p with
        | nil => exact .inl rfl
        | cons d p => cases hsign <;> simp_all [eq_comm]
      rcases hfront with rfl | rfl
      · exact .inl ⟨c, false, [], rfl, hletter, .none⟩
      · exact .inl ⟨c, negative, p, rfl, hletter, hsign⟩
    · by_cases hnil : p = []
      · exact .inl ⟨c, negative, sign, by rw [hnil, List.append_nil], hletter, hsign⟩
      · exact .inr ⟨Option.some (negative, p), .some hletter hsign (hdigits.front hnil)⟩

/-- A numeral that is cut off breaks off, or it is a shorter numeral. -/
theorem SpellsNumeral.cut {n : Numeral} {p m : List Char} (h : SpellsNumeral n (p ++ m))
    (hp : p ≠ []) : IsBroken p ∨ ∃ n' : Numeral, SpellsNumeral n' p ∧ n'.IsFrontOf n := by
  generalize hs : p ++ m = s at h
  cases h with
  | @parts negative whole fraction exponent f e hwhole hf he =>
  -- The cut falls into the sign, the whole digits, the fraction or the exponent.
  rcases List.append_eq_append_iff.mp hs with ⟨m', hsign, -⟩ | ⟨p₁, rfl, hs₁⟩
  · cases negative with
    | false => exact absurd (List.append_eq_nil_iff.mp hsign.symm).1 hp
    | true =>
      obtain ⟨c, p, rfl⟩ := List.exists_cons_of_ne_nil hp
      obtain ⟨rfl, hnil⟩ := List.cons.inj hsign
      rw [(List.append_eq_nil_iff.mp hnil.symm).1]
      exact .inl .minus
  rcases List.append_eq_append_iff.mp hs₁ with ⟨p₂, rfl, hs₂⟩ | ⟨m', rfl, -⟩
  · rcases List.append_eq_append_iff.mp hs₂ with ⟨p₃, rfl, rfl⟩ | ⟨m', rfl, -⟩
    · by_cases hnil : p₃ = []
      · refine .inr ⟨⟨negative, whole, fraction, none⟩, ?_, rfl, List.prefix_rfl, id, fun _ => rfl⟩
        rw [hnil]
        exact .parts hwhole hf .none
      rcases he.cut hnil with ⟨letter, negative', sign, rfl, hletter, hsign⟩ | ⟨exponent', he'⟩
      · have hs : SpellsNumeral ⟨negative, whole, fraction, none⟩ _ := .parts hwhole hf .none
        refine .inl ?_
        simpa using IsBroken.exponent hs hletter hsign
      · refine .inr ⟨⟨negative, whole, fraction, exponent'⟩, .parts hwhole hf he', rfl,
          List.prefix_rfl, id, fun hnone => ?_⟩
        subst hnone
        exact absurd (List.append_eq_nil_iff.mp he.eq_nil).1 hnil
    · by_cases hnil : p₂ = []
      · refine .inr ⟨⟨negative, whole, none, none⟩, ?_, rfl, List.prefix_rfl, fun _ => rfl,
          fun _ => rfl⟩
        rw [hnil]
        exact .parts hwhole .none .none
      rcases hf.cut hnil with rfl | ⟨fraction', hf'⟩
      · have hs : SpellsNumeral ⟨negative, whole, none, none⟩ _ := .parts hwhole .none .none
        refine .inl ?_
        simpa using IsBroken.point hs
      · refine .inr ⟨⟨negative, whole, fraction', none⟩, ?_, rfl, List.prefix_rfl, fun hnone => ?_,
          fun _ => rfl⟩
        · simpa using SpellsNumeral.parts hwhole hf' .none
        · subst hnone
          exact absurd (List.append_eq_nil_iff.mp hf.eq_nil).1 hnil
  · by_cases hnil : p₁ = []
    · cases negative with
      | false => exact absurd (by simp [hnil]) hp
      | true =>
        subst hnil
        exact .inl .minus
    · refine .inr ⟨⟨negative, p₁, none, none⟩, ?_, rfl, List.prefix_append p₁ m', fun _ => rfl,
        fun _ => rfl⟩
      simpa using SpellsNumeral.parts (hwhole.front hnil) .none .none

/-- The misfit does not stand where no value can begin. -/
theorem EndsValue.not_misfit {s : List Char} (h : EndsValue s) : ¬misfit <+: s :=
  fun hs => absurd (h '[' (head?_of_misfit hs)) (by decide)

/-- The misfit does not stand inside of a numeral, nor behind it. -/
theorem SpellsNumeral.not_misfit {n : Numeral} {s m rest : List Char} (h : SpellsNumeral n (s ++ m))
    (hrest : EndsValue rest) : ¬misfit <+: m ++ rest := by
  cases m with
  | nil => exact hrest.not_misfit
  | cons c m =>
    intro hmisfit
    obtain rfl : c = '[' := Option.some.inj (head?_of_misfit hmisfit)
    exact h.not_mem (List.mem_append_right s List.mem_cons_self)

/-! ### Scalars -/

theorem scanScalar_of_isBroken (use : Use) {s : List Char} (h : IsBroken s) :
    scanScalar use s = .error (missingDigit use []) := by
  obtain ⟨c, t, rfl, hc⟩ := h.exists_cons
  rw [scanScalar_number use hc, scanNumber, scanNumeral_of_isBroken use h]
  rfl

/-- A scalar that is no numeral has an end of its own. -/
theorem frames_scanScalar (use : Use) {c : Char} (hc : ¬(c = '-' ∨ c.isDigit = true)) :
    Frames True fun s => scanScalar use (c :: s) := by
  by_cases hquote : c = '"'
  · subst hquote
    refine (frames_scanString use).bind (fun chars rest => .ok (.text chars, rest))
      (fun chars => .pure _) (fun _ chars s b rest hs h => ?_) fun s => ?_
    · cases h
      exact ⟨trivial, hs⟩
    · cases hs : scanString use s <;> simp [scanScalar, andThen, hs, Except.map]
  by_cases hnull : c = 'n'
  · subst hnull
    exact (frames_scanWord _ (by decide)).weaken
  by_cases htrue : c = 't'
  · subst htrue
    exact (frames_scanWord _ (by decide)).weaken
  by_cases hfalse : c = 'f'
  · subst hfalse
    exact (frames_scanWord _ (by decide)).weaken
  have hother : ∀ s, scanScalar use (c :: s) = .error .malformed := by
    intro s
    unfold scanScalar
    split <;> simp_all
  simpa only [hother] using Frames.error .malformed

/-- A scalar that is cut off behind its first character has ended too early, or it is a numeral.  The
    misfit does not stand behind the cut. -/
theorem scanScalar_cut {use : Use} {c : Char} {p q rest : List Char} {x : Scalar}
    (h : scanScalar use (c :: (p ++ q)) = .ok (x, rest)) (hrest : EndsValue rest) :
    (∃ w r, p = w ++ r ∧ rest = r ++ q ∧
      ∀ t, EndsValue t → scanScalar use (c :: (w ++ t)) = .ok (x, t)) ∨
    ¬misfit <+: q ∧ (scanScalar use (c :: p) = .error .endOfText ∨
      ∃ n m, x = .number n ∧ q = m ++ rest ∧ SpellsNumeral n (c :: p ++ m)) := by
  by_cases hc : c = '-' ∨ c.isDigit = true
  · rw [scanScalar_number use hc] at h
    obtain ⟨⟨n, _⟩, hnumber, heq⟩ := exists_of_map_eq_ok h
    cases heq
    unfold scanNumber at hnumber
    split at hnumber
    · cases hnumber
    next hscan =>
    split at hnumber
    · cases hnumber
    next hrange =>
    cases hnumber
    obtain ⟨w, hw, hspells⟩ := exists_spells_of_scanNumeral hscan
    rw [← List.cons_append] at hw
    rcases List.append_eq_append_iff.mp hw with ⟨m, rfl, rfl⟩ | ⟨r, hp, rfl⟩
    · exact .inr ⟨hspells.not_misfit hrest, .inr ⟨n, m, rfl, rfl, hspells⟩⟩
    · -- The numeral ends in front of the cut.
      obtain ⟨d, w, rfl, -⟩ := hspells.exists_cons
      obtain ⟨rfl, rfl⟩ := List.cons.inj hp
      refine .inl ⟨w, r, rfl, rfl, fun t ht => ?_⟩
      rw [← List.cons_append, scanScalar_of_spellsNumeral use hspells ht, if_neg hrange]
  · rcases frames_scanScalar use hc h with ⟨w, r, rfl, rfl, hw⟩ | ⟨hend, hmisfit⟩
    · exact .inl ⟨w, r, rfl, rfl, fun t _ => hw t⟩
    · refine .inr ⟨fun hq => ?_, .inl hend⟩
      exact absurd (hrest '"' (hmisfit hq).2) (by decide)

end Warden.Json
