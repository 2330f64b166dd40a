import Warden.Json.Reader
import Warden.Proofs.Json.Lexemes

namespace Warden.Json

/-!
# Passing over what was spelled

A value that nobody converts is read past to its end, whatever it is and however deep it goes.

* `pass_value_open`, `pass_value_scalar`, `pass_key`, … — one step for each way in which the text
  can go on.
* `pass_of_spells` — a spelled value, inside whatever containers are open.
* `run_skip_of_spells` — a spelled value on its own.
-/

/-! ### Steps -/

section Steps

variable {opened : List Bracket} {b : Bracket} {s t rest : List Char} {c : Char}

/-- A container opens where a value is awaited. -/
theorem pass_value_open (hgap : skipGaps s = '[' :: rest ∧ b = .square ∨
      skipGaps s = '{' :: rest ∧ b = .curly) :
    pass .skipped none opened .value s = pass .skipped none (b :: opened) .first rest := by
  rw [pass.eq_def]
  simp only
  split
  · next h => simp_all [hasRoom]
  · next h => simp_all [hasRoom]
  · next h => simp_all

/-- A scalar stands where a value is awaited. -/
theorem pass_value_scalar {x : Scalar} (hgap : skipGaps s = c :: t) (hc : BeginsScalar c)
    (hscan : scanScalar .skipped (c :: t) = .ok (x, rest)) :
    pass .skipped none opened .value s = pass .skipped none opened .more rest := by
  obtain ⟨-, hsquare, hcurly, -⟩ := hc.ne
  rw [pass.eq_def]
  simp only
  split
  · next h => rw [hgap] at h; cases h; exact absurd rfl hsquare
  · next h => rw [hgap] at h; cases h; exact absurd rfl hcurly
  · next h =>
    rw [hgap] at h
    split
    · next hfault => simp_all
    · next hok => simp_all

/-- A key and its colon stand where a key is awaited. -/
theorem pass_key {key k g : List Char} (hgap : skipGaps s = '"' :: (k ++ '"' :: (g ++ ':' :: rest)))
    (hk : SpellsString key k) (hg : IsGaps g) :
    pass .skipped none opened .key s = pass .skipped none opened .value rest := by
  obtain ⟨cs, -, hstring⟩ := scanString_of_spells .skipped hk (g ++ ':' :: rest)
  have hkey : passKey .skipped (k ++ '"' :: (g ++ ':' :: rest)) = .ok rest := by
    simp only [passKey, hstring, skipGaps_append_cons hg (show isGap ':' = false by decide)]
  rw [pass.eq_def]
  simp only
  split
  · next h => simp_all
  · next h =>
    rw [hgap] at h
    cases h
    split
    · next hfault => simp_all
    · next hok => simp_all
  · next h => simp_all

/-- A container is closed right behind its opening. -/
theorem pass_first_close (hgap : skipGaps s = b.closing :: rest) :
    pass .skipped none (b :: opened) .first s = pass .skipped none opened .more rest := by
  rw [pass.eq_def]
  simp only
  split
  · next h => simp_all
  · next h =>
    rw [hgap] at h
    cases h
    rw [if_pos rfl]

/-- A container has something in it. -/
theorem pass_first_content (hgap : skipGaps s = t) (ht : ∃ c u, t = c :: u ∧ c ≠ b.closing) :
    pass .skipped none (b :: opened) .first s = pass .skipped none (b :: opened) b.content t := by
  obtain ⟨c, u, rfl, hc⟩ := ht
  rw [pass.eq_def]
  simp only
  split
  · next h => simp_all
  · next h =>
    rw [hgap] at h
    cases h
    rw [if_neg hc]

/-- A container is closed behind something in it. -/
theorem pass_more_close (hgap : skipGaps s = b.closing :: rest) :
    pass .skipped none (b :: opened) .more s = pass .skipped none opened .more rest := by
  rw [pass.eq_def]
  simp only
  split
  · next h => simp_all
  · next h =>
    rw [hgap] at h
    cases h
    rw [if_pos rfl]

/-- A container goes on behind a comma. -/
theorem pass_more_next (hgap : skipGaps s = ',' :: rest) :
    pass .skipped none (b :: opened) .more s = pass .skipped none (b :: opened) b.content rest := by
  rw [pass.eq_def]
  simp only
  split
  · next h => simp_all
  · next h =>
    rw [hgap] at h
    cases h
    rw [if_neg (by cases b <;> decide), if_pos rfl]

/-- Nothing more is awaited behind the outermost value. -/
theorem pass_more_nil (use : Use) (room : Option Nat) (s : List Char) :
    pass use room [] .more s = .ok s := by
  rw [pass]

end Steps

/-! ### Values -/

theorem pass_scalar_of_spells {x : Scalar} {s : List Char} (h : Spells x.json s)
    {opened : List Bracket} {input rest : List Char} (hgap : skipGaps input = s ++ rest)
    (hrest : EndsValue rest) :
    pass .skipped none opened .value input = pass .skipped none opened .more rest := by
  obtain ⟨c, t, rfl, hc⟩ := h.exists_beginsScalar
  obtain ⟨y, -, hscan⟩ := scanScalar_of_spells .skipped h hrest
  rw [if_neg (by simp)] at hscan
  exact pass_value_scalar hgap hc hscan

mutual

/-- A value is read past, whatever containers are open around it. -/
theorem pass_of_spells : {v : Json} → {s : List Char} → Spells v s →
    ∀ {opened : List Bracket} {input rest : List Char}, skipGaps input = s ++ rest →
      EndsValue rest →
      pass .skipped none opened .value input = pass .skipped none opened .more rest
  | _, _, .null, _, _, _, hgap, hrest => pass_scalar_of_spells (x := .null) .null hgap hrest
  | _, _, .isTrue, _, _, _, hgap, hrest =>
      pass_scalar_of_spells (x := .boolean true) .isTrue hgap hrest
  | _, _, .isFalse, _, _, _, hgap, hrest =>
      pass_scalar_of_spells (x := .boolean false) .isFalse hgap hrest
  | .number n, _, .number h, _, _, _, hgap, hrest =>
      pass_scalar_of_spells (x := .number n) (.number h) hgap hrest
  | .text chars, _, .text h, _, _, _, hgap, hrest =>
      pass_scalar_of_spells (x := .text chars) (.text h) hgap hrest
  | _, _, .emptyArray (g := g) hg, _, input, rest, hgap, _ => by
    have hopen : skipGaps input = '[' :: (g ++ ']' :: rest) := by simpa using hgap
    rw [pass_value_open (.inl ⟨hopen, rfl⟩)]
    exact pass_first_close (skipGaps_append_cons hg (by decide) rest)
  | _, _, .array (g := g) (s := s) (t := t) hg hv hvs, opened, input, rest, hgap, _ => by
    have hopen : skipGaps input = '[' :: (g ++ (s ++ (t ++ rest))) := by simpa using hgap
    have hfirst := hv.skipGaps_append hg (t ++ rest)
    have hself : skipGaps (s ++ (t ++ rest)) = s ++ (t ++ rest) :=
      hv.skipGaps_append .nil (t ++ rest)
    have hcontent : ∃ c u, s ++ (t ++ rest) = c :: u ∧ c ≠ Bracket.square.closing := by
      obtain ⟨c, s', rfl, _, hc⟩ := hv.exists_cons
      exact ⟨c, s' ++ (t ++ rest), rfl, hc⟩
    rw [pass_value_open (.inl ⟨hopen, rfl⟩), pass_first_content hfirst hcontent]
    show pass .skipped none (.square :: opened) .value (s ++ (t ++ rest)) = _
    rw [pass_of_spells hv hself (hvs.endsValue rest)]
    exact pass_of_spellsItems hvs
  | _, _, .emptyObject (g := g) hg, _, input, rest, hgap, _ => by
    have hopen : skipGaps input = '{' :: (g ++ '}' :: rest) := by simpa using hgap
    rw [pass_value_open (.inr ⟨hopen, rfl⟩)]
    exact pass_first_close (skipGaps_append_cons hg (by decide) rest)
  | _, _, .object (s := s) (t := t) hm hms, opened, input, rest, hgap, _ => by
    have hopen : skipGaps input = '{' :: (s ++ (t ++ rest)) := by simpa using hgap
    obtain ⟨s', hfirst⟩ := hm.skipGaps_eq (t ++ rest)
    rw [pass_value_open (.inr ⟨hopen, rfl⟩), pass_first_content hfirst ⟨_, _, rfl, by decide⟩]
    -- The white space in front of the key is gone, but a spelled member may begin with it.
    show pass .skipped none (.curly :: opened) .key ('"' :: s') = _
    have hself : skipGaps ('"' :: s') = skipGaps (s ++ (t ++ rest)) := by
      rw [hfirst, skipGaps_cons (by decide)]
    rw [pass_of_spellsMember hm hself (hms.endsValue rest)]
    exact pass_of_spellsMembers hms

/-- The elements behind another one are read past, to the end of their array. -/
theorem pass_of_spellsItems : {vs : List Json} → {t : List Char} → SpellsItems vs t →
    ∀ {opened : List Bracket} {rest : List Char},
      pass .skipped none (.square :: opened) .more (t ++ rest) =
        pass .skipped none opened .more rest
  | _, _, .close (g := g) hg, _, rest => by
    rw [List.append_assoc]
    exact pass_more_close (skipGaps_append_cons hg (by decide) rest)
  | _, _, @SpellsItems.next g g' s t _ _ hg hg' hv hvs, opened, rest => by
    rw [pass_more_next (skipGaps_comma_element hg g' s t rest)]
    show pass .skipped none (.square :: opened) .value (g' ++ (s ++ (t ++ rest))) = _
    rw [pass_of_spells hv (hv.skipGaps_append hg' (t ++ rest)) (hvs.endsValue rest)]
    exact pass_of_spellsItems hvs

/-- A member is read past where a key is awaited. -/
theorem pass_of_spellsMember : {m : List Char × Json} → {s : List Char} → SpellsMember m s →
    ∀ {opened : List Bracket} {input rest : List Char}, skipGaps input = skipGaps (s ++ rest) →
      EndsValue rest →
      pass .skipped none opened .key input = pass .skipped none opened .more rest
  | _, _, @SpellsMember.keyed g g' g'' _ k s _ hg hk hg' hg'' hv, _, input, rest, hgap, hrest => by
    have hkey : skipGaps input = '"' :: (k ++ '"' :: (g' ++ ':' :: (g'' ++ (s ++ rest)))) := by
      rw [hgap]
      simp only [List.append_assoc, List.cons_append]
      exact skipGaps_append_cons hg (by decide) _
    rw [pass_key hkey hk hg']
    exact pass_of_spells hv (hv.skipGaps_append hg'' rest) hrest

/-- The members behind another one are read past, to the end of their object. -/
theorem pass_of_spellsMembers : {ms : List (List Char × Json)} → {t : List Char} →
    SpellsMembers ms t → ∀ {opened : List Bracket} {rest : List Char},
      pass .skipped none (.curly :: opened) .more (t ++ rest) =
        pass .skipped none opened .more rest
  | _, _, .close (g := g) hg, _, rest => by
    rw [List.append_assoc]
    exact pass_more_close (skipGaps_append_cons hg (by decide) rest)
  | _, _, .next (g := g) (s := s) (t := t) hg hm hms, opened, rest => by
    rw [pass_more_next (skipGaps_comma_member hg s t rest)]
    show pass .skipped none (.curly :: opened) .key (s ++ (t ++ rest)) = _
    rw [pass_of_spellsMember hm rfl (hms.endsValue rest)]
    exact pass_of_spellsMembers hms

end

/-- A spelled value that is skipped leaves the text behind it. -/
theorem run_skip_of_spells {v : Json} {g s rest : List Char} (h : Spells v s) (hg : IsGaps g)
    (hrest : EndsValue rest) : Reader.skip.run (g ++ (s ++ rest)) = .ok ((), rest) := by
  have hpass : pass .skipped none [] .value (g ++ (s ++ rest)) = .ok rest := by
    rw [pass_of_spells h (h.skipGaps_append hg rest) hrest, pass_more_nil]
  simp only [Reader.skip, hpass]

end Warden.Json
