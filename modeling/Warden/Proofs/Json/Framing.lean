import Warden.Json.Record
import Warden.Proofs.Json.Reading

namespace Warden.Json

/-!
# Texts that are cut off: lexemes

A lexeme with an end of its own is read the same whatever stands behind it.  If the text is cut off
inside of it, the text has ended too early and nothing else is wrong with it.

* `andThen` — one scan after another.
* `misfit` — a value that can be put into a text only where any value can.
* `Frames` — scans of which this holds; `Frames.bind`, `Frames.char` and `Frames.gaps` are the ways in
  which they are put together.
* `frames_scanString`, `frames_passKey`, `frames_nextKey`, `frames_colon` — strings, keys and the
  punctuation of objects.
* `nextElement_cut` — the punctuation of arrays, where the next element is looked at.
-/

variable {α β : Type}

/-- The text of an array that holds null and the empty string.  No field takes it.  Inside of a string
    it is not an array: its first quote ends the string, and its second one stands where nothing may
    begin. -/
def misfit : List Char :=
  ['[', 'n', 'u', 'l', 'l', ',', '"', '"', ']']

theorem spells_misfit : Spells (.array [.null, .text []]) misfit :=
  .array .nil .null (.next .nil .nil (.text .nil) (.close .nil))

theorem head?_of_misfit {q : List Char} (h : misfit <+: q) : q.head? = some '[' := by
  obtain ⟨t, rfl⟩ := h
  rfl

theorem skipGaps_of_misfit {g q : List Char} (hg : IsGaps g) (h : misfit <+: q) :
    skipGaps (g ++ q) = q := by
  obtain ⟨t, rfl⟩ := h
  exact skipGaps_append_cons hg (by decide) _

/-- The misfit opens an array, and null is its first element. -/
theorem exists_skipGaps_of_misfit {g q : List Char} (hg : IsGaps g) (h : misfit <+: q) :
    ∃ t, skipGaps (g ++ q) = '[' :: 'n' :: 'u' :: 'l' :: 'l' :: t := by
  rw [skipGaps_of_misfit hg h]
  obtain ⟨t, rfl⟩ := h
  exact ⟨_, rfl⟩

/-- A scan that finds an end: what it reads is read the same whatever stands behind it, and if the
    text is cut off before the end of it, the fault is that the text ends.  If the misfit stands behind
    such a cut, the scan has ended between its quotes; whether a scan can is a parameter. -/
def Frames (quoted : Prop) (f : Scan α) : Prop :=
  ∀ ⦃p q rest : List Char⦄ ⦃a : α⦄, f (p ++ q) = .ok (a, rest) →
    (∃ c r, p = c ++ r ∧ rest = r ++ q ∧ ∀ t, f (c ++ t) = .ok (a, t)) ∨
    f p = .error .endOfText ∧ (misfit <+: q → quoted ∧ rest.head? = some '"')

/-- One scan after another. -/
def andThen (x : Scan α) (y : α → Scan β) : Scan β := fun s =>
  match x s with
  | .error fault => .error fault
  | .ok (a, rest) => y a rest

theorem andThen_of_error {x : Scan α} {y : α → Scan β} {s : List Char} {fault : Fault}
    (h : x s = .error fault) : andThen x y s = .error fault := by
  simp only [andThen, h]

theorem andThen_of_ok {x : Scan α} {y : α → Scan β} {s rest : List Char} {a : α}
    (h : x s = .ok (a, rest)) : andThen x y s = y a rest := by
  simp only [andThen, h]

/-- What is read is read by one scan and then by the other. -/
theorem exists_of_andThen_eq_ok {x : Scan α} {y : α → Scan β} {s : List Char}
    {result : β × List Char} (h : andThen x y s = .ok result) :
    ∃ a mid, x s = .ok (a, mid) ∧ y a mid = .ok result := by
  unfold andThen at h
  split at h
  · cases h
  · next a mid hscan => exact ⟨a, mid, hscan, h⟩

/-- A text is white space, or it has a first other character. -/
theorem exists_gaps (s : List Char) :
    IsGaps s ∨ ∃ g c r, s = g ++ c :: r ∧ IsGaps g ∧ isGap c = false := by
  induction s with
  | nil => exact .inl .nil
  | cons d s ih =>
    cases hd : isGap d with
    | false => exact .inr ⟨[], d, s, rfl, .nil, hd⟩
    | true =>
      rcases ih with hs | ⟨g, c, r, rfl, hg, hc⟩
      · exact .inl (List.forall_mem_cons.mpr ⟨hd, hs⟩)
      · exact .inr ⟨d :: g, c, r, rfl, List.forall_mem_cons.mpr ⟨hd, hg⟩, hc⟩

/-- Nothing but white space stands where white space is skipped to the end. -/
theorem isGaps_of_skipGaps_eq_nil {s : List Char} (h : skipGaps s = []) : IsGaps s := by
  rcases exists_gaps s with hs | ⟨g, c, r, rfl, hg, hc⟩
  · exact hs
  · rw [skipGaps_append_cons hg hc] at h
    cases h

/-- A value may end where the first character that is not white space may stand behind it. -/
theorem endsValue_of_first {s : List Char}
    (h : ∀ c u, skipGaps s = c :: u → c = ',' ∨ c = ']' ∨ c = '}') : EndsValue s := by
  rcases exists_gaps s with hs | ⟨g, c, u, rfl, hg, hc⟩
  · exact hs.endsValue
  · exact EndsValue.append hg (.cons (h c u (skipGaps_append_cons hg hc u)) u)

namespace Frames

variable {quoted quoted' : Prop}

theorem weaken {f : Scan α} (h : Frames False f) : Frames quoted f := by
  intro p q rest a hok
  exact (h hok).imp_right fun hend => ⟨hend.1, fun hq => (hend.2 hq).1.elim⟩

theorem pure (a : α) : Frames quoted fun s => .ok (a, s) := by
  intro p q rest b h
  cases h
  exact .inl ⟨[], p, rfl, rfl, fun t => rfl⟩

theorem error (fault : Fault) :
    Frames quoted fun _ => (.error fault : Except Fault (α × List Char)) := by
  intro p q rest b h
  cases h

theorem ite {c : Prop} [Decidable c] {f g : Scan α} (hf : Frames quoted f) (hg : Frames quoted g) :
    Frames quoted fun s => if c then f s else g s := by
  by_cases h : c
  · simpa only [if_pos h] using hf
  · simpa only [if_neg h] using hg

theorem bind {f : Scan β} {x : Scan α} (y : α → Scan β) (hx : Frames quoted' x)
    (hy : ∀ a, Frames quoted (y a))
    (hquote : quoted' → ∀ a s b rest, s.head? = some '"' → y a s = .ok (b, rest) →
      quoted ∧ rest.head? = some '"')
    (hf : ∀ s, f s = andThen x y s) : Frames quoted f := by
  intro p q rest b h
  rw [hf] at h
  obtain ⟨a, mid, hscan, h⟩ := exists_of_andThen_eq_ok h
  rcases hx hscan with ⟨c, r, rfl, rfl, hc⟩ | ⟨hend, hmisfit⟩
  · rcases hy a h with ⟨c', r', rfl, rfl, hc'⟩ | ⟨hend, hmisfit⟩
    · refine .inl ⟨c ++ c', r', (List.append_assoc c c' r').symm, rfl, fun t => ?_⟩
      rw [hf, List.append_assoc, andThen_of_ok (hc _)]
      exact hc' t
    · refine .inr ⟨?_, hmisfit⟩
      rw [hf, andThen_of_ok (hc r)]
      exact hend
  · refine .inr ⟨by rw [hf, andThen_of_error hend], fun hq => ?_⟩
    obtain ⟨hquoted, hhead⟩ := hmisfit hq
    exact hquote hquoted a mid b rest hhead h

/-- A scan that looks at the first character. -/
theorem char {f : Scan α} {g : Char → Scan α} (hend : f [] = .error .endOfText)
    (hstep : ∀ c s, f (c :: s) = g c s) (hopen : ∀ s result, g '[' s ≠ .ok result)
    (hg : ∀ c, Frames quoted (g c)) : Frames quoted f := by
  intro p q rest a h
  cases p with
  | nil =>
    refine .inr ⟨hend, ?_⟩
    rintro ⟨t, rfl⟩
    exact absurd ((hstep _ _).symm.trans h) (hopen _ _)
  | cons c p =>
    rw [List.cons_append, hstep] at h
    rcases hg c h with ⟨c', r, rfl, rfl, hc'⟩ | ⟨hend, hmisfit⟩
    · exact .inl ⟨c :: c', r, rfl, rfl, fun t => (hstep c (c' ++ t)).trans (hc' t)⟩
    · exact .inr ⟨(hstep c p).trans hend, hmisfit⟩

/-- A scan that looks at the first character behind white space. -/
theorem gaps {f : Scan α} {g : Char → Scan α} (hend : ∀ s, skipGaps s = [] → f s = .error .endOfText)
    (hstep : ∀ s c u, skipGaps s = c :: u → f s = g c u) (hopen : ∀ s result, g '[' s ≠ .ok result)
    (hg : ∀ c, Frames quoted (g c)) : Frames quoted f := by
  intro p q rest a h
  rcases exists_gaps p with hp | ⟨gap, c, p, rfl, hgap, hc⟩
  · refine .inr ⟨hend p hp.skipGaps_eq, fun hq => ?_⟩
    obtain ⟨t, hskip⟩ := exists_skipGaps_of_misfit hp hq
    rw [hstep _ _ _ hskip] at h
    exact absurd h (hopen _ _)
  · have hskip : ∀ t, f (gap ++ c :: t) = g c t := fun t =>
      hstep _ c t (skipGaps_append_cons hgap hc t)
    rw [List.append_assoc, List.cons_append, hskip] at h
    rcases hg c h with ⟨c', r, rfl, rfl, hc'⟩ | ⟨hend, hmisfit⟩
    · refine .inl ⟨gap ++ c :: c', r, by simp, rfl, fun t => ?_⟩
      rw [List.append_assoc, List.cons_append, hskip, hc']
    · exact .inr ⟨(hskip p).trans hend, hmisfit⟩

end Frames

/-! ### Words -/

theorem frames_scanWord (a : α) {word : List Char} (hword : '[' ∉ word) :
    Frames False fun s => (scanWord word s).map (a, ·) := by
  induction word with
  | nil => exact Frames.pure a
  | cons w ws ih =>
    obtain ⟨hw, hws⟩ := not_or.mp (List.mem_cons.not.mp hword)
    refine Frames.char rfl (g := fun c s => if w = c then (scanWord ws s).map (a, ·)
      else .error .malformed) (fun c s => ?_) (fun s result => ?_) fun c =>
        .ite (ih hws) (.error .malformed)
    · by_cases hc : w = c <;> simp [scanWord, hc, Except.map]
    · simp [Ne.symm hw]

/-! ### Strings -/

/-- A hexadecimal digit is one byte. -/
theorem utf8Size_of_hexDigit? {c : Char} {n : Nat} (h : hexDigit? c = some n) : c.utf8Size = 1 := by
  have hascii : ∀ d : Char, d.val ≤ 0x7F → c ≤ d → c.val ≤ 0x7F :=
    fun d hd hle => UInt32.le_trans (Char.le_def.mp hle) hd
  have hval : c.val ≤ 0x7F := by
    unfold hexDigit? at h
    split at h
    case isTrue hc => exact hascii '9' (by decide) hc.2
    split at h
    case isTrue hc => exact hascii 'f' (by decide) hc.2
    split at h
    case isTrue hc => exact hascii 'F' (by decide) hc.2
    cases h
  exact if_pos hval

theorem exists_digits_of_hexUnit? {a b c d : Char} {n : Nat} (h : hexUnit? a b c d = some n) :
    (∃ k, hexDigit? a = some k) ∧ (∃ k, hexDigit? b = some k) ∧ (∃ k, hexDigit? c = some k) ∧
      ∃ k, hexDigit? d = some k := by
  unfold hexUnit? at h
  cases ha : hexDigit? a <;> cases hb : hexDigit? b <;> cases hc : hexDigit? c <;>
    cases hd : hexDigit? d <;> simp_all

theorem exists_hexUnit?_of_scanUnit {s rest : List Char} {n : Nat}
    (h : scanUnit s = .ok (n, rest)) :
    ∃ a b c d, s = a :: b :: c :: d :: rest ∧ hexUnit? a b c d = some n := by
  unfold scanUnit at h
  split at h
  · split at h
    · next hunit =>
      cases h
      exact ⟨_, _, _, _, rfl, hunit⟩
    · cases h
  · split at h <;> cases h

theorem frames_scanUnit : Frames False scanUnit := by
  intro p q rest n h
  obtain ⟨a, b, c, d, hs, hunit⟩ := exists_hexUnit?_of_scanUnit h
  obtain ⟨⟨_, ha⟩, ⟨_, hb⟩, ⟨_, hc⟩, ⟨_, hd⟩⟩ := exists_digits_of_hexUnit? hunit
  -- No digit can be the bracket of the misfit.
  have hmisfit : ∀ {e t k}, q = e :: t → hexDigit? e = some k → ¬misfit <+: q := by
    rintro e t k rfl he hq
    obtain rfl : e = '[' := by simpa using head?_of_misfit hq
    cases he
  -- Four characters are read, and the cut may fall in front of any of them.
  rcases p with _ | ⟨a', _ | ⟨b', _ | ⟨c', _ | ⟨d', p⟩⟩⟩⟩
  · exact .inr ⟨rfl, fun hq => absurd hq (hmisfit hs ha)⟩
  · simp only [List.cons_append, List.nil_append, List.cons.injEq] at hs
    obtain ⟨rfl, hs⟩ := hs
    exact .inr ⟨by simp [scanUnit, utf8Size_of_hexDigit? ha], fun hq => absurd hq (hmisfit hs hb)⟩
  · simp only [List.cons_append, List.nil_append, List.cons.injEq] at hs
    obtain ⟨rfl, rfl, hs⟩ := hs
    exact .inr ⟨by simp [scanUnit, utf8Size_of_hexDigit? ha, utf8Size_of_hexDigit? hb],
      fun hq => absurd hq (hmisfit hs hc)⟩
  · simp only [List.cons_append, List.nil_append, List.cons.injEq] at hs
    obtain ⟨rfl, rfl, rfl, hs⟩ := hs
    exact .inr ⟨by simp [scanUnit, utf8Size_of_hexDigit? ha, utf8Size_of_hexDigit? hb,
      utf8Size_of_hexDigit? hc], fun hq => absurd hq (hmisfit hs hd)⟩
  · simp only [List.cons_append, List.cons.injEq] at hs
    obtain ⟨rfl, rfl, rfl, rfl, rfl⟩ := hs
    exact .inl ⟨[a', b', c', d'], p, rfl, rfl, fun t => by simp [scanUnit, hunit]⟩

/-- What a scan gives if there is something to give. -/
theorem Frames.elim {quoted : Prop} (o : Option α) :
    Frames quoted fun s => o.elim (.error .malformed : Except Fault (α × List Char)) fun a => .ok (a, s) := by
  cases o with
  | none => exact Frames.error _
  | some a => exact Frames.pure a

theorem frames_scanLowSurrogate (high : Nat) : Frames False (scanLowSurrogate high) := by
  -- The unit stands behind a backslash and a letter.
  have hunit : Frames False fun s => scanLowSurrogate high ('\\' :: 'u' :: s) := by
    refine frames_scanUnit.bind
      (fun low rest => (joinSurrogates? high low).elim (.error .malformed) fun c => .ok (c, rest))
      (fun low => .elim _) False.elim fun s => ?_
    simp only [scanLowSurrogate, andThen]
    cases scanUnit s with
    | error fault => rfl
    | ok result => cases hjoin : joinSurrogates? high result.1 <;> simp [hjoin]
  have hletter : Frames False fun s => scanLowSurrogate high ('\\' :: s) := by
    refine Frames.char rfl (g := fun c s => if c = 'u' then scanLowSurrogate high ('\\' :: 'u' :: s)
      else .error .malformed) (fun c s => ?_) (by simp) fun c => .ite hunit (.error .malformed)
    split
    case isTrue hc => rw [hc]
    case isFalse hc =>
      unfold scanLowSurrogate
      split <;> simp_all
  refine Frames.char rfl (g := fun c s => if c = '\\' then scanLowSurrogate high ('\\' :: s)
      else .error .malformed) (fun c s => ?_) (by simp) fun c => .ite hletter (.error .malformed)
  split
  case isTrue hc => rw [hc]
  case isFalse hc =>
    unfold scanLowSurrogate
    split <;> simp_all

theorem frames_scanEscape (use : Use) : Frames False (scanEscape use) := by
  have hunit : Frames False fun s => scanEscape use ('u' :: s) := by
    refine frames_scanUnit.bind (fun n rest =>
      if use = .skipped then .ok (Char.ofNat n, rest)
      else if 0xDC00 ≤ n ∧ n ≤ 0xDFFF then .error .malformed
      else if 0xD800 ≤ n ∧ n ≤ 0xDBFF then scanLowSurrogate n rest
      else .ok (Char.ofNat n, rest)) (fun n => ?_) False.elim fun s => ?_
    · exact .ite (.pure _) (.ite (.error _) (.ite (frames_scanLowSurrogate n) (.pure _)))
    · simp only [scanEscape, andThen]
      cases scanUnit s <;> rfl
  refine Frames.char rfl (g := fun c s => if c = 'u' then scanEscape use ('u' :: s) else
    (shortEscape? c).elim (.error .malformed) fun char => .ok (char, s)) (fun c s => ?_)
      (by simp [shortEscape?]) fun c => .ite hunit (.elim _)
  split
  case isTrue hc => rw [hc]
  case isFalse hc =>
    unfold scanEscape
    split
    · next h => cases h
    · next h => exact absurd (List.cons.inj h).1 hc
    · next h =>
      obtain ⟨rfl, rfl⟩ := List.cons.inj h
      cases shortEscape? c <;> rfl

/-- In a string the misfit is read up to its first quote. -/
theorem head?_of_scanString_misfit {use : Use} {q rest chars : List Char} (hq : misfit <+: q)
    (h : scanString use q = .ok (chars, rest)) : rest.head? = some '"' := by
  obtain ⟨t, rfl⟩ := hq
  have hself : SpellsString ['[', 'n', 'u', 'l', 'l', ','] _ := spellsString_self (by decide)
  obtain ⟨cs, -, hscan⟩ := scanString_of_spells use hself ('"' :: ']' :: t)
  cases h.symm.trans hscan
  rfl

/-- A string is read up to its closing quote, and a string that is cut off has no end. -/
theorem frames_scanString (use : Use) : Frames True (scanString use) := by
  intro p q rest chars h
  generalize hs : p ++ q = s at h
  fun_induction scanString use s generalizing p chars rest with
  | case1 => cases h
  | case2 s =>
    cases h
    cases p with
    | nil =>
      obtain rfl : q = '"' :: s := hs
      exact .inr ⟨by rw [scanString], fun hq => by cases head?_of_misfit hq⟩
    | cons c p =>
      obtain ⟨rfl, rfl⟩ := List.cons.inj hs
      exact .inl ⟨['"'], p, rfl, rfl, scanString_quote use⟩
  | case3 => cases h
  | case4 => simp_all
  | case5 s c mid hescape chars' rest' hstring ih =>
    cases h
    cases p with
    | nil =>
      obtain rfl : q = '\\' :: s := hs
      exact .inr ⟨by rw [scanString], fun hq => by cases head?_of_misfit hq⟩
    | cons d p =>
      obtain ⟨rfl, rfl⟩ := List.cons.inj hs
      rcases frames_scanEscape use hescape with ⟨c', r, rfl, rfl, hc'⟩ | ⟨hend, hmisfit⟩
      · rcases ih rfl hstring with ⟨c'', r', rfl, rfl, hc''⟩ | ⟨hend, hmisfit⟩
        · refine .inl ⟨'\\' :: (c' ++ c''), r', by simp, rfl, fun t => ?_⟩
          rw [List.cons_append, List.append_assoc, scanString_escape (hc' (c'' ++ t)), hc'']
          rfl
        · refine .inr ⟨?_, hmisfit⟩
          rw [scanString_escape (hc' r), hend]
          rfl
      · refine .inr ⟨?_, fun hq => (hmisfit hq).1.elim⟩
        rw [scanString]
        split
        · next hfault =>
          rw [hend] at hfault
          cases hfault
          rfl
        · next hok =>
          rw [hend] at hok
          cases hok
  | case6 => cases h
  | case7 => simp_all
  | case8 c s hquote hslash hc chars' rest' hstring ih =>
    cases h
    have hplain := @scanString_plain use c (Nat.le_of_not_lt hc) hquote hslash
    cases p with
    | nil =>
      obtain rfl : q = c :: s := hs
      refine .inr ⟨by rw [scanString], fun hq => ⟨trivial, ?_⟩⟩
      have hwhole : scanString use (c :: s) = .ok (c :: chars', rest') := by
        rw [hplain, hstring]
        rfl
      exact head?_of_scanString_misfit hq hwhole
    | cons d p =>
      obtain ⟨rfl, rfl⟩ := List.cons.inj hs
      rcases ih rfl hstring with ⟨c', r, rfl, rfl, hc'⟩ | ⟨hend, hmisfit⟩
      · refine .inl ⟨d :: c', r, rfl, rfl, fun t => ?_⟩
        rw [List.cons_append, hplain, hc']
        rfl
      · refine .inr ⟨?_, hmisfit⟩
        rw [hplain, hend]
        rfl

/-! ### Punctuation -/

/-- Reads one character, which may have white space in front of it. -/
def expect (mark : Char) (a : α) : Scan α := fun s =>
  match skipGaps s with
  | [] => .error .endOfText
  | c :: rest => if c = mark then .ok (a, rest) else .error .malformed

theorem frames_expect {mark : Char} (hmark : mark ≠ '[') (a : α) : Frames False (expect mark a) := by
  refine Frames.gaps (g := fun c u => if c = mark then .ok (a, u) else .error .malformed)
    (fun s hs => ?_) (fun s c u hs => ?_) (by simp [Ne.symm hmark])
      fun c => .ite (.pure a) (.error .malformed)
  · simp only [expect, hs]
  · simp only [expect, hs]

theorem expect_ne_ok {mark c : Char} {a : α} {s : List Char} (hc : s.head? = some c)
    (hgap : isGap c = false) (hmark : c ≠ mark) (result : α × List Char) :
    expect mark a s ≠ .ok result := by
  obtain ⟨t, rfl⟩ := List.head?_eq_some_iff.mp hc
  simp [expect, skipGaps_cons hgap, hmark]

theorem frames_colon : Frames False Reader.colon.run :=
  frames_expect (by decide) ()

/-- The end of an array that is full. -/
theorem frames_closeArray : Frames False fun s => (Record.closeArray s).map ((), ·) := by
  have hclose : (fun s => (Record.closeArray s).map ((), ·)) = expect ']' () := by
    funext s
    unfold Record.closeArray expect
    cases skipGaps s with
    | nil => rfl
    | cons c u => by_cases hc : c = ']' <;> simp [hc, Except.map]
  rw [hclose]
  exact frames_expect (by decide) ()

/-- A key that is passed over is a string with a colon behind it. -/
theorem frames_passKey (use : Use) : Frames False fun s => (passKey use s).map ((), ·) := by
  refine (frames_scanString use).bind (fun _ => expect ':' ()) (fun _ => frames_expect (by decide) ())
    (fun _ _ s _ _ hs h => absurd h (expect_ne_ok hs (by decide) (by decide) _)) fun s => ?_
  unfold passKey expect andThen
  cases scanString use s with
  | error fault => rfl
  | ok result =>
    obtain ⟨chars, rest⟩ := result
    simp only
    cases skipGaps rest with
    | nil => rfl
    | cons c u =>
      by_cases hc : c = ':'
      · subst hc
        rfl
      · simp only [if_neg hc]
        rfl

/-- A turn as a scan, which tells whether there is a member. -/
def Reader.Turn.split : Reader.Turn → Bool × List Char
  | .closed rest => (false, rest)
  | .member rest => (true, rest)

/-- The next key of an object. -/
theorem frames_nextKey (isFirst : Bool) :
    Frames False fun s => (Reader.nextKey isFirst s).map Reader.Turn.split := by
  refine Frames.gaps (g := fun c u =>
    if c = '\x7d' then .ok (false, u)
    else if isFirst = true then if c = '"' then .ok (true, u) else .error .malformed
    else if c = ',' then expect '"' true u
    else .error .malformed) (fun s hs => ?_) (fun s c u hs => ?_) (by simp) fun c => ?_
  · simp only [Reader.nextKey, hs]
    rfl
  · simp only [Reader.nextKey, hs, expect]
    cases skipGaps u with
    | nil => split_ifs <;> rfl
    | cons d u' =>
      simp only
      split_ifs <;> rfl
  · exact .ite (.pure _) (.ite (.ite (.pure _) (.error _))
      (.ite (frames_expect (by decide) true) (.error _)))

/-- A character that a value, but nothing else in an array, can begin with. -/
def StartsValue (c : Char) : Prop :=
  isGap c = false ∧ c ≠ ']'

/-- The next element of an array.  Its first character is looked at, but only to see that there is an
    element.  A cut in front of the misfit is one in front of an element. -/
theorem nextElement_cut {isFirst : Bool} {p q : List Char} {turn : Reader.Turn}
    (h : Reader.nextElement isFirst (p ++ q) = .ok turn) :
    (∃ c r, p = c ++ r ∧ turn = .closed (r ++ q) ∧
      ∀ t, Reader.nextElement isFirst (c ++ t) = .ok (.closed t)) ∨
    (∃ c d r, p = c ++ d :: r ∧ StartsValue d ∧ turn = .member (d :: (r ++ q)) ∧
      ∀ d' t, StartsValue d' → Reader.nextElement isFirst (c ++ d' :: t) = .ok (.member (d' :: t))) ∨
    Reader.nextElement isFirst p = .error .endOfText ∧ (misfit <+: q → turn = .member q ∧
      ∀ d t, StartsValue d → Reader.nextElement isFirst (p ++ d :: t) = .ok (.member (d :: t))) := by
  rcases exists_gaps p with hp | ⟨g, c, r, rfl, hg, hc⟩
  · refine .inr (.inr ⟨by simp only [Reader.nextElement, hp.skipGaps_eq], fun hq => ?_⟩)
    have hskip := skipGaps_of_misfit hp hq
    obtain ⟨t, ht⟩ := List.head?_eq_some_iff.mp (head?_of_misfit hq)
    rw [ht] at h hskip ⊢
    cases isFirst with
    | false => simp [Reader.nextElement, hskip] at h
    | true =>
      rw [Reader.nextElement_first hskip ⟨'[', t, rfl, by decide⟩] at h
      cases h
      exact ⟨rfl, fun d t hd =>
        Reader.nextElement_first (skipGaps_append_cons hp hd.1 t) ⟨d, t, rfl, hd.2⟩⟩
  have hskip : ∀ t, skipGaps (g ++ c :: t) = c :: t := skipGaps_append_cons hg hc
  rw [List.append_assoc, List.cons_append] at h
  simp only [Reader.nextElement, hskip] at h
  split at h
  case isTrue hclosed =>
    cases h
    subst hclosed
    refine .inl ⟨g ++ [']'], r, by simp, rfl, fun t => ?_⟩
    rw [List.append_assoc]
    exact Reader.nextElement_closed (hskip t)
  case isFalse hopen =>
    split at h
    case isTrue hfirst =>
      cases h
      refine .inr (.inl ⟨g, c, r, rfl, ⟨hc, hopen⟩, rfl, fun d t hd => ?_⟩)
      subst hfirst
      exact Reader.nextElement_first (skipGaps_append_cons hg hd.1 t) ⟨d, t, rfl, hd.2⟩
    case isFalse hlater =>
      split at h
      case isFalse => cases h
      case isTrue hcomma =>
        subst hcomma
        obtain rfl : isFirst = false := by simpa using hlater
        have hnext : ∀ {g' d t}, IsGaps g' → StartsValue d →
            Reader.nextElement false (g ++ ',' :: (g' ++ d :: t)) = .ok (.member (d :: t)) :=
          fun hg' hd => Reader.nextElement_next (hskip _) (skipGaps_append_cons hg' hd.1 _)
            ⟨_, _, rfl, hd.2⟩
        rcases exists_gaps r with hr | ⟨g', d, r, rfl, hg', hd⟩
        · refine .inr (.inr ⟨?_, fun hq => ⟨?_, fun d t hd => ?_⟩⟩)
          · simp [Reader.nextElement, hskip, hr.skipGaps_eq]
          · obtain ⟨t, ht⟩ := List.head?_eq_some_iff.mp (head?_of_misfit hq)
            rw [skipGaps_of_misfit hr hq, ht] at h
            cases h
            rw [ht]
          · rw [List.append_assoc]
            exact hnext hr hd
        · have hskip' : ∀ t, skipGaps (g' ++ d :: t) = d :: t := skipGaps_append_cons hg' hd
          rw [List.append_assoc, List.cons_append] at h
          simp only [hskip'] at h
          split at h
          case isTrue => cases h
          case isFalse hmember =>
            cases h
            refine .inr (.inl ⟨g ++ ',' :: g', d, r, by simp, ⟨hd, hmember⟩, rfl, fun d' t hd' => ?_⟩)
            rw [List.append_assoc]
            exact hnext hg' hd'

end Warden.Json
