import Warden.Proofs.Json.Breaking
import Warden.Proofs.Json.Gathering

namespace Warden.Json

/-!
# Texts that are cut off: values

What becomes of a value if the text is cut off somewhere: the cut falls behind the value, or the text
has ended too early, or a skipped numeral breaks off, or something shorter than the value is left.
If the misfit stands behind the cut, then the cut falls behind the value or in front of one that is
skipped.

* `SkipsAt` — the places where a scan passes over a value.
* `Cut` — the four ways; `Cut.after`, `Cut.bind` and `Frames.cut_bind` lead from one part of a scan to
  the next.
* `cut_pass` — values that are passed over, whatever containers are open.
-/

variable {α β : Type}

/-! ### Where the cut falls -/

/-- Behind this front, the scan passes over the value that stands there, whatever it is, and then goes
    on. -/
def SkipsAt (f : Scan α) (front : List Char) : Prop :=
  ∃ (opened : List Bracket) (more : List Char → Except Fault (α × List Char)),
    ∀ d t, StartsValue d →
      f (front ++ d :: t) = (pass .skipped none opened .value (d :: t)).bind more

/-- What a scan makes of the front `p` of a text from which it has read a value.  Whether something
    shorter than the value may be all that is left is a parameter. -/
inductive Cut (shortens : Prop) (f : Scan α) (p q : List Char) (a : α) (rest : List Char) : Prop
  /-- The value has been read in front of the cut. -/
  | behind {c r : List Char} : p = c ++ r → rest = r ++ q →
      (∀ t, EndsValue t → f (c ++ t) = .ok (a, t)) → Cut shortens f p q a rest
  /-- The text has ended too early.  The misfit can be read behind the cut only if it is skipped. -/
  | ended : f p = .error .endOfText → (misfit <+: q → SkipsAt f p) → Cut shortens f p q a rest
  /-- The cut falls into a numeral that is skipped, and it breaks off. -/
  | broken {front n m back : List Char} {numeral : Numeral} : p = front ++ n → q = m ++ back →
      IsBroken n → SpellsNumeral numeral (n ++ m) → EndsValue back → SkipsAt f front →
      Cut shortens f p q a rest
  /-- Something shorter has been read, up to the cut. -/
  | shorter {b : α} : shortens → ¬misfit <+: q → f p = .ok (b, []) → Cut shortens f p q a rest

/-- What is left in front of the cut of a value that is skipped: a numeral that breaks off, or nothing
    if the misfit stands behind the cut. -/
def IsStub (n q : List Char) : Prop :=
  IsBroken n ∨ n = [] ∧ misfit <+: q

theorem EndsValue.change {s t t' : List Char} (h : EndsValue (s ++ t)) (ht : s = [] → EndsValue t') :
    EndsValue (s ++ t') := by
  cases s with
  | nil => exact ht rfl
  | cons c s => exact h

/-- No value ends in front of another one. -/
theorem EndsValue.ne_nil {front n q : List Char} (h : EndsValue (front ++ n ++ q))
    (hn : IsStub n q) : front ≠ [] := by
  rintro rfl
  rcases hn with hn | ⟨rfl, hq⟩
  · obtain ⟨c, t, rfl, hc⟩ := hn.exists_cons
    obtain ⟨hdigit, -⟩ := h.head_ne c rfl
    rcases hc with rfl | hc
    · exact absurd (h '-' rfl) (by decide)
    · rw [hc] at hdigit
      cases hdigit
  · exact h.not_misfit hq

theorem SkipsAt.bind {f : Scan β} {x : Scan α} {front : List Char} (y : α → Scan β)
    (hf : ∀ s, f s = andThen x y s) (h : SkipsAt x front) : SkipsAt f front := by
  obtain ⟨opened, more, hmore⟩ := h
  refine ⟨opened, fun s => (more s).bind fun result => y result.1 result.2, fun d t hd => ?_⟩
  rw [hf]
  unfold andThen
  rw [hmore d t hd]
  cases pass .skipped none opened .value (d :: t) with
  | error fault => rfl
  | ok s =>
    simp only [Except.bind]
    cases more s <;> rfl

/-- Another front is read before. -/
theorem SkipsAt.append {f f' : Scan α} {w front : List Char} (hchunk : ∀ t, f (w ++ t) = f' t)
    (h : SkipsAt f' front) : SkipsAt f (w ++ front) := by
  obtain ⟨opened, more, hmore⟩ := h
  refine ⟨opened, more, fun d t hd => ?_⟩
  rw [List.append_assoc, hchunk, hmore d t hd]

/-- Another front is read before, if a value stands behind it. -/
theorem SkipsAt.after {f f' : Scan α} {w : List Char}
    (hchunk : ∀ d t, StartsValue d → f (w ++ d :: t) = f' (d :: t)) (h : SkipsAt f' []) :
    SkipsAt f w := by
  obtain ⟨opened, more, hmore⟩ := h
  exact ⟨opened, more, fun d t hd => (hchunk d t hd).trans (hmore d t hd)⟩

namespace Cut

variable {shortens : Prop} {f f' : Scan α} {w p q rest : List Char} {a : α}

/-- What a scan makes of a text behind some front, from what another one makes of the text alone.
    They need to agree only on some texts, but on all that are met. -/
theorem after {Q : List Char → Prop} (hchunk : ∀ t, Q t → f (w ++ t) = f' t) (hp : Q p)
    (hbehind : ∀ c r t, p = c ++ r → (c = [] → f' [] = .ok (a, [])) → EndsValue t → Q (c ++ t))
    (hskip : ∀ front n d t, p = front ++ n → IsStub n q → StartsValue d → Q (front ++ d :: t))
    (h : Cut shortens f' p q a rest) : Cut shortens f (w ++ p) q a rest := by
  have hskips : ∀ {front n}, p = front ++ n → IsStub n q → SkipsAt f' front →
      SkipsAt f (w ++ front) := by
    rintro front n hcut hn ⟨opened, more, hmore⟩
    refine ⟨opened, more, fun d t hd => ?_⟩
    rw [List.append_assoc, hchunk _ (hskip front n d t hcut hn hd), hmore d t hd]
  cases h with
  | @behind c r hcut hrest hrun =>
    refine .behind (c := w ++ c) (by rw [hcut, List.append_assoc]) hrest fun t ht => ?_
    have hempty : c = [] → f' [] = .ok (a, []) := by
      rintro rfl
      exact hrun [] .nil
    rw [List.append_assoc, hchunk _ (hbehind c r t hcut hempty ht), hrun t ht]
  | ended hend hmisfit =>
    refine .ended ((hchunk p hp).trans hend) fun hq => ?_
    exact hskips (List.append_nil p).symm (.inr ⟨rfl, hq⟩) (hmisfit hq)
  | broken hcut hq hn hnumeral hback hfront =>
    exact .broken (by rw [hcut, List.append_assoc]) hq hn hnumeral hback
      (hskips hcut (.inl hn) hfront)
  | shorter hshort hq hrun => exact .shorter hshort hq ((hchunk p hp).trans hrun)

/-- The front is read in one way, whatever stands behind it. -/
theorem after_all (hchunk : ∀ t, f (w ++ t) = f' t) (h : Cut shortens f' p q a rest) :
    Cut shortens f (w ++ p) q a rest :=
  h.after (fun t (_ : True) => hchunk t) trivial (fun _ _ _ _ _ _ => trivial)
    fun _ _ _ _ _ _ _ => trivial

/-- The front ends in a character that is read on its own. -/
theorem after_char {g : List Char} {c : Char} (hchunk : ∀ t, f (g ++ c :: t) = f' t)
    (h : Cut shortens f' p q a rest) : Cut shortens f (g ++ c :: p) q a rest := by
  rw [List.append_cons]
  refine h.after_all fun t => ?_
  rw [← List.append_cons, hchunk]

/-- The front ends in a value. -/
theorem after_value (hchunk : ∀ t, EndsValue t → f (w ++ t) = f' t) (hends : EndsValue (p ++ q))
    (h : Cut shortens f' p q a rest) : Cut shortens f (w ++ p) q a rest := by
  refine h.after hchunk ?_ ?_ ?_
  · have hp : EndsValue (p ++ []) := hends.change fun _ => .nil
    rwa [List.append_nil] at hp
  · rintro c r t rfl - ht
    rw [List.append_assoc] at hends
    exact hends.change fun _ => ht
  · rintro front n d t rfl hn -
    have hne := hends.ne_nil hn
    rw [List.append_assoc] at hends
    exact hends.change fun hnil => absurd hnil hne

/-- What stands behind the front begins with a character of some kind. -/
theorem after_head {P : Char → Prop} {d : Char} (hchunk : ∀ c t, P c → f (w ++ c :: t) = f' (c :: t))
    (hd : P d) (hnil : f' [] = .error .endOfText)
    (hskip : ∀ c, d = '-' ∨ d.isDigit = true → StartsValue c → P c)
    (h : Cut shortens f' (d :: p) q a rest) : Cut shortens f (w ++ d :: p) q a rest := by
  refine h.after (Q := fun t => ∃ c u, t = c :: u ∧ P c) ?_ ⟨d, p, rfl, hd⟩ ?_ ?_
  · rintro t ⟨c, u, rfl, hc⟩
    exact hchunk c u hc
  · rintro (_ | ⟨c, v⟩) r t hcut hempty -
    · rw [hnil] at hempty
      cases hempty rfl
    · obtain ⟨rfl, -⟩ := List.cons.inj hcut
      exact ⟨d, v ++ t, rfl, hd⟩
  · rintro (_ | ⟨c, front⟩) n d' t hcut hn hd'
    · rcases hn with hn | ⟨rfl, -⟩
      · obtain ⟨e, u, rfl, he⟩ := hn.exists_cons
        obtain ⟨rfl, -⟩ := List.cons.inj hcut
        exact ⟨d', t, rfl, hskip d' he hd'⟩
      · cases hcut
    · obtain ⟨rfl, -⟩ := List.cons.inj hcut
      exact ⟨d, front ++ d' :: t, rfl, hd⟩

/-- The text begins with white space and one more character. -/
theorem gaps {c : Char} {u : List Char} (hend : ∀ s, skipGaps s = [] → f s = .error .endOfText)
    (hskip : c = '[' → IsGaps p → SkipsAt f p) (hgap : skipGaps (p ++ q) = c :: u)
    (hcut : ∀ g p', p = g ++ c :: p' → u = p' ++ q → IsGaps g → isGap c = false →
      Cut shortens f p q a rest) : Cut shortens f p q a rest := by
  rcases exists_gaps p with hp | ⟨g, d, p', rfl, hg, hd⟩
  · refine .ended (hend p hp.skipGaps_eq) fun hq => hskip ?_ hp
    have hhead := head?_of_misfit hq
    rw [← skipGaps_of_misfit hp hq, hgap] at hhead
    exact Option.some.inj hhead
  · rw [List.append_assoc, List.cons_append, skipGaps_append_cons hg hd] at hgap
    obtain ⟨rfl, rfl⟩ := List.cons.inj hgap
    exact hcut g p' rfl rfl hg hd

theorem weaken (h : Cut False f p q a rest) : Cut shortens f p q a rest := by
  cases h with
  | behind hcut hrest hrun => exact .behind hcut hrest hrun
  | ended hend hmisfit => exact .ended hend hmisfit
  | broken hcut hq hn hnumeral hback hskips => exact .broken hcut hq hn hnumeral hback hskips
  | shorter hshort => exact hshort.elim

/-- Where nothing stands in front of the cut, and a text is needed, the misfit is skipped. -/
theorem skipsAt_nil (h : Cut shortens f [] q a rest) (hnil : f [] = .error .endOfText)
    (hq : misfit <+: q) : SkipsAt f [] := by
  cases h with
  | @behind c r hcut _ hrun =>
    obtain ⟨rfl, rfl⟩ := List.append_eq_nil_iff.mp hcut.symm
    cases hnil.symm.trans (hrun [] .nil)
  | ended _ hmisfit => exact hmisfit hq
  | @broken front n _ _ _ hcut _ hn =>
    obtain ⟨c, t, rfl, -⟩ := hn.exists_cons
    simp at hcut
  | shorter _ hnot => exact absurd hq hnot

/-- Something is made of the value. -/
theorem map {f : Scan β} {x : Scan α} (g : α → β)
    (hf : ∀ s, f s = andThen x (fun a s => .ok (g a, s)) s)
    (h : Cut shortens x p q a rest) : Cut shortens f p q (g a) rest := by
  cases h with
  | behind hcut hrest hrun =>
    exact .behind hcut hrest fun t ht => by rw [hf, andThen_of_ok (hrun t ht)]
  | ended hend hmisfit =>
    exact .ended (by rw [hf, andThen_of_error hend]) fun hq => (hmisfit hq).bind _ hf
  | broken hcut hq hn hnumeral hback hskips =>
    exact .broken hcut hq hn hnumeral hback (hskips.bind _ hf)
  | shorter hshort hq hrun => exact .shorter hshort hq (by rw [hf, andThen_of_ok hrun])

/-- A value is read, and the text has to go on behind it. -/
theorem bind {f : Scan β} {x : Scan α} {b : β} {mid : List Char} (y : α → Scan β)
    (hf : ∀ s, f s = andThen x y s) (hnil : ∀ a, y a [] = .error .endOfText) (hmid : EndsValue mid)
    (hx : Cut True x p q a mid) (hy : ∀ r, mid = r ++ q → Cut shortens (y a) r q b rest) :
    Cut shortens f p q b rest := by
  cases hx with
  | @behind c r hcut hrest hrun =>
    subst hcut hrest
    exact (hy r rfl).after_value (fun t ht => by rw [hf, andThen_of_ok (hrun t ht)]) hmid
  | ended hend hmisfit =>
    exact .ended (by rw [hf, andThen_of_error hend]) fun hq => (hmisfit hq).bind y hf
  | broken hcut hq hn hnumeral hback hskips =>
    exact .broken hcut hq hn hnumeral hback (hskips.bind y hf)
  | shorter _ hnot hrun =>
    exact .ended (by rw [hf, andThen_of_ok hrun, hnil]) fun hq => absurd hq hnot

end Cut

/-- Something with an end of its own is read, and then the text goes on, but not with a quote. -/
theorem Frames.cut_bind {quoted shortens : Prop} {f : Scan β} {x : Scan α} {p q mid rest : List Char}
    {a : α} {b : β} (y : α → Scan β) (hx : Frames quoted x) (hf : ∀ s, f s = andThen x y s)
    (hscan : x (p ++ q) = .ok (a, mid)) (hquote : quoted → mid.head? ≠ some '"')
    (hy : ∀ r, mid = r ++ q → Cut shortens (y a) r q b rest) : Cut shortens f p q b rest := by
  rcases hx hscan with ⟨c, r, rfl, rfl, hrun⟩ | ⟨hend, hmisfit⟩
  · exact (hy r rfl).after_all fun t => by rw [hf, andThen_of_ok (hrun t)]
  · refine .ended (by rw [hf, andThen_of_error hend]) fun hq => ?_
    obtain ⟨hquoted, hhead⟩ := hmisfit hq
    exact absurd hhead (hquote hquoted)

/-! ### Values that are passed over -/

theorem Bracket.closing_ne (b : Bracket) : b.closing ≠ '[' := by
  cases b <;> decide

section Passing

variable {opened : List Bracket} {b : Bracket} {s t : List Char} {c : Char}

theorem pass_end {await : Await} (hgap : skipGaps s = [])
    (hawait : await = .value ∨ await = .key ∨ opened ≠ []) :
    pass .skipped none opened await s = .error .endOfText := by
  rw [pass.eq_def]
  split
  · split
    · next h => simp_all
    · next h => simp_all
    · split
      · next hfault =>
        rw [hgap] at hfault
        cases hfault
        rfl
      · next hok =>
        rw [hgap] at hok
        cases hok
  · split <;> simp_all
  · simp at hawait
  · split <;> simp_all
  · simp at hawait
  · split <;> simp_all

/-- What does not open a container is scanned. -/
theorem pass_value_scan (hgap : skipGaps s = c :: t) (hc : c ≠ '[' ∧ c ≠ '{') :
    pass .skipped none opened .value s = match scanScalar .skipped (c :: t) with
      | .error fault => .error fault
      | .ok (_, rest) => pass .skipped none opened .more rest := by
  rw [pass.eq_def]
  simp only
  split
  · next h => exact absurd (List.cons.inj (hgap.symm.trans h)).1 hc.1
  · next h => exact absurd (List.cons.inj (hgap.symm.trans h)).1 hc.2
  · split
    · next hfault => rw [← hgap, hfault]
    · next hok => rw [← hgap, hok]

theorem pass_key_scan (hgap : skipGaps s = '"' :: t) :
    pass .skipped none opened .key s = match passKey .skipped t with
      | .error fault => .error fault
      | .ok rest => pass .skipped none opened .value rest := by
  rw [pass.eq_def]
  simp only
  split
  · next h => simp_all
  · next h =>
    rw [hgap] at h
    cases h
    split <;> simp_all
  · next h => simp_all

/-- A key begins with a quote. -/
theorem eq_quote_of_pass_key {rest : List Char} (hgap : skipGaps s = c :: t)
    (h : pass .skipped none opened .key s = .ok rest) : c = '"' := by
  rw [pass.eq_def] at h
  simp only at h
  split at h
  · cases h
  · next hquote => exact (List.cons.inj (hgap.symm.trans hquote)).1
  · cases h

/-- White space in front of a value makes no difference. -/
theorem pass_value_gaps (hgap : skipGaps s = c :: t) (hc : isGap c = false) :
    pass .skipped none opened .value s = pass .skipped none opened .value (c :: t) := by
  have hself := skipGaps_cons hc t
  by_cases hsquare : c = '['
  · subst hsquare
    rw [pass_value_open (.inl ⟨hgap, rfl⟩), pass_value_open (.inl ⟨hself, rfl⟩)]
  by_cases hcurly : c = '{'
  · subst hcurly
    rw [pass_value_open (.inr ⟨hgap, rfl⟩), pass_value_open (.inr ⟨hself, rfl⟩)]
  rw [pass_value_scan hgap ⟨hsquare, hcurly⟩, pass_value_scan hself ⟨hsquare, hcurly⟩]

/-- A container goes on, or is closed, where a value has ended. -/
theorem endsValue_of_pass_more {rest : List Char}
    (h : pass .skipped none opened .more s = .ok rest) (hrest : EndsValue rest) : EndsValue s := by
  cases opened with
  | nil =>
    rw [pass_more_nil] at h
    cases h
    exact hrest
  | cons b opened =>
    refine endsValue_of_first fun c u hgap => ?_
    rw [pass.eq_def] at h
    simp only at h
    split at h
    · cases h
    · next hnext =>
      obtain ⟨rfl, -⟩ := List.cons.inj (hgap.symm.trans hnext)
      split at h
      · next hclosing => cases b <;> simp_all [Bracket.closing]
      · split at h
        · next hcomma => exact .inl hcomma
        · cases h

/-- Passing over as a scan. -/
def passScan (opened : List Bracket) (await : Await) : Scan Unit :=
  fun s => (pass .skipped none opened await s).map ((), ·)

theorem passScan_congr {opened' : List Bracket} {await await' : Await} {s' : List Char}
    (h : pass .skipped none opened await s = pass .skipped none opened' await' s') :
    passScan opened await s = passScan opened' await' s' := by
  simp only [passScan, h]

theorem passScan_end {await : Await} (hawait : await = .value ∨ await = .key ∨ opened ≠ [])
    (s : List Char) (hgap : skipGaps s = []) : passScan opened await s = .error .endOfText := by
  simp only [passScan, pass_end hgap hawait]
  rfl

/-- Passing over a value begins behind the white space in front of it. -/
theorem skipsAt_passScan (opened : List Bracket) {g : List Char} (hg : IsGaps g) :
    SkipsAt (passScan opened .value) g := by
  refine ⟨opened, fun s => .ok ((), s), fun d t hd => ?_⟩
  simp only [passScan, pass_value_gaps (skipGaps_append_cons hg hd.1 t) hd.1]
  cases pass .skipped none opened .value (d :: t) <;> rfl

end Passing

/-- A scalar that is passed over, and the text behind it. -/
theorem cut_pass_scalar {opened : List Bracket} {g p q mid rest : List Char} {c : Char} {x : Scalar}
    (hg : IsGaps g) (hc : isGap c = false) (hopen : c ≠ '[' ∧ c ≠ '{')
    (hscan : scanScalar .skipped (c :: (p ++ q)) = .ok (x, mid)) (hends : EndsValue mid)
    (hmore : ∀ r, mid = r ++ q → Cut True (passScan opened .more) r q () rest) :
    Cut True (passScan opened .value) (g ++ c :: p) q () rest := by
  have hstep : ∀ t, pass .skipped none opened .value (g ++ c :: t) = _ :=
    fun t => pass_value_scan (skipGaps_append_cons hg hc t) hopen
  rcases scanScalar_cut hscan hends with ⟨w, r, rfl, rfl, hw⟩ | ⟨hq, hend | ⟨n, m, rfl, rfl, hn⟩⟩
  · have hcut := (hmore r rfl).after_value (f := passScan opened .value) (w := g ++ c :: w)
      (fun t ht => passScan_congr (by simp [hstep, hw t ht])) hends
    simpa using hcut
  · exact .ended (by simp [passScan, hstep, hend, Except.map]) fun hmisfit => absurd hmisfit hq
  · -- The cut falls into a numeral.
    rcases hn.cut (List.cons_ne_nil c p) with hbroken | ⟨n', hn', -⟩
    · exact .broken rfl rfl hbroken hn hends (skipsAt_passScan opened hg)
    · have hshort := scanScalar_of_spellsNumeral .skipped hn' .nil
      rw [List.append_nil, if_neg (by simp)] at hshort
      have hpass : pass .skipped none opened .value (g ++ c :: p) =
          pass .skipped none opened .more [] := by simp [hstep, hshort]
      cases opened with
      | nil =>
        refine .shorter (b := ()) trivial hq ?_
        simp [passScan, hpass, pass_more_nil, Except.map]
      | cons b opened =>
        refine .ended ((passScan_congr hpass).trans ?_) fun hmisfit => absurd hmisfit hq
        exact passScan_end (.inr (.inr (List.cons_ne_nil b opened))) [] rfl

/-- One character is passed over, and the white space in front of it. -/
theorem cut_pass_char {opened opened' : List Bracket} {await await' : Await} {p q u rest : List Char}
    {c : Char} (hawait : await = .value ∨ await = .key ∨ opened ≠ [])
    (hfirst : await = .value ∨ c ≠ '[') (hgap : skipGaps (p ++ q) = c :: u)
    (hstep : ∀ s t, skipGaps s = c :: t →
      pass .skipped none opened await s = pass .skipped none opened' await' t)
    (hmore : ∀ r, r ++ q = u → Cut True (passScan opened' await') r q () rest) :
    Cut True (passScan opened await) p q () rest := by
  refine Cut.gaps (passScan_end hawait) (fun hc hp => ?_) hgap fun g p' hp hu hg hc => ?_
  · obtain rfl := hfirst.resolve_right (not_not_intro hc)
    exact skipsAt_passScan opened hp
  subst hp hu
  exact (hmore p' rfl).after_char fun t =>
    passScan_congr (hstep _ t (skipGaps_append_cons hg hc t))

/-- A value that is passed over, from wherever in it.  The text is gone through once, as it is passed
    over, and what lies between two steps is not cut. -/
theorem cut_pass {opened : List Bracket} {await : Await} {p q rest : List Char}
    (h : pass .skipped none opened await (p ++ q) = .ok rest) (hrest : EndsValue rest) :
    Cut True (passScan opened await) p q () rest := by
  generalize hs : p ++ q = s at h
  fun_induction pass .skipped none opened await s generalizing p with
  -- The text does not go on as it has to.
  | case2 | case4 | case5 | case7 | case8 | case10 | case12 | case16 | case19 => cases h
  -- The outermost value has been read.
  | case11 | case15 =>
    cases h
    exact .behind (c := []) rfl hs.symm fun t _ => by simp [passScan, pass, Except.map]
  -- A container opens.
  | case1 s opened t hgap _ ih =>
    subst hs
    exact cut_pass_char (.inl rfl) (.inl rfl) hgap (fun s t hs => pass_value_open (.inl ⟨hs, rfl⟩))
      fun r hr => ih hr h
  | case3 s opened t hgap _ ih =>
    subst hs
    exact cut_pass_char (.inl rfl) (.inl rfl) hgap (fun s t hs => pass_value_open (.inr ⟨hs, rfl⟩))
      fun r hr => ih hr h
  -- A scalar stands where a value is awaited.
  | case6 s opened x mid hsquare hcurly hscan ih =>
    subst hs
    rcases exists_gaps p with hp | ⟨g, c, p, rfl, hg, hc⟩
    · exact .ended (passScan_end (.inl rfl) p hp.skipGaps_eq) fun _ => skipsAt_passScan opened hp
    · have hgap : skipGaps (g ++ c :: p ++ q) = c :: (p ++ q) := by
        rw [List.append_assoc]
        exact skipGaps_append_cons hg hc (p ++ q)
      rw [hgap] at hscan hsquare hcurly
      refine cut_pass_scalar hg hc ⟨?_, ?_⟩ hscan (endsValue_of_pass_more h hrest)
        fun r hr => ih hr.symm h
      · rintro rfl
        exact hsquare _ rfl
      · rintro rfl
        exact hcurly _ rfl
  -- A key is read, and its colon.
  | case9 s opened t hgap mid hkey ih =>
    subst hs
    refine Cut.gaps (passScan_end (.inr (.inl rfl))) (fun hc => absurd hc (by decide)) hgap
      fun g p' hp ht hg hc => ?_
    subst hp ht
    have hscan : (passKey .skipped (p' ++ q)).map ((), ·) = .ok ((), mid) := by
      rw [hkey]
      rfl
    have hcut := (frames_passKey .skipped).cut_bind (f := fun t => passScan opened .key ('"' :: t))
      (fun _ => passScan opened .value) (fun t => ?_) hscan False.elim fun r hr => ih hr.symm h
    · refine hcut.after_char fun t => passScan_congr ?_
      rw [pass_key_scan (skipGaps_append_cons hg hc t), pass_key_scan (skipGaps_cons hc t)]
    · simp only [passScan, andThen, pass_key_scan (skipGaps_cons hc t)]
      cases passKey .skipped t <;> rfl
  -- A container is closed, or has something in it.
  | case13 s b outer t hgap ih =>
    subst hs
    exact cut_pass_char (.inr (.inr (List.cons_ne_nil b outer))) (.inr b.closing_ne) hgap
      (fun s t hs => pass_first_close hs) fun r hr => ih hr h
  | case14 s b outer c t hgap hopen ih =>
    subst hs
    have hcontent : ∀ {g d}, IsGaps g → isGap d = false → d ≠ b.closing → ∀ t,
        passScan (b :: outer) .first (g ++ d :: t) = passScan (b :: outer) b.content (d :: t) :=
      fun hg hd hne t => passScan_congr
        (pass_first_content (skipGaps_append_cons hg hd t) ⟨_, t, rfl, hne⟩)
    have hend := @passScan_end (b :: outer) .first (.inr (.inr (List.cons_ne_nil b outer)))
    cases b with
    | square =>
      refine Cut.gaps hend (fun _ hp => ?_) hgap fun g p' hp ht hg hc => ?_
      · exact SkipsAt.after (fun d t hd => hcontent hp hd.1 hd.2 t) (skipsAt_passScan _ .nil)
      subst hp ht
      exact (ih (p := c :: p') rfl h).after_head (fun d t hd => hcontent hg hd.1 hd.2 t) ⟨hc, hopen⟩
        (passScan_end (.inl rfl) [] rfl) fun d _ hd => hd
    | curly =>
      refine Cut.gaps hend (fun hsquare _ => ?_) hgap fun g p' hp ht hg hc => ?_
      · subst hsquare
        cases eq_quote_of_pass_key (skipGaps_cons (by decide) t) h
      subst hp ht
      obtain rfl := eq_quote_of_pass_key (skipGaps_cons hc (p' ++ q)) h
      refine (ih (p := '"' :: p') rfl h).after_head (P := (· = '"')) ?_ rfl
        (passScan_end (.inr (.inl rfl)) [] rfl) fun d hd => absurd hd (by decide)
      rintro d t rfl
      exact hcontent hg hc hopen t
  -- A container is closed, or goes on, behind something in it.
  | case17 s b outer t hgap ih =>
    subst hs
    exact cut_pass_char (.inr (.inr (List.cons_ne_nil b outer))) (.inr b.closing_ne) hgap
      (fun s t hs => pass_more_close hs) fun r hr => ih hr h
  | case18 s b outer t hgap _ ih =>
    subst hs
    exact cut_pass_char (.inr (.inr (List.cons_ne_nil b outer))) (.inr (by decide)) hgap
      (fun s t hs => pass_more_next hs) fun r hr => ih hr h

end Warden.Json
