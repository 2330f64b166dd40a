import Warden.Proofs.Json.Cutting

namespace Warden.Json

/-!
# Texts that are cut off: readers

A container has an end of its own, so of a container that is cut off nothing is left.

* `Reader.Cuts` — readers that meet a cut in one of the ways of `Cut`; `Reader.Cuts.bind` for what is
  made of the value.
* `Reader.cuts_of_accept` — readers of scalars.
* `Reader.Cuts.items` — arrays.
* `Record.cuts_reader` — records, in either form.
-/

open Reader

variable {α β : Type}

namespace Reader

/-- Wherever the text is cut off, the reader meets the cut in one of the ways of `Cut`.  Without a text
    it has ended too early, and nothing is read of null. -/
structure Cuts (shortens : Prop) (x : Reader α) : Prop where
  nil : x.run [] = .error .endOfText
  null : ∀ t a rest, x.run ('n' :: 'u' :: 'l' :: 'l' :: t) ≠ .ok (a, rest)
  cut : ∀ ⦃p q rest : List Char⦄ ⦃a : α⦄, x.run (p ++ q) = .ok (a, rest) → EndsValue rest →
    Cut shortens x.run p q a rest

variable {shortens : Prop}

theorem Cuts.weaken {x : Reader α} (hx : x.Cuts False) : x.Cuts shortens where
  nil := hx.nil
  null := hx.null
  cut _ _ _ _ h hrest := (hx.cut h hrest).weaken

/-- Something is made of the value, or it is refused.  What may be left of it is never refused. -/
theorem Cuts.bind {x : Reader α} {f : α → Reader β} (hx : x.Cuts shortens)
    (hf : ∀ a, (∃ b, f a = Pure.pure b) ∨ ∃ cause, f a = refuse cause)
    (hshort : shortens → ∀ a, ∃ b, f a = Pure.pure b) : (x >>= f).Cuts shortens where
  nil := by rw [run_bind, hx.nil]
  null t b rest h := by
    obtain ⟨a, mid, ha, -⟩ := run_bind_eq_ok_iff.mp h
    exact hx.null t a mid ha
  cut p q rest b h hrest := by
    obtain ⟨a, mid, ha, hb⟩ := run_bind_eq_ok_iff.mp h
    obtain ⟨c, hc⟩ : ∃ c, f a = Pure.pure c := by
      rcases hf a with hc | ⟨cause, hrefuse⟩
      · exact hc
      · rw [hrefuse] at hb
        cases hb
    rw [hc] at hb
    cases hb
    cases hx.cut ha hrest with
    | behind hcut hrest hrun =>
      refine .behind hcut hrest fun t ht => ?_
      rw [run_bind, hrun t ht]
      show (f a).run t = _
      rw [hc, run_pure]
    | ended hend hmisfit =>
      refine .ended (by rw [run_bind, hend]) fun hq => ?_
      exact (hmisfit hq).bind (fun a => (f a).run) (run_bind x f)
    | broken hcut hq hn hnumeral hback hskips =>
      exact .broken hcut hq hn hnumeral hback (hskips.bind (fun a => (f a).run) (run_bind x f))
    | @shorter b hs hq hrun =>
      obtain ⟨d, hd⟩ := hshort hs b
      refine .shorter hs hq (b := d) ?_
      rw [run_bind, hrun]
      show (f b).run [] = _
      rw [hd, run_pure]

/-- Null may stand first in an array. -/
theorem nextElement_first_null {t : List Char} :
    nextElement true ('n' :: t) = .ok (.member ('n' :: t)) :=
  nextElement_first (skipGaps_cons (by decide) t) ⟨'n', t, rfl, by decide⟩

/-- Something is made of the value. -/
theorem Cuts.map {x : Reader α} (hx : x.Cuts shortens) (g : α → β) :
    (x >>= fun a => Pure.pure (g a)).Cuts shortens :=
  hx.bind (fun a => .inl ⟨g a, rfl⟩) fun _ a => ⟨g a, rfl⟩

/-- Skipping is passing over. -/
theorem run_skip : skip.run = passScan [] .value := by
  funext s
  simp only [skip, passScan]
  cases pass .skipped none [] .value s <;> rfl

/-- What is read of a whole text is all of it but white space. -/
theorem exists_run_of_read {x : Reader α} {text : String} {a : α} (h : x.read text = .ok a) :
    ∃ rest, x.run text.toList = .ok (a, rest) ∧ IsGaps rest := by
  unfold Reader.read at h
  split at h
  · cases h
  next b rest hrun =>
  split at h
  case isFalse => cases h
  case isTrue hempty =>
    cases h
    exact ⟨rest, hrun, isGaps_of_skipGaps_eq_nil (List.isEmpty_iff.mp hempty)⟩

/-- A value that is skipped. -/
theorem cut_skip {p q rest : List Char} (h : skip.run (p ++ q) = .ok ((), rest))
    (hrest : EndsValue rest) : Cut True skip.run p q () rest := by
  rw [run_skip] at h ⊢
  obtain ⟨rest', hpass, heq⟩ := exists_of_map_eq_ok h
  cases heq
  exact cut_pass hpass hrest

/-! ### Scalars -/

/-- A scalar is accepted or refused. -/
def settle (accept : Scalar → Option α) (refusal : Scalar → Fault) (x : Scalar) : Scan α := fun s =>
  (accept x).elim (.error (refusal x)) fun a => .ok (a, s)

/-- A reader that scans a scalar and accepts some of them, but not null.  If it accepts a numeral, then
    shorter ones may be left of it, and it accepts those too. -/
theorem cuts_of_accept {x : Reader α} (accept : Scalar → Option α) (refusal : Scalar → Fault)
    (hend : ∀ s, skipGaps s = [] → x.run s = .error .endOfText)
    (hopen : ∀ {s t : List Char} {c : Char}, skipGaps s = c :: t → c = '[' ∨ c = '{' →
      ∀ a after, x.run s ≠ .ok (a, after))
    (hscan : ∀ {s t : List Char} {c : Char}, skipGaps s = c :: t → ¬(c = '[' ∨ c = '{') →
      x.run s = andThen (scanScalar .kept) (settle accept refusal) (c :: t))
    (hnull : accept .null = none)
    (hfront : ∀ {n n' : Numeral} {s s' : List Char} {a : α}, accept (.number n) = some a →
      SpellsNumeral n s → SpellsNumeral n' s' → n'.IsFrontOf n →
      shortens ∧ n'.inRange = true ∧ ∃ b, accept (.number n') = some b) :
    x.Cuts shortens where
  nil := hend [] rfl
  null t a rest h := by
    have hscalar : scanScalar .kept ('n' :: 'u' :: 'l' :: 'l' :: t) = .ok (.null, t) := rfl
    rw [hscan (skipGaps_cons (by decide) _) (by decide), andThen_of_ok hscalar] at h
    simp [settle, hnull] at h
  cut p q rest a h hrest := by
    rcases exists_gaps p with hp | ⟨g, c, p, rfl, hg, hc⟩
    · refine .ended (hend p hp.skipGaps_eq) fun hq => ?_
      obtain ⟨t, hgap⟩ := exists_skipGaps_of_misfit hp hq
      exact absurd h (hopen hgap (.inl rfl) a rest)
    rw [List.append_assoc, List.cons_append] at h
    have hgap : ∀ t, skipGaps (g ++ c :: t) = c :: t := skipGaps_append_cons hg hc
    by_cases hbracket : c = '[' ∨ c = '{'
    · exact absurd h (hopen (hgap (p ++ q)) hbracket a rest)
    have hstep : ∀ t, x.run (g ++ c :: t) = _ := fun t => hscan (hgap t) hbracket
    rw [hstep] at h
    cases hscalar : scanScalar .kept (c :: (p ++ q)) with
    | error fault =>
      rw [andThen_of_error hscalar] at h
      cases h
    | ok result =>
      obtain ⟨y, mid⟩ := result
      rw [andThen_of_ok hscalar] at h
      obtain ⟨haccept, rfl⟩ : accept y = some a ∧ mid = rest := by
        cases hy : accept y <;> simp_all [settle]
      rcases scanScalar_cut hscalar hrest with
        ⟨w, r, rfl, rfl, hw⟩ | ⟨hq, hend | ⟨n, m, rfl, rfl, hn⟩⟩
      · refine .behind (c := g ++ c :: w) (r := r) (by simp) rfl fun t ht => ?_
        rw [List.append_assoc, List.cons_append, hstep, andThen_of_ok (hw t ht)]
        simp [settle, haccept]
      · exact .ended (by rw [hstep, andThen_of_error hend]) fun hmisfit => absurd hmisfit hq
      · rcases hn.cut (List.cons_ne_nil c p) with hbroken | ⟨n', hn', hfrontOf⟩
        · refine .ended ?_ fun hmisfit => absurd hmisfit hq
          rw [hstep, andThen_of_error (scanScalar_of_isBroken .kept hbroken)]
          rfl
        · obtain ⟨hshort, hrange, b, hb⟩ := hfront haccept hn hn' hfrontOf
          have hscan' := scanScalar_of_spellsNumeral .kept hn' .nil
          rw [List.append_nil, if_neg (by simp [hrange])] at hscan'
          refine .shorter hshort hq (b := b) ?_
          rw [hstep, andThen_of_ok hscan']
          simp [settle, hb]

theorem run_scalar_scan {wanted : Wanted} {accept : Scalar → Option α} {s t : List Char} {c : Char}
    (hgap : skipGaps s = c :: t) (hc : ¬(c = '[' ∨ c = '{')) :
    (scalar wanted accept).run s = andThen (scanScalar .kept)
      (settle accept fun y => .mismatch (.wrongType (.scalar y) wanted)) (c :: t) := by
  simp only [scalar, hgap, andThen, settle]
  split
  · next h => exact absurd (.inl (List.cons.inj h).1) hc
  · next h => exact absurd (.inr (List.cons.inj h).1) hc
  · cases scanScalar .kept (c :: t) with
    | error fault => rfl
    | ok result => cases haccept : accept result.1 <;> simp [haccept]

/-- A scalar that is neither a number nor null has an end of its own. -/
theorem cuts_scalar {wanted : Wanted} {accept : Scalar → Option α} (hnull : accept .null = none)
    (haccept : ∀ n, accept (.number n) = none) : (scalar wanted accept).Cuts shortens := by
  refine cuts_of_accept accept _ (fun s hs => ?_) (fun hgap hc a after => ?_) run_scalar_scan hnull
    fun hn => ?_
  · simp only [scalar, hs]
    rfl
  · simp only [scalar, hgap]
    rcases hc with rfl | rfl <;> simp
  · rw [haccept] at hn
    cases hn

theorem cuts_string : string.Cuts shortens :=
  cuts_scalar rfl fun _ => rfl

theorem cuts_boolean : boolean.Cuts shortens :=
  cuts_scalar rfl fun _ => rfl

/-! ### Arrays -/

/-- Behind a value in an array stands white space, a comma or the closing bracket. -/
theorem endsValue_of_nextElement {s : List Char} {turn : Turn}
    (h : nextElement false s = .ok turn) : EndsValue s := by
  refine endsValue_of_first fun c u hgap => ?_
  simp only [nextElement, hgap] at h
  split at h
  · next hclosed => exact .inr (.inl hclosed)
  · split at h
    · next hfirst => cases hfirst
    · split at h
      · next hcomma => exact .inl hcomma
      · cases h

section Turns

variable {isFirst : Bool} {f g : Scan α} {p q mid rest : List Char} {a : α}
  (hfault : ∀ s fault, nextElement isFirst s = .error fault → f s = .error fault)

include hfault

/-- The array is closed in front of the cut, or in it. -/
theorem cut_of_closed (hclosed : ∀ s t, nextElement isFirst s = .ok (.closed t) → f s = .ok (a, t))
    (hturn : nextElement isFirst (p ++ q) = .ok (.closed rest)) : Cut shortens f p q a rest := by
  rcases nextElement_cut hturn with
    ⟨c, r, hcut, heq, hc⟩ | ⟨_, _, _, _, _, heq, _⟩ | ⟨hend, hmisfit⟩
  · cases heq
    exact .behind hcut rfl fun t _ => hclosed _ _ (hc t)
  · cases heq
  · exact .ended (hfault _ _ hend) fun hq => by cases (hmisfit hq).1

/-- There is another element. -/
theorem cut_of_member (hmember : ∀ s t, nextElement isFirst s = .ok (.member t) → f s = g t)
    (hnil : g [] = .error .endOfText) (hturn : nextElement isFirst (p ++ q) = .ok (.member mid))
    (hcut : ∀ r, mid = r ++ q → Cut shortens g r q a rest) : Cut shortens f p q a rest := by
  rcases nextElement_cut hturn with
    ⟨_, _, _, heq, _⟩ | ⟨c, d, r, rfl, hd, heq, hc⟩ | ⟨hend, hmisfit⟩
  · cases heq
  · cases heq
    exact (hcut (d :: r) rfl).after_head (fun d t hd => hmember _ _ (hc d t hd)) hd hnil
      fun _ _ hd => hd
  · refine .ended (hfault _ _ hend) fun hq => ?_
    obtain ⟨heq, hc⟩ := hmisfit hq
    cases heq
    exact .after (fun d t hd => hmember _ _ (hc d t hd)) ((hcut [] rfl).skipsAt_nil hnil hq)

end Turns

section Items

variable {item : Reader α}

theorem elementsFrom_fault {isFirst : Bool} (s : List Char) (fault : Fault)
    (h : nextElement isFirst s = .error fault) : elementsFrom item isFirst s = .error fault := by
  rw [elementsFrom]
  split <;> simp_all

/-- Reads an element, and then the others. -/
def elementAnd (item : Reader α) : Scan (List α) :=
  andThen item.run fun a => andThen (elementsFrom item false) fun as s => .ok (a :: as, s)

theorem elementsFrom_member {isFirst : Bool} (s t : List Char)
    (h : nextElement isFirst s = .ok (.member t)) :
    elementsFrom item isFirst s = elementAnd item t := by
  rw [elementsFrom, elementAnd]
  split
  · next hfault => simp_all
  · next hclosed => simp_all
  · next hmember =>
    rw [h] at hmember
    cases hmember
    split
    · next hfault => rw [andThen_of_error hfault]
    · next hok =>
      rw [andThen_of_ok hok]
      unfold andThen
      cases elementsFrom item false _ <;> rfl

theorem cut_elementsFrom (hitem : item.Cuts True) {isFirst : Bool} {p q rest : List Char}
    {as : List α} (h : elementsFrom item isFirst (p ++ q) = .ok (as, rest)) :
    Cut False (elementsFrom item isFirst) p q as rest := by
  generalize hs : p ++ q = s at h
  fun_induction elementsFrom item isFirst s generalizing p as rest with
  | case1 => cases h
  | case2 isFirst s mid hturn =>
    subst hs
    cases h
    exact cut_of_closed elementsFrom_fault (fun s t ht => elementsFrom_closed ht) hturn
  | case3 => cases h
  | case4 => simp_all
  | case5 isFirst s text hturn a mid hrun as' rest' hothers ih =>
    subst hs
    cases h
    have hnil : elementAnd item [] = .error .endOfText := andThen_of_error hitem.nil
    refine cut_of_member elementsFrom_fault elementsFrom_member hnil hturn fun r hr => ?_
    have hends : EndsValue mid := by
      cases hnext : nextElement false mid with
      | error fault =>
        rw [elementsFrom_fault mid fault hnext] at hothers
        cases hothers
      | ok turn => exact endsValue_of_nextElement hnext
    rw [hr] at hrun
    -- The element is read, and then the others as before.
    exact Cut.bind _ (fun s => rfl)
      (fun a => andThen_of_error (elementsFrom_fault [] .endOfText rfl)) hends
      (hitem.cut hrun hends) fun r hr => (ih hr.symm hothers).map (a :: ·) fun s => rfl

end Items

/-- An array has an end of its own. -/
theorem Cuts.items {item : Reader α} (hitem : item.Cuts True) : (items item).Cuts False where
  nil := rfl
  null t := run_items_ne_ok (skipGaps_cons (by decide) _) (by decide)
  cut p q rest as h _ := by
    rcases exists_gaps p with hp | ⟨g, c, p, rfl, hg, hc⟩
    · refine .ended ?_ fun hq => ?_
      · simp only [Reader.items, hp.skipGaps_eq, scalar]
        rfl
      · obtain ⟨t, hgap⟩ := exists_skipGaps_of_misfit hp hq
        rw [run_items_open hgap, elementsFrom_member _ _ nextElement_first_null] at h
        obtain ⟨a, mid, hrun, -⟩ := exists_of_andThen_eq_ok h
        exact absurd hrun (hitem.null _ a mid)
    · rw [List.append_assoc, List.cons_append] at h
      have hgap : ∀ t, skipGaps (g ++ c :: t) = c :: t := skipGaps_append_cons hg hc
      by_cases hsquare : c = '['
      · subst hsquare
        rw [run_items_open (hgap (p ++ q))] at h
        exact (cut_elementsFrom hitem h).after_char fun t => run_items_open (hgap t)
      · exact absurd h (run_items_ne_ok (hgap (p ++ q)) hsquare as rest)

end Reader

/-! ### Records -/

namespace Record

variable {σ : Type} {r : Record σ α}

/-- Behind a value in an object stands white space, a comma or the closing brace. -/
theorem endsValue_of_nextKey {s : List Char} {turn : Turn} (h : nextKey false s = .ok turn) :
    EndsValue s := by
  refine endsValue_of_first fun c u hgap => ?_
  simp only [nextKey, hgap] at h
  split at h
  · next hclosed => exact .inr (.inr hclosed)
  · split at h
    · next hfirst => cases hfirst
    · split at h
      · next hcomma => exact .inl hcomma
      · cases h

theorem endsValue_of_closeArray {s rest : List Char} (h : closeArray s = .ok rest) :
    EndsValue s := by
  refine endsValue_of_first fun c u hgap => ?_
  simp only [closeArray, hgap] at h
  split at h
  · next hclosed => exact .inr (.inl hclosed)
  · cases h

section Members

variable (hfill : ∀ field ∈ r.fields, ∀ draft, (field.fill draft).Cuts True)

include hfill

/-- What stands behind a key: the value of a field, or one that is skipped. -/
theorem cut_member {draft next : σ} {key : String} {p q rest : List Char}
    (h : (r.member draft key).run (p ++ q) = .ok (next, rest)) (hrest : EndsValue rest) :
    Cut True (r.member draft key).run p q next rest := by
  cases hfind : r.fields.find? fun field => field.name == key with
  | some field =>
    simp only [member, hfind] at h ⊢
    split at h
    · cases h
    next hopen =>
    rw [if_neg hopen]
    obtain ⟨⟨⟩, mid, hcolon, hvalue⟩ := run_bind_eq_ok_iff.mp h
    refine frames_colon.cut_bind (fun _ => (field.fill draft).run) (run_bind _ _) hcolon False.elim
      fun u hu => ?_
    subst hu
    exact (hfill field (List.mem_of_find?_eq_some hfind) draft).cut hvalue hrest
  | none =>
    simp only [member, hfind] at h ⊢
    obtain ⟨⟨⟩, mid, hcolon, hvalue⟩ := run_bind_eq_ok_iff.mp h
    obtain ⟨⟨⟩, after, hskip, hpure⟩ := run_bind_eq_ok_iff.mp hvalue
    cases hpure
    refine frames_colon.cut_bind (fun _ => (skip >>= fun _ => Pure.pure draft).run) (run_bind _ _)
      hcolon False.elim fun u hu => ?_
    subst hu
    exact (cut_skip hskip hrest).map (fun _ => draft) (run_bind skip fun _ => Pure.pure draft)

omit hfill in
/-- Behind a key no quote stands. -/
theorem head?_ne_quote_of_member {draft : σ} {key : String} {s : List Char} {result : σ × List Char}
    (h : (r.member draft key).run s = .ok result) : s.head? ≠ some '"' := by
  intro hquote
  have hcolon : ∀ a mid, colon.run s ≠ .ok (a, mid) := fun a mid =>
    expect_ne_ok hquote (by decide) (by decide) (a, mid)
  unfold member at h
  split at h
  · split at h
    · cases h
    · obtain ⟨a, mid, ha, -⟩ := run_bind_eq_ok_iff.mp h
      exact hcolon a mid ha
  · obtain ⟨a, mid, ha, -⟩ := run_bind_eq_ok_iff.mp h
    exact hcolon a mid ha

omit hfill in
theorem membersFrom_fault {isFirst : Bool} {draft : σ} (s : List Char) (fault : Fault)
    (h : nextKey isFirst s = .error fault) : membersFrom r isFirst draft s = .error fault := by
  rw [membersFrom]
  split <;> simp_all

/-- Reads what stands behind a key, and then the other members. -/
def valueAnd (r : Record σ α) (draft : σ) (key : List Char) : Scan σ :=
  andThen (r.member draft (String.ofList key)).run (membersFrom r false)

/-- Reads a member behind the quote of its key, and then the others. -/
def memberAnd (r : Record σ α) (draft : σ) : Scan σ :=
  andThen (scanString .kept) (valueAnd r draft)

/-- Reads the next member and the others, or nothing more if there is none. -/
def turnTo (r : Record σ α) (draft : σ) (isMember : Bool) : Scan σ := fun s =>
  if isMember = true then memberAnd r draft s else .ok (draft, s)

omit hfill in
/-- The next key decides whether there is another member. -/
theorem membersFrom_eq (isFirst : Bool) (draft : σ) (s : List Char) :
    membersFrom r isFirst draft s =
      andThen (fun s => (nextKey isFirst s).map Turn.split) (turnTo r draft) s := by
  rw [membersFrom]
  split
  · next fault hfault =>
    have hsplit : (nextKey isFirst s).map Turn.split = .error fault := by rw [hfault]; rfl
    exact (andThen_of_error hsplit).symm
  · next rest hclosed =>
    have hsplit : (nextKey isFirst s).map Turn.split = .ok (false, rest) := by rw [hclosed]; rfl
    rw [andThen_of_ok hsplit]
    rfl
  · next text hmember =>
    have hsplit : (nextKey isFirst s).map Turn.split = .ok (true, text) := by rw [hmember]; rfl
    rw [andThen_of_ok hsplit]
    show _ = memberAnd r draft text
    unfold memberAnd
    split
    · next hfault => rw [andThen_of_error hfault]
    · next hkey =>
      rw [andThen_of_ok hkey]
      unfold valueAnd
      split
      · next hfault => rw [andThen_of_error hfault]
      · next hvalue => rw [andThen_of_ok hvalue]

omit hfill in
/-- The value of the first member of an object is skipped if no field has its name. -/
theorem skipsAt_membersFrom {draft : σ} {key k : List Char} (hk : SpellsString key k)
    (hname : (r.fields.find? fun field => field.name == String.ofList key) = none) :
    SkipsAt (membersFrom r true draft) ('"' :: (k ++ ['"', ':'])) := by
  have hskip : SkipsAt skip.run [] := by
    rw [run_skip]
    exact skipsAt_passScan [] .nil
  have hvalue : SkipsAt (skip >>= fun _ => Pure.pure draft : Reader σ).run [] :=
    hskip.bind (fun _ s => .ok (draft, s)) (run_bind skip fun _ => Pure.pure draft)
  have hmember : SkipsAt (r.member draft (String.ofList key)).run [':'] := by
    simp only [member, hname]
    refine hvalue.append (w := [':']) fun t => ?_
    have hcolon : colon.run ([':'] ++ t) = .ok ((), t) := run_colon .nil t
    rw [run_bind, hcolon]
  have hkey : SkipsAt (memberAnd r draft) (k ++ ['"', ':']) := by
    have hchunk : ∀ t, memberAnd r draft (k ++ ['"'] ++ t) = valueAnd r draft key t := by
      intro t
      rw [List.append_assoc]
      exact andThen_of_ok (scanString_kept_of_spells hk t)
    rw [List.append_cons]
    exact SkipsAt.append hchunk (hmember.bind (membersFrom r false) fun s => rfl)
  refine hkey.append (w := ['"']) fun t => ?_
  rw [membersFrom_eq, List.singleton_append]
  have hsplit : (nextKey true ('"' :: t)).map Turn.split = .ok (true, t) := by
    rw [nextKey_first (skipGaps_cons (by decide) t)]
    rfl
  rw [andThen_of_ok hsplit]
  rfl

theorem cut_membersFrom {isFirst : Bool} {draft full : σ} {p q rest : List Char}
    (h : membersFrom r isFirst draft (p ++ q) = .ok (full, rest)) :
    Cut False (membersFrom r isFirst draft) p q full rest := by
  generalize hs : p ++ q = s at h
  fun_induction membersFrom r isFirst draft s generalizing p with
  | case1 | case3 | case4 => cases h
  | case2 isFirst draft s mid hturn =>
    subst hs
    cases h
    have hscan : (nextKey isFirst (p ++ q)).map Turn.split = .ok (false, rest) := by
      rw [hturn]
      rfl
    exact (frames_nextKey isFirst).cut_bind (turnTo r full) (membersFrom_eq isFirst _) hscan False.elim
      fun u hu => .behind (c := []) rfl hu fun t _ => rfl
  | case5 isFirst draft s text hturn key mid hkey next after hmember ih =>
    subst hs
    have hscan : (nextKey isFirst (p ++ q)).map Turn.split = .ok (true, text) := by
      rw [hturn]
      rfl
    refine (frames_nextKey isFirst).cut_bind (turnTo r draft) (membersFrom_eq isFirst _) hscan False.elim
      fun u hu => ?_
    subst hu
    refine (frames_scanString .kept).cut_bind (valueAnd r draft) (fun s => rfl) hkey
      (fun _ => head?_ne_quote_of_member hmember) fun v hv => ?_
    subst hv
    have hends : EndsValue after := by
      cases hnext : nextKey false after with
      | error fault =>
        rw [membersFrom_fault after fault hnext] at h
        cases h
      | ok turn => exact endsValue_of_nextKey hnext
    exact Cut.bind _ (fun s => rfl) (fun a => membersFrom_fault [] _ rfl) hends
      (cut_member hfill hmember hends) fun w hw => ih hw.symm h

end Members

section Elements

variable {count : Nat} {fields : List (Field σ)}

/-- Reads the element of a field, and then the others. -/
def elementAnd (r : Record σ α) (count : Nat) (draft : σ) (field : Field σ)
    (fields : List (Field σ)) : Scan σ :=
  andThen (field.fill draft).run fun next => elementsFrom r (count + 1) next fields

theorem cut_elementsFrom {draft full : σ} {p q rest : List Char}
    (hfill : ∀ field ∈ fields, ∀ draft, (field.fill draft).Cuts True)
    (h : elementsFrom r count draft fields (p ++ q) = .ok (full, rest)) :
    Cut False (elementsFrom r count draft fields) p q full rest := by
  generalize hs : p ++ q = s at h
  fun_induction elementsFrom r count draft fields s generalizing p with
  | case1 | case3 | case5 | case6 => cases h
  | case2 count draft s rest' hclose =>
    subst hs
    cases h
    have hscan : (closeArray (p ++ q)).map ((), ·) = .ok ((), rest) := by
      rw [hclose]
      rfl
    refine frames_closeArray.cut_bind (fun _ t => .ok (full, t)) (fun s => ?_) hscan False.elim
      fun u hu => .behind (c := []) rfl hu fun t _ => rfl
    simp only [elementsFrom, andThen]
    cases closeArray s <;> rfl
  | case4 count draft field fields s mid hturn hoptional =>
    subst hs
    cases h
    refine cut_of_closed (fun s fault hs => ?_) (fun s t hs => ?_) hturn
    · simp only [elementsFrom, hs]
    · simp only [elementsFrom, hs, hoptional, if_true]
  | case7 count draft field fields s text hturn next mid hfield ih =>
    subst hs
    have hcut := (hfill field List.mem_cons_self draft)
    have hnil : elementAnd r count draft field fields [] = .error .endOfText :=
      andThen_of_error hcut.nil
    refine cut_of_member (fun s fault hs => ?_) (fun s t hs => ?_) hnil hturn fun u hu => ?_
    · simp only [elementsFrom, hs]
    · simp only [elementsFrom, hs]
      rfl
    subst hu
    have hends : EndsValue mid := by
      cases fields with
      | nil =>
        simp only [elementsFrom] at h
        split at h
        · cases h
        · next hclose => exact endsValue_of_closeArray hclose
      | cons other fields =>
        simp only [elementsFrom] at h
        split at h
        · cases h
        · next hnext => exact endsValue_of_nextElement hnext
        · next hnext => exact endsValue_of_nextElement hnext
    refine Cut.bind _ (fun s => rfl) (fun a => ?_)
      hends (hcut.cut hfield hends) fun v hv => ih (fun other hother =>
        hfill other (List.mem_cons_of_mem _ hother)) hv.symm h
    cases fields <;> rfl

end Elements

variable (hfill : ∀ field ∈ r.fields, ∀ draft, (field.fill draft).Cuts True)

include hfill

/-- No array of fields begins with null. -/
theorem elementsFrom_null_ne_ok {draft : σ} {t : List Char} {result : σ × List Char} :
    elementsFrom r 0 draft r.fields ('n' :: 'u' :: 'l' :: 'l' :: t) ≠ .ok result := by
  intro h
  cases hfields : r.fields with
  | nil =>
    rw [hfields] at h
    simp [elementsFrom, closeArray, skipGaps_cons (show isGap 'n' = false by decide)] at h
  | cons field fields =>
    rw [hfields] at h hfill
    simp only [elementsFrom, beq_self_eq_true, nextElement_first_null] at h
    split at h
    · cases h
    · next hfield => exact (hfill field List.mem_cons_self draft).null _ _ _ hfield

/-- The draft of a record has an end of its own, in either form. -/
theorem cuts_draft : r.draft.Cuts False where
  nil := rfl
  null t := run_draft_ne_ok (skipGaps_cons (by decide) _) (by decide)
  cut p q rest full h _ := by
    rcases exists_gaps p with hp | ⟨g, c, p, rfl, hg, hc⟩
    · refine .ended ?_ fun hq => ?_
      · simp only [draft, hp.skipGaps_eq, scalar]
        rfl
      · obtain ⟨t, hgap⟩ := exists_skipGaps_of_misfit hp hq
        rw [run_draft_array hgap] at h
        exact absurd h (elementsFrom_null_ne_ok hfill)
    · rw [List.append_assoc, List.cons_append] at h
      have hgap : ∀ t, skipGaps (g ++ c :: t) = c :: t := skipGaps_append_cons hg hc
      by_cases hsquare : c = '['
      · subst hsquare
        rw [run_draft_array (hgap (p ++ q))] at h
        exact (cut_elementsFrom hfill h).after_char fun t => run_draft_array (hgap t)
      by_cases hcurly : c = '{'
      · subst hcurly
        rw [run_draft_object (hgap (p ++ q))] at h
        exact (cut_membersFrom hfill h).after_char fun t => run_draft_object (hgap t)
      exact absurd h (run_draft_ne_ok (hgap (p ++ q)) ⟨hsquare, hcurly⟩ full rest)

theorem cuts_reader : r.reader.Cuts False := by
  refine (cuts_draft hfill).bind (fun full => ?_) False.elim
  cases hfinish : r.finish full with
  | error cause => exact .inr ⟨cause, rfl⟩
  | ok a => exact .inl ⟨a, rfl⟩

end Record

end Warden.Json
