import Warden.Proofs.Json.Reading

namespace Warden.Json

/-!
# Reading records

A record is gathered from the members of an object or from the elements of an array.  What comes
of it is told here by the values alone, given what each field makes of a value.

* `Record.Takes` — what a member does to a draft.
* `Record.Gathers` — what the members of an object do to a draft, one after another.
* `Record.LinesUp` — what the elements of an array do to it, field by field.
* `Record.reads_draft` and `Record.reads_reader` — a record in either form.
-/

open Reader

namespace Record

variable {σ α : Type}

/-- What a member does to a draft.  A field of its name takes up the value, unless the draft has
    one already; a member of another name changes nothing. -/
def Takes (r : Record σ α) (R : String → σ → Json → σ → Prop) (draft : σ)
    (m : List Char × Json) (next : σ) : Prop :=
  match r.fields.find? fun field => field.name == String.ofList m.1 with
  | some field => field.isFilled draft = false ∧ R field.name draft m.2 next
  | none => next = draft

/-- What the members of an object do to a draft, one after another. -/
inductive Gathers (r : Record σ α) (R : String → σ → Json → σ → Prop) :
    σ → List (List Char × Json) → σ → Prop
  | nil {draft : σ} : Gathers r R draft [] draft
  | cons {draft next full : σ} {m : List Char × Json} {ms : List (List Char × Json)} :
      r.Takes R draft m next → Gathers r R next ms full → Gathers r R draft (m :: ms) full

/-- What the elements of an array do to a draft.  Each is taken up by the field at its place, and
    the last field may be left without an element if it is optional. -/
inductive LinesUp (R : String → σ → Json → σ → Prop) : σ → List (Field σ) → List Json → σ → Prop
  | done {draft : σ} : LinesUp R draft [] [] draft
  | short {draft : σ} {field : Field σ} {fields : List (Field σ)} :
      field.optional = true → LinesUp R draft (field :: fields) [] draft
  | next {draft next full : σ} {field : Field σ} {fields : List (Field σ)} {v : Json}
      {vs : List Json} : R field.name draft v next → LinesUp R next fields vs full →
      LinesUp R draft (field :: fields) (v :: vs) full

theorem takes_iff_of_find? {r : Record σ α} {R : String → σ → Json → σ → Prop} {draft next : σ}
    {key : List Char} {v : Json} {field : Field σ}
    (h : (r.fields.find? fun field => field.name == String.ofList key) = some field) :
    r.Takes R draft (key, v) next ↔
      field.isFilled draft = false ∧ R field.name draft v next := by
  simp only [Takes, h]

theorem takes_iff_of_find?_none {r : Record σ α} {R : String → σ → Json → σ → Prop}
    {draft next : σ} {key : List Char} {v : Json}
    (h : (r.fields.find? fun field => field.name == String.ofList key) = none) :
    r.Takes R draft (key, v) next ↔ next = draft := by
  simp only [Takes, h]

theorem gathers_cons_iff {r : Record σ α} {R : String → σ → Json → σ → Prop} {draft full : σ}
    {m : List Char × Json} {ms : List (List Char × Json)} :
    r.Gathers R draft (m :: ms) full ↔
      ∃ next, r.Takes R draft m next ∧ r.Gathers R next ms full := by
  constructor
  · rintro (_ | ⟨htakes, hms⟩)
    exact ⟨_, htakes, hms⟩
  · rintro ⟨next, htakes, hms⟩
    exact .cons htakes hms

/-! ### Members -/

section Members

variable {isFirst : Bool} {s t rest : List Char}

/-- The object is closed. -/
theorem nextKey_closed (hgap : skipGaps s = '}' :: rest) :
    nextKey isFirst s = .ok (.closed rest) := by
  simp only [nextKey, hgap, if_true]

/-- The first key stands right behind the opening brace. -/
theorem nextKey_first (hgap : skipGaps s = '"' :: t) : nextKey true s = .ok (.member t) := by
  simp only [nextKey, hgap]
  rw [if_neg (by decide), if_pos True.intro, if_pos True.intro]

/-- Another key stands behind a comma. -/
theorem nextKey_next {s' : List Char} (hcomma : skipGaps s = ',' :: s')
    (hgap : skipGaps s' = '"' :: t) : nextKey false s = .ok (.member t) := by
  simp only [nextKey, hcomma, hgap]
  rw [if_neg (by decide), if_neg (by decide), if_pos True.intro, if_pos True.intro]

theorem run_colon {g : List Char} (hg : IsGaps g) (s : List Char) :
    colon.run (g ++ ':' :: s) = .ok ((), s) := by
  simp only [colon, skipGaps_append_cons hg (show isGap ':' = false by decide), if_true]

variable {r : Record σ α} {R : String → σ → Json → σ → Prop}
  (hfill : ∀ field ∈ r.fields, ∀ draft, (field.fill draft).Reads (R field.name draft))

include hfill

/-- What is read behind a key. -/
theorem run_member_of_spells {draft : σ} {key g g' s rest : List Char} {v : Json} (hg : IsGaps g)
    (hg' : IsGaps g') (hs : Spells v s) (hrest : EndsValue rest) (next : σ) (after : List Char) :
    (r.member draft (String.ofList key)).run (g ++ ':' :: (g' ++ (s ++ rest))) =
        .ok (next, after) ↔
      r.Takes R draft (key, v) next ∧ after = rest := by
  unfold member
  split
  · next field hfind =>
    rw [takes_iff_of_find? hfind]
    split
    case isTrue hfilled =>
      -- The field has been filled before.
      exact iff_of_false (by simp [refuse]) (by simp [hfilled])
    case isFalse hopen =>
      have hreads := hfill field (List.mem_of_find?_eq_some hfind) draft hs hg' hrest next after
      rw [run_bind, run_colon hg]
      simp [hreads, hopen]
  · next hfind =>
    rw [takes_iff_of_find?_none hfind, run_bind, run_colon hg]
    show (skip >>= fun _ => Pure.pure draft).run (g' ++ (s ++ rest)) = _ ↔ _
    rw [run_bind, run_skip_of_spells hs hg' hrest]
    simp [eq_comm]

omit hfill in
/-- A member is read, and then the others. -/
theorem membersFrom_member_iff {draft full : σ} {text mid key : List Char}
    (hturn : nextKey isFirst s = .ok (.member text))
    (hkey : scanString .kept text = .ok (key, mid)) :
    membersFrom r isFirst draft s = .ok (full, rest) ↔
      ∃ next after, (r.member draft (String.ofList key)).run mid = .ok (next, after) ∧
        membersFrom r false next after = .ok (full, rest) := by
  rw [membersFrom]
  split
  · next hfault => simp_all
  · next hclosed => simp_all
  · next hmember =>
    rw [hturn] at hmember
    cases hmember
    split
    · next hfault => simp_all
    · next hstring =>
      rw [hkey] at hstring
      cases hstring
      split
      · next hfault => simp [hfault]
      · next hok => simp [hok]

/-- The first of several members decides how the others go on. -/
theorem membersFrom_cons_iff {draft : σ} {m : List Char × Json}
    {ms : List (List Char × Json)} {input u : List Char} (hm : SpellsMember m s)
    (ht : EndsValue (t ++ rest)) (hgap : skipGaps (s ++ (t ++ rest)) = '"' :: u)
    (hturn : nextKey isFirst input = .ok (.member u))
    (hrest : ∀ next full after, membersFrom r false next (t ++ rest) = .ok (full, after) ↔
      r.Gathers R next ms full ∧ after = rest) (full : σ) (after : List Char) :
    membersFrom r isFirst draft input = .ok (full, after) ↔
      r.Gathers R draft (m :: ms) full ∧ after = rest := by
  cases hm with
  | @keyed g g' g'' key k s v hg hk hg' hg'' hv =>
    -- The turn has skipped the white space in front of the key, so `u` begins with the key.
    have hstart := skipGaps_append_cons hg (show isGap '"' = false by decide)
      (k ++ '"' :: (g' ++ ':' :: (g'' ++ (s ++ (t ++ rest)))))
    simp only [List.append_assoc, List.cons_append] at hgap
    rw [hstart] at hgap
    cases hgap
    have hmember := @run_member_of_spells _ _ r R hfill draft key _ _ _ _ v hg' hg'' hv ht
    rw [membersFrom_member_iff hturn (scanString_kept_of_spells hk _), gathers_cons_iff]
    constructor
    · rintro ⟨next, mid, hrun, hothers⟩
      obtain ⟨htakes, rfl⟩ := (hmember next mid).mp hrun
      obtain ⟨hgathers, rfl⟩ := (hrest next full after).mp hothers
      exact ⟨⟨next, htakes, hgathers⟩, rfl⟩
    · rintro ⟨⟨next, htakes, hgathers⟩, rfl⟩
      exact ⟨next, t ++ after, (hmember next _).mpr ⟨htakes, rfl⟩,
        (hrest next full after).mpr ⟨hgathers, rfl⟩⟩

omit hfill in
theorem membersFrom_closed {draft : σ} (hgap : skipGaps s = '}' :: rest) (full : σ)
    (after : List Char) :
    membersFrom r isFirst draft s = .ok (full, after) ↔
      r.Gathers R draft [] full ∧ after = rest := by
  have hturn : nextKey isFirst s = .ok (.closed rest) := nextKey_closed hgap
  have hnil : r.Gathers R draft [] full ↔ draft = full := by
    constructor
    · rintro ⟨⟩
      rfl
    · rintro rfl
      exact .nil
  rw [membersFrom, hnil]
  split
  · next hfault => simp_all
  · next hclosed =>
    rw [hturn] at hclosed
    cases hclosed
    simp [eq_comm]
  · next hmember => simp_all

/-- The members behind another one are gathered to the end of their object. -/
theorem membersFrom_of_spellsMembers {ms : List (List Char × Json)} (h : SpellsMembers ms t)
    (rest : List Char) (draft full : σ) (after : List Char) :
    membersFrom r false draft (t ++ rest) = .ok (full, after) ↔
      r.Gathers R draft ms full ∧ after = rest := by
  induction ms generalizing t draft full after with
  | nil =>
    cases h with
    | close hg =>
      rw [List.append_assoc, List.singleton_append]
      exact membersFrom_closed (skipGaps_append_cons hg (by decide) rest) full after
  | cons m ms ih =>
    cases h with
    | @next g s t _ _ hg hm hms =>
      obtain ⟨u, hgap⟩ := hm.skipGaps_eq (t ++ rest)
      have hcomma := skipGaps_comma_member hg s t rest
      exact membersFrom_cons_iff hfill hm (hms.endsValue rest) hgap (nextKey_next hcomma hgap)
        (ih hms) full after

end Members

/-! ### Elements -/

section Elements

variable {r : Record σ α} {R : String → σ → Json → σ → Prop} {fields : List (Field σ)}
  {count : Nat} {input s t rest : List Char}

/-- The elements end here. -/
theorem elementsFrom_closed_iff (hgap : skipGaps input = ']' :: rest) (draft full : σ)
    (after : List Char) :
    elementsFrom r count draft fields input = .ok (full, after) ↔
      LinesUp R draft fields [] full ∧ after = rest := by
  cases fields with
  | nil =>
    have hdone : LinesUp R draft [] [] full ↔ draft = full := by
      constructor
      · rintro ⟨⟩
        rfl
      · rintro rfl
        exact .done
    simp [elementsFrom, closeArray, hgap, hdone, eq_comm]
  | cons field fields =>
    have hshort : LinesUp R draft (field :: fields) [] full ↔
        field.optional = true ∧ draft = full := by
      constructor
      · rintro (_ | hoptional)
        exact ⟨hoptional, rfl⟩
      · rintro ⟨hoptional, rfl⟩
        exact .short hoptional
    simp only [elementsFrom, nextElement_closed hgap, hshort]
    split
    · next hoptional => simp [hoptional, eq_comm]
    · next hneeded => simp [hneeded]

/-- There is no field left for another element. -/
theorem elementsFrom_nil_ne_ok (hgap : skipGaps input = t) (ht : ∃ c u, t = c :: u ∧ c ≠ ']')
    (draft full : σ) (after : List Char) :
    elementsFrom r count draft [] input ≠ .ok (full, after) := by
  obtain ⟨c, u, rfl, hc⟩ := ht
  simp [elementsFrom, closeArray, hgap, hc]

/-- The next field takes up the next element. -/
theorem elementsFrom_cons_iff {field : Field σ} {draft : σ}
    (hfield : (field.fill draft).Reads (R field.name draft)) {v : Json} {vs : List Json}
    (hs : Spells v s) (ht : EndsValue (t ++ rest))
    (hturn : nextElement (count == 0) input = .ok (.member (s ++ (t ++ rest))))
    (hrest : ∀ next full after,
      elementsFrom r (count + 1) next fields (t ++ rest) = .ok (full, after) ↔
        LinesUp R next fields vs full ∧ after = rest) (full : σ) (after : List Char) :
    elementsFrom r count draft (field :: fields) input = .ok (full, after) ↔
      LinesUp R draft (field :: fields) (v :: vs) full ∧ after = rest := by
  have hnext : LinesUp R draft (field :: fields) (v :: vs) full ↔
      ∃ next, R field.name draft v next ∧ LinesUp R next fields vs full := by
    constructor
    · rintro (_ | _ | ⟨hR, hothers⟩)
      exact ⟨_, hR, hothers⟩
    · rintro ⟨next, hR, hothers⟩
      exact .next hR hothers
  simp only [elementsFrom, hturn, hnext]
  have hfill := hfield hs .nil ht
  simp only [List.nil_append] at hfill
  -- What the field gives and leaves is settled by the relation, so it can be compared.
  cases hresult : (field.fill draft).run (s ++ (t ++ rest)) with
  | error fault =>
    refine iff_of_false (by simp) ?_
    rintro ⟨⟨next, hR, _⟩, _⟩
    have hok := (hfill next (t ++ rest)).mpr ⟨hR, rfl⟩
    rw [hresult] at hok
    cases hok
  | ok result =>
    obtain ⟨next, mid⟩ := result
    obtain ⟨hR, rfl⟩ := (hfill next mid).mp hresult
    simp only [hrest]
    constructor
    · rintro ⟨hothers, rfl⟩
      exact ⟨⟨next, hR, hothers⟩, rfl⟩
    · rintro ⟨⟨next', hR', hothers⟩, rfl⟩
      have hsame := (hfill next' (t ++ after)).mpr ⟨hR', rfl⟩
      rw [hresult] at hsame
      cases hsame
      exact ⟨hothers, rfl⟩

/-- The elements behind another one are taken up to the end of their array. -/
theorem elementsFrom_of_spellsItems
    (hfill : ∀ field ∈ fields, ∀ draft, (field.fill draft).Reads (R field.name draft))
    {vs : List Json} (h : SpellsItems vs t) (rest : List Char) (draft full : σ)
    (after : List Char) :
    elementsFrom r (count + 1) draft fields (t ++ rest) = .ok (full, after) ↔
      LinesUp R draft fields vs full ∧ after = rest := by
  induction vs generalizing fields count t draft full after with
  | nil =>
    cases h with
    | close hg =>
      rw [List.append_assoc, List.singleton_append]
      exact elementsFrom_closed_iff (skipGaps_append_cons hg (by decide) rest) draft full after
  | cons v vs ih =>
    cases h with
    | @next g g' s t _ _ hg hg' hv hvs =>
      have hcomma := skipGaps_comma_element hg g' s t rest
      cases fields with
      | nil =>
        -- A comma stands where the bracket is due.
        refine iff_of_false (elementsFrom_nil_ne_ok hcomma ⟨_, _, rfl, by decide⟩ _ _ _) ?_
        rintro ⟨⟨⟩, _⟩
      | cons field fields =>
        have hturn : nextElement (count + 1 == 0) _ = _ :=
          nextElement_next hcomma (hv.skipGaps_append hg' (t ++ rest))
            (exists_cons_of_spells hv (t ++ rest))
        refine elementsFrom_cons_iff (hfill field List.mem_cons_self draft) hv
          (hvs.endsValue rest) hturn (fun next full after => ?_) full after
        exact ih (fun other hother => hfill other (List.mem_cons_of_mem _ hother)) hvs
          next full after

end Elements

/-! ### Both forms -/

section Forms

variable {r : Record σ α} {R : String → σ → Json → σ → Prop}

theorem run_draft_ne_ok {s u : List Char} {c : Char} (hgap : skipGaps s = c :: u)
    (hc : c ≠ '[' ∧ c ≠ '{') (full : σ) (after : List Char) :
    r.draft.run s ≠ .ok (full, after) := by
  obtain ⟨fault, hfault⟩ := exists_error_of_scalar_none (α := σ) (.record r.title) s
  simp only [draft, hgap]
  split
  · next heq => cases heq; exact absurd rfl hc.1
  · next heq => cases heq; exact absurd rfl hc.2
  · rw [hfault]
    simp

theorem run_draft_array {s u : List Char} (hgap : skipGaps s = '[' :: u) :
    r.draft.run s = r.elementsFrom 0 r.blank r.fields u := by
  simp only [draft, hgap]

theorem run_draft_object {s u : List Char} (hgap : skipGaps s = '{' :: u) :
    r.draft.run s = r.membersFrom true r.blank u := by
  simp only [draft, hgap]

variable (hfill : ∀ field ∈ r.fields, ∀ draft, (field.fill draft).Reads (R field.name draft))

include hfill

/-- An array that is spelled fills a draft as it lines up with the fields. -/
theorem run_draft_of_spells_array {vs : List Json} {input s rest : List Char}
    (hs : Spells (.array vs) s) (hgap : skipGaps input = s ++ rest) (full : σ)
    (after : List Char) :
    r.draft.run input = .ok (full, after) ↔
      LinesUp R r.blank r.fields vs full ∧ after = rest := by
  cases hs with
  | @emptyArray g hg =>
    have hcons : '[' :: (g ++ [']']) ++ rest = '[' :: (g ++ ']' :: rest) := by simp
    rw [run_draft_array (hgap.trans hcons)]
    exact elementsFrom_closed_iff (skipGaps_append_cons hg (by decide) rest) r.blank full after
  | @array g s t v vs hg hv hvs =>
    have hcons : '[' :: (g ++ (s ++ t)) ++ rest = '[' :: (g ++ (s ++ (t ++ rest))) := by simp
    have hstart := hv.skipGaps_append hg (t ++ rest)
    have hne := exists_cons_of_spells hv (t ++ rest)
    rw [run_draft_array (hgap.trans hcons)]
    cases hfields : r.fields with
    | nil =>
      refine iff_of_false (elementsFrom_nil_ne_ok hstart hne r.blank full after) ?_
      rintro ⟨⟨⟩, _⟩
    | cons field fields =>
      rw [hfields] at hfill
      have hturn : nextElement (0 == 0) _ = _ := nextElement_first hstart hne
      refine elementsFrom_cons_iff (hfill field List.mem_cons_self r.blank) hv
        (hvs.endsValue rest) hturn (fun next full after => ?_) full after
      exact elementsFrom_of_spellsItems
        (fun other hother => hfill other (List.mem_cons_of_mem _ hother)) hvs rest next full after

/-- An object that is spelled fills a draft as its members are gathered. -/
theorem run_draft_of_spells_object {ms : List (List Char × Json)} {input s rest : List Char}
    (hs : Spells (.object ms) s) (hgap : skipGaps input = s ++ rest) (full : σ)
    (after : List Char) :
    r.draft.run input = .ok (full, after) ↔ r.Gathers R r.blank ms full ∧ after = rest := by
  cases hs with
  | @emptyObject g hg =>
    have hcons : '{' :: (g ++ ['}']) ++ rest = '{' :: (g ++ '}' :: rest) := by simp
    rw [run_draft_object (hgap.trans hcons)]
    exact membersFrom_closed (skipGaps_append_cons hg (by decide) rest) full after
  | @object s t m ms hm hms =>
    have hcons : '{' :: (s ++ t) ++ rest = '{' :: (s ++ (t ++ rest)) := by simp
    obtain ⟨u, hkey⟩ := hm.skipGaps_eq (t ++ rest)
    rw [run_draft_object (hgap.trans hcons)]
    exact membersFrom_cons_iff hfill hm (hms.endsValue rest) hkey (nextKey_first hkey)
      (membersFrom_of_spellsMembers hfill hms rest) full after

/-- The draft of a record comes from the elements of an array or the members of an object. -/
theorem reads_draft : r.draft.Reads fun v full =>
    (∃ vs, v = .array vs ∧ LinesUp R r.blank r.fields vs full) ∨
      ∃ ms, v = .object ms ∧ r.Gathers R r.blank ms full := by
  intro v g s rest hs hg _ full after
  have hgap := hs.skipGaps_append hg rest
  rcases eq_scalar_or_container v with ⟨x, rfl⟩ | ⟨vs, rfl⟩ | ⟨ms, rfl⟩
  · obtain ⟨c, t, rfl, hc⟩ := hs.exists_beginsScalar
    refine iff_of_false (run_draft_ne_ok hgap ⟨hc.ne.2.1, hc.ne.2.2.1⟩ full after) ?_
    rintro ⟨⟨vs, hvs, _⟩ | ⟨ms, hms, _⟩, _⟩
    · cases x <;> cases hvs
    · cases x <;> cases hms
  · rw [run_draft_of_spells_array hfill hs hgap]
    simp
  · rw [run_draft_of_spells_object hfill hs hgap]
    simp

/-- A record is what is made of its draft. -/
theorem reads_reader : r.reader.Reads fun v a => ∃ full,
    ((∃ vs, v = .array vs ∧ LinesUp R r.blank r.fields vs full) ∨
      ∃ ms, v = .object ms ∧ r.Gathers R r.blank ms full) ∧ r.finish full = .ok a :=
  (reads_draft hfill).bind fun full => Settles.ofExcept (r.finish full)

end Forms

end Record

end Warden.Json
