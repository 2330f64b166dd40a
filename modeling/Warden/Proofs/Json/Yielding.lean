import Warden.Json.Record

namespace Warden.Json

/-!
# What every reading has in common

A property that whatever a reader gives has, from whatever text it was read.  For a record it
comes from an invariant of the drafts: every field keeps it, and the value made of a full draft
has the property.

* `Reader.Yields` — the property of everything that a reader gives.
* `Reader.Yields.items` — an array of such values.
* `Record.yields_reader` — a record whose fields keep an invariant of the drafts.
-/

namespace Reader

variable {α β : Type}

/-- Whatever the reader gives has the property. -/
def Yields (x : Reader α) (P : α → Prop) : Prop :=
  ∀ ⦃s rest : List Char⦄ ⦃a : α⦄, x.run s = .ok (a, rest) → P a

theorem Yields.pure {P : α → Prop} {a : α} (h : P a) : (Pure.pure a : Reader α).Yields P := by
  intro s rest b hrun
  rw [run_pure] at hrun
  cases hrun
  exact h

theorem Yields.bind {P : α → Prop} {Q : β → Prop} {x : Reader α} {f : α → Reader β}
    (hx : x.Yields P) (hf : ∀ a, P a → (f a).Yields Q) : (x >>= f).Yields Q := by
  intro s rest b hrun
  rw [run_bind] at hrun
  split at hrun
  · cases hrun
  · next a mid ha => exact hf a (hx ha) hrun

/-- Everything has the property that says nothing. -/
theorem Yields.trivial (x : Reader α) : x.Yields fun _ => True :=
  fun _ _ _ _ => True.intro

/-! ### Arrays -/

/-- A scalar that nothing is accepted as is refused, and so is a container. -/
theorem exists_error_of_scalar_none (wanted : Wanted) (s : List Char) :
    ∃ fault, (scalar wanted fun _ => (none : Option α)).run s = .error fault := by
  unfold scalar
  simp only
  split
  · exact ⟨_, rfl⟩
  · exact ⟨_, rfl⟩
  · split
    · exact ⟨_, rfl⟩
    · exact ⟨_, rfl⟩

theorem Yields.elementsFrom {P : α → Prop} {item : Reader α} (hitem : item.Yields P)
    {isFirst : Bool} {s rest : List Char} {as : List α}
    (h : elementsFrom item isFirst s = .ok (as, rest)) : ∀ a ∈ as, P a := by
  fun_induction Reader.elementsFrom item isFirst s generalizing as rest with
  | case1 => cases h
  | case2 => cases h; simp
  | case3 => cases h
  | case4 => simp_all
  | case5 isFirst s text hturn a mid hrun as' rest' hrest ih =>
    -- An element, and the others behind it.
    cases h
    intro b hb
    rcases List.mem_cons.mp hb with rfl | hb
    · exact hitem hrun
    · exact ih hrest b hb

/-- The elements of an array have the property of each of them. -/
theorem Yields.items {P : α → Prop} {item : Reader α} (hitem : item.Yields P) :
    (items item).Yields fun as => ∀ a ∈ as, P a := by
  intro s rest as h
  unfold Reader.items at h
  simp only at h
  split at h
  · exact hitem.elementsFrom h
  · obtain ⟨fault, hfault⟩ := exists_error_of_scalar_none (α := List α) .sequence s
    rw [hfault] at h
    cases h

/-- The property of what a whole text holds. -/
theorem Yields.read {P : α → Prop} {x : Reader α} (hx : x.Yields P) {text : String} {a : α}
    (h : x.read text = .ok a) : P a := by
  unfold Reader.read at h
  split at h
  · cases h
  · next hrun =>
    split at h
    · cases h
      exact hx hrun
    · cases h

end Reader

/-! ### Records -/

namespace Record

variable {σ α : Type}

/-- A draft is changed by the fields of its record only. -/
theorem member_yields {r : Record σ α} {I : σ → Prop}
    (hfill : ∀ field ∈ r.fields, ∀ draft, I draft → (field.fill draft).Yields I)
    {draft : σ} (hdraft : I draft) (key : String) : (r.member draft key).Yields I := by
  unfold member
  split
  · next field hfind =>
    split
    -- A field that was filled before refuses another value.
    · intro s rest full h
      cases h
    · exact (Reader.Yields.trivial _).bind fun _ _ =>
        hfill field (List.mem_of_find?_eq_some hfind) draft hdraft
  · exact (Reader.Yields.trivial _).bind fun _ _ =>
      (Reader.Yields.trivial _).bind fun _ _ => .pure hdraft

theorem membersFrom_yields {r : Record σ α} {I : σ → Prop}
    (hfill : ∀ field ∈ r.fields, ∀ draft, I draft → (field.fill draft).Yields I)
    {isFirst : Bool} {draft full : σ} {s rest : List Char} (hdraft : I draft)
    (h : membersFrom r isFirst draft s = .ok (full, rest)) : I full := by
  fun_induction membersFrom r isFirst draft s with
  | case1 => cases h
  | case2 => cases h; exact hdraft
  | case3 => cases h
  | case4 => cases h
  | case5 _ draft _ _ _ key _ _ _ _ hmember ih =>
    exact ih (member_yields hfill hdraft (String.ofList key) hmember) h

theorem elementsFrom_yields {r : Record σ α} {I : σ → Prop} {count : Nat} {draft full : σ}
    {fields : List (Field σ)} {s rest : List Char}
    (hfill : ∀ field ∈ fields, ∀ draft, I draft → (field.fill draft).Yields I)
    (hdraft : I draft) (h : elementsFrom r count draft fields s = .ok (full, rest)) :
    I full := by
  fun_induction elementsFrom r count draft fields s with
  | case1 => cases h
  | case2 => cases h; exact hdraft
  | case3 => cases h
  | case4 => cases h; exact hdraft
  | case5 => cases h
  | case6 => cases h
  | case7 _ draft field fields _ _ _ _ _ hrun ih =>
    refine ih (fun other hother => hfill other (List.mem_cons_of_mem _ hother)) ?_ h
    exact hfill field List.mem_cons_self draft hdraft hrun

theorem draft_yields {r : Record σ α} {I : σ → Prop}
    (hfill : ∀ field ∈ r.fields, ∀ draft, I draft → (field.fill draft).Yields I)
    (hblank : I r.blank) : r.draft.Yields I := by
  intro s rest full h
  unfold draft at h
  simp only at h
  split at h
  · exact elementsFrom_yields hfill hblank h
  · exact membersFrom_yields hfill hblank h
  · obtain ⟨fault, hfault⟩ := Reader.exists_error_of_scalar_none (α := σ) (.record r.title) s
    rw [hfault] at h
    cases h

/-- A record whose fields keep an invariant of the drafts, and whose values have a property that
    follows from it. -/
theorem yields_reader {r : Record σ α} {I : σ → Prop} {P : α → Prop}
    (hfill : ∀ field ∈ r.fields, ∀ draft, I draft → (field.fill draft).Yields I)
    (hblank : I r.blank) (hfinish : ∀ draft a, I draft → r.finish draft = .ok a → P a) :
    r.reader.Yields P := by
  refine (draft_yields hfill hblank).bind fun full hfull => ?_
  intro s rest a h
  cases hvalue : r.finish full with
  | error cause =>
    rw [hvalue] at h
    cases h
  | ok value =>
    rw [hvalue] at h
    cases h
    exact hfinish full a hfull hvalue

end Record

end Warden.Json
