import Mathlib.Data.List.Forall2
import Warden.Proofs.Json.Skipping
import Warden.Proofs.Json.Yielding

namespace Warden.Json

/-!
# Reading what was spelled

What a reader makes of a text depends on the value that is spelled there and on nothing else:
not on the white space, not on the escapes, and not on what stands behind the value.

* `Reader.Reads` — the values a reader accepts, each with what it makes of them.
* `Reader.Settles` — the same for a reader that looks at no text at all.
* `Reader.Reads.bind`, `Reader.reads_of_accept`, `Reader.Reads.items` — readers one after another,
  readers of scalars and of arrays.
* `Reader.Reads.read` — a whole text.
-/

namespace Reader

variable {α β : Type}

/-- From every spelling of a value, wherever it stands, the reader gives what the relation says
    and leaves what stands behind it; from a value that is not in the relation it gives
    nothing. -/
def Reads (x : Reader α) (R : Json → α → Prop) : Prop :=
  ∀ ⦃v : Json⦄ ⦃g s rest : List Char⦄, Spells v s → IsGaps g → EndsValue rest →
    ∀ (a : α) (after : List Char),
      x.run (g ++ (s ++ rest)) = .ok (a, after) ↔ R v a ∧ after = rest

/-- The reader looks at no text and gives what has the property. -/
def Settles (x : Reader α) (P : α → Prop) : Prop :=
  ∀ (s : List Char) (a : α) (after : List Char), x.run s = .ok (a, after) ↔ P a ∧ after = s

/-! ### Combining readers -/

theorem run_bind_eq_ok_iff {x : Reader α} {f : α → Reader β} {s after : List Char} {b : β} :
    (x >>= f).run s = .ok (b, after) ↔
      ∃ a mid, x.run s = .ok (a, mid) ∧ (f a).run mid = .ok (b, after) := by
  rw [run_bind]
  cases x.run s with
  | error fault => simp
  | ok result =>
    obtain ⟨a, mid⟩ := result
    simp

theorem Reads.of_iff {x : Reader α} {R S : Json → α → Prop} (hx : x.Reads R)
    (h : ∀ v a, R v a ↔ S v a) : x.Reads S := by
  intro v g s rest hs hg hrest a after
  rw [hx hs hg hrest, h]

theorem Settles.pure (a : α) : (Pure.pure a : Reader α).Settles fun b => b = a := by
  intro s b after
  rw [run_pure]
  simp [eq_comm]

theorem Settles.refuse (cause : Mismatch) : (refuse cause : Reader α).Settles fun _ => False := by
  intro s a after
  simp [Reader.refuse]

theorem Settles.ofExcept (result : Except Mismatch α) :
    (ofExcept result).Settles fun a => result = .ok a := by
  cases result with
  | error cause =>
    intro s a after
    simp [Reader.ofExcept, Reader.refuse]
  | ok a =>
    intro s b after
    simp [Reader.ofExcept, Reader.pure, eq_comm]

/-- A value is read and something is made of it. -/
theorem Reads.bind {x : Reader α} {f : α → Reader β} {R : Json → α → Prop} {Q : α → β → Prop}
    (hx : x.Reads R) (hf : ∀ a, (f a).Settles (Q a)) :
    (x >>= f).Reads fun v b => ∃ a, R v a ∧ Q a b := by
  intro v g s rest hs hg hrest b after
  rw [run_bind_eq_ok_iff]
  constructor
  -- The first reader leaves `rest`, and the second one leaves it alone.
  · rintro ⟨a, mid, ha, hb⟩
    obtain ⟨hR, rfl⟩ := (hx hs hg hrest a mid).mp ha
    obtain ⟨hQ, hafter⟩ := (hf a mid b after).mp hb
    exact ⟨⟨a, hR, hQ⟩, hafter⟩
  · rintro ⟨⟨a, hR, hQ⟩, rfl⟩
    exact ⟨a, after, (hx hs hg hrest a after).mpr ⟨hR, rfl⟩, (hf a after b after).mpr ⟨hQ, rfl⟩⟩

/-! ### Scalars -/

theorem json_inj {x y : Scalar} : x.json = y.json ↔ x = y := by
  cases x <;> cases y <;> simp [Scalar.json]

/-- A reader that scans a scalar and accepts some of them, none of which is out of range, and that
    gives nothing when a container opens. -/
theorem reads_of_accept {x : Reader α} {accept : Scalar → Option α}
    (hscalar : ∀ {s t : List Char} {c : Char}, skipGaps s = c :: t → BeginsScalar c →
      ∀ a after, x.run s = .ok (a, after) ↔
        ∃ y, scanScalar .kept (c :: t) = .ok (y, after) ∧ accept y = some a)
    (hopen : ∀ {s t : List Char} {c : Char}, skipGaps s = c :: t → c = '[' ∨ c = '{' →
      ∀ a after, x.run s ≠ .ok (a, after))
    (haccept : ∀ y a, accept y = some a → y.inRange = true) :
    x.Reads fun v a => ∃ y : Scalar, v = y.json ∧ accept y = some a := by
  intro v g s rest hs hg hrest a after
  have hgap := hs.skipGaps_append hg rest
  rcases eq_scalar_or_container v with ⟨y, rfl⟩ | ⟨vs, rfl⟩ | ⟨ms, rfl⟩
  · obtain ⟨c, t, rfl, hc⟩ := hs.exists_beginsScalar
    obtain ⟨z, hz, hscan⟩ := scanScalar_of_spells .kept hs hrest
    rw [hz rfl] at hscan
    rw [List.cons_append] at hgap hscan ⊢
    rw [hscalar hgap hc, hscan]
    simp only [json_inj]
    cases hrange : y.inRange with
    | false =>
      -- A numeral out of range is malformed, and it would not be accepted either.
      have hnone : accept y ≠ some a := fun h => by simp [haccept y a h] at hrange
      simp [hnone]
    | true => simp [eq_comm, and_comm]
  · cases hs <;> exact iff_of_false (hopen hgap (.inl rfl) a after)
      (by rintro ⟨⟨y, hy, _⟩, _⟩; cases y <;> cases hy)
  · cases hs <;> exact iff_of_false (hopen hgap (.inr rfl) a after)
      (by rintro ⟨⟨y, hy, _⟩, _⟩; cases y <;> cases hy)

theorem reads_scalar {wanted : Wanted} {accept : Scalar → Option α}
    (haccept : ∀ y a, accept y = some a → y.inRange = true) :
    (scalar wanted accept).Reads fun v a => ∃ y : Scalar, v = y.json ∧ accept y = some a := by
  refine reads_of_accept ?_ ?_ haccept
  · intro s t c hgap hc a after
    obtain ⟨-, hsquare, hcurly, -⟩ := hc.ne
    simp only [Reader.scalar, hgap]
    split
    · next h => cases h; exact absurd rfl hsquare
    · next h => cases h; exact absurd rfl hcurly
    · cases scanScalar .kept (c :: t) with
      | error fault => simp
      | ok result =>
        obtain ⟨y, rest⟩ := result
        cases haccepted : accept y with
        | none => simp [haccepted]
        | some b => simp [haccepted, and_comm]
  · intro s t c hgap hc a after
    simp only [Reader.scalar, hgap]
    rcases hc with rfl | rfl <;> simp

theorem reads_string : string.Reads fun v text => v = .ofString text := by
  unfold Reader.string
  refine (reads_scalar ?_).of_iff fun v text => ?_
  · intro y text h
    cases y <;> simp_all [Scalar.inRange]
  · constructor
    · rintro ⟨y, rfl, hy⟩
      cases y <;> cases hy
      simp [Scalar.json, Json.ofString]
    · rintro rfl
      exact ⟨.text text.toList, rfl, by simp⟩

theorem reads_boolean : boolean.Reads fun v value => v = .boolean value := by
  unfold Reader.boolean
  refine (reads_scalar ?_).of_iff fun v value => ?_
  · intro y value h
    cases y <;> simp_all [Scalar.inRange]
  · constructor
    · rintro ⟨y, rfl, hy⟩
      cases y <;> cases hy
      rfl
    · rintro rfl
      exact ⟨.boolean value, rfl, rfl⟩

/-- A numeral that denotes an integer is in range. -/
theorem inRange_of_integer? {n : Numeral} {i : Int} (h : n.integer? = some i) :
    n.inRange = true := by
  simp [Numeral.inRange, h]

theorem reads_integer : integer.Reads fun v i => ∃ n, v = .number n ∧ n.integer? = some i := by
  unfold Reader.integer
  refine (reads_scalar ?_).of_iff fun v i => ?_
  · intro y i h
    cases y with
    | number n => exact inRange_of_integer? h
    | _ => cases h
  · constructor
    · rintro ⟨y, rfl, hy⟩
      cases y with
      | number n => exact ⟨n, rfl, hy⟩
      | _ => cases hy
    · rintro ⟨n, rfl, hn⟩
      exact ⟨.number n, rfl, hn⟩

/-- A number within the range is the signed number that it wraps to. -/
theorem eq_toInt_iff {i : Int} {a : Int64} :
    i = a.toInt ↔ Text.inInt64 i = true ∧ a = Int64.ofInt i := by
  simp only [Text.inInt64, Bool.and_eq_true, decide_eq_true_eq]
  constructor
  · rintro rfl
    exact ⟨⟨a.minValue_le_toInt, a.toInt_le⟩, (Int64.ofInt_toInt a).symm⟩
  · rintro ⟨⟨hle, hlt⟩, rfl⟩
    rw [Int64.toInt_minValue] at hle
    rw [Int64.toInt_maxValue] at hlt
    exact (Int64.toInt_ofInt_of_le hle (by omega)).symm

theorem reads_int64 : int64.Reads fun v a => ∃ n, v = .number n ∧ n.integer? = some a.toInt := by
  have hsettles : ∀ i : Int, (if Text.inInt64 i then Pure.pure (Int64.ofInt i)
      else refuse (.tooLarge i) : Reader Int64).Settles fun a => i = a.toInt := by
    intro i s a after
    simp only [eq_toInt_iff]
    split
    case isTrue h => simpa [h] using Settles.pure (Int64.ofInt i) s a after
    case isFalse h => simpa [h] using Settles.refuse (.tooLarge i) s a after
  refine (reads_integer.bind hsettles).of_iff fun v a => ?_
  constructor
  · rintro ⟨i, ⟨n, rfl, hn⟩, rfl⟩
    exact ⟨n, rfl, hn⟩
  · rintro ⟨n, rfl, hn⟩
    exact ⟨a.toInt, ⟨n, rfl, hn⟩, rfl⟩

/-! ### Arrays -/

section Turns

variable {isFirst : Bool} {s t rest : List Char}

/-- The array is closed. -/
theorem nextElement_closed (hgap : skipGaps s = ']' :: rest) :
    nextElement isFirst s = .ok (.closed rest) := by
  simp only [nextElement, hgap, if_true]

/-- The first element stands right behind the opening bracket. -/
theorem nextElement_first (hgap : skipGaps s = t) (ht : ∃ c u, t = c :: u ∧ c ≠ ']') :
    nextElement true s = .ok (.member t) := by
  obtain ⟨c, u, rfl, hc⟩ := ht
  simp only [nextElement, hgap, if_neg hc, if_true]

/-- Another element stands behind a comma. -/
theorem nextElement_next {s' : List Char} (hcomma : skipGaps s = ',' :: s')
    (hgap : skipGaps s' = t) (ht : ∃ c u, t = c :: u ∧ c ≠ ']') :
    nextElement false s = .ok (.member t) := by
  obtain ⟨c, u, rfl, hc⟩ := ht
  simp only [nextElement, hcomma, hgap]
  rw [if_neg (by decide), if_neg (by decide), if_pos True.intro, if_neg hc]

end Turns

theorem elementsFrom_closed {item : Reader α} {isFirst : Bool} {s rest : List Char}
    (h : nextElement isFirst s = .ok (.closed rest)) :
    elementsFrom item isFirst s = .ok ([], rest) := by
  rw [elementsFrom]
  split <;> simp_all

/-- An element is read, and then the others. -/
theorem elementsFrom_member_iff {item : Reader α} {isFirst : Bool} {s text rest : List Char}
    {as : List α} (h : nextElement isFirst s = .ok (.member text)) :
    elementsFrom item isFirst s = .ok (as, rest) ↔
      ∃ a mid others, item.run text = .ok (a, mid) ∧
        elementsFrom item false mid = .ok (others, rest) ∧ as = a :: others := by
  rw [elementsFrom]
  split
  · next hfault => simp_all
  · next hclosed => simp_all
  · next hmember =>
    rw [h] at hmember
    cases hmember
    split
    · next hfault => simp [hfault]
    · next a mid hok =>
      simp only [hok, Except.ok.injEq, Prod.mk.injEq]
      cases hothers : elementsFrom item false mid with
      | error fault => simp_all
      | ok result =>
        obtain ⟨others, last⟩ := result
        constructor
        · intro heq
          cases heq
          exact ⟨a, mid, others, ⟨rfl, rfl⟩, hothers, rfl⟩
        · rintro ⟨_, _, _, ⟨rfl, rfl⟩, hrun, rfl⟩
          rw [hothers] at hrun
          cases hrun
          rfl

/-- A spelled value with something behind it begins like an element. -/
theorem exists_cons_of_spells {v : Json} {s : List Char} (h : Spells v s) (rest : List Char) :
    ∃ c u, s ++ rest = c :: u ∧ c ≠ ']' := by
  obtain ⟨c, t, rfl, _, hc⟩ := h.exists_cons
  exact ⟨c, t ++ rest, rfl, hc⟩

section Items

variable {item : Reader α} {R : Json → α → Prop} {isFirst : Bool}

/-- The first of several elements decides whether the others count. -/
theorem elementsFrom_cons_iff (hitem : item.Reads R) {v : Json} {vs : List Json}
    {input s t rest : List Char} (hs : Spells v s) (ht : EndsValue (t ++ rest))
    (hturn : nextElement isFirst input = .ok (.member (s ++ (t ++ rest))))
    (hrest : ∀ as after, elementsFrom item false (t ++ rest) = .ok (as, after) ↔
      List.Forall₂ R vs as ∧ after = rest) (as : List α) (after : List Char) :
    elementsFrom item isFirst input = .ok (as, after) ↔
      List.Forall₂ R (v :: vs) as ∧ after = rest := by
  rw [elementsFrom_member_iff hturn, List.forall₂_cons_left_iff]
  constructor
  · rintro ⟨a, mid, others, ha, hothers, rfl⟩
    obtain ⟨hR, rfl⟩ := (hitem hs .nil ht a mid).mp ha
    obtain ⟨hall, rfl⟩ := (hrest others after).mp hothers
    exact ⟨⟨a, others, hR, hall, rfl⟩, rfl⟩
  · rintro ⟨⟨a, others, hR, hall, rfl⟩, rfl⟩
    exact ⟨a, t ++ after, others, (hitem hs .nil ht a (t ++ after)).mpr ⟨hR, rfl⟩,
      (hrest others after).mpr ⟨hall, rfl⟩, rfl⟩

/-- The elements behind another one are read each on its own, to the end of their array. -/
theorem elementsFrom_of_spellsItems (hitem : item.Reads R) {vs : List Json} {t : List Char}
    (h : SpellsItems vs t) (rest : List Char) (as : List α) (after : List Char) :
    elementsFrom item false (t ++ rest) = .ok (as, after) ↔
      List.Forall₂ R vs as ∧ after = rest := by
  induction vs generalizing t as after with
  | nil =>
    cases h with
    | close hg =>
      have hgap := skipGaps_append_cons hg (show isGap ']' = false by decide) rest
      rw [List.append_assoc, List.singleton_append,
        elementsFrom_closed (nextElement_closed hgap)]
      simp [eq_comm]
  | cons v vs ih =>
    cases h with
    | @next g g' s t _ _ hg hg' hv hvs =>
      have hcomma := skipGaps_comma_element hg g' s t rest
      have hturn := nextElement_next hcomma (hv.skipGaps_append hg' (t ++ rest))
        (exists_cons_of_spells hv (t ++ rest))
      exact elementsFrom_cons_iff hitem hv (hvs.endsValue rest) hturn (ih hvs) as after

theorem run_items_open {s u : List Char} (hgap : skipGaps s = '[' :: u) :
    (items item).run s = elementsFrom item true u := by
  simp only [items, hgap]

theorem run_items_ne_ok {s u : List Char} {c : Char} (hgap : skipGaps s = c :: u) (hc : c ≠ '[')
    (as : List α) (after : List Char) : (items item).run s ≠ .ok (as, after) := by
  obtain ⟨fault, hfault⟩ := exists_error_of_scalar_none (α := List α) .sequence s
  simp only [items, hgap]
  split
  · next heq => cases heq; exact absurd rfl hc
  · rw [hfault]
    simp

/-- An array is read element by element. -/
theorem Reads.items (hitem : item.Reads R) :
    (items item).Reads fun v as => ∃ vs, v = .array vs ∧ List.Forall₂ R vs as := by
  intro v g s rest hs hg hrest as after
  have hgap := hs.skipGaps_append hg rest
  -- Only an array begins with the bracket that is looked for.
  rcases eq_scalar_or_container v with ⟨x, rfl⟩ | ⟨vs, rfl⟩ | ⟨ms, rfl⟩
  · obtain ⟨c, t, rfl, hc⟩ := hs.exists_beginsScalar
    exact iff_of_false (run_items_ne_ok hgap hc.ne.2.1 as after)
      (by rintro ⟨⟨vs, hvs, _⟩, _⟩; cases x <;> cases hvs)
  · simp only [Json.array.injEq, exists_eq_left']
    cases hs with
    | @emptyArray g' hg' =>
      have hclosed : nextElement true (g' ++ ']' :: rest) = .ok (.closed rest) :=
        nextElement_closed (skipGaps_append_cons hg' (by decide) rest)
      have hcons : '[' :: (g' ++ [']']) ++ rest = '[' :: (g' ++ ']' :: rest) := by simp
      rw [run_items_open (hgap.trans hcons), elementsFrom_closed hclosed]
      simp [eq_comm]
    | @array g' s t v vs hg' hv hvs =>
      have hcons : '[' :: (g' ++ (s ++ t)) ++ rest = '[' :: (g' ++ (s ++ (t ++ rest))) := by simp
      have hturn := nextElement_first (hv.skipGaps_append hg' (t ++ rest))
        (exists_cons_of_spells hv (t ++ rest))
      rw [run_items_open (hgap.trans hcons)]
      exact elementsFrom_cons_iff hitem hv (hvs.endsValue rest) hturn
        (elementsFrom_of_spellsItems hitem hvs rest) as after
  · cases hs <;> exact iff_of_false (run_items_ne_ok hgap (by decide) as after)
      (by rintro ⟨⟨vs, hvs, _⟩, _⟩; cases hvs)

end Items

/-! ### Whole texts -/

/-- A text that spells a value is read as what the reader makes of the value. -/
theorem Reads.read {x : Reader α} {R : Json → α → Prop} (hx : x.Reads R) {v : Json}
    {text : String} (h : SpellsText v text) (a : α) : x.read text = .ok a ↔ R v a := by
  obtain ⟨g, s, g', hg, hs, hg', htext⟩ := h
  have hrun := hx hs hg hg'.endsValue
  unfold Reader.read
  rw [htext]
  cases hresult : x.run (g ++ (s ++ g')) with
  | error fault =>
    have hnot := (hrun a g').not.mp (by simp [hresult])
    simpa using hnot
  | ok result =>
    obtain ⟨b, after⟩ := result
    -- Nothing is left but the white space at the end.
    obtain ⟨hR, rfl⟩ := (hrun b after).mp hresult
    have hother := hrun a after
    rw [hresult] at hother
    simp only [hg'.skipGaps_eq, List.isEmpty_nil, if_true]
    simpa using hother

end Reader

end Warden.Json
