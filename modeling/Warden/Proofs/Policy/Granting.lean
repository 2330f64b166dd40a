import Mathlib.Data.List.Forall2
import Warden.Policy.Load
import Warden.Proofs.Json.Yielding
import Warden.Proofs.Registry.Registrations

namespace Warden

/-!
# What a document grants

A document whose references all resolve grants one ability for each of its grants, in their order,
and a policy file makes the registry in which these abilities and no others have been granted.

* `Grant.ability_eq_ok_iff` — the ability of a grant.
* `Document.exists_abilities`, `Document.mem_abilities_iff` — that there are any, and which.
* `Document.scope_ne_of_ofJson` — no text gives the scope of the single resource type named `*`.
* `Files.text_eq_ok_iff` — the text in a file.
* `Registry.load_some_eq_ok_iff` — the registry that a file makes.
-/

/-! ### Computations that can fail -/

section Except

variable {ε α β : Type}

theorem bind_eq_ok_iff {x : Except ε α} {f : α → Except ε β} {b : β} :
    (x >>= f) = .ok b ↔ ∃ a, x = .ok a ∧ f a = .ok b := by
  cases x with
  | error e => exact iff_of_false (by rintro ⟨⟩) (by rintro ⟨a, ⟨⟩, _⟩)
  | ok a => simp [bind, Except.bind]

theorem bind_eq_error_iff {x : Except ε α} {f : α → Except ε β} {e : ε} :
    (x >>= f) = .error e ↔ x = .error e ∨ ∃ a, x = .ok a ∧ f a = .error e := by
  cases x with
  | error e' => simp [bind, Except.bind]
  | ok a => simp [bind, Except.bind]

theorem mapError_eq_ok_iff {ε' : Type} {x : Except ε α} {f : ε → ε'} {a : α} :
    x.mapError f = .ok a ↔ x = .ok a := by
  cases x with
  | error e => exact iff_of_false (by rintro ⟨⟩) (by rintro ⟨⟩)
  | ok a' => simp [Except.mapError]

theorem mapError_eq_error_iff {ε' : Type} {x : Except ε α} {f : ε → ε'} {e' : ε'} :
    x.mapError f = .error e' ↔ ∃ e, x = .error e ∧ f e = e' := by
  cases x with
  | error e => simp [Except.mapError]
  | ok a => simp [Except.mapError]

/-- A list is mapped by mapping each of its elements. -/
theorem mapM_eq_ok_iff {f : α → Except ε β} {xs : List α} {ys : List β} :
    xs.mapM f = .ok ys ↔ List.Forall₂ (fun x y => f x = .ok y) xs ys := by
  induction xs generalizing ys with
  | nil => simp [pure, Except.pure, eq_comm]
  | cons x xs ih =>
    simp only [List.mapM_cons, bind_eq_ok_iff, ih, List.forall₂_cons_left_iff]
    constructor
    · rintro ⟨y, hy, others, hothers, heq⟩
      exact ⟨y, others, hy, hothers, (Except.ok.inj heq).symm⟩
    · rintro ⟨y, others, hy, hothers, rfl⟩
      exact ⟨y, hy, others, hothers, rfl⟩

/-- A list is mapped if each of its elements can be. -/
theorem exists_mapM_eq_ok {f : α → Except ε β} {xs : List α} (h : ∀ x ∈ xs, ∃ y, f x = .ok y) :
    ∃ ys, xs.mapM f = .ok ys := by
  induction xs with
  | nil => exact ⟨[], rfl⟩
  | cons x xs ih =>
    obtain ⟨y, hy⟩ := h x List.mem_cons_self
    obtain ⟨ys, hys⟩ := ih fun x' hx' => h x' (List.mem_cons_of_mem x hx')
    refine ⟨y :: ys, mapM_eq_ok_iff.mpr (.cons hy (mapM_eq_ok_iff.mp hys))⟩

/-- If a list is mapped, each of its elements is. -/
theorem exists_of_mapM_eq_ok {f : α → Except ε β} {xs : List α} {ys : List β}
    (h : xs.mapM f = .ok ys) : ∀ x ∈ xs, ∃ y, f x = .ok y := by
  have hall := mapM_eq_ok_iff.mp h
  clear h
  induction hall with
  | nil => simp
  | cons hx _ ih => exact List.forall_mem_cons.mpr ⟨⟨_, hx⟩, ih⟩

/-- A list is not mapped if one of its elements is not, and the first such element says why. -/
theorem mapM_eq_error_iff {f : α → Except ε β} {xs : List α} {e : ε} :
    xs.mapM f = .error e ↔ ∃ before x after, xs = before ++ x :: after ∧
      (∀ x' ∈ before, ∃ y, f x' = .ok y) ∧ f x = .error e := by
  induction xs with
  | nil => simp [pure, Except.pure]
  | cons x xs ih =>
    simp only [List.mapM_cons, bind_eq_error_iff, ih, List.cons_eq_append_iff]
    constructor
    · rintro (hx | ⟨y, hy, ⟨before, x', after, rfl, hbefore, hx'⟩ | ⟨ys, -, hpure⟩⟩)
      · exact ⟨[], x, xs, .inl ⟨rfl, rfl⟩, by simp, hx⟩
      · refine ⟨x :: before, x', after, .inr ⟨before, rfl, rfl⟩, fun x'' hx'' => ?_, hx'⟩
        rcases List.mem_cons.mp hx'' with rfl | hx''
        · exact ⟨y, hy⟩
        · exact hbefore x'' hx''
      · cases hpure
    · rintro ⟨before, x', after, ⟨rfl, heq⟩ | ⟨others, rfl, rfl⟩, hbefore, hx'⟩
      · obtain ⟨rfl, -⟩ := List.cons.inj heq
        exact .inl hx'
      · obtain ⟨y, hy⟩ := hbefore x List.mem_cons_self
        refine .inr ⟨y, hy, .inl ⟨others, x', after, rfl, fun x'' hx'' => ?_, hx'⟩⟩
        exact hbefore x'' (List.mem_cons_of_mem x hx'')

/-- What a mapped list holds comes from the list. -/
theorem mem_of_mapM_eq_ok {f : α → Except ε β} {xs : List α} {ys : List β}
    (h : xs.mapM f = .ok ys) (y : β) : y ∈ ys ↔ ∃ x ∈ xs, f x = .ok y := by
  have hall := mapM_eq_ok_iff.mp h
  clear h
  induction hall with
  | nil => simp
  | cons hx _ ih => simp [ih, hx, eq_comm]

end Except

/-! ### Grants -/

theorem Grant.ability_eq_ok_iff {g : Grant} {a : Ability} :
    g.ability = .ok a ↔ ∃ role, g.role.resolve = .ok role ∧
      (⟨role, g.action, g.scope, g.ownerOnly⟩ : Ability) = a := by
  unfold Grant.ability
  rw [bind_eq_ok_iff]
  simp [pure, Except.pure]

namespace Document

/-- A document grants abilities if all its references resolve. -/
theorem exists_abilities {d : Document} (h : ∀ g ∈ d.grants, ∃ role, g.role.resolve = .ok role) :
    ∃ abilities, d.abilities = .ok abilities := by
  refine exists_mapM_eq_ok fun g hg => ?_
  obtain ⟨role, hrole⟩ := h g hg
  exact ⟨_, Grant.ability_eq_ok_iff.mpr ⟨role, hrole, rfl⟩⟩

theorem mem_abilities_iff {d : Document} {abilities : List Ability}
    (h : d.abilities = .ok abilities) (a : Ability) :
    a ∈ abilities ↔ ∃ g ∈ d.grants, g.ability = .ok a :=
  mem_of_mapM_eq_ok h a

end Document

/-! ### Scopes that are read -/

theorem Scope.ofText_ne (text : String) : Scope.ofText text ≠ .resource wildcard := by
  unfold Scope.ofText
  split
  case isTrue => simp
  case isFalse h => simpa using h

theorem Scope.decode_yields : Scope.decode.Yields fun s => s ≠ .resource wildcard :=
  (Json.Reader.Yields.trivial _).bind fun text _ => .pure (Scope.ofText_ne text)

/-- Whatever a draft has for a scope was read from a text. -/
theorem Grant.decode_yields (depth : Nat) :
    (Grant.decode depth).Yields fun g => g.scope ≠ .resource Scope.wildcard := by
  refine Json.Record.yields_reader
    (I := fun d => ∀ s, d.scope = some s → s ≠ .resource Scope.wildcard) ?_ ?_ ?_
  · intro field hfield draft hdraft
    simp only [Draft.record, List.mem_cons, List.not_mem_nil, or_false] at hfield
    -- Only the third field touches the scope.
    rcases hfield with rfl | rfl | rfl | rfl
    · exact (Json.Reader.Yields.trivial _).bind fun _ _ => .pure hdraft
    · exact (Json.Reader.Yields.trivial _).bind fun _ _ => .pure hdraft
    · refine Scope.decode_yields.bind fun s hs => .pure ?_
      rintro s' ⟨⟩
      exact hs
    · exact (Json.Reader.Yields.trivial _).bind fun _ _ => .pure hdraft
  · rintro s ⟨⟩
  · rintro ⟨role, action, scope, ownerOnly⟩ g hdraft hfinish
    cases role <;> cases action <;> cases scope <;> cases hfinish
    exact hdraft _ rfl

theorem Document.decode_yields : Document.decode.Yields fun d =>
    ∀ g ∈ d.grants, g.scope ≠ .resource Scope.wildcard := by
  refine Json.Record.yields_reader
    (I := fun grants => ∀ g ∈ grants.getD [], g.scope ≠ .resource Scope.wildcard) ?_ ?_ ?_
  · intro field hfield draft _
    obtain rfl := List.mem_singleton.mp hfield
    exact (Grant.decode_yields 2).items.bind fun grants hgrants => .pure hgrants
  · rintro g ⟨⟩
  · rintro grants d hgrants ⟨⟩
    exact hgrants

/-- No text gives the scope of the single resource type named `*`. -/
theorem Document.scope_ne_of_ofJson {text : String} {d : Document}
    (h : Document.ofJson text = .ok d) {g : Grant} (hg : g ∈ d.grants) :
    g.scope ≠ .resource Scope.wildcard :=
  Document.decode_yields.read h g hg

/-! ### Files -/

theorem fromUTF8?_eq_some_iff {bytes : ByteArray} {text : String} :
    String.fromUTF8? bytes = some text ↔ bytes = text.toUTF8 := by
  unfold String.fromUTF8?
  split
  case isTrue hvalid =>
    rw [Option.some.injEq, ← String.toByteArray_inj]
    exact Iff.rfl
  case isFalse hnot =>
    refine iff_of_false (by simp) ?_
    rintro rfl
    exact hnot text.isValidUTF8

/-- The text in a file is the one that its bytes encode. -/
theorem Files.text_eq_ok_iff {files : Files} {path text : String} :
    files.text path = .ok text ↔ files path = .ok text.toUTF8 := by
  unfold Files.text
  rw [bind_eq_ok_iff]
  constructor
  · rintro ⟨bytes, hfile, htext⟩
    split at htext
    case h_1 text' hbytes =>
      obtain rfl := Except.ok.inj htext
      rw [hfile, fromUTF8?_eq_some_iff.mp hbytes]
    case h_2 => cases htext
  · intro hfile
    refine ⟨_, hfile, ?_⟩
    rw [fromUTF8?_eq_some_iff.mpr rfl]
    rfl

/-- The bytes of a text are read as that text. -/
theorem Files.text_of_toUTF8 {files : Files} {path text : String}
    (h : files path = .ok text.toUTF8) : files.text path = .ok text :=
  Files.text_eq_ok_iff.mpr h

/-- A file makes a registry exactly when it holds a text that is read as a document whose references
    all resolve, and then it is the one in which the abilities of the document have been granted. -/
theorem Registry.load_some_eq_ok_iff {files : Files} {path : String} {r : Registry} :
    Registry.load files (some path) = .ok r ↔ ∃ text d abilities, files.text path = .ok text ∧
      Document.ofJson text = .ok d ∧ d.abilities = .ok abilities ∧
      Registry.empty.grantAll abilities = r := by
  constructor
  · intro h
    obtain ⟨d, hd, happlied⟩ := bind_eq_ok_iff.mp h
    obtain ⟨text, hfile, hread⟩ := bind_eq_ok_iff.mp hd
    obtain ⟨⟨r', count⟩, hgranted, hr⟩ := bind_eq_ok_iff.mp happlied
    obtain ⟨abilities, habilities, hpair⟩ := bind_eq_ok_iff.mp (mapError_eq_ok_iff.mp hgranted)
    cases hpair
    exact ⟨text, d, abilities, mapError_eq_ok_iff.mp hfile, mapError_eq_ok_iff.mp hread,
      habilities, Except.ok.inj hr⟩
  · rintro ⟨text, d, abilities, hfile, hread, habilities, rfl⟩
    have hd : Document.load files path = .ok d :=
      bind_eq_ok_iff.mpr ⟨text, mapError_eq_ok_iff.mpr hfile, mapError_eq_ok_iff.mpr hread⟩
    have hgranted : (Registry.empty.apply d).mapError PolicyError.unknownRole = .ok _ :=
      mapError_eq_ok_iff.mpr (apply_of_abilities Registry.empty habilities)
    exact bind_eq_ok_iff.mpr ⟨d, hd, bind_eq_ok_iff.mpr ⟨_, hgranted, rfl⟩⟩

/-- A file makes the registry in which the abilities of its document have been granted. -/
theorem Registry.load_of_text {files : Files} {path text : String} {d : Document}
    {abilities : List Ability} (hfile : files.text path = .ok text)
    (hd : Document.ofJson text = .ok d) (habilities : d.abilities = .ok abilities) :
    Registry.load files (some path) = .ok (Registry.empty.grantAll abilities) :=
  load_some_eq_ok_iff.mpr ⟨text, d, abilities, hfile, hd, habilities, rfl⟩

end Warden
