import Warden.Proofs.CommandLine.Exporting
import Warden.Proofs.Naming.Actions
import Warden.Proofs.Naming.Roles

namespace Warden

/-!
# The lines of a listing

A listing shows each ability by one sentence and ends the sentence with a line break.  The resource
type stands in it as it is, whatever its characters are, and behind it the mark of an ability for
owners only.  So a listing can be trusted as long as the types have no line breaks and do not end
like the mark, and no longer.

* `IsLines` — the lines that a text consists of; `IsLines.unique` says that there is one way only.
* `Ability.OnOneLine`, `Ability.IsUnmarked` — what makes the sentence of an ability trustworthy.
* `Ability.describe_eq_iff` — what two abilities with the same sentence have in common.
* `Registry.isLines_printed_iff` — the sentences are the lines of the listing exactly if no type has
  a line break in it.
* `CommandLine.list_faithful` — the listing of every policy that can be loaded.
* `CommandLine.list_forged` — two policies that are listed alike, with a line that stands for no
  ability.
-/

/-! ### Lines -/

/-- A text consists of the given lines: each of them is ended by a line break and holds no other
    one. -/
def IsLines (text : String) (lines : List String) : Prop :=
  (∀ line ∈ lines, '\n' ∉ line.toList) ∧ text = String.join (lines.map (· ++ "\n"))

theorem toList_join_lines (lines : List String) :
    (String.join (lines.map (· ++ "\n"))).toList =
      lines.flatMap fun line => line.toList ++ ['\n'] := by
  rw [String.toList_join, List.flatMap_map]
  simp only [String.toList_append]
  rfl

/-- There are as many line breaks as lines, and those inside of the lines. -/
theorem count_join_lines (lines : List String) :
    (String.join (lines.map (· ++ "\n"))).toList.count '\n' =
      lines.length + (lines.flatMap String.toList).count '\n' := by
  rw [toList_join_lines]
  induction lines with
  | nil => rfl
  | cons line lines ih =>
    simp only [List.flatMap_cons, List.count_append, ih, List.count_singleton_self,
      List.length_cons]
    omega

/-- There are as many line breaks as lines exactly if none of them is inside of a line. -/
theorem count_join_lines_eq_length_iff (lines : List String) :
    (String.join (lines.map (· ++ "\n"))).toList.count '\n' = lines.length ↔
      ∀ line ∈ lines, '\n' ∉ line.toList := by
  rw [count_join_lines, Nat.add_eq_left, List.count_eq_zero]
  simp only [List.mem_flatMap, not_exists, not_and]

theorem IsLines.count_eq {text : String} {lines : List String} (h : IsLines text lines) :
    text.toList.count '\n' = lines.length := by
  rw [h.2]
  exact (count_join_lines_eq_length_iff lines).mpr h.1

/-- What stands in front of the first occurrence of a character, and what stands behind it. -/
theorem eq_of_append_cons_eq {c : Char} {s s' t t' : List Char} (hs : c ∉ s) (hs' : c ∉ s')
    (h : s ++ c :: t = s' ++ c :: t') : s = s' ∧ t = t' := by
  have hfront : ∀ {u : List Char}, c ∉ u → ∀ v : List Char,
      (u ++ c :: v).takeWhile (· != c) = u := by
    intro u hu v
    have hpass : ∀ d ∈ u, (d != c) = true := fun d hd => by
      rw [bne_iff_ne]
      exact fun e => hu (e ▸ hd)
    rw [List.takeWhile_append_of_pos hpass]
    simp
  have heq : s = s' := by rw [← hfront hs t, h, hfront hs' t']
  subst heq
  exact ⟨rfl, (List.cons.inj (List.append_cancel_left h)).2⟩

/-- A text consists of lines in one way only. -/
theorem IsLines.unique {text : String} {lines lines' : List String} (h : IsLines text lines)
    (h' : IsLines text lines') : lines = lines' := by
  have heq := congrArg String.toList (h.2.symm.trans h'.2)
  rw [toList_join_lines, toList_join_lines] at heq
  replace h := h.1
  replace h' := h'.1
  induction lines generalizing lines' with
  | nil =>
    cases lines' with
    | nil => rfl
    | cons line' lines' => simp at heq
  | cons line lines ih =>
    cases lines' with
    | nil => simp at heq
    | cons line' lines' =>
      rw [List.forall_mem_cons] at h h'
      simp only [List.flatMap_cons, List.append_assoc, List.singleton_append] at heq
      obtain ⟨hline, hothers⟩ := eq_of_append_cons_eq h.1 h'.1 heq
      rw [String.toList_inj.mp hline, ih hothers h.2 h'.2]

/-! ### Sentences -/

namespace Ability

/-- The mark at the end of the sentence of an ability for owners only. -/
def ownerMark : String :=
  " (owner only)"

/-- What stands at the end of the sentence of an ability: its type, and the mark if it is one for
    owners only. -/
def ending (a : Ability) : String :=
  a.scope.text ++ if a.ownerOnly then ownerMark else ""

/-- The type of an ability has no line break in it. -/
def OnOneLine (a : Ability) : Prop :=
  '\n' ∉ a.scope.text.toList

/-- The type of an ability without an owner restriction does not end with the mark of one. -/
def IsUnmarked (a : Ability) : Prop :=
  a.ownerOnly = false → ¬ ownerMark.toList <:+ a.scope.text.toList

variable {a b : Ability}

instance (a : Ability) : Decidable a.OnOneLine :=
  inferInstanceAs (Decidable (¬ _))

instance (a : Ability) : Decidable a.IsUnmarked :=
  inferInstanceAs (Decidable (_ → ¬ _))

theorem noBlanks_numeral (r : Role) : Text.NoBlanks r.numeral.toList := by
  rw [Role.numeral, Text.writeInt64, String.toList_ofList]
  exact (Text.isNumeral_writeInt r.id.toInt).noBlanks

theorem not_mem_of_noBlanks {s : List Char} (h : Text.NoBlanks s) {c : Char}
    (hc : Text.isBlank c = true) : c ∉ s :=
  fun hmem => by simp [h c hmem] at hc

/-- A role is known from its numeral. -/
theorem numeral_injective {r s : Role} (h : r.numeral = s.numeral) : r = s := by
  have hr := Role.ofText?_eq_some_iff.mpr r.isWrittenAs_numeral
  have hs := Role.ofText?_eq_some_iff.mpr s.isWrittenAs_numeral
  rw [h] at hr
  exact Option.some.inj (hr.symm.trans hs)

/-- The parts of a sentence. -/
theorem toList_describe (a : Ability) :
    a.describe.toList = "role ".toList ++ (a.role.numeral.toList ++ ' ' ::
      ("may ".toList ++ (a.action.name.toList ++ ' ' :: a.ending.toList))) := by
  simp only [describe, ending, ownerMark, String.toList_append, List.append_assoc]
  rfl

/-- Two sentences are the same if they are about the same role and action and end alike. -/
theorem describe_eq_iff :
    a.describe = b.describe ↔ a.role = b.role ∧ a.action = b.action ∧ a.ending = b.ending := by
  constructor
  · intro h
    have hlist := congrArg String.toList h
    rw [toList_describe, toList_describe, List.append_cancel_left_eq] at hlist
    have hspace : Text.isBlank ' ' = true := by decide
    obtain ⟨hrole, hlist⟩ := eq_of_append_cons_eq
      (not_mem_of_noBlanks (noBlanks_numeral a.role) hspace)
      (not_mem_of_noBlanks (noBlanks_numeral b.role) hspace) hlist
    rw [List.append_cancel_left_eq] at hlist
    obtain ⟨haction, hending⟩ := eq_of_append_cons_eq
      (not_mem_of_noBlanks (Action.noBlanks_name a.action).1 hspace)
      (not_mem_of_noBlanks (Action.noBlanks_name b.action).1 hspace) hlist
    exact ⟨numeral_injective (String.toList_inj.mp hrole),
      Action.name_injective (String.toList_inj.mp haction), String.toList_inj.mp hending⟩
  · rintro ⟨hrole, haction, hending⟩
    rw [← String.toList_inj, toList_describe, toList_describe, hrole, haction, hending]

/-- A sentence has the line breaks that are in the type. -/
theorem count_describe (a : Ability) :
    a.describe.toList.count '\n' = a.scope.text.toList.count '\n' := by
  have hline : Text.isBlank '\n' = true := by decide
  have hnumeral := List.count_eq_zero.mpr (not_mem_of_noBlanks (noBlanks_numeral a.role) hline)
  have hname := List.count_eq_zero.mpr
    (not_mem_of_noBlanks (Action.noBlanks_name a.action).1 hline)
  have hmark : (if a.ownerOnly then ownerMark else "").toList.count '\n' = 0 := by
    cases a.ownerOnly <;> decide
  have hrole : "role ".toList.count '\n' = 0 := by decide
  have hmay : "may ".toList.count '\n' = 0 := by decide
  rw [toList_describe, ending, String.toList_append]
  simp [List.count_append, hnumeral, hname, hmark]

/-- An ability without an owner restriction has the sentence of no owner-only one exactly if its
    type does not end with the mark. -/
theorem isUnmarked_iff :
    a.IsUnmarked ↔ (a.ownerOnly = false → ∀ b : Ability, b.ownerOnly = true →
      b.describe ≠ a.describe) := by
  refine forall_congr' fun hfree => ?_
  have hending : a.ending = a.scope.text := by simp [ending, hfree]
  constructor
  · intro hunmarked b howner hsame
    obtain ⟨-, -, hb⟩ := describe_eq_iff.mp hsame
    rw [hending, ending, if_pos howner] at hb
    exact hunmarked ⟨b.scope.text.toList, by rw [← hb, String.toList_append]⟩
  · rintro hdistinct ⟨front, hfront⟩
    -- The type without the mark makes an owner-only ability with the same sentence.
    refine hdistinct ⟨a.role, a.action, .resource (String.ofList front), true⟩ rfl
      (describe_eq_iff.mpr ⟨rfl, rfl, ?_⟩)
    rw [hending, ← String.toList_inj, ← hfront]
    simp [ending, Scope.text]

/-- Abilities whose scopes are read back from their texts, and that cannot be mistaken, are known from
    their sentences. -/
theorem eq_of_describe_eq (ha : a.scope ≠ .resource Scope.wildcard)
    (hb : b.scope ≠ .resource Scope.wildcard) (hunmarked : a.IsUnmarked) (hunmarked' : b.IsUnmarked)
    (h : a.describe = b.describe) : a = b := by
  obtain ⟨hrole, haction, hending⟩ := describe_eq_iff.mp h
  have howner : a.ownerOnly = b.ownerOnly := by
    cases hfree : a.ownerOnly with
    | false =>
      cases hfree' : b.ownerOnly with
      | false => rfl
      | true => exact absurd h.symm (isUnmarked_iff.mp hunmarked hfree b hfree')
    | true =>
      cases hfree' : b.ownerOnly with
      | false => exact absurd h (isUnmarked_iff.mp hunmarked' hfree' a hfree)
      | true => rfl
  have htext : a.scope.text = b.scope.text := by
    rw [← String.toList_inj]
    rw [ending, ending, howner, ← String.toList_inj, String.toList_append, String.toList_append]
      at hending
    exact List.append_cancel_right hending
  have hscope : a.scope = b.scope := by
    rw [← Scope.ofText_text ha, ← Scope.ofText_text hb, htext]
  cases a
  cases b
  simp_all

end Ability

/-! ### Listings -/

namespace Registry

/-- The text that is printed as the listing of a registry. -/
def printed (r : Registry) : String :=
  String.join ((r.abilities.map Ability.describe).map (· ++ "\n"))

theorem run_list (r : Registry) : CommandLine.Command.run r .list = ⟨true, r.printed⟩ := by
  simp only [CommandLine.Command.run, printed, List.map_map]
  rfl

variable {r r' : Registry}

/-- The sentences are the lines of the listing exactly if no type has a line break in it. -/
theorem isLines_printed_iff :
    IsLines r.printed (r.abilities.map Ability.describe) ↔ ∀ a ∈ r.abilities, a.OnOneLine := by
  have hbreaks : ∀ a : Ability, '\n' ∉ a.describe.toList ↔ a.OnOneLine := fun a => by
    rw [← List.count_eq_zero, Ability.count_describe, List.count_eq_zero, Ability.OnOneLine]
  simp only [IsLines, printed, List.forall_mem_map, hbreaks, and_true]

/-- A listing has as many lines as abilities exactly if no type has a line break in it. -/
theorem exists_isLines_printed_iff :
    (∃ lines, IsLines r.printed lines ∧ lines.length = r.len) ↔
      ∀ a ∈ r.abilities, a.OnOneLine := by
  rw [← isLines_printed_iff]
  constructor
  · rintro ⟨lines, hlines, hlen⟩
    refine ⟨(count_join_lines_eq_length_iff _).mp ?_, rfl⟩
    rw [List.length_map, ← len_eq_length, ← hlen]
    exact hlines.count_eq
  · intro hlines
    exact ⟨_, hlines, by rw [List.length_map, len_eq_length]⟩

/-- Registries whose abilities cannot be mistaken list the same abilities if they are listed alike. -/
theorem abilities_eq_of_printed_eq
    (hr : ∀ a ∈ r.abilities, a.scope ≠ .resource Scope.wildcard ∧ a.OnOneLine ∧ a.IsUnmarked)
    (hr' : ∀ a ∈ r'.abilities, a.scope ≠ .resource Scope.wildcard ∧ a.OnOneLine ∧ a.IsUnmarked)
    (h : r.printed = r'.printed) : r.abilities = r'.abilities := by
  have hlines := isLines_printed_iff.mpr fun a ha => (hr a ha).2.1
  have hlines' := isLines_printed_iff.mpr fun a ha => (hr' a ha).2.1
  rw [← h] at hlines'
  have hsame := hlines.unique hlines'
  have hlen : r.abilities.length = r'.abilities.length := by
    simpa only [List.length_map] using congrArg List.length hsame
  refine List.ext_getElem hlen fun i hi hi' => ?_
  obtain ⟨hscope, -, hunmarked⟩ := hr _ (List.getElem_mem hi)
  obtain ⟨hscope', -, hunmarked'⟩ := hr' _ (List.getElem_mem hi')
  refine Ability.eq_of_describe_eq hscope hscope' hunmarked hunmarked' ?_
  simpa [hi, hi'] using congrArg (fun lines => lines[i]?) hsame

/-- A file in which abilities are granted is loaded as the registry of what is read back of them. -/
theorem load_ofAbilities {files : Files} {path : String} {abilities : List Ability}
    (hfile : files path = .ok (Document.ofAbilities abilities).toJson.toUTF8) :
    load files (some path) = .ok (empty.grantAll (abilities.map Ability.normalised)) :=
  load_of_text (Files.text_of_toUTF8 hfile)
    (Document.ofJson_ofAbilities
      (Json.spellsText_pretty (Document.isWritable_encode (Document.ofAbilities abilities))))
    (Document.abilities_ofAbilities _)

end Registry

namespace CommandLine

/-- **Listings are faithful as far as the types allow it.**  Under every policy that can be loaded
    the listing is printed.  Its lines are the sentences of the abilities, one for each and in their
    order, exactly if no type has a line break in it, and only then there are as many lines as
    abilities.  An ability without an owner restriction is shown like one for owners only exactly if
    its type ends with the mark.  If neither occurs under two policies, they are listed alike exactly
    if they grant the same abilities. -/
theorem list_faithful {files : Files} {policy : Option String} {r : Registry}
    (hload : Registry.load files policy = .ok r) :
    (∀ verbose, Invocation.run ⟨policy, verbose, .list⟩ files = .ok ⟨true, r.printed⟩) ∧
      (IsLines r.printed (r.abilities.map Ability.describe) ↔ ∀ a ∈ r.abilities, a.OnOneLine) ∧
      ((∃ lines, IsLines r.printed lines ∧ lines.length = r.len) ↔
        ∀ a ∈ r.abilities, a.OnOneLine) ∧
      (∀ a : Ability, a.IsUnmarked ↔
        (a.ownerOnly = false → ∀ b : Ability, b.ownerOnly = true → b.describe ≠ a.describe)) ∧
      ∀ {files' : Files} {policy' : Option String} {r' : Registry},
        Registry.load files' policy' = .ok r' → (∀ a ∈ r.abilities, a.OnOneLine ∧ a.IsUnmarked) →
          (∀ a ∈ r'.abilities, a.OnOneLine ∧ a.IsUnmarked) →
            (r.printed = r'.printed ↔ r.abilities = r'.abilities) := by
  refine ⟨fun verbose => ?_, Registry.isLines_printed_iff, Registry.exists_isLines_printed_iff,
    fun a => Ability.isUnmarked_iff, fun {files' policy' r'} hload' hclear hclear' => ?_⟩
  · rw [run_of_load hload, Registry.run_list]
  constructor
  · exact Registry.abilities_eq_of_printed_eq
      (fun a ha => ⟨Registry.scope_ne_of_load hload ha, hclear a ha⟩)
      (fun a ha => ⟨Registry.scope_ne_of_load hload' ha, hclear' a ha⟩)
  · intro habilities
    rw [Registry.printed, Registry.printed, habilities]

/-- The abilities of the sample policy have plain types, so its listing is another one than that of
    the built-in table. -/
theorem list_faithful_sampleAbilities :
    let policy := (Document.ofAbilities sampleAbilities).toJson
    let r := Registry.empty.grantAll (sampleAbilities.map Ability.normalised)
    Registry.load (fun _ => .ok policy.toUTF8) (some "policy.json") = .ok r ∧
      IsLines r.printed ["role 0 may create users (owner only)", "role 10 may show pages",
        "role 10 may show pages"] ∧
      r.printed ≠ Registry.empty.grantBuiltIn.printed := by
  intro policy r
  have hload : Registry.load (fun _ => .ok policy.toUTF8) (some "policy.json") = .ok r :=
    Registry.load_ofAbilities rfl
  have hclear : ∀ a ∈ r.abilities, a.OnOneLine ∧ a.IsUnmarked := by decide +kernel
  have hclear' : ∀ a ∈ Registry.empty.grantBuiltIn.abilities, a.OnOneLine ∧ a.IsUnmarked := by
    decide +kernel
  have habilities : r.abilities ≠ Registry.empty.grantBuiltIn.abilities := by decide +kernel
  obtain ⟨-, hlines, -, -, halike⟩ := list_faithful hload
  have hbuiltIn : Registry.load (fun _ => .ok policy.toUTF8) none =
      .ok Registry.empty.grantBuiltIn := rfl
  refine ⟨hload, ?_, fun h => habilities ((halike hbuiltIn hclear hclear').mp h)⟩
  exact hlines.mpr fun a ha => (hclear a ha).1

/-- One ability whose type goes on like the sentence of another one, behind a line break. -/
def forgedAbilities : List Ability :=
  [⟨⟨7⟩, .show, .resource "pages\nrole 100 may manage *", false⟩]

/-- The abilities that its listing makes one believe in. -/
def believedAbilities : List Ability :=
  [⟨⟨7⟩, .show, .resource "pages", false⟩, ⟨⟨100⟩, .manage, .anything, false⟩]

/-- Two policies that grant different abilities, and of which only one lets a role do everything, are
    listed alike: by two lines, though the first policy has one ability only. -/
theorem list_forged :
    ∃ r r' : Registry,
      Registry.load (fun _ => .ok (Document.ofAbilities forgedAbilities).toJson.toUTF8)
        (some "policy.json") = .ok r ∧
      Registry.load (fun _ => .ok (Document.ofAbilities believedAbilities).toJson.toUTF8)
        (some "policy.json") = .ok r' ∧
      r.abilities = forgedAbilities ∧ r'.abilities = believedAbilities ∧ r.len = 1 ∧
      Command.run r .list = ⟨true, "role 7 may show pages\nrole 100 may manage *\n"⟩ ∧
      Command.run r' .list = ⟨true, "role 7 may show pages\nrole 100 may manage *\n"⟩ ∧
      IsLines "role 7 may show pages\nrole 100 may manage *\n"
        ["role 7 may show pages", "role 100 may manage *"] :=
  ⟨_, _, Registry.load_ofAbilities rfl, Registry.load_ofAbilities rfl, by decide +kernel,
    by decide +kernel, by decide +kernel, by decide +kernel, by decide +kernel, by decide +kernel,
    by decide +kernel⟩

end CommandLine

end Warden
