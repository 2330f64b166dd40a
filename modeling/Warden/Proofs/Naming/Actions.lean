import Warden.Policy.Shape
import Warden.Proofs.Naming.Spelling

namespace Warden.Action

/-!
# How actions are written

An action is written by its name, in any case of the ASCII letters and between any white space, and
right behind the name may stand the ending `resource`, once.  No other text names an action.

* `IsWord` and `IsWrittenAs` — the words for an action, and the texts around them.
* `dropEnding_eq_iff` — what is left without the ending.
* `ofText?_eq_some_iff` — the texts from which an action is read.
* `resolve_iff_isWrittenAs` — all texts, with what becomes of those that name no action.
-/

open Text (IsBlanks IsCore NoBlanks SameWord)

/-- A word for an action: its name, alone or with the ending right behind it, in any letter case. -/
def IsWord (a : Action) (word : List Char) : Prop :=
  SameWord word a.name.toList ∨ SameWord word (a.name ++ "resource").toList

instance (a : Action) (word : List Char) : Decidable (a.IsWord word) :=
  inferInstanceAs (Decidable (_ ∨ _))

/-- A text names an action if its core is a word for it. -/
def IsWrittenAs (a : Action) (s : String) : Prop :=
  ∃ core, IsCore s.toList core ∧ a.IsWord core

/-! ### The ending -/

theorem dropEnding_append (s : List Char) : dropEnding (s ++ ending) = s := by
  rw [dropEnding, if_pos (List.isSuffixOf_iff_suffix.mpr (List.suffix_append s ending)),
    List.length_append, Nat.add_sub_cancel, List.take_left]

theorem dropEnding_of_not_suffix {s : List Char} (h : ¬ ending <:+ s) : dropEnding s = s := by
  rw [dropEnding, if_neg (mt List.isSuffixOf_iff_suffix.mp h)]

/-- Without the ending a text is a name exactly if it is the name, or the name with one ending. -/
theorem dropEnding_eq_iff {s name : List Char} (hname : ¬ ending <:+ name) :
    dropEnding s = name ↔ s = name ∨ s = name ++ ending := by
  by_cases hs : ending <:+ s
  · obtain ⟨front, rfl⟩ := hs
    have hne : front ++ ending ≠ name := fun h => hname ⟨front, h⟩
    simp [dropEnding_append, hne]
  · have hne : s ≠ name ++ ending := fun h => hs ⟨name, h.symm⟩
    simp [dropEnding_of_not_suffix hs, hne]

/-! ### Reading -/

section Names

variable (a : Action)

theorem not_ending_suffix_name : ¬ ending <:+ a.name.toList := by
  cases a <;> decide

theorem lower_name : Text.lower a.name.toList = a.name.toList := by
  cases a <;> decide

theorem noBlanks_name : NoBlanks a.name.toList ∧ NoBlanks (a.name ++ "resource").toList := by
  cases a <;> decide

end Names

variable {a b : Action} {s : String}

/-- The table of actions is searched for the one with the given name. -/
theorem find?_name_eq_some_iff {word : List Char} :
    (all.find? fun b => b.name.toList == word) = some a ↔ word = a.name.toList := by
  constructor
  · intro h
    have hname := List.find?_some h
    exact (beq_iff_eq.mp hname).symm
  · rintro rfl
    cases a <;> decide

/-- The words for an action are those that are left with its name in small letters. -/
theorem isWord_iff {word : List Char} :
    a.IsWord word ↔ dropEnding (Text.lower word) = a.name.toList := by
  have hending : Text.lower (a.name ++ "resource").toList = a.name.toList ++ ending := by
    rw [String.toList_append, Text.lower_append, lower_name]
    rfl
  rw [dropEnding_eq_iff (not_ending_suffix_name a), IsWord, ← Text.lower_eq_lower_iff,
    ← Text.lower_eq_lower_iff, lower_name, hending]

theorem isWrittenAs_iff : a.IsWrittenAs s ↔ a.IsWord (Text.trim s.toList) := by
  simp only [IsWrittenAs, ← Text.trim_eq_iff, exists_eq_left']

/-- An action is read from the texts that name it. -/
theorem ofText?_eq_some_iff : ofText? s = some a ↔ a.IsWrittenAs s := by
  rw [ofText?, find?_name_eq_some_iff, isWrittenAs_iff, isWord_iff]

theorem ofText?_eq_none_iff : ofText? s = none ↔ ∀ a : Action, ¬ a.IsWrittenAs s := by
  simp only [Option.eq_none_iff_forall_ne_some, ne_eq, ofText?_eq_some_iff]

theorem resolve_eq_ok_iff : resolve s = .ok a ↔ ofText? s = some a := by
  unfold resolve
  cases ofText? s <;> simp

theorem resolve_eq_error_iff {t : String} : resolve s = .error t ↔ ofText? s = none ∧ t = s := by
  unfold resolve
  cases ofText? s <;> simp [eq_comm]

/-- A word between white space, in any letter case, is a text that names the action. -/
theorem isWrittenAs_of_isWord {before word after : List Char} (hs : s.toList = before ++ word ++ after)
    (hbefore : IsBlanks before) (hword : a.IsWord word) (hafter : IsBlanks after) :
    a.IsWrittenAs s := by
  have hvisible : NoBlanks word := by
    rcases hword with hsame | hsame
    · exact hsame.noBlanks (noBlanks_name a).1
    · exact hsame.noBlanks (noBlanks_name a).2
  exact ⟨word, hs ▸ hvisible.isCore hbefore hafter, hword⟩

/-- A string that names no action is refused, whatever its spelling, and named as it is. -/
theorem read_decode_eq_error {text : String} (htext : Json.SpellsText (.ofString s) text)
    (h : ofText? s = none) : decode.read text = .error (.mismatch (.unknownAction s)) := by
  obtain ⟨front, spelled, back, hfront, hspelled, hback, htext⟩ := htext
  have hstring := (Json.Reader.reads_string hspelled hfront hback.endsValue s back).mpr ⟨rfl, rfl⟩
  have hrun : decode.run (front ++ (spelled ++ back)) = .error (.mismatch (.unknownAction s)) := by
    rw [decode, Json.Reader.run_bind, hstring]
    simp only [h]
    rfl
  rw [Json.Reader.read, htext, hrun]

/-- **Action names are read exactly.**  An action is read from those texts whose core is its name or
    its name with one ending, in any case of the ASCII letters, and no text names two actions.
    Every other text is given back as it is, also where it stands in JSON.  So whatever the letter
    case, the ending and the white space around it, the name of an action is read as that action. -/
theorem resolve_iff_isWrittenAs (s : String) :
    (∀ a, ofText? s = some a ↔ a.IsWrittenAs s) ∧
    (∀ a, resolve s = .ok a ↔ a.IsWrittenAs s) ∧
    (∀ a b : Action, a.IsWrittenAs s → b.IsWrittenAs s → a = b) ∧
    (∀ t, resolve s = .error t ↔ (∀ a : Action, ¬ a.IsWrittenAs s) ∧ t = s) ∧
    (∀ text, Json.SpellsText (.ofString s) text → (∀ a : Action, ¬ a.IsWrittenAs s) →
      decode.read text = .error (.mismatch (.unknownAction s))) ∧
    ∀ (a : Action) (before word after : List Char), s.toList = before ++ word ++ after →
      IsBlanks before → a.IsWord word → IsBlanks after → resolve s = .ok a := by
  refine ⟨fun a => ofText?_eq_some_iff, fun a => resolve_eq_ok_iff.trans ofText?_eq_some_iff,
    fun a b ha hb => ?_, fun t => ?_, fun text htext hnone => ?_, ?_⟩
  · rw [← ofText?_eq_some_iff] at ha hb
    exact Option.some.inj (ha.symm.trans hb)
  · rw [resolve_eq_error_iff, ofText?_eq_none_iff]
  · exact read_decode_eq_error htext (ofText?_eq_none_iff.mpr hnone)
  · intro a before word after hs hbefore hword hafter
    rw [resolve_eq_ok_iff, ofText?_eq_some_iff]
    exact isWrittenAs_of_isWord hs hbefore hword hafter

/-- The name `show` in mixed case, with its ending, between an em space and a no-break space; and two
    words, which name nothing. -/
theorem resolve_sampleTexts :
    resolve "\u2003ShowRESOURCE\u00A0" = .ok .show ∧
    resolve "show resource" = .error "show resource" ∧
    decode.read " \"show resource\"" = .error (.mismatch (.unknownAction "show resource")) ∧
    (.show : Action).IsWrittenAs "\u2003ShowRESOURCE\u00A0" ∧
    ∀ b : Action, b.IsWrittenAs "\u2003ShowRESOURCE\u00A0" → b = .show := by
  have hword : (.show : Action).IsWord "ShowRESOURCE".toList := by decide
  have hnone : ∀ a : Action, ¬ a.IsWrittenAs "show resource" :=
    ofText?_eq_none_iff.mp (by decide +kernel)
  have hspace : Json.IsGaps [' '] := by simp [Json.IsGaps, Json.isGap]
  have hspelled : Json.SpellsText (.ofString "show resource") " \"show resource\"" :=
    ⟨[' '], _, [], hspace, .text (Json.spellsString_self (by decide)), .nil, rfl⟩
  obtain ⟨-, hok, hunique, -, -, hread⟩ := resolve_iff_isWrittenAs "\u2003ShowRESOURCE\u00A0"
  obtain ⟨-, -, -, herror, hjson, -⟩ := resolve_iff_isWrittenAs "show resource"
  have hshow := hread .show ['\u2003'] _ ['\u00A0'] (by decide) (by decide) hword (by decide)
  have hwritten := (hok .show).mp hshow
  exact ⟨hshow, (herror _).mpr ⟨hnone, rfl⟩, hjson _ hspelled hnone, hwritten,
    fun b hb => hunique b .show hb hwritten⟩

end Warden.Action
