import Mathlib.Data.List.Forall2
import Mathlib.Data.List.TakeWhile
import Warden.Proofs.Json.Reading
import Warden.Proofs.Json.Writing
import Warden.Text.Blank
import Warden.Text.Letters

namespace Warden.Text

/-!
# How names and numbers are written

The texts that are read as a name or a number, told without any reader.

* `IsCore` — what stands between the white space at the two ends of a text (`trim_eq_iff`).
* `SameWord` — texts that differ in the case of ASCII letters only (`lower_eq_lower_iff`).
* `IsNumeral` — the decimal numerals of an integer (`readInt64_eq_some_iff`).
-/

open Json (IsDigits SpellsSign)

/-! ### White space at the ends -/

/-- A text of white space only. -/
def IsBlanks (s : List Char) : Prop :=
  ∀ c ∈ s, isBlank c = true

instance (s : List Char) : Decidable (IsBlanks s) :=
  List.decidableBAll (fun c => isBlank c = true) s

/-- A text without white space. -/
def NoBlanks (s : List Char) : Prop :=
  ∀ c ∈ s, isBlank c = false

instance (s : List Char) : Decidable (NoBlanks s) :=
  List.decidableBAll (fun c => isBlank c = false) s

/-- The core of a text: what is left of it without the white space at its two ends. -/
structure IsCore (s core : List Char) : Prop where
  between : ∃ before after, s = before ++ core ++ after ∧ IsBlanks before ∧ IsBlanks after
  head : ∀ c ∈ core.head?, isBlank c = false
  last : ∀ c ∈ core.getLast?, isBlank c = false

/-- The visible characters of ASCII are not white space. -/
theorem isBlank_of_visible {c : Char} (hle : 0x21 ≤ c.toNat) (hge : c.toNat ≤ 0x7E) :
    isBlank c = false := by
  simp [isBlank, blankRanges]
  omega

theorem IsBlanks.nil : IsBlanks [] :=
  List.forall_mem_nil _

theorem IsBlanks.reverse {s : List Char} (h : IsBlanks s) : IsBlanks s.reverse :=
  fun c hc => h c (List.mem_reverse.mp hc)

theorem IsBlanks.trimLeft_append {before : List Char} (h : IsBlanks before) (s : List Char) :
    trimLeft (before ++ s) = trimLeft s :=
  List.dropWhile_append_of_pos h

theorem IsBlanks.trimLeft_eq_nil {s : List Char} (h : IsBlanks s) : trimLeft s = [] :=
  List.dropWhile_eq_nil_iff.mpr h

/-- Nothing is taken from a text that does not begin with white space. -/
theorem trimLeft_append_of_head {core : List Char} (hne : core ≠ [])
    (hhead : ∀ c ∈ core.head?, isBlank c = false) (s : List Char) :
    trimLeft (core ++ s) = core ++ s := by
  cases core with
  | nil => exact absurd rfl hne
  | cons c core => exact trimLeft_cons_of_not_blank (hhead c rfl) (core ++ s)

/-- What is taken from the front of a text is white space, and what is left begins with none. -/
theorem exists_eq_append_trimLeft (s : List Char) :
    ∃ before, IsBlanks before ∧ s = before ++ trimLeft s ∧
      ∀ c ∈ (trimLeft s).head?, isBlank c = false := by
  refine ⟨s.takeWhile isBlank, fun c hc => List.mem_takeWhile_imp hc,
    List.takeWhile_append_dropWhile.symm, fun c hc => ?_⟩
  have hnot := List.head?_dropWhile_not isBlank s
  rw [show (s.dropWhile isBlank).head? = some c from hc] at hnot
  exact hnot

theorem isCore_trim (s : List Char) : IsCore s (trim s) := by
  obtain ⟨before, hbefore, hfront, hhead⟩ := exists_eq_append_trimLeft s
  obtain ⟨after, hafter, hback, hlast⟩ := exists_eq_append_trimLeft (trimLeft s).reverse
  -- Read forwards, the second cut leaves the core in front of its white space.
  have hcore : trimLeft s = trim s ++ after.reverse := by
    rw [trim, ← List.reverse_append, ← hback, List.reverse_reverse]
  refine ⟨⟨before, after.reverse, ?_, hbefore, hafter.reverse⟩, fun c hc => ?_, fun c hc => ?_⟩
  · rw [List.append_assoc, ← hcore, ← hfront]
  · rw [hcore, List.head?_append] at hhead
    exact hhead c (by rw [Option.mem_def.mp hc]; rfl)
  · rw [trim, List.getLast?_reverse] at hc
    exact hlast c hc

theorem IsCore.trim_eq {s core : List Char} (h : IsCore s core) : trim s = core := by
  obtain ⟨⟨before, after, rfl, hbefore, hafter⟩, hhead, hlast⟩ := h
  rw [List.append_assoc, trim, hbefore.trimLeft_append]
  by_cases hne : core = []
  · rw [hne, List.nil_append, hafter.trimLeft_eq_nil, List.reverse_nil, trimLeft_nil,
      List.reverse_nil]
  · have hback : trimLeft core.reverse = core.reverse := by
      rw [← List.head?_reverse] at hlast
      simpa using trimLeft_append_of_head (by simpa using hne) hlast []
    rw [trimLeft_append_of_head hne hhead, List.reverse_append,
      hafter.reverse.trimLeft_append, hback, List.reverse_reverse]

/-- Trimming finds the core of a text. -/
theorem trim_eq_iff {s core : List Char} : trim s = core ↔ IsCore s core := by
  constructor
  · rintro rfl
    exact isCore_trim s
  · exact IsCore.trim_eq

/-- A text without white space is the core of itself between white space. -/
theorem NoBlanks.isCore {before core after : List Char} (hcore : NoBlanks core)
    (hbefore : IsBlanks before) (hafter : IsBlanks after) : IsCore (before ++ core ++ after) core where
  between := ⟨before, after, rfl, hbefore, hafter⟩
  head := fun c hc => hcore c (List.mem_of_mem_head? hc)
  last := fun c hc => hcore c (List.mem_of_mem_getLast? hc)

/-! ### Letter case -/

/-- The capital form of an ASCII letter, and its small form. -/
def IsCapitalOf (c d : Char) : Prop :=
  'A'.toNat ≤ c.toNat ∧ c.toNat ≤ 'Z'.toNat ∧ d.toNat = c.toNat + ('a'.toNat - 'A'.toNat)

/-- The same character, or the two forms of an ASCII letter. -/
def SameLetter (c d : Char) : Prop :=
  c = d ∨ IsCapitalOf c d ∨ IsCapitalOf d c

instance (c d : Char) : Decidable (IsCapitalOf c d) :=
  inferInstanceAs (Decidable (_ ∧ _ ∧ _))

instance : DecidableRel SameLetter :=
  fun _ _ => inferInstanceAs (Decidable (_ ∨ _ ∨ _))

/-- Texts that differ in the case of ASCII letters only. -/
abbrev SameWord (s t : List Char) : Prop :=
  List.Forall₂ SameLetter s t

theorem isCapitalOf_iff {c d : Char} :
    IsCapitalOf c d ↔ 65 ≤ c.toNat ∧ c.toNat ≤ 90 ∧ d.toNat = c.toNat + 32 := Iff.rfl

theorem toNat_toLower (c : Char) :
    c.toLower.toNat = if 65 ≤ c.toNat ∧ c.toNat ≤ 90 then c.toNat + 32 else c.toNat := by
  have hbounds : c.val ≥ 'A'.val ∧ c.val ≤ 'Z'.val ↔ 65 ≤ c.toNat ∧ c.toNat ≤ 90 := Iff.rfl
  unfold Char.toLower
  split
  case isTrue h =>
    rw [if_pos (hbounds.mp h)]
    have hle := (hbounds.mp h).2
    have hsum : (c.val + ('a'.val - 'A'.val)).toNat = (c.toNat + 32) % 2 ^ 32 := UInt32.toNat_add _ _
    rw [Nat.mod_eq_of_lt (by omega)] at hsum
    exact hsum
  case isFalse h => rw [if_neg (mt hbounds.mpr h)]

theorem toLower_eq_toLower_iff {c d : Char} : c.toLower = d.toLower ↔ SameLetter c d := by
  simp only [SameLetter, isCapitalOf_iff, ← Char.toNat_inj, toNat_toLower]
  split <;> split <;> omega

/-- Texts have the same small letters exactly if they differ in letter case only. -/
theorem lower_eq_lower_iff {s t : List Char} : lower s = lower t ↔ SameWord s t := by
  rw [lower, lower, ← List.forall₂_eq_eq_eq, List.forall₂_map_left_iff, List.forall₂_map_right_iff]
  simp only [toLower_eq_toLower_iff]

/-- The dotless i of Turkish is no form of the letter i. -/
example : SameWord "AdMin".toList "admin".toList ∧ ¬ SameWord "adm\u0131n".toList "admin".toList := by
  decide

/-- What both forms of a letter have in common holds of a text if it holds of the same word. -/
theorem SameWord.forall_mem {P : Char → Prop} (hP : ∀ {c d}, SameLetter c d → P d → P c)
    {s word : List Char} (h : SameWord s word) (hword : ∀ d ∈ word, P d) : ∀ c ∈ s, P c := by
  induction h with
  | nil => exact hword
  | cons hletter _ ih =>
    rw [List.forall_mem_cons] at hword ⊢
    exact ⟨hP hletter hword.1, ih hword.2⟩

/-- Neither form of a letter is white space. -/
theorem SameLetter.isBlank_eq {c d : Char} (h : SameLetter c d) : isBlank c = isBlank d := by
  simp only [SameLetter, isCapitalOf_iff] at h
  rcases h with rfl | h | h
  · rfl
  · rw [isBlank_of_visible (by omega) (by omega), isBlank_of_visible (by omega) (by omega)]
  · rw [isBlank_of_visible (by omega) (by omega), isBlank_of_visible (by omega) (by omega)]

theorem SameWord.noBlanks {s word : List Char} (h : SameWord s word) (hword : NoBlanks word) :
    NoBlanks s :=
  h.forall_mem (fun hletter hd => hletter.isBlank_eq.trans hd) hword

/-- Neither form of a letter stands in front of the letters. -/
theorem SameLetter.le_toNat {c d : Char} (h : SameLetter c d) (hd : 'A'.toNat ≤ d.toNat) :
    'A'.toNat ≤ c.toNat := by
  rcases h with rfl | h | h
  · exact hd
  · exact h.1
  · exact Nat.le_trans h.1 (Nat.le.intro h.2.2.symm)

/-! ### Numerals -/

/-- A decimal numeral: at most one sign, and behind it one or more ASCII digits. -/
def IsNumeral (s : List Char) (i : Int) : Prop :=
  ∃ negative sign digits, SpellsSign negative sign ∧ IsDigits digits ∧ s = sign ++ digits ∧
    i = if negative then -(Nat.ofDigitChars 10 digits 0 : Int) else Nat.ofDigitChars 10 digits 0

/-- The value of a numeral is the one that its digits have in the decimal system. -/
theorem signedValue_eq (negative : Bool) (digits : List Char) :
    signedValue negative digits =
      if negative then -(Nat.ofDigitChars 10 digits 0 : Int) else Nat.ofDigitChars 10 digits 0 := by
  rw [Nat.ofDigitChars_eq_foldl]
  rfl

/-- A text is read as a number exactly if it is a numeral of that number; so numerals of numbers
    beyond 64 bits are not read. -/
theorem readInt64_eq_some_iff {s : List Char} {n : Int64} :
    readInt64 s = some n ↔ IsNumeral s n.toInt := by
  constructor
  · intro h
    obtain ⟨sign, hsign, hs⟩ := Json.exists_spellsSign_splitSign s
    simp only [readInt64] at h
    split at h
    case isFalse => cases h
    case isTrue hcond =>
      simp only [Bool.and_eq_true, Bool.not_eq_true', List.isEmpty_eq_false_iff,
        List.all_eq_true] at hcond
      obtain ⟨hdigits, hrange⟩ := hcond
      have hvalue := Json.Reader.eq_toInt_iff.mpr ⟨hrange, (Option.some.inj h).symm⟩
      exact ⟨_, sign, _, hsign, hdigits, hs, by rw [← hvalue, signedValue_eq]⟩
  · rintro ⟨negative, sign, digits, hsign, hdigits, rfl, hvalue⟩
    have hsplit := Json.splitSign_of_spells hsign hdigits []
    rw [List.append_nil] at hsplit
    rw [← signedValue_eq] at hvalue
    obtain ⟨hrange, hn⟩ := Json.Reader.eq_toInt_iff.mp hvalue.symm
    have hall : digits.all Char.isDigit = true := List.all_eq_true.mpr hdigits.2
    have hne : digits.isEmpty = false := List.isEmpty_eq_false_iff.mpr hdigits.1
    simp only [readInt64, hsplit, hall, hne, hrange, hn]
    rfl

/-- A numeral has characters, and they are signs and digits, which stand in front of the letters of
    ASCII and are not white space. -/
theorem IsNumeral.toNat_mem {s : List Char} {i : Int} (h : IsNumeral s i) :
    s ≠ [] ∧ ∀ c ∈ s, 0x21 ≤ c.toNat ∧ c.toNat < 'A'.toNat := by
  obtain ⟨negative, sign, digits, hsign, ⟨hne, hdigits⟩, rfl, -⟩ := h
  refine ⟨by simp [hne], fun c hc => ?_⟩
  rcases List.mem_append.mp hc with hc | hc
  · cases hsign with
    | minus => rw [List.mem_singleton.mp hc]; decide
    | plus => rw [List.mem_singleton.mp hc]; decide
    | none => exact absurd hc List.not_mem_nil
  · have hdigit := hdigits c hc
    simp only [Char.isDigit, Bool.and_eq_true, decide_eq_true_eq] at hdigit
    have hle : '0'.toNat ≤ c.toNat := hdigit.1
    have hge : c.toNat ≤ '9'.toNat := hdigit.2
    have h0 : '0'.toNat = 0x30 := rfl
    have h9 : '9'.toNat = 0x39 := rfl
    have hA : 'A'.toNat = 0x41 := rfl
    omega

theorem IsNumeral.noBlanks {s : List Char} {i : Int} (h : IsNumeral s i) : NoBlanks s := by
  intro c hc
  have hA : 'A'.toNat = 0x41 := rfl
  obtain ⟨hle, hlt⟩ := h.toNat_mem.2 c hc
  exact isBlank_of_visible hle (by omega)

/-- The numeral that is written for an integer is one of it. -/
theorem isNumeral_writeInt (i : Int) : IsNumeral (writeInt i) i := by
  have hdigits : IsDigits (Nat.toDigits 10 i.natAbs) :=
    ⟨Nat.toDigits_ne_nil, fun c hc => Nat.isDigit_of_mem_toDigits (by decide) (by decide) hc⟩
  have hvalue := Nat.ofDigitChars_ten_toDigits (n := i.natAbs)
  unfold writeInt
  split
  · exact ⟨true, ['-'], _, .minus, hdigits, rfl, by rw [hvalue, if_pos rfl]; omega⟩
  · exact ⟨false, [], _, .none, hdigits, rfl, by rw [hvalue, if_neg (by simp)]; omega⟩

end Warden.Text
