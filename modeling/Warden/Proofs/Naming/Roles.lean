import Warden.Proofs.Naming.Spelling
import Warden.Proofs.Policy.Applying
import Warden.Proofs.Policy.Copying

namespace Warden

/-!
# How roles are written

A role is written by its name, in any case of the ASCII letters, or by a numeral of its number, and
either may stand between white space.  No other text refers to a role, and no text refers to two.

* `Role.IsName` and `Role.IsWrittenAs` — the three names, and the texts that refer to a role.
* `Role.not_isNumeral_of_sameWord` — names and numerals do not meet.
* `Role.ofText?_eq_some_iff` — the texts from which a role is read.
* `RoleRef.resolve_name_iff_isWrittenAs` — all texts as references, with what becomes of those that
  refer to no role.
-/

namespace Role

open Text (IsCore IsNumeral NoBlanks SameWord)

/-- The roles that have a name. -/
inductive IsName : String → Role → Prop
  | anon : IsName "anon" .anon
  | reader : IsName "reader" .reader
  | admin : IsName "admin" .admin

/-- A text refers to a role if its core is the name of the role, in any letter case, or a numeral of
    its number. -/
def IsWrittenAs (r : Role) (s : String) : Prop :=
  ∃ core, IsCore s.toList core ∧
    ((∃ name, IsName name r ∧ SameWord core name.toList) ∨ IsNumeral core r.id.toInt)

variable {r : Role} {name s : String}

/-! ### Names -/

theorem isName_iff_mem : IsName name r ↔ (name, r) ∈ named := by
  constructor
  · intro h
    cases h <;> decide
  · simp only [named, List.mem_cons, List.not_mem_nil, or_false, Prod.mk.injEq]
    rintro (⟨rfl, rfl⟩ | ⟨rfl, rfl⟩ | ⟨rfl, rfl⟩)
    · exact .anon
    · exact .reader
    · exact .admin

theorem IsName.lower_eq (h : IsName name r) : Text.lower name.toList = name.toList := by
  cases h <;> decide

theorem IsName.noBlanks (h : IsName name r) : NoBlanks name.toList := by
  cases h <;> decide

/-- The table of names is searched for the given one. -/
theorem find?_named_eq_some_iff {word : List Char} :
    (named.find? fun entry => entry.1.toList == word).map Prod.snd = some r ↔
      ∃ name, IsName name r ∧ word = name.toList := by
  constructor
  · intro h
    obtain ⟨⟨name, role⟩, hfind, rfl⟩ := Option.map_eq_some_iff.mp h
    have hword := List.find?_some hfind
    exact ⟨name, isName_iff_mem.mpr (List.mem_of_find?_eq_some hfind), (beq_iff_eq.mp hword).symm⟩
  · rintro ⟨name, hname, rfl⟩
    cases hname <;> decide

theorem name?_eq_some_iff : r.name? = some name ↔ IsName name r := by
  rw [isName_iff_mem, name?, Option.map_eq_some_iff]
  constructor
  · rintro ⟨entry, hfind, rfl⟩
    obtain rfl : entry.2 = r := by simpa using List.find?_some hfind
    exact List.mem_of_find?_eq_some hfind
  · intro hmem
    refine ⟨(name, r), ?_, rfl⟩
    cases isName_iff_mem.mpr hmem <;> decide

/-- A name consists of letters, and a numeral of digits and signs. -/
theorem not_isNumeral_of_sameWord {word : List Char} (hname : IsName name r)
    (hsame : SameWord word name.toList) (i : Int) : ¬ IsNumeral word i := by
  intro hnumeral
  obtain ⟨hne, hbound⟩ := hnumeral.toNat_mem
  have hletters : name.toList.Forall fun d => 'A'.toNat ≤ d.toNat := by
    cases hname <;> decide
  obtain ⟨c, hc⟩ := List.exists_mem_of_ne_nil word hne
  have hle := hsame.forall_mem Text.SameLetter.le_toNat (List.forall_iff_forall_mem.mp hletters) c hc
  exact absurd (hbound c hc).2 (Nat.not_lt.mpr hle)

/-! ### Reading -/

theorem ofName?_eq_some_iff :
    ofName? s = some r ↔ ∃ name, IsName name r ∧ SameWord (Text.trim s.toList) name.toList := by
  rw [ofName?, find?_named_eq_some_iff]
  refine exists_congr fun name => and_congr_right fun hname => ?_
  rw [← Text.lower_eq_lower_iff, hname.lower_eq]

theorem ofNumber?_eq_some_iff :
    ofNumber? s = some r ↔ IsNumeral (Text.trim s.toList) r.id.toInt := by
  rw [ofNumber?, Option.map_eq_some_iff, ← Text.readInt64_eq_some_iff]
  constructor
  · rintro ⟨id, hid, rfl⟩
    exact hid
  · intro hid
    exact ⟨r.id, hid, rfl⟩

/-- A role is read from the texts that refer to it. -/
theorem ofText?_eq_some_iff : ofText? s = some r ↔ r.IsWrittenAs s := by
  have hcore : r.IsWrittenAs s ↔ ofName? s = some r ∨ ofNumber? s = some r := by
    simp only [IsWrittenAs, ← Text.trim_eq_iff, exists_eq_left', ofName?_eq_some_iff,
      ofNumber?_eq_some_iff]
  rw [hcore, ofText?]
  cases hname : ofName? s with
  | none => simp
  | some named =>
    -- A text with a name in it is not read as a number anyway.
    obtain ⟨name, hisName, hsame⟩ := ofName?_eq_some_iff.mp hname
    have hnot : ofNumber? s ≠ some r :=
      mt ofNumber?_eq_some_iff.mp (not_isNumeral_of_sameWord hisName hsame _)
    simp [hnot]

theorem ofText?_eq_none_iff : ofText? s = none ↔ ∀ r : Role, ¬ r.IsWrittenAs s := by
  simp only [Option.eq_none_iff_forall_ne_some, ne_eq, ofText?_eq_some_iff]

/-- The numeral of a role refers to it. -/
theorem isWrittenAs_numeral (r : Role) : r.IsWrittenAs r.numeral := by
  have hnumeral : IsNumeral r.numeral.toList r.id.toInt := by
    rw [numeral, Text.writeInt64, String.toList_ofList]
    exact Text.isNumeral_writeInt r.id.toInt
  refine ⟨r.numeral.toList, ?_, .inr hnumeral⟩
  simpa using hnumeral.noBlanks.isCore Text.IsBlanks.nil Text.IsBlanks.nil

/-- The name of a role refers to it, in any letter case. -/
theorem isWrittenAs_of_sameWord (hname : IsName name r) (hsame : SameWord s.toList name.toList) :
    r.IsWrittenAs s := by
  refine ⟨s.toList, ?_, .inl ⟨name, hname, hsame⟩⟩
  simpa using (hsame.noBlanks hname.noBlanks).isCore Text.IsBlanks.nil Text.IsBlanks.nil

end Role

namespace RoleRef

open Text (SameWord)

variable {r : Role} {s : String}

theorem resolve_name_eq_ok_iff : (name s).resolve = .ok r ↔ r.IsWrittenAs s := by
  rw [← Role.ofText?_eq_some_iff, resolve]
  cases Role.ofText? s <;> simp

theorem resolve_name_eq_error_iff {t : String} :
    (name s).resolve = .error t ↔ (∀ r : Role, ¬ r.IsWrittenAs s) ∧ t = s := by
  rw [resolve_eq_error_iff, ← Role.ofText?_eq_none_iff, name.injEq, eq_comm, and_comm]
  exact and_congr_left fun h => by rw [h]

/-- **Role texts are read exactly.**  A text refers to a role if its core is the name of the role, in
    any case of the ASCII letters, or a numeral of its number, and it resolves in no other case: then
    the text itself is the error.  So the number of a role, its numeral, its name in any letter case,
    and the reference that is written for it all resolve to the role. -/
theorem resolve_name_iff_isWrittenAs (s : String) (r : Role) :
    (Role.ofText? s = some r ↔ r.IsWrittenAs s) ∧
    ((name s).resolve = .ok r ↔ r.IsWrittenAs s) ∧
    (∀ e, (name s).resolve.mapError PolicyError.unknownRole = .error e ↔
      (∀ r' : Role, ¬ r'.IsWrittenAs s) ∧ e = .unknownRole s) ∧
    (name r.numeral).resolve = .ok r ∧
    (∀ known text, r.name? = some known → SameWord text.toList known.toList →
      (name text).resolve = .ok r) ∧
    (id r.id).resolve = .ok r ∧
    (ofRole r).resolve = .ok r := by
  refine ⟨Role.ofText?_eq_some_iff, resolve_name_eq_ok_iff, fun e => ?_, ?_, ?_, rfl,
    resolve_ofRole r⟩
  · rw [mapError_eq_error_iff]
    simp only [resolve_name_eq_error_iff]
    constructor
    · rintro ⟨t, ⟨hnone, rfl⟩, rfl⟩
      exact ⟨hnone, rfl⟩
    · rintro ⟨hnone, rfl⟩
      exact ⟨s, ⟨hnone, rfl⟩, rfl⟩
  · exact resolve_name_eq_ok_iff.mpr r.isWrittenAs_numeral
  · intro known text hknown hsame
    exact resolve_name_eq_ok_iff.mpr
      (Role.isWrittenAs_of_sameWord (Role.name?_eq_some_iff.mp hknown) hsame)

/-- The number of administrators with a sign, zeros and white space, their name in mixed case, and
    the first number beyond 64 bits. -/
theorem resolve_name_sampleTexts :
    (name "\u3000+0100\t").resolve = .ok .admin ∧
    (name "AdMin").resolve = .ok .admin ∧
    (name "9223372036854775808").resolve.mapError PolicyError.unknownRole =
      .error (.unknownRole "9223372036854775808") := by
  have hdigits : Json.IsDigits "0100".toList := by simp [Json.IsDigits]
  have hvisible : Text.NoBlanks "+0100".toList := by decide
  have htext : "\u3000+0100\t".toList = ['\u3000'] ++ "+0100".toList ++ ['\t'] := rfl
  have hcore : Text.IsCore "\u3000+0100\t".toList "+0100".toList := by
    rw [htext]
    exact hvisible.isCore (by decide) (by decide)
  have hnumeral : Role.admin.IsWrittenAs "\u3000+0100\t" :=
    ⟨_, hcore, .inr ⟨false, ['+'], _, .plus, hdigits, rfl, by decide⟩⟩
  have hnone : ∀ r : Role, ¬ r.IsWrittenAs "9223372036854775808" :=
    Role.ofText?_eq_none_iff.mp (by decide +kernel)
  obtain ⟨-, hok, -, -, hname, -⟩ := resolve_name_iff_isWrittenAs "\u3000+0100\t" .admin
  obtain ⟨-, -, herror, -⟩ := resolve_name_iff_isWrittenAs "9223372036854775808" .admin
  exact ⟨hok.mpr hnumeral, hname "admin" "AdMin" (by decide) (by decide),
    (herror _).mpr ⟨hnone, rfl⟩⟩

end RoleRef

end Warden
