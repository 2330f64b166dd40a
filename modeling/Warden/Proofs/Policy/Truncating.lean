import Warden.Proofs.Json.Stopping
import Warden.Proofs.Policy.Reading

namespace Warden

/-!
# Policy texts that are cut off

A policy text that has lost something other than white space at its end is never read as a smaller
document.

* `RoleRef.cuts_decode`, `Grant.cuts_decode`, `Document.cuts_decode` — how the readers meet a cut.  A
  reference is the only value that may become a shorter one, and then its grant has no end.
* `Document.Skips` — places in a text where a value is skipped, by what the texts with other values
  there are read as; by `Document.Skips.skipsAt` the reader passes over a value there.
* `Document.ofJson_truncated` — the fault of a text that is cut off.
-/

open Json (Reader Record Field Spells SpellsText SpellsNumeral IsBroken IsGaps EndsValue)
open Json.Reader

/-! ### Shorter numbers -/

theorem Text.le_foldl_digits (n : Nat) (ds : List Char) :
    n ≤ ds.foldl (fun n d => 10 * n + (d.toNat - '0'.toNat)) n := by
  induction ds generalizing n with
  | nil => exact Nat.le_refl n
  | cons d ds ih => exact Nat.le_trans (by omega) (ih (10 * n + (d.toNat - '0'.toNat)))

theorem Text.digitsValue_le_of_prefix {s t : List Char} (h : s <+: t) :
    digitsValue s ≤ digitsValue t := by
  obtain ⟨u, rfl⟩ := h
  simp only [digitsValue, List.foldl_append]
  exact le_foldl_digits _ u

theorem Json.IsWhole.digitsValue_pos {s : List Char} (h : IsWhole s) (hzero : s ≠ ['0']) :
    0 < Text.digitsValue s := by
  obtain ⟨⟨hne, hall⟩, hhead⟩ := h.resolve_left hzero
  obtain ⟨d, s, rfl⟩ := List.exists_cons_of_ne_nil hne
  have hdigit := (Char.isDigit_iff_toNat.mp (hall d List.mem_cons_self)).1
  have hd : d.toNat ≠ '0'.toNat := fun h => hhead (by rw [Char.toNat_inj.mp h]; rfl)
  have hfirst : 0 < 10 * 0 + (d.toNat - '0'.toNat) := by omega
  exact Nat.lt_of_lt_of_le hfirst (Text.le_foldl_digits _ s)

theorem Json.SpellsNumeral.isWhole {n : Json.Numeral} {s : List Char} (h : SpellsNumeral n s) :
    IsWhole n.whole := by
  cases h with
  | parts hwhole _ _ => exact hwhole

/-- A front of a signed 64-bit number is one too. -/
theorem Json.Numeral.IsFrontOf.exists_denotes {n n' : Json.Numeral} {s s' : List Char}
    {number : Int64} (h : n'.IsFrontOf n) (hs : SpellsNumeral n s) (hs' : SpellsNumeral n' s')
    (hn : n.Denotes number.toInt) : ∃ number' : Int64, n'.Denotes number'.toInt := by
  obtain ⟨hfraction, hexponent, hvalue, hzero⟩ := hn
  have hle := Text.digitsValue_le_of_prefix h.whole
  have hmin := number.minValue_le_toInt
  have hmax := number.toInt_le
  have hrange : Text.inInt64 (Text.signedValue n'.negative n'.whole) = true := by
    simp only [Text.inInt64, Bool.and_eq_true, decide_eq_true_eq, Text.signedValue, h.negative]
    simp only [Text.signedValue] at hvalue
    rw [Int64.toInt_minValue, Int64.toInt_maxValue] at *
    split at hvalue <;> simp_all <;> omega
  refine ⟨Int64.ofInt (Text.signedValue n'.negative n'.whole), h.fraction hfraction,
    h.exponent hexponent, eq_toInt_iff.mpr ⟨hrange, rfl⟩, fun hnegative => ?_⟩
  rw [← eq_toInt_iff.mpr ⟨hrange, rfl⟩]
  -- A minus sign in front of zero is not denoted, so the shorter number is not zero either.
  have hpos : 0 < Text.digitsValue n'.whole := by
    refine hs'.isWhole.digitsValue_pos fun hwhole => ?_
    obtain ⟨u, hu⟩ := h.whole
    rw [hwhole] at hu
    have hnil : n.whole = ['0'] := by
      rcases hs.isWhole with hzero | ⟨-, hhead⟩
      · exact hzero
      · exact absurd (by rw [← hu]; rfl) hhead
    refine hzero (h.negative ▸ hnegative) ?_
    rw [← hvalue, hnil]
    cases n.negative <;> rfl
  simp only [Text.signedValue, hnegative, if_true]
  omega

/-! ### Readers -/

theorem RoleRef.run_decode_scan {depth : Nat} {s t : List Char} {c : Char}
    (hgap : Json.skipGaps s = c :: t) (hc : ¬(c = '[' ∨ c = '{')) :
    (RoleRef.decode depth).run s = Json.andThen (Json.scanScalar .kept)
      (settle RoleRef.ofScalar? fun _ => .mismatch .noRole) (c :: t) := by
  simp only [RoleRef.decode, hgap, Json.andThen, settle]
  split
  · next h => exact absurd (.inl (List.cons.inj h).1) hc
  · next h => exact absurd (.inr (List.cons.inj h).1) hc
  · cases Json.scanScalar .kept (c :: t) with
    | error fault => rfl
    | ok result => cases haccept : RoleRef.ofScalar? result.1 <;> simp [haccept]

/-- A number that is cut off may become a shorter one. -/
theorem RoleRef.cuts_decode (depth : Nat) : (RoleRef.decode depth).Cuts True := by
  refine cuts_of_accept RoleRef.ofScalar? (fun _ => .mismatch .noRole) (fun s hs => ?_)
    (fun hgap hc ref after => ?_) RoleRef.run_decode_scan rfl fun href hs hs' hfront => ?_
  · simp only [RoleRef.decode, hs]
    rfl
  · simp only [RoleRef.decode, hgap]
    rcases hc with rfl | rfl <;> simp
  · cases RoleRef.ofScalar?_eq_some_iff.mp href with
    | id hn =>
      obtain ⟨number', hn'⟩ := hfront.exists_denotes hs hs' hn
      exact ⟨trivial, Json.Reader.inRange_of_integer? (Json.Numeral.integer?_eq_some_iff.mpr hn'),
        .id number', RoleRef.ofScalar?_eq_some_iff.mpr (.id hn')⟩

theorem Action.cuts_decode : Action.decode.Cuts False := by
  refine cuts_string.bind (fun text => ?_) False.elim
  cases Action.ofText? text with
  | none => exact .inr ⟨_, rfl⟩
  | some action => exact .inl ⟨action, rfl⟩

theorem Scope.cuts_decode : Scope.decode.Cuts False :=
  cuts_string.map Scope.ofText

theorem Draft.cuts_fill {ρ α : Type} {title scopeName ownerName : String} {role : Reader ρ}
    {make : ρ → Action → Scope → Bool → α} (hrole : role.Cuts True) :
    ∀ field ∈ (Draft.record title scopeName ownerName role make).fields, ∀ draft,
      (field.fill draft).Cuts True := by
  intro field hfield draft
  simp only [Draft.record, List.mem_cons, List.not_mem_nil, or_false] at hfield
  rcases hfield with rfl | rfl | rfl | rfl
  · exact hrole.map _
  · exact (Action.cuts_decode.map _).weaken
  · exact (Scope.cuts_decode.map _).weaken
  · exact cuts_boolean.map _

/-- A grant has an end of its own, even if its reference has not. -/
theorem Grant.cuts_decode (depth : Nat) : (Grant.decode depth).Cuts False :=
  Record.cuts_reader (Draft.cuts_fill (RoleRef.cuts_decode (depth + 1)))

namespace Document

theorem cuts_decode : decode.Cuts False := by
  refine Record.cuts_reader fun field hfield draft => ?_
  obtain rfl := List.mem_singleton.mp hfield
  exact ((Grant.cuts_decode 2).weaken.items.map _).weaken

/-! ### Skipped values -/

/-- Between this front and this back a value is skipped: any value may stand there, and the text is
    read as the same document. -/
def Skips (d : Document) (front back : List Char) : Prop :=
  ∀ ⦃v : Json⦄ ⦃s : List Char⦄, Spells v s →
    ofJson (String.ofList (front ++ (s ++ back))) = .ok d

theorem ofJson_congr {s t : List Char} (h : decode.run s = decode.run t) :
    ofJson (String.ofList s) = ofJson (String.ofList t) := by
  simp only [ofJson, Json.Reader.read, String.toList_ofList, h]

theorem ofJson_of_run_error {s : List Char} {fault : Json.Fault} (h : decode.run s = .error fault) :
    ofJson (String.ofList s) = .error fault := by
  simp only [ofJson, Json.Reader.read, String.toList_ofList, h]

/-- Where the reader passes over the value that stands there, a value is skipped. -/
theorem skips_of_skipsAt {d : Document} {front s back : List Char} {v : Json}
    (h : ofJson (String.ofList (front ++ (s ++ back))) = .ok d) (hs : Spells v s)
    (hback : EndsValue back) (hskips : Json.SkipsAt decode.run front) : Skips d front back := by
  obtain ⟨opened, more, hmore⟩ := hskips
  have hrun : ∀ {v : Json} {s : List Char}, Spells v s →
      decode.run (front ++ (s ++ back)) = (Json.pass .skipped none opened .more back).bind more := by
    intro v s hs
    have hpass := @Json.pass_of_spells _ _ hs opened _ _ (hs.skipGaps_append .nil back) hback
    obtain ⟨c, t, rfl, hc, hsquare⟩ := hs.exists_cons
    rw [← hpass]
    exact hmore c (t ++ back) ⟨hc, hsquare⟩
  intro v' s' hs'
  rw [← h]
  exact ofJson_congr ((hrun hs').trans (hrun hs).symm)

/-- Where a value is skipped, the misfit is, and so the reader passes over the value there. -/
theorem Skips.skipsAt {d : Document} {front back : List Char} (h : Skips d front back) :
    Json.SkipsAt decode.run front := by
  obtain ⟨rest, hrun, hrest⟩ := exists_run_of_read (h Json.spells_misfit)
  rw [String.toList_ofList] at hrun
  have hmisfit : Json.misfit <+: Json.misfit ++ back := List.prefix_append _ _
  cases cuts_decode.cut hrun hrest.endsValue with
  | @behind _ r _ hafter _ =>
    -- The document has been read in front of the misfit, but there is more than white space left.
    rw [hafter] at hrest
    exact absurd (hrest '[' (List.mem_append_right r List.mem_cons_self)) (by decide)
  | ended _ hskips => exact hskips hmisfit
  | broken _ hq _ hnumeral hback _ =>
    rw [hq] at hmisfit
    exact absurd hmisfit (hnumeral.not_misfit hback)
  | shorter hshort => exact hshort.elim

/-- A numeral that breaks off where the reader passes over a value makes the text malformed. -/
theorem ofJson_of_isBroken {front n : List Char} (hskips : Json.SkipsAt decode.run front)
    (hn : IsBroken n) : ofJson (String.ofList (front ++ n)) = .error .malformed := by
  obtain ⟨opened, more, hmore⟩ := hskips
  have hscan := Json.scanScalar_of_isBroken .skipped hn
  obtain ⟨c, t, rfl, hc⟩ := hn.exists_cons
  obtain ⟨hgap, hsquare, hcurly, hclosing⟩ : _ ∧ c ≠ '[' ∧ c ≠ '{' ∧ c ≠ ']' :=
    Json.BeginsScalar.ne (.inr (.inr (.inr (.inr hc))))
  refine ofJson_of_run_error ?_
  rw [hmore c t ⟨hgap, hclosing⟩, Json.pass_value_scan (Json.skipGaps_cons hgap t) ⟨hsquare, hcurly⟩,
    hscan]
  rfl

/-- The value of the first member is skipped unless its name is that of the grants. -/
theorem skipsAt_member {key k : List Char} (hk : Json.SpellsString key k)
    (hname : String.ofList key ≠ "grants") :
    Json.SkipsAt decode.run ('{' :: '"' :: (k ++ ['"', ':'])) := by
  have hfind : (record.fields.find? fun field => field.name == String.ofList key) = none := by
    simp [record, Ne.symm hname]
  have hdraft : Json.SkipsAt record.draft.run (['{'] ++ '"' :: (k ++ ['"', ':'])) :=
    (Record.skipsAt_membersFrom hk hfind).append fun t =>
      Record.run_draft_object (Json.skipGaps_cons (by decide) t)
  exact hdraft.bind (fun full => (ofExcept (record.finish full)).run) (run_bind _ _)

/-- A policy text without grants, and with a number under another name. -/
def sampleNumber : String :=
  "\x7b\"x\":-1\x7d"

theorem spellsNumeral_minusOne : SpellsNumeral ⟨true, ['1'], none, none⟩ (['-'] ++ ['1']) := by
  have hone : Json.IsWhole ['1'] := by
    refine .inr ⟨⟨List.cons_ne_nil _ _, fun c hc => ?_⟩, by decide⟩
    obtain rfl := List.mem_singleton.mp hc
    rfl
  exact .parts hone .none .none

theorem ofJson_sampleNumber : ofJson sampleNumber = .ok ⟨[]⟩ := by
  have hx : Json.SpellsMember ("x".toList, .number ⟨true, ['1'], none, none⟩) _ :=
    .keyed .nil (Json.spellsString_self (by decide)) .nil .nil (.number spellsNumeral_minusOne)
  have hspells : SpellsText (.object [("x".toList, .number ⟨true, ['1'], none, none⟩)])
      sampleNumber :=
    ⟨[], _, [], .nil, .object hx (.close .nil), .nil, by decide⟩
  exact (reads_decode.read hspells _).mpr (.named .unset)

/-! ### Texts that are cut off -/

/-- The cut falls into a numeral that is skipped, right behind its minus sign, behind its point, or
    behind the letter of its exponent or the sign there. -/
def BreaksOff (d : Document) (p q : List Char) : Prop :=
  ∃ (front n m back : List Char) (numeral : Json.Numeral), p = front ++ n ∧ q = m ++ back ∧
    IsBroken n ∧ SpellsNumeral numeral (n ++ m) ∧ Skips d front back

theorem BreaksOff.ofJson_eq {d : Document} {p q : List Char} (h : BreaksOff d p q) :
    ofJson (String.ofList p) = .error .malformed := by
  obtain ⟨front, n, m, back, numeral, rfl, -, hn, -, hskips⟩ := h
  exact ofJson_of_isBroken hskips.skipsAt hn

theorem breaksOff_sampleNumber :
    BreaksOff ⟨[]⟩ "\x7b\"x\":-".toList ['1', '}'] := by
  have hkey : Json.SpellsString "x".toList ['x'] := Json.spellsString_self (by decide)
  have hskips : Json.SkipsAt decode.run ('{' :: '"' :: (['x'] ++ ['"', ':'])) :=
    skipsAt_member hkey (by decide)
  refine ⟨_, ['-'], ['1'], ['}'], _, by decide, rfl, .minus, spellsNumeral_minusOne,
    skips_of_skipsAt ?_ (.number spellsNumeral_minusOne) (.cons (.inr (.inr rfl)) []) hskips⟩
  exact ofJson_sampleNumber

/-- A text that ends in another character does not break off. -/
theorem not_breaksOff {d : Document} {p q : List Char} {c : Char} (hlast : p.getLast? = some c)
    (hc : c ∉ ['-', '.', 'e', 'E', '+']) : ¬BreaksOff d p q := by
  rintro ⟨front, n, m, back, numeral, rfl, -, hn, -, -⟩
  obtain ⟨c', hc', hlast'⟩ := hn.getLast?_mem
  rw [List.getLast?_append, hlast', Option.some_or] at hlast
  cases hlast
  exact hc hc'

/-- **A text that is cut off is never read as a smaller document.**  If a policy text has lost
    something other than white space at its end, then it has ended too early, unless the cut falls
    into a numeral that is skipped and breaks it off: such a text is malformed. -/
theorem ofJson_truncated {text : String} {d : Document} {p q : List Char} (h : ofJson text = .ok d)
    (hcut : text.toList = p ++ q) (hq : ¬IsGaps q) :
    (BreaksOff d p q → ofJson (String.ofList p) = .error .malformed) ∧
      (¬BreaksOff d p q → ofJson (String.ofList p) = .error .endOfText) := by
  refine ⟨BreaksOff.ofJson_eq, fun hwhole => ?_⟩
  have htext : text = String.ofList (p ++ q) := by rw [← hcut, String.ofList_toList]
  obtain ⟨rest, hrun, hrest⟩ := exists_run_of_read h
  rw [hcut] at hrun
  cases cuts_decode.cut hrun hrest.endsValue with
  | @behind c r _ hafter _ =>
    -- The document has been read in front of the cut, so only white space has been lost.
    refine absurd (fun c hc => hrest c ?_) hq
    rw [hafter]
    exact List.mem_append_right r hc
  | ended hend _ => exact ofJson_of_run_error hend
  | @broken front n m back numeral hp hm hn hnumeral hback hskips =>
    refine absurd ⟨front, n, m, back, numeral, hp, hm, hn, hnumeral, ?_⟩ hwhole
    refine skips_of_skipsAt ?_ (.number hnumeral) hback hskips
    rw [← h, htext, hp, hm]
    simp only [List.append_assoc]
  | shorter hshort => exact hshort.elim

/-- The sample has ended too early if it is cut off behind its only grant; the other one is malformed
    if it is cut off behind its minus sign. -/
theorem ofJson_truncated_samples :
    (ofJson sampleText = .ok sample ∧
        ofJson (String.ofList (sampleText.toList.dropLast.dropLast)) = .error .endOfText) ∧
      ofJson sampleNumber = .ok ⟨[]⟩ ∧ ofJson "\x7b\"x\":-" = .error .malformed := by
  have hsample : ofJson sampleText = .ok sample :=
    (reads_decode.read spellsText_sample sample).mpr denotes_sample
  refine ⟨⟨hsample, ?_⟩, ofJson_sampleNumber, ?_⟩
  · exact (ofJson_truncated (q := [']', '}']) hsample (by decide) (by simp [IsGaps, Json.isGap])).2
      (not_breaksOff (c := ']') (by decide) (by decide))
  · exact (ofJson_truncated (q := ['1', '}']) ofJson_sampleNumber (by decide)
      (by simp [IsGaps, Json.isGap])).1 breaksOff_sampleNumber

/-- A text that is cut off is not always one that has ended too early. -/
theorem ofJson_sampleNumber_cut :
    ofJson sampleNumber = .ok ⟨[]⟩ ∧
      sampleNumber.toList = "\x7b\"x\":-".toList ++ ['1', '}'] ∧ ¬IsGaps ['1', '}'] ∧
      ofJson (String.ofList "\x7b\"x\":-".toList) = .error .malformed :=
  ⟨ofJson_sampleNumber, by decide, by simp [IsGaps, Json.isGap], breaksOff_sampleNumber.ofJson_eq⟩

end Document

end Warden
