import Warden.Proofs.CommandLine.Giving

namespace Warden.CommandLine

/-!
# Values that are held

The value that an argument gives is what the option has at the end of its level, because what is held
stays so (`scan_holds`) and what is awaited comes next (`scan_awaited`).

* `Given`, `GivenAs` — an option that stands among the arguments, and the text of its value;
  `LastGivenAs` — the value that the last of these arguments gives.
* `Settings.Holds` — the value of an option is what its text is read as.
* `scan_givenAs` — the value that an argument gives is held at the end of the level.
* `ReadsAs.given_iff`, `ReadsAs.holds` — so a level has what is given in its arguments.
* `Invocation.policy_eq` — the path of the policy that is asked for.
-/

/-! ### Arguments -/

/-- An option is given by its long name somewhere among the arguments. -/
def Given (args : List String) (opt : Opt) : Prop :=
  ∃ arg ∈ args, ∃ attached, Look.of arg = .long opt.name attached

instance (look : Look) (name : String) : Decidable (∃ attached, look = .long name attached) :=
  match look with
  | .long name' attached => decidable_of_iff (name' = name) (by simp)
  | .separator => isFalse (by simp)
  | .letters _ => isFalse (by simp)
  | .plain => isFalse (by simp)

instance (args : List String) (opt : Opt) : Decidable (Given args opt) :=
  inferInstanceAs (Decidable (∃ arg ∈ args, _))

/-- An option is given with a text as its value: attached to the name, or as the next argument. -/
def GivenAs (args : List String) (opt : Opt) (text : String) : Prop :=
  ∃ arg after, (arg :: after) <:+ args ∧
    (Look.of arg = .long opt.name (some text) ∨
      Look.of arg = .long opt.name none ∧ after.head? = some text)

/-- The last of the arguments that give an option gives it with a text as its value. -/
def LastGivenAs (args : List String) (opt : Opt) (text : String) : Prop :=
  ∃ arg after, (arg :: after) <:+ args ∧
    (Look.of arg = .long opt.name (some text) ∨
      Look.of arg = .long opt.name none ∧ after.head? = some text) ∧ ¬ Given after opt

section Given

variable {front rest args : List String} {arg text : String} {opt : Opt}

theorem given_cons_iff :
    Given (arg :: args) opt ↔ (∃ attached, Look.of arg = .long opt.name attached) ∨ Given args opt := by
  simp [Given]

theorem given_append_iff : Given (front ++ rest) opt ↔ Given front opt ∨ Given rest opt := by
  simp [Given, or_and_right, exists_or]

/-- Of the arguments that give an option one is the last. -/
theorem Given.exists_last (h : Given args opt) :
    ∃ arg after attached, (arg :: after) <:+ args ∧ Look.of arg = .long opt.name attached ∧
      ¬ Given after opt := by
  induction args with
  | nil => simp [Given] at h
  | cons arg args ih =>
    by_cases hlater : Given args opt
    · obtain ⟨arg', after, attached, hsuffix, hlook, hlast⟩ := ih hlater
      exact ⟨arg', after, attached, hsuffix.trans (List.suffix_cons arg args), hlook, hlast⟩
    · obtain ⟨attached, hlook⟩ := (given_cons_iff.mp h).resolve_right hlater
      exact ⟨arg, args, attached, List.suffix_rfl, hlook, hlater⟩

theorem LastGivenAs.givenAs (h : LastGivenAs args opt text) : GivenAs args opt text := by
  obtain ⟨arg, after, hsuffix, htext, -⟩ := h
  exact ⟨arg, after, hsuffix, htext⟩

/-- Arguments in front make no difference. -/
theorem LastGivenAs.append_left (h : LastGivenAs rest opt text) (front : List String) :
    LastGivenAs (front ++ rest) opt text := by
  obtain ⟨arg, after, hsuffix, htext, hlast⟩ := h
  exact ⟨arg, after, hsuffix.trans (List.suffix_append front rest), htext, hlast⟩

/-- Arguments behind that do not give the option make no difference. -/
theorem LastGivenAs.append_right (h : LastGivenAs front opt text) (hrest : ¬ Given rest opt) :
    LastGivenAs (front ++ rest) opt text := by
  obtain ⟨arg, after, ⟨before, rfl⟩, htext, hlast⟩ := h
  refine ⟨arg, after ++ rest, ⟨before, by simp⟩, ?_, ?_⟩
  · refine htext.imp_right fun ⟨hlook, hhead⟩ => ⟨hlook, ?_⟩
    rw [List.head?_append, hhead, Option.some_or]
  · rw [given_append_iff]
    exact not_or.mpr ⟨hlast, hrest⟩

end Given

/-! ### Settings -/

namespace Settings

/-- The value of an option is what the text is read as. -/
def Holds (s : Settings) (opt : Opt) (text : String) : Prop :=
  match opt with
  | .policy => s.policy = some text
  | .role => ∃ role, Role.ofText? text = some role ∧ s.role = some role
  | .user => ∃ user, Text.readInt64 text.toList = some user ∧ s.user = some user
  | .action => ∃ action, Action.ofText? text = some action ∧ s.action = some action
  | .resource => s.resource = some text
  | .owner => ∃ owner, Text.readInt64 text.toList = some owner ∧ s.owner = some owner
  | _ => False

variable {s s' : Settings} {opt : Opt}

/-- What is held has been given. -/
theorem Holds.has {text : String} (h : s.Holds opt text) : s.has opt = true := by
  cases opt <;> simp only [Holds] at h <;> grind [has]

theorem readValue_eq_ok_iff {α : Type} {value? : Option α} {value : α} :
    readValue value? = .ok value ↔ value? = some value := by
  cases value? <;> simp [readValue]

/-- A value that is taken in is held, and what was held still is. -/
theorem holds_put {text : String} (h : s.put opt (some text) = .ok s') :
    s'.Holds opt text ∧ ∀ o t, s.Holds o t → s'.Holds o t := by
  simp only [put] at h
  split at h
  case isTrue => cases h
  case isFalse hnew =>
    -- What was held is about another option.
    have hother : ∀ {o t}, s.Holds o t → o ≠ opt := by
      rintro o t hheld rfl
      exact hnew hheld.has
    unfold assign at h
    split at h
    case h_1 =>
      obtain ⟨path, hpath, hs⟩ := bind_eq_ok_iff.mp h
      obtain rfl := Except.ok.inj hs
      unfold readPath at hpath
      split at hpath
      case isTrue => cases hpath
      case isFalse =>
        obtain rfl := Except.ok.inj hpath
        refine ⟨rfl, fun o t hheld => ?_⟩
        have := hother hheld
        cases o <;> first | exact hheld | contradiction
    case h_2 | h_3 | h_4 | h_6 =>
      obtain ⟨value, hvalue, hs⟩ := bind_eq_ok_iff.mp h
      obtain rfl := Except.ok.inj hs
      refine ⟨⟨value, readValue_eq_ok_iff.mp hvalue, rfl⟩, fun o t hheld => ?_⟩
      have := hother hheld
      cases o <;> first | exact hheld | contradiction
    case h_5 =>
      obtain rfl := Except.ok.inj h
      refine ⟨rfl, fun o t hheld => ?_⟩
      have := hother hheld
      cases o <;> first | exact hheld | contradiction
    case h_7 => cases h

theorem holds_raise (h : s.raise opt = .ok s') {o : Opt} {text : String} (hheld : s.Holds o text) :
    s'.Holds o text := by
  unfold raise at h
  split at h
  case isTrue => cases h
  case isFalse =>
    split at h
    case h_1 | h_2 =>
      obtain rfl := Except.ok.inj h
      cases o <;> exact hheld
    case h_3 => cases h

end Settings

/-! ### Progress -/

namespace Progress

/-- The value of an option is what the text is read as, or will be when it is taken in. -/
def Holds (p : Progress) (opt : Opt) (text : String) : Prop :=
  p.settings.Holds opt text ∨ p.pending = some (opt, some text)

variable {p next : Progress} {opt : Opt} {text : String}

theorem Holds.settle {s : Settings} (h : p.Holds opt text) (hs : p.settle = .ok s) :
    s.Holds opt text := by
  unfold Progress.settle at hs
  split at hs
  case h_1 hpending =>
    obtain rfl := Except.ok.inj hs
    exact h.resolve_right (by simp [hpending])
  case h_2 opt' value? hpending =>
    rcases h with h | h
    · cases value? with
      | none => cases hs
      | some value => exact (Settings.holds_put hs).2 opt text h
    · rw [hpending] at h
      cases h
      exact (Settings.holds_put hs).1

/-- Another text than the one that is awaited cannot be met in place of a value that is held. -/
theorem Holds.meetValue (h : p.Holds opt text) (hawaits : p.awaitsValue = true) (value : String) :
    (p.meetValue value).Holds opt text := by
  refine .inl (h.resolve_right fun hpending => ?_)
  simp [Progress.awaitsValue, hpending] at hawaits

theorem Holds.meetFlag {flag : Opt} (h : p.Holds opt text) (hnext : p.meetFlag flag = .ok next) :
    next.Holds opt text := by
  obtain ⟨s, hs, hraised⟩ := bind_eq_ok_iff.mp hnext
  obtain ⟨s', hs', hpure⟩ := bind_eq_ok_iff.mp hraised
  obtain rfl := Except.ok.inj hpure
  exact .inl (Settings.holds_raise hs' (h.settle hs))

theorem Holds.meetLetters {letters : List Char} (h : p.Holds opt text)
    (hnext : p.meetLetters letters = .ok next) : next.Holds opt text := by
  induction letters generalizing p with
  | nil =>
    obtain rfl := Except.ok.inj hnext
    exact h
  | cons letter letters ih =>
    unfold Progress.meetLetters at hnext
    split at hnext
    case h_1 => cases hnext
    case h_2 flag _ =>
      obtain ⟨p', hp', hothers⟩ := bind_eq_ok_iff.mp hnext
      exact ih (h.meetFlag hp') hothers

/-- Before another option is met, the pending one is taken in. -/
theorem exists_settle_of_meetFlag {flag : Opt} (hnext : p.meetFlag flag = .ok next) :
    ∃ s, p.settle = .ok s := by
  obtain ⟨s, hs, -⟩ := bind_eq_ok_iff.mp hnext
  exact ⟨s, hs⟩

theorem exists_settle_of_meetLetters {letters : List Char} (hne : letters ≠ [])
    (hnext : p.meetLetters letters = .ok next) : ∃ s, p.settle = .ok s := by
  cases letters with
  | nil => exact absurd rfl hne
  | cons letter letters =>
    unfold Progress.meetLetters at hnext
    split at hnext
    case h_1 => cases hnext
    case h_2 flag _ =>
      obtain ⟨p', hp', -⟩ := bind_eq_ok_iff.mp hnext
      exact exists_settle_of_meetFlag hp'

variable {level : Option CommandName} {name : String} {attached : Option String}

theorem exists_settle_of_meetLong (hnext : p.meetLong level name attached = .ok next) :
    ∃ s, p.settle = .ok s := by
  unfold Progress.meetLong at hnext
  split at hnext
  case h_1 => cases hnext
  case h_2 =>
    split at hnext
    case isTrue => cases hnext
    case isFalse =>
      obtain ⟨s, hs, -⟩ := bind_eq_ok_iff.mp hnext
      exact ⟨s, hs⟩
  case h_3 =>
    split at hnext
    case isTrue => exact exists_settle_of_meetFlag hnext
    case isFalse =>
      obtain ⟨s, hs, -⟩ := bind_eq_ok_iff.mp hnext
      exact ⟨s, hs⟩

theorem Holds.meetLong (h : p.Holds opt text) (hnext : p.meetLong level name attached = .ok next) :
    next.Holds opt text := by
  unfold Progress.meetLong at hnext
  split at hnext
  case h_1 => cases hnext
  case h_2 met value _ =>
    split at hnext
    case isTrue => cases hnext
    case isFalse =>
      obtain ⟨s, hs, hput⟩ := bind_eq_ok_iff.mp hnext
      obtain ⟨s', hs', hpure⟩ := bind_eq_ok_iff.mp hput
      obtain rfl := Except.ok.inj hpure
      exact .inl ((Settings.holds_put hs').2 opt text (h.settle hs))
  case h_3 met _ =>
    split at hnext
    case isTrue => exact h.meetFlag hnext
    case isFalse =>
      obtain ⟨s, hs, hpure⟩ := bind_eq_ok_iff.mp hnext
      obtain rfl := Except.ok.inj hpure
      exact .inl (h.settle hs)

/-- An option with a value is met with its value attached, and then held, or it waits for the
    value. -/
theorem meetLong_value (hnext : p.meetLong level name attached = .ok next)
    (hopt : Opt.ofName? level name = some opt) (hvalue : opt.isFlag = false) :
    match attached with
    | some text => next.Holds opt text
    | none => next.pending = some (opt, none) := by
  unfold Progress.meetLong at hnext
  rw [hopt] at hnext
  cases attached with
  | some text =>
    simp only [hvalue, Bool.false_eq_true, if_false] at hnext
    obtain ⟨s, hs, hput⟩ := bind_eq_ok_iff.mp hnext
    obtain ⟨s', hs', hpure⟩ := bind_eq_ok_iff.mp hput
    obtain rfl := Except.ok.inj hpure
    exact .inl (Settings.holds_put hs').1
  | none =>
    simp only [hvalue, Bool.false_eq_true, if_false] at hnext
    obtain ⟨s, hs, hpure⟩ := bind_eq_ok_iff.mp hnext
    obtain rfl := Except.ok.inj hpure
    rfl

end Progress

/-! ### Levels -/

section Levels

variable {level : Option CommandName} {p last : Progress} {args : List String} {opt : Opt}

/-- An argument of letters has a letter. -/
theorem letters_ne_nil {arg : String} {letters : List Char} (h : Look.of arg = .letters letters) :
    letters ≠ [] := by
  unfold Look.of at h
  split at h
  case h_2 => split at h <;> cases h
  case h_3 =>
    cases h
    exact List.cons_ne_nil _ _
  all_goals cases h

/-- What is held stays so to the end of the level. -/
theorem scan_holds {text : String} (h : scan level p args = .ok (last, none))
    (hheld : p.Holds opt text) : last.Holds opt text := by
  fun_induction scan level p args with
  | case1 p =>
    cases h
    exact hheld
  | case4 p arg command? hcommand hhelp hlook =>
    cases h
    exact hheld
  | case7 p arg rest command? hcommand hhelp name attached hlook p' hp' ih =>
    exact ih h (hheld.meetLong hp')
  | case9 p arg rest command? hcommand hhelp letters hlook p' hp' ih =>
    exact ih h (hheld.meetLetters hp')
  | case10 p arg rest command? hcommand hhelp hlook hawaits ih =>
    exact ih h (hheld.meetValue hawaits arg)
  | _ => cases h

/-- The value that is awaited is the next argument: nothing else lets the pending option be taken
    in. -/
theorem scan_awaited {s : Settings} (h : scan level p args = .ok (last, none))
    (hs : last.settle = .ok s) (hpending : p.pending = some (opt, none)) :
    ∃ text, args.head? = some text ∧ last.Holds opt text := by
  have hawaits : p.awaitsValue = true := by simp [Progress.awaitsValue, hpending]
  have hsettle : ¬ ∃ s, p.settle = .ok s := by
    simp [Progress.settle, hpending, Settings.put]
  fun_induction scan level p args with
  | case1 p =>
    cases h
    exact absurd ⟨s, hs⟩ hsettle
  | case4 p arg command? hcommand hhelp hlook =>
    cases h
    exact absurd ⟨s, hs⟩ hsettle
  | case7 p arg rest command? hcommand hhelp name attached hlook p' hp' =>
    exact absurd (Progress.exists_settle_of_meetLong hp') hsettle
  | case9 p arg rest command? hcommand hhelp letters hlook p' hp' =>
    exact absurd (Progress.exists_settle_of_meetLetters (letters_ne_nil hlook) hp') hsettle
  | case10 p text rest command? hcommand hhelp hlook _ =>
    exact ⟨text, rfl, scan_holds h (.inr (by simp [Progress.meetValue, hpending]))⟩
  | _ => cases h

/-- **Values.**  Where an argument gives an option that has a value, the value stands there, attached
    or as the next argument, and at the end of the level it is held. -/
theorem scan_givenAs {s : Settings} (h : scan level p args = .ok (last, none))
    (hs : last.settle = .ok s) (hvalue : opt.isFlag = false) {arg : String} {after : List String}
    (hsuffix : (arg :: after) <:+ args) {name : String} {attached : Option String}
    (hlook : Look.of arg = .long name attached) (hopt : Opt.ofName? level name = some opt) :
    ∃ text, (attached = some text ∨ attached = none ∧ after.head? = some text) ∧
      last.Holds opt text := by
  -- The argument itself is the one that is read in the case of a long name.
  have hbehind : ∀ {arg' rest}, (arg :: after) <:+ arg' :: rest → Look.of arg' ≠ .long name attached →
      (arg :: after) <:+ rest := by
    intro arg' rest hsuffix hother
    refine (List.suffix_cons_iff.mp hsuffix).resolve_left fun heq => ?_
    obtain ⟨rfl, rfl⟩ := List.cons.inj heq
    exact hother hlook
  fun_induction scan level p args with
  | case1 p =>
    cases List.eq_nil_of_suffix_nil hsuffix
  | case4 p arg' command? hcommand hhelp hlook' =>
    cases List.eq_nil_of_suffix_nil (hbehind hsuffix (by simp [hlook']))
  | case7 p arg' rest command? hcommand hhelp name' attached' hlook' p' hp' ih =>
    rcases List.suffix_cons_iff.mp hsuffix with heq | hrest
    · obtain ⟨rfl, rfl⟩ := List.cons.inj heq
      obtain ⟨rfl, rfl⟩ := Look.long.inj (hlook.symm.trans hlook')
      have hmet := Progress.meetLong_value hp' hopt hvalue
      cases attached with
      | some text => exact ⟨text, .inl rfl, scan_holds h hmet⟩
      | none =>
        obtain ⟨text, hnext, hheld⟩ := scan_awaited h hs hmet
        exact ⟨text, .inr ⟨rfl, hnext⟩, hheld⟩
    · exact ih h hrest
  | case9 p arg' rest command? hcommand hhelp letters hlook' p' hp' ih =>
    exact ih h (hbehind hsuffix (by simp [hlook']))
  | case10 p arg' rest command? hcommand hhelp hlook' hawaits ih =>
    exact ih h (hbehind hsuffix (by simp [hlook']))
  | _ => cases h

/-- The long names at a level that is read are those of options known there. -/
theorem scan_known (h : scan level p args = .ok (last, none)) {arg : String} (harg : arg ∈ args)
    {name : String} {attached : Option String} (hlook : Look.of arg = .long name attached) :
    ∃ opt, Opt.ofName? level name = some opt := by
  fun_induction scan level p args with
  | case1 p => cases harg
  | case4 p arg' command? hcommand hhelp hlook' =>
    obtain rfl := List.mem_singleton.mp harg
    cases hlook.symm.trans hlook'
  | case7 p arg' rest command? hcommand hhelp name' attached' hlook' p' hp' ih =>
    rcases List.mem_cons.mp harg with rfl | harg
    · obtain ⟨rfl, rfl⟩ := Look.long.inj (hlook.symm.trans hlook')
      cases hopt : Opt.ofName? level name with
      | none => simp [Progress.meetLong, hopt] at hp'
      | some opt => exact ⟨opt, rfl⟩
    · exact ih h harg
  | case9 p arg' rest command? hcommand hhelp letters hlook' p' hp' ih =>
    rcases List.mem_cons.mp harg with rfl | harg
    · cases hlook.symm.trans hlook'
    · exact ih h harg
  | case10 p arg' rest command? hcommand hhelp hlook' hawaits ih =>
    rcases List.mem_cons.mp harg with rfl | harg
    · cases hlook.symm.trans hlook'
    · exact ih h harg
  | _ => cases h

end Levels

/-! ### Levels that are read as settings -/

section ReadsAs

variable {level : Option CommandName} {args : List String} {s : Settings} {opt : Opt}
  (h : ReadsAs level args s) (hknown : opt ∈ Opt.known level)

include h hknown

/-- The settings of a level have an option that has no letter if it is given there. -/
theorem ReadsAs.given_iff (hverbose : opt ≠ .verbose) (hhelp : opt ≠ .help) :
    s.has opt = true ↔ Given args opt := by
  rw [h.has_iff]
  exact exists_congr fun arg => and_congr_right fun _ => gives_iff hknown hverbose hhelp

/-- An option with a value that is given at a level is given with a value, which is held there. -/
theorem ReadsAs.exists_lastGivenAs (hvalue : opt.isFlag = false) (hgiven : Given args opt) :
    ∃ text, LastGivenAs args opt text ∧ s.Holds opt text := by
  obtain ⟨last, hlast, hs⟩ := h
  obtain ⟨arg, after, attached, hsuffix, hlook, hnone⟩ := hgiven.exists_last
  obtain ⟨text, htext, hheld⟩ := scan_givenAs hlast hs hvalue hsuffix hlook
    (ofName?_eq_some_iff.mpr ⟨hknown, rfl⟩)
  refine ⟨text, ⟨arg, after, hsuffix, ?_, hnone⟩, hheld.settle hs⟩
  rcases htext with rfl | ⟨rfl, hnext⟩
  · exact .inl hlook
  · exact .inr ⟨hlook, hnext⟩

/-- A value that is given at a level is held there. -/
theorem ReadsAs.holds (hvalue : opt.isFlag = false) {text : String}
    (hgiven : GivenAs args opt text) : s.Holds opt text := by
  obtain ⟨last, hlast, hs⟩ := h
  have hopt : Opt.ofName? level opt.name = some opt := ofName?_eq_some_iff.mpr ⟨hknown, rfl⟩
  obtain ⟨arg, after, hsuffix, hlook | ⟨hlook, hnext⟩⟩ := hgiven
  · obtain ⟨text', htext | ⟨htext, -⟩, hheld⟩ := scan_givenAs hlast hs hvalue hsuffix hlook hopt
    · obtain rfl := Option.some.inj htext
      exact hheld.settle hs
    · cases htext
  · obtain ⟨text', htext | ⟨-, hnext'⟩, hheld⟩ := scan_givenAs hlast hs hvalue hsuffix hlook hopt
    · cases htext
    · obtain rfl := Option.some.inj (hnext.symm.trans hnext')
      exact hheld.settle hs

end ReadsAs

/-! ### The path of the policy -/

namespace Invocation

variable {fallback : Option String} {args : List String} {i : Invocation}

theorem policy_mem_known (level : Option CommandName) : .policy ∈ Opt.known level := by
  rcases level with _ | _ | _ | _ <;> decide

/-- A level has no policy if none is given there. -/
theorem policy_eq_none_of_not_given {level : Option CommandName} {s : Settings}
    (h : ReadsAs level args s) (hnone : ¬ Given args .policy) : s.policy = none := by
  have hhas := (h.given_iff (policy_mem_known level) (by decide) (by decide)).not.mpr hnone
  simpa [Settings.has] using hhas

/-- The policy that is asked for is the one that the last of the arguments gives, and that of the
    environment if no argument gives one. -/
theorem policy_eq (h : ofArguments fallback args = .ok i) :
    (Given args .policy → ∃ path, i.policy = some path ∧ LastGivenAs args .policy path) ∧
      (¬ Given args .policy → i.policy = fallback) := by
  obtain ⟨front, word, name, rest, ahead, behind, rfl, hword, hfront, hrest, -, hpolicy⟩ :=
    exists_levels h
  have hgiven : Given (front ++ word :: rest) .policy ↔ Given front .policy ∨ Given rest .policy := by
    simp [given_append_iff, given_cons_iff, look_of_ofName? hword]
  rw [hpolicy, hgiven]
  by_cases hbehind : Given rest .policy
  · refine ⟨fun _ => ?_, fun hnone => absurd (.inr hbehind) hnone⟩
    obtain ⟨path, hlast, hheld : behind.policy = some path⟩ :=
      hrest.exists_lastGivenAs (policy_mem_known _) rfl hbehind
    refine ⟨path, by rw [hheld]; rfl, ?_⟩
    rw [List.append_cons]
    exact hlast.append_left _
  · rw [policy_eq_none_of_not_given hrest hbehind]
    refine ⟨fun hahead => ?_, fun hnone => ?_⟩
    · obtain ⟨path, hlast, hheld : ahead.policy = some path⟩ :=
        hfront.exists_lastGivenAs (policy_mem_known _) rfl (hahead.resolve_right hbehind)
      refine ⟨path, by rw [hheld]; rfl, hlast.append_right ?_⟩
      simpa [given_cons_iff, look_of_ofName? hword] using hbehind
    · rw [policy_eq_none_of_not_given hfront (not_or.mp hnone).1]
      rfl

end Invocation

end Warden.CommandLine
