import Warden.CommandLine.Arguments
import Warden.Proofs.Policy.Granting

namespace Warden.CommandLine

/-!
# Options that are given

An option that stands among the arguments cannot get lost, and none comes from nowhere: what has
been given at the end of a level is what its arguments give.

* `Settings.has_put_iff`, `Settings.has_raise_iff` — taking in an option.
* `Progress.Has` — an option is pending or taken in; `Progress.has_meetLong_iff` and its like say which
  options have been met after an argument.
* `scan_split` — a level that ends with a command, as the level of the arguments in front of it.
* `scan_has_iff` — one level.
* `Invocation.exists_levels` — the levels of arguments that are accepted.
-/

/-! ### Settings -/

namespace Settings

variable {s s' : Settings} {opt : Opt}

/-- Taking in the value of an option gives this option and no other one. -/
theorem has_assign_iff {value : String} (h : s.assign opt value = .ok s') (o : Opt) :
    s'.has o = true ↔ o = opt ∨ s.has o = true := by
  unfold assign at h
  split at h
  case h_1 | h_2 | h_3 | h_4 | h_6 =>
    obtain ⟨_, -, hs⟩ := bind_eq_ok_iff.mp h
    obtain rfl := Except.ok.inj hs
    cases o <;> simp [has]
  case h_5 =>
    obtain rfl := Except.ok.inj h
    cases o <;> simp [has]
  case h_7 => cases h

theorem has_put_iff {value? : Option String} (h : s.put opt value? = .ok s') (o : Opt) :
    s'.has o = true ↔ o = opt ∨ s.has o = true := by
  cases value? with
  | none => cases h
  | some value =>
    simp only [put] at h
    split at h
    case isTrue => cases h
    case isFalse => exact has_assign_iff h o

/-- Taking in a flag gives this flag and no other option. -/
theorem has_raise_iff (h : s.raise opt = .ok s') (o : Opt) :
    s'.has o = true ↔ o = opt ∨ s.has o = true := by
  unfold raise at h
  split at h
  case isTrue => cases h
  case isFalse =>
    split at h
    case h_1 | h_2 =>
      obtain rfl := Except.ok.inj h
      cases o <;> simp [has]
    case h_3 => cases h

end Settings

/-! ### Progress -/

namespace Progress

/-- An option has been met: it was taken in, or it is pending. -/
def Has (p : Progress) (opt : Opt) : Prop :=
  p.settings.has opt = true ∨ p.pending.map Prod.fst = some opt

variable {p next : Progress}

/-- What is given once the pending option is taken in is what has been met. -/
theorem has_settle_iff {s : Settings} (hs : p.settle = .ok s) (opt : Opt) :
    s.has opt = true ↔ p.Has opt := by
  unfold Progress.settle at hs
  split at hs
  case h_1 hpending =>
    obtain rfl := Except.ok.inj hs
    simp [Has, hpending]
  case h_2 opt' value? hpending =>
    rw [Settings.has_put_iff hs, Has, hpending, or_comm, Option.map_some, Option.some.injEq,
      @eq_comm _ opt]

theorem has_meetValue_iff (value : String) (opt : Opt) :
    (p.meetValue value).Has opt ↔ p.Has opt := by
  simp [Has, Progress.meetValue, Function.comp_def]

/-- When a flag has been met, it has been met beside the options met before it. -/
theorem has_meetFlag_iff {flag : Opt} (hnext : p.meetFlag flag = .ok next) (opt : Opt) :
    next.Has opt ↔ opt = flag ∨ p.Has opt := by
  obtain ⟨s, hs, hraised⟩ := bind_eq_ok_iff.mp hnext
  obtain ⟨s', hs', hpure⟩ := bind_eq_ok_iff.mp hraised
  obtain rfl := Except.ok.inj hpure
  rw [← has_settle_iff hs, ← Settings.has_raise_iff hs']
  simp [Has]

theorem has_meetLetters_iff {letters : List Char} (hnext : p.meetLetters letters = .ok next)
    (opt : Opt) :
    next.Has opt ↔ (∃ letter ∈ letters, Opt.ofLetter? letter = some opt) ∨ p.Has opt := by
  induction letters generalizing p with
  | nil =>
    obtain rfl := Except.ok.inj hnext
    simp
  | cons letter letters ih =>
    unfold Progress.meetLetters at hnext
    split at hnext
    case h_1 => cases hnext
    case h_2 flag hflag =>
      obtain ⟨p', hp', hothers⟩ := bind_eq_ok_iff.mp hnext
      have hfirst : opt = flag ↔ Opt.ofLetter? letter = some opt := by
        rw [hflag, Option.some.injEq, eq_comm]
      rw [ih hothers, has_meetFlag_iff hp', hfirst, ← or_assoc, or_comm (b := _ = _)]
      simp only [List.mem_cons, exists_eq_or_imp, or_assoc]

variable {level : Option CommandName} {name : String} {attached : Option String}

/-- When an option has been met by its long name, it has been met beside those met before it. -/
theorem has_meetLong_iff (hnext : p.meetLong level name attached = .ok next) (opt : Opt) :
    next.Has opt ↔ Opt.ofName? level name = some opt ∨ p.Has opt := by
  unfold meetLong at hnext
  split at hnext
  case h_1 => cases hnext
  case h_2 met value hmet =>
    split at hnext
    case isTrue => cases hnext
    case isFalse =>
      obtain ⟨s, hs, hput⟩ := bind_eq_ok_iff.mp hnext
      obtain ⟨s', hs', hpure⟩ := bind_eq_ok_iff.mp hput
      obtain rfl := Except.ok.inj hpure
      rw [hmet, Option.some.injEq, eq_comm, ← has_settle_iff hs, ← Settings.has_put_iff hs']
      simp [Has]
  case h_3 met hmet =>
    rw [hmet, Option.some.injEq, @eq_comm _ met]
    split at hnext
    case isTrue => exact has_meetFlag_iff hnext opt
    case isFalse =>
      obtain ⟨s, hs, hpure⟩ := bind_eq_ok_iff.mp hnext
      obtain rfl := Except.ok.inj hpure
      rw [← has_settle_iff hs, or_comm, Has, Option.map_some, Option.some.injEq,
        @eq_comm _ opt]

end Progress

/-! ### Levels -/

/-- An argument gives an option: by its long name, with its value attached or apart from it, or by
    its letter. -/
def Gives (level : Option CommandName) (arg : String) (opt : Opt) : Prop :=
  match Look.of arg with
  | .long name _ => Opt.ofName? level name = some opt
  | .letters letters => ∃ letter ∈ letters, Opt.ofLetter? letter = some opt
  | _ => False

/-- A level that ends with a command is read like the arguments in front of the command alone. -/
theorem scan_split {level : Option CommandName} {p last : Progress} {args rest : List String}
    {command : CommandName} (h : scan level p args = .ok (last, some (command, rest))) :
    level = none ∧ ∃ front word, args = front ++ word :: rest ∧
      CommandName.ofName? word = some command ∧ scan level p front = .ok (last, none) := by
  fun_induction scan level p args with
  | case2 p word rest' command? command' hcommand =>
    -- A command is looked for at the level in front of it only.
    obtain ⟨⟨hlevel, -⟩, hname⟩ : (level = none ∧ p.awaitsValue = false) ∧
        CommandName.ofName? word = some command' := by
      simpa [command?] using hcommand
    cases h
    exact ⟨hlevel, [], word, rfl, hname, by rw [scan]⟩
  | case7 p arg rest' command? hcommand hhelp name attached hlook p' hp' ih =>
    obtain ⟨hlevel, front, word, rfl, hname, hfront⟩ := ih h
    refine ⟨hlevel, arg :: front, word, rfl, hname, ?_⟩
    simp only [scan, show (if _ then _ else _) = none from hcommand, if_neg hhelp, hlook, hp', hfront]
  | case9 p arg rest' command? hcommand hhelp letters hlook p' hp' ih =>
    obtain ⟨hlevel, front, word, rfl, hname, hfront⟩ := ih h
    refine ⟨hlevel, arg :: front, word, rfl, hname, ?_⟩
    simp only [scan, show (if _ then _ else _) = none from hcommand, if_neg hhelp, hlook, hp', hfront]
  | case10 p arg rest' command? hcommand hhelp hlook hawaits ih =>
    obtain ⟨hlevel, front, word, rfl, hname, hfront⟩ := ih h
    refine ⟨hlevel, arg :: front, word, rfl, hname, ?_⟩
    simp only [scan, show (if _ then _ else _) = none from hcommand, if_neg hhelp, hlook,
      if_pos hawaits, hfront]
  | _ => cases h

/-- What has been met at the end of a level is what was met before it, and what its arguments
    give. -/
theorem scan_has_iff {level : Option CommandName} {p last : Progress} {args : List String}
    (h : scan level p args = .ok (last, none)) (opt : Opt) :
    last.Has opt ↔ p.Has opt ∨ ∃ arg ∈ args, Gives level arg opt := by
  fun_induction scan level p args with
  | case1 p =>
    cases h
    simp
  | case4 p arg command? hcommand hhelp hlook =>
    cases h
    simp [Gives, hlook]
  | case7 p arg rest command? hcommand hhelp name attached hlook p' hp' ih =>
    have hgives : Opt.ofName? level name = some opt ↔ Gives level arg opt := by
      rw [Gives, hlook]
    rw [ih h, Progress.has_meetLong_iff hp', hgives]
    simp only [List.mem_cons, exists_eq_or_imp, or_assoc]
    exact or_left_comm
  | case9 p arg rest command? hcommand hhelp letters hlook p' hp' ih =>
    have hgives : (∃ letter ∈ letters, Opt.ofLetter? letter = some opt) ↔ Gives level arg opt := by
      rw [Gives, hlook]
    rw [ih h, Progress.has_meetLetters_iff hp', hgives]
    simp only [List.mem_cons, exists_eq_or_imp, or_assoc]
    exact or_left_comm
  | case10 p arg rest command? hcommand hhelp hlook hawaits ih =>
    have hgives : ¬ Gives level arg opt := by
      rw [Gives, hlook]
      exact id
    rw [ih h, Progress.has_meetValue_iff]
    simp only [List.mem_cons, exists_eq_or_imp, hgives, false_or]
  | _ => cases h

/-- The option with a given long name is the known one that is so named. -/
theorem ofName?_eq_some_iff {level : Option CommandName} {name : String} {opt : Opt} :
    Opt.ofName? level name = some opt ↔ opt ∈ Opt.known level ∧ opt.name = name := by
  constructor
  · intro h
    have hname := List.find?_some h
    exact ⟨List.mem_of_find?_eq_some h, by simpa using hname⟩
  · rintro ⟨hknown, rfl⟩
    rcases level with _ | _ | _ | _ <;> cases opt <;> revert hknown <;> decide +kernel

/-- An option that has no letter is given by its long name only. -/
theorem gives_iff {level : Option CommandName} {arg : String} {opt : Opt}
    (hknown : opt ∈ Opt.known level) (hverbose : opt ≠ .verbose) (hhelp : opt ≠ .help) :
    Gives level arg opt ↔ ∃ attached, Look.of arg = .long opt.name attached := by
  have hletter : ∀ letter, Opt.ofLetter? letter ≠ some opt := by
    intro letter
    unfold Opt.ofLetter?
    grind
  unfold Gives
  split
  case h_1 name attached hlook =>
    rw [ofName?_eq_some_iff, hlook]
    simp [hknown, eq_comm]
  case h_2 letters hlook =>
    rw [hlook]
    simp [hletter]
  case h_3 hlong hletters =>
    refine ⟨False.elim, ?_⟩
    rintro ⟨attached, hlook⟩
    exact hlong _ _ hlook

/-- The arguments of a level are read as the settings. -/
def ReadsAs (level : Option CommandName) (args : List String) (s : Settings) : Prop :=
  ∃ last, scan level {} args = .ok (last, none) ∧ last.settle = .ok s

/-- The settings of a level have what its arguments give. -/
theorem ReadsAs.has_iff {level : Option CommandName} {args : List String} {s : Settings}
    (h : ReadsAs level args s) (opt : Opt) :
    s.has opt = true ↔ ∃ arg ∈ args, Gives level arg opt := by
  obtain ⟨last, hlast, hs⟩ := h
  have hnone : ¬ Progress.Has {} opt := by
    cases opt <;> simp [Progress.Has, Settings.has]
  rw [Progress.has_settle_iff hs, scan_has_iff hlast, or_iff_right hnone]

/-! ### Invocations -/

/-- A level that ends is read as the settings with its pending option taken in. -/
theorem readsAs_of_finish {level : Option CommandName} {args : List String} {last : Progress}
    {fallback : Option String} {s : Settings} (h : scan level {} args = .ok (last, none))
    (hs : last.finish fallback = .ok s) : ReadsAs level args s := by
  obtain ⟨s', hs', hok⟩ := bind_eq_ok_iff.mp hs
  split at hok
  case isTrue => cases hok
  case isFalse =>
    obtain rfl := Except.ok.inj hok
    exact ⟨last, h, hs'⟩

namespace Invocation

variable {fallback : Option String} {args : List String} {i : Invocation}

/-- Arguments that are accepted are those of a level, the name of a command, and those of the level
    behind it. -/
theorem exists_levels (h : ofArguments fallback args = .ok i) :
    ∃ front word name rest ahead behind, args = front ++ word :: rest ∧
      CommandName.ofName? word = some name ∧ ReadsAs none front ahead ∧
      ReadsAs (some name) rest behind ∧ name.command behind = .ok i.command ∧
      i.policy = (behind.policy <|> ahead.policy <|> fallback) := by
  obtain ⟨⟨first, next⟩, hfirst, h⟩ := bind_eq_ok_iff.mp h
  cases next with
  | none =>
    obtain ⟨settings, -, herror⟩ := bind_eq_ok_iff.mp h
    split at herror <;> cases herror
  | some called =>
    obtain ⟨name, rest⟩ := called
    obtain ⟨⟨back, next'⟩, hback, h⟩ := bind_eq_ok_iff.mp h
    obtain ⟨behind, hbehind, h⟩ := bind_eq_ok_iff.mp h
    obtain ⟨command, hcommand, h⟩ := bind_eq_ok_iff.mp h
    obtain ⟨ahead, hahead, h⟩ := bind_eq_ok_iff.mp h
    obtain rfl := Except.ok.inj h
    obtain ⟨-, front, word, rfl, hword, hfront⟩ := scan_split hfirst
    -- Behind a command no other one is met.
    obtain rfl : next' = none := by
      cases next' with
      | none => rfl
      | some called => cases (scan_split hback).1
    exact ⟨front, word, name, rest, ahead, behind, rfl, hword, readsAs_of_finish hfront hahead,
      readsAs_of_finish hback hbehind, hcommand, rfl⟩

/-- The name of a command does not look like an option. -/
theorem look_of_ofName? {word : String} {command : CommandName}
    (h : CommandName.ofName? word = some command) : Look.of word = .plain := by
  have hnames : word = "check" ∨ word = "list" ∨ word = "export" := by
    unfold CommandName.ofName? at h
    grind
  rcases hnames with rfl | rfl | rfl <;> decide +kernel

end Invocation

end Warden.CommandLine
