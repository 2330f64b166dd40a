import Warden.Proofs.CommandLine.Deciding
import Warden.Proofs.CommandLine.Holding

namespace Warden.CommandLine

/-!
# Checks as they were asked for

A check is made as the arguments say it, whatever their order and however the values are written.

* `suffix_of_readsAs` — what is known only behind the command is given there.
* `Tells` — what the arguments say about an option, by what its text is read as.
* `check_as_asked` — which check is made for the arguments that are accepted.
-/

/-! ### The level behind the command -/

theorem mem_known_check (opt : Opt) : opt ∈ Opt.known (some .check) := by
  cases opt <;> decide

/-- An option that is not known in front of a command is not given there: an argument with its
    long name stands behind the name of the command. -/
theorem suffix_of_readsAs {front rest after : List String} {word arg : String} {name : CommandName}
    {opt : Opt} {ahead : Settings} (hfront : ReadsAs none front ahead)
    (hword : CommandName.ofName? word = some name) (hopt : opt ∉ Opt.known none)
    {attached : Option String} (hlook : Look.of arg = .long opt.name attached)
    (h : (arg :: after) <:+ front ++ word :: rest) : (arg :: after) <:+ rest := by
  obtain ⟨last, hlast, -⟩ := hfront
  have hmem : arg ∉ front := by
    intro harg
    obtain ⟨opt', hopt'⟩ := scan_known hlast harg hlook
    obtain ⟨hknown, hname⟩ := ofName?_eq_some_iff.mp hopt'
    have hnamed : ∀ o : Opt, o.name = opt.name → Opt.ofName? (some .check) opt.name = some o :=
      fun o ho => ofName?_eq_some_iff.mpr ⟨mem_known_check o, ho⟩
    have hsame : opt' = opt := Option.some.inj ((hnamed opt' hname).symm.trans (hnamed opt rfl))
    exact hopt (hsame ▸ hknown)
  clear hlast
  induction front with
  | nil =>
    refine (List.suffix_cons_iff.mp h).resolve_left fun heq => ?_
    obtain ⟨rfl, -⟩ := List.cons.inj heq
    cases hlook.symm.trans (Invocation.look_of_ofName? hword)
  | cons arg' front ih =>
    rw [List.mem_cons, not_or] at hmem
    refine ih ((List.suffix_cons_iff.mp h).resolve_left fun heq => ?_) hmem.2
    exact hmem.1 (List.cons.inj heq).1

/-! ### Requests -/

/-- What the arguments say about an option that has a value: nothing if it is not given, and else a
    value as which each text given for it is read. -/
def Tells {α : Type} (args : List String) (opt : Opt) (read : String → Option α) : Option α → Prop
  | none => ¬ Given args opt
  | some value =>
      (∃ text, GivenAs args opt text) ∧ ∀ text, GivenAs args opt text → read text = some value

theorem Tells.isSome_iff {α : Type} {args : List String} {opt : Opt} {read : String → Option α}
    {value? : Option α} (h : Tells args opt read value?) : value?.isSome = true ↔ Given args opt := by
  cases value? with
  | none => exact iff_of_false (by simp) h
  | some value =>
    obtain ⟨⟨text, arg, after, hsuffix, hgiven⟩, -⟩ := h
    have hlook : ∃ attached, Look.of arg = .long opt.name attached :=
      hgiven.elim (fun hlook => ⟨_, hlook⟩) (fun hlook => ⟨_, hlook.1⟩)
    exact iff_of_true rfl ⟨arg, hsuffix.subset List.mem_cons_self, hlook⟩

/-- A user by the numeral. -/
def readUser (text : String) : Option UserId :=
  Text.readInt64 text.toList

/-- The arguments ask for a check. -/
structure CheckRequest.AskedBy (c : CheckRequest) (args : List String) : Prop where
  role : Tells args .role Role.ofText? c.role
  user : ∃ user?, Tells args .user readUser user? ∧ c.user = user?.getD 0
  action : Tells args .action Action.ofText? (some c.action)
  resource : Tells args .resource some (some c.resource)
  owner : Tells args .owner readUser c.owner
  anonymous : c.anonymous = true ↔ Given args .anonymous
  subject : c.role.isSome = true ↔ c.anonymous = false

/-- What the settings of the level behind the command hold is what its arguments tell. -/
theorem ReadsAs.tells {α : Type} {args : List String} {s : Settings} {opt : Opt}
    {read : String → Option α} {value? : Option α} (h : ReadsAs (some .check) args s)
    (hvalue : opt.isFlag = false) (hhas : s.has opt = value?.isSome)
    (hheld : ∀ text, s.Holds opt text → read text = value?) : Tells args opt read value? := by
  have hgiven : s.has opt = true ↔ Given args opt :=
    h.given_iff (mem_known_check opt) (by rintro rfl; cases hvalue) (by rintro rfl; cases hvalue)
  cases value? with
  | none => exact fun hg => by simp [hgiven.mpr hg] at hhas
  | some value =>
    have hsome : s.has opt = true := hhas.trans rfl
    obtain ⟨text, hlast, -⟩ := h.exists_lastGivenAs (mem_known_check opt) hvalue (hgiven.mp hsome)
    refine ⟨⟨text, hlast.givenAs⟩, fun text htext => ?_⟩
    exact hheld text (h.holds (mem_known_check opt) hvalue htext)

/-- The request that is made up of the settings is the one that the arguments ask for. -/
theorem askedBy_of_checkRequest {args : List String} {s : Settings} {c : CheckRequest}
    (h : ReadsAs (some .check) args s) (hc : s.checkRequest = .ok c) : c.AskedBy args := by
  unfold Settings.checkRequest at hc
  split at hc
  case isTrue => cases hc
  case isFalse hboth =>
    split at hc
    case isTrue => cases hc
    case isFalse hneither =>
      split at hc
      case h_1 action kind haction hkind =>
        obtain rfl := Except.ok.inj hc
        have hanonymous : s.has .anonymous = true ↔ Given args .anonymous :=
          h.given_iff (mem_known_check _) (by decide) (by decide)
        exact
          { role := h.tells rfl rfl (by simp +contextual [Settings.Holds])
            user := ⟨s.user, h.tells rfl rfl (by simp +contextual [Settings.Holds, readUser]), rfl⟩
            action := h.tells rfl (by simp [Settings.has, haction])
              (by simp +contextual [Settings.Holds, haction])
            resource := h.tells rfl (by simp [Settings.has, hkind])
              (by simp +contextual [Settings.Holds, hkind])
            owner := h.tells rfl rfl (by simp +contextual [Settings.Holds, readUser])
            anonymous := hanonymous
            subject := by grind }
      case h_2 => cases hc

section Lists

variable {front rest : List String} {word : String} {opt : Opt} {name : CommandName}
  {ahead : Settings}

/-- An option that is not known in front of the command is given behind it. -/
theorem given_levels_iff (hfront : ReadsAs none front ahead)
    (hword : CommandName.ofName? word = some name) (hopt : opt ∉ Opt.known none) :
    Given (front ++ word :: rest) opt ↔ Given rest opt := by
  constructor
  · rintro ⟨arg, harg, attached, hlook⟩
    obtain ⟨before, after, hsplit⟩ := List.append_of_mem harg
    have hsuffix := suffix_of_readsAs hfront hword hopt hlook ⟨before, hsplit.symm⟩
    exact ⟨arg, hsuffix.subset List.mem_cons_self, attached, hlook⟩
  · rintro ⟨arg, harg, hlook⟩
    exact ⟨arg, List.mem_append_right front (List.mem_cons_of_mem word harg), hlook⟩

theorem givenAs_levels_iff (hfront : ReadsAs none front ahead)
    (hword : CommandName.ofName? word = some name) (hopt : opt ∉ Opt.known none) (text : String) :
    GivenAs (front ++ word :: rest) opt text ↔ GivenAs rest opt text := by
  constructor
  · rintro ⟨arg, after, hsuffix, hgiven⟩
    obtain ⟨attached, hlook⟩ : ∃ attached, Look.of arg = .long opt.name attached :=
      hgiven.elim (fun hlook => ⟨_, hlook⟩) (fun hlook => ⟨_, hlook.1⟩)
    exact ⟨arg, after, suffix_of_readsAs hfront hword hopt hlook hsuffix, hgiven⟩
  · rintro ⟨arg, after, hsuffix, hgiven⟩
    have hbehind : rest <:+ front ++ word :: rest :=
      (List.suffix_cons word rest).trans (List.suffix_append front _)
    exact ⟨arg, after, hsuffix.trans hbehind, hgiven⟩

theorem tells_levels_iff (hfront : ReadsAs none front ahead)
    (hword : CommandName.ofName? word = some name) (hopt : opt ∉ Opt.known none) {α : Type}
    (read : String → Option α) (value? : Option α) :
    Tells (front ++ word :: rest) opt read value? ↔ Tells rest opt read value? := by
  cases value? with
  | none => exact not_congr (given_levels_iff hfront hword hopt)
  | some value => simp only [Tells, givenAs_levels_iff hfront hword hopt]

/-- A request that the arguments behind a command ask for is asked for by all the arguments. -/
theorem CheckRequest.AskedBy.append {c : CheckRequest} (h : c.AskedBy rest)
    (hfront : ReadsAs none front ahead) (hword : CommandName.ofName? word = some name) :
    c.AskedBy (front ++ word :: rest) where
  role := (tells_levels_iff hfront hword (by decide) _ _).mpr h.role
  user := by
    obtain ⟨user?, huser, hdefault⟩ := h.user
    exact ⟨user?, (tells_levels_iff hfront hword (by decide) _ _).mpr huser, hdefault⟩
  action := (tells_levels_iff hfront hword (by decide) _ _).mpr h.action
  resource := (tells_levels_iff hfront hword (by decide) _ _).mpr h.resource
  owner := (tells_levels_iff hfront hword (by decide) _ _).mpr h.owner
  anonymous := h.anonymous.trans (given_levels_iff hfront hword (by decide)).symm
  subject := h.subject

end Lists

/-- Arguments that are accepted as a check ask for the request. -/
theorem askedBy_of_ofArguments {fallback : Option String} {args : List String} {i : Invocation}
    {c : CheckRequest} (h : Invocation.ofArguments fallback args = .ok i)
    (hc : i.command = .check c) : c.AskedBy args := by
  obtain ⟨front, word, name, rest, ahead, behind, rfl, hword, hfront, hrest, hcommand, -⟩ :=
    Invocation.exists_levels h
  rw [hc] at hcommand
  cases name with
  | check =>
    unfold CommandName.command at hcommand
    cases hrequest : behind.checkRequest with
    | error e =>
      rw [hrequest] at hcommand
      cases hcommand
    | ok request =>
      rw [hrequest] at hcommand
      cases hcommand
      exact (askedBy_of_checkRequest hrest hrequest).append hfront hword
  | list => cases hcommand
  | exportPolicy => cases hcommand

/-! ### Checks -/

/-- A request that is anonymous or without a role is refused for want of a subject. -/
theorem evaluate_of_no_subject {c : CheckRequest} (h : c.anonymous = true ∨ c.role = none)
    (r : Registry) : c.evaluate r = .error ⟨c.action, c.resource, .noSubject⟩ := by
  have hsubject : c.subject = none := by
    unfold CheckRequest.subject
    rcases h with h | h
    · rw [if_pos h]
    · rw [h, Option.map_none, ite_self]
  rw [CheckRequest.evaluate, hsubject]
  rfl

/-- **A check is made as it was asked for.**  If the arguments are accepted as a check, exactly one of
    a role and the anonymous flag is given, and on every registry the check is made for the given
    action and the given type of resource.  The resource is owned by the given owner alone, or by
    nobody if none is given.  The subject has the given role and the given user, 0 if none is given;
    there is none exactly if the check is anonymous, and then it is refused for that reason.  Also
    a request that was not made up from arguments is refused so, if it is anonymous or has no role. -/
theorem check_as_asked {fallback : Option String} {args : List String} {i : Invocation}
    {c : CheckRequest} (h : Invocation.ofArguments fallback args = .ok i)
    (hc : i.command = .check c) :
    (Given args .role ↔ ¬ Given args .anonymous) ∧
      (∃ (action : Action) (target : Resource Id) (subject : Option Subject),
        Tells args .action Action.ofText? (some action) ∧
          Tells args .resource some (some target.kind) ∧
          (∃ owner?, Tells args .owner readUser owner? ∧
            ∀ user, Id.run (target.ownedBy user) = true ↔ owner? = some user) ∧
          (subject = none ↔ Given args .anonymous) ∧
          (∀ s, subject = some s → Tells args .role Role.ofText? (some s.role) ∧
            ∃ user?, Tells args .user readUser user? ∧ s.user = user?.getD 0) ∧
          (∀ r : Registry, c.evaluate r = Id.run (r.check action target subject)) ∧
          (Given args .anonymous →
            ∀ r : Registry, c.evaluate r = .error ⟨action, target.kind, .noSubject⟩)) ∧
      ∀ (d : CheckRequest) (r : Registry), d.anonymous = true ∨ d.role = none →
        d.evaluate r = .error ⟨d.action, d.resource, .noSubject⟩ := by
  have hasked := askedBy_of_ofArguments h hc
  have hanonymous : c.subject = none ↔ Given args .anonymous := by
    rw [← hasked.anonymous, CheckRequest.subject]
    cases hfree : c.anonymous with
    | true => simp
    | false =>
      obtain ⟨role, hrole⟩ := Option.isSome_iff_exists.mp (hasked.subject.mpr hfree)
      simp [hrole]
  refine ⟨?_, ⟨c.action, c.target, c.subject, hasked.action, hasked.resource,
    ⟨c.owner, hasked.owner, fun user => beq_iff_eq⟩, hanonymous, fun s hs => ?_, fun r => rfl,
    fun hgiven r => ?_⟩, fun d r hd => evaluate_of_no_subject hd r⟩
  · rw [← hasked.role.isSome_iff, ← hasked.anonymous, hasked.subject, Bool.not_eq_true]
  · obtain ⟨-, hrole, huser⟩ := subject_eq_some_iff.mp hs
    rw [← hrole, huser]
    exact ⟨hasked.role, hasked.user⟩
  · exact evaluate_of_no_subject (.inl (hasked.anonymous.mpr hgiven)) r

/-- A check in the role of a reader, with its options in no particular order. -/
def sampleArguments : List String :=
  ["-v", "check", "--owner=5", "--resource", "pages", "--role", " Reader ", "--action=show", "--policy",
    "p.json"]

/-- It is made for a page that the user 5 owns, and as the user 0. -/
theorem check_as_asked_sampleArguments :
    ∃ (i : Invocation) (c : CheckRequest), Invocation.ofArguments none sampleArguments = .ok i ∧
      i.command = .check c ∧ Given sampleArguments .role ∧ ¬ Given sampleArguments .anonymous ∧
      ∃ target : Resource Id, target.kind = "pages" ∧
        (∀ user, Id.run (target.ownedBy user) = true ↔ user = 5) ∧
        ∀ r : Registry, c.evaluate r = Id.run (r.check .show target (some ⟨.reader, 0⟩)) := by
  have hread : Invocation.ofArguments none sampleArguments =
      .ok ⟨some "p.json", true, .check ⟨some .reader, 0, .show, "pages", some 5, false⟩⟩ := by
    decide +kernel
  -- Where the options stand.
  have hrole : Given sampleArguments .role := by decide +kernel
  have huser : ¬ Given sampleArguments .user := by decide +kernel
  have hroleAs : GivenAs sampleArguments .role " Reader " :=
    ⟨"--role", [" Reader ", "--action=show", "--policy", "p.json"], by decide,
      .inr ⟨by decide +kernel, rfl⟩⟩
  have haction : GivenAs sampleArguments .action "show" :=
    ⟨"--action=show", ["--policy", "p.json"], by decide, .inl (by decide +kernel)⟩
  have hkind : GivenAs sampleArguments .resource "pages" :=
    ⟨"--resource", ["pages", "--role", " Reader ", "--action=show", "--policy", "p.json"],
      by decide, .inr ⟨by decide +kernel, rfl⟩⟩
  have howner : GivenAs sampleArguments .owner "5" :=
    ⟨"--owner=5", ["--resource", "pages", "--role", " Reader ", "--action=show", "--policy",
      "p.json"], by decide, .inl (by decide +kernel)⟩
  obtain ⟨hone, ⟨action, target, subject, htaction, htkind, ⟨owner?, htowner, howned⟩, hnone, hsome,
    hevaluate, -⟩, -⟩ := check_as_asked hread rfl
  have hanonymous : ¬ Given sampleArguments .anonymous := hone.mp hrole
  obtain ⟨s, rfl⟩ : ∃ s, subject = some s :=
    Option.ne_none_iff_exists'.mp fun h => hanonymous (hnone.mp h)
  obtain ⟨htrole, user?, htuser, hs⟩ := hsome s rfl
  -- What their texts are read as.
  have hshow : action = .show :=
    Option.some.inj ((htaction.2 "show" haction).symm.trans (by decide +kernel))
  have hreader : s.role = .reader :=
    Option.some.inj ((htrole.2 " Reader " hroleAs).symm.trans (by decide +kernel))
  have hfive : owner? = some 5 := by
    cases owner? with
    | none => exact absurd (by decide +kernel) htowner
    | some owner => exact (htowner.2 "5" howner).symm.trans (by decide +kernel)
  have hzero : s.user = 0 := by
    cases user? with
    | none => exact hs
    | some user => exact absurd (htuser.isSome_iff.mp rfl) huser
  refine ⟨_, _, hread, rfl, hrole, hanonymous, target, ?_, fun user => ?_, fun r => ?_⟩
  · exact (Option.some.inj (htkind.2 "pages" hkind)).symm
  · rw [howned, hfive, Option.some.injEq, eq_comm]
  · obtain ⟨role, user⟩ := s
    rw [hevaluate, hshow, show role = .reader from hreader, show user = 0 from hzero]

end Warden.CommandLine
