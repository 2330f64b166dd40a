import Warden.Proofs.Registry.Noninterference

namespace Warden.Registry

/-!
# The question that a check asks

Who owns a resource is asked only where nothing else decides: if abilities are relevant to the check
and all of them are for owners only.  Then one question is asked, for the subject, and its answer is
the answer of the check.

* `Asks` — the condition under which the question is asked.
* `ruling_eq_ifOwner_iff_asks` — it is the one under which the ruling leaves the matter to the owner.
* `check_of_asks` and `check_of_not_asks` — in any monad a check is this one question, or none.
* `questions` — the users a check asks about, one after another.
* `check_questions` — there is at most one, and it decides.
-/

/-- The matter is left to the owner: no relevant ability is held that is free of an owner
    restriction, and one is that has it. -/
def Asks (r : Registry) (role : Role) (action : Action) (kind : String) : Prop :=
  ¬ r.HasRelevant role action kind false ∧ r.HasRelevant role action kind true

instance (r : Registry) (role : Role) (action : Action) (kind : String) :
    Decidable (r.Asks role action kind) :=
  inferInstanceAs (Decidable (_ ∧ _))

/-- The users that a check asks about, in the order of the questions. -/
def questions (r : Registry) (action : Action) (resource : Resource Id)
    (subject : Option Subject) : List UserId :=
  ((r.check action resource.observed subject).run []).2

/-! ### Rulings -/

/-- The ruling leaves the matter to the owner exactly when nothing else decides. -/
theorem ruling_eq_ifOwner_iff_asks {r : Registry} {role : Role} {action : Action}
    {kind : String} : r.ruling role action kind = .ifOwner ↔ r.Asks role action kind := by
  cases hruling : r.ruling role action kind with
  | granted =>
    have hfree := ruling_eq_granted_iff_hasRelevant.mp hruling
    exact iff_of_false (by simp) fun hasks => hasks.1 hfree
  | refused =>
    have hnone := ruling_eq_refused_iff_hasRelevant.mp hruling
    exact iff_of_false (by simp) fun hasks => hnone true hasks.2
  | ifOwner =>
    -- Something is relevant, since the check is not refused, and nothing of it is free.
    have hfree : ¬ r.HasRelevant role action kind false := by
      rw [← ruling_eq_granted_iff_hasRelevant, hruling]
      simp
    have hsome : ¬ ∀ ownerOnly, ¬ r.HasRelevant role action kind ownerOnly := by
      rw [← ruling_eq_refused_iff_hasRelevant, hruling]
      simp
    obtain ⟨ownerOnly, hheld⟩ := Classical.not_forall_not.mp hsome
    cases ownerOnly with
    | false => exact absurd hheld hfree
    | true => exact iff_of_true rfl ⟨hfree, hheld⟩

/-! ### Checks with effects -/

/-- Where the matter is left to the owner, a check is one question and what follows from its
    answer, whatever effects the question has. -/
theorem check_of_asks {m : Type → Type} [Monad m] {r : Registry} {action : Action}
    {resource : Resource m} {s : Subject} (h : r.Asks s.role action resource.kind) :
    r.check action resource (some s) = (do
      let owned ← resource.ownedBy s.user
      pure (if owned then .ok () else .error ⟨action, resource.kind, .noAbility s.role⟩)) := by
  simp only [check, ruling_eq_ifOwner_iff_asks.mpr h]

/-- Everywhere else a check has no effects, and its answer depends on the type of the resource
    only. -/
theorem exists_check_of_not_asks {r : Registry} {action : Action} {kind : String}
    {subject : Option Subject} (h : ∀ s, subject = some s → ¬ r.Asks s.role action kind) :
    ∃ answer, ∀ (m : Type → Type) [Monad m] (resource : Resource m), resource.kind = kind →
      r.check action resource subject = pure answer := by
  cases subject with
  | none =>
    refine ⟨.error ⟨action, kind, .noSubject⟩, fun m _ resource hkind => ?_⟩
    simp only [check, hkind]
  | some s =>
    cases hruling : r.ruling s.role action kind with
    | granted =>
      refine ⟨.ok (), fun m _ resource hkind => ?_⟩
      simp only [check, hkind, hruling]
    | refused =>
      refine ⟨.error ⟨action, kind, .noAbility s.role⟩, fun m _ resource hkind => ?_⟩
      simp only [check, hkind, hruling]
    | ifOwner => exact absurd (ruling_eq_ifOwner_iff_asks.mp hruling) (h s rfl)

/-! ### Questions -/

section Questions

variable {r : Registry} {action : Action} {resource : Resource Id} {subject : Option Subject}
  {s : Subject}

/-- Where the matter is left to the owner, the check asks about the subject and answers by what it
    was told. -/
theorem run_check_observed_of_asks (h : r.Asks s.role action resource.kind)
    (asked : List UserId) :
    (r.check action resource.observed (some s)).run asked =
      (Id.run (r.check action resource (some s)), asked ++ [s.user]) := by
  have hobserved : r.Asks s.role action resource.observed.kind := h
  rw [check_of_asks h, check_of_asks hobserved]
  rfl

/-- Everywhere else the check asks nothing. -/
theorem run_check_observed_of_not_asks
    (h : ∀ s, subject = some s → ¬ r.Asks s.role action resource.kind) (asked : List UserId) :
    (r.check action resource.observed subject).run asked =
      (Id.run (r.check action resource subject), asked) := by
  obtain ⟨answer, hanswer⟩ := exists_check_of_not_asks h
  rw [hanswer _ resource rfl, hanswer _ resource.observed rfl]
  rfl

theorem questions_of_asks (h : r.Asks s.role action resource.kind) :
    r.questions action resource (some s) = [s.user] := by
  rw [questions, run_check_observed_of_asks h]
  rfl

theorem questions_of_not_asks
    (h : ∀ s, subject = some s → ¬ r.Asks s.role action resource.kind) :
    r.questions action resource subject = [] := by
  rw [questions, run_check_observed_of_not_asks h]

end Questions

/-- **A check asks at most once, and only where the answer decides.**  Watching whom a check asks
    about does not change its answer.  It asks at most once, and then about the subject; it asks
    exactly when there is a subject, no relevant ability without an owner restriction is held, and
    one with it is.  Then the answer to the one question is the answer of the check, and in any
    monad the check is this question; in all other cases it is no question at all. -/
theorem check_questions (r : Registry) (action : Action) (resource : Resource Id)
    (subject : Option Subject) :
    (∀ asked, (r.check action resource.observed subject).run asked =
      (Id.run (r.check action resource subject), asked ++ r.questions action resource subject)) ∧
    (r.questions action resource subject = [] ∨
      ∃ s, subject = some s ∧ r.questions action resource subject = [s.user]) ∧
    (r.questions action resource subject ≠ [] ↔
      ∃ s, subject = some s ∧ ¬ r.HasRelevant s.role action resource.kind false ∧
        r.HasRelevant s.role action resource.kind true) ∧
    (r.questions action resource subject ≠ [] → ∀ s, subject = some s →
      Id.run (r.check action resource subject) =
        if Id.run (resource.ownedBy s.user) then .ok ()
        else .error ⟨action, resource.kind, .noAbility s.role⟩) ∧
    ∀ (m : Type → Type) [Monad m] (effectful : Resource m), effectful.kind = resource.kind →
      (r.questions action resource subject = [] →
        ∃ answer, r.check action effectful subject = pure answer) ∧
      (r.questions action resource subject ≠ [] → ∀ s, subject = some s →
        r.check action effectful subject = do
          let owned ← effectful.ownedBy s.user
          pure (if owned then .ok () else .error ⟨action, resource.kind, .noAbility s.role⟩)) := by
  by_cases hasks : ∃ s, subject = some s ∧ r.Asks s.role action resource.kind
  · obtain ⟨s, rfl, hasks⟩ := hasks
    have hquestions := questions_of_asks hasks
    have hne : r.questions action resource (some s) ≠ [] := by simp [hquestions]
    refine ⟨fun asked => ?_, .inr ⟨s, rfl, hquestions⟩, iff_of_true hne ⟨s, rfl, hasks⟩,
      fun _ s' hs' => ?_, fun m _ effectful hkind => ⟨fun h => absurd h hne, fun _ s' hs' => ?_⟩⟩
    · rw [run_check_observed_of_asks hasks, hquestions]
    · obtain rfl := Option.some.inj hs'
      rw [check_of_asks hasks]
      rfl
    · obtain rfl := Option.some.inj hs'
      rw [check_of_asks (hkind ▸ hasks), hkind]
  · have hnot : ∀ s, subject = some s → ¬ r.Asks s.role action resource.kind :=
      fun s hs h => hasks ⟨s, hs, h⟩
    have hquestions : r.questions action resource subject = [] := questions_of_not_asks hnot
    refine ⟨fun asked => ?_, .inl hquestions, iff_of_false (fun h => h hquestions) hasks,
      fun h => absurd hquestions h, fun m _ effectful hkind => ⟨fun _ => ?_, fun h => ?_⟩⟩
    · rw [run_check_observed_of_not_asks hnot, hquestions, List.append_nil]
    · obtain ⟨answer, hanswer⟩ := exists_check_of_not_asks hnot
      exact ⟨answer, hanswer m effectful hkind⟩
    · exact absurd hquestions h

/-- A registry with abilities of readers for their own pages only, to manage and, twice, to change
    them. -/
def sampleOwned : Registry :=
  empty.grantAll [⟨.reader, .manage, .anything, true⟩, ⟨.reader, .update, .resource "pages", true⟩,
    ⟨.reader, .update, .resource "pages", true⟩]

/-- A reader is asked about once, and denied, on the page of somebody else; not at all, once readers
    may manage all pages; and nobody is asked about without a subject. -/
theorem check_questions_sampleOwned :
    let page : Resource Id := ⟨"pages", fun user => user == 6⟩
    let free := sampleOwned.grant ⟨.reader, .manage, .resource "pages", false⟩
    sampleOwned.questions .update page (some ⟨.reader, 5⟩) = [5] ∧
    Id.run (sampleOwned.check .update page (some ⟨.reader, 5⟩)) =
      .error ⟨.update, "pages", .noAbility .reader⟩ ∧
    free.questions .update page (some ⟨.reader, 5⟩) = [] ∧
    sampleOwned.questions .update page none = [] := by
  intro page free
  have hasks : sampleOwned.Asks .reader .update "pages" := by decide +kernel
  have hfree : free.HasRelevant .reader .update "pages" false := by decide +kernel
  obtain ⟨-, hquestions, hiff, hanswer, -⟩ :=
    check_questions sampleOwned .update page (some ⟨.reader, 5⟩)
  have hne := hiff.mpr ⟨_, rfl, hasks⟩
  refine ⟨?_, hanswer hne _ rfl, ?_, ?_⟩
  · obtain ⟨s, hs, hquestions⟩ := hquestions.resolve_left hne
    obtain rfl := Option.some.inj hs
    exact hquestions
  · refine Classical.byContradiction fun hasked => ?_
    obtain ⟨s, hs, hnot, -⟩ := (check_questions free .update page _).2.2.1.mp hasked
    obtain rfl := Option.some.inj hs
    exact hnot hfree
  · refine Classical.byContradiction fun hasked => ?_
    obtain ⟨s, hs, -⟩ := (check_questions sampleOwned .update page none).2.2.1.mp hasked
    cases hs

end Warden.Registry
