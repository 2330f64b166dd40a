import Warden.CommandLine.Run
import Warden.Proofs.Policy.Granting
import Warden.Proofs.Policy.Reading
import Warden.Proofs.Registry.Ruling

namespace Warden.CommandLine

/-!
# What a policy file decides

A check under a policy file is decided by the grants of the document alone: the file is read, its
references are resolved, its abilities are granted and looked up, and none of this can be seen in
the answer.

* `CheckRequest.GrantedBy` — some grant lets the request pass, wherever it stands.
* `CheckRequest.refusal` — what is said to a request that none lets pass.
* `permits_iff_grantedBy` — the scan of the registry finds an ability exactly when there is such a
  grant.
* `run_check_eq_grantedBy` — the answer of the whole run.
-/

/-- Some grant lets the request pass: the request is made in the role to which its reference
    resolves, for its action unless it is to manage, on its resource type unless it is for all, and
    by the owner if it is for owners only. -/
def CheckRequest.GrantedBy (c : CheckRequest) (grants : List Grant) : Prop :=
  c.anonymous = false ∧ ∃ role, c.role = some role ∧ ∃ g ∈ grants,
    g.role.resolve = .ok role ∧ (g.action = c.action ∨ g.action = .manage) ∧
      (g.scope.text = "*" ∨ g.scope.text = c.resource) ∧
      (g.ownerOnly = false ∨ c.owner = some c.user)

/-- What is said to a request that is refused. -/
def CheckRequest.refusal (c : CheckRequest) : String :=
  "Not authorized to " ++ c.action.name ++ " " ++ c.resource ++ ": " ++
    match c.anonymous, c.role with
    | false, some role => "role " ++ role.numeral ++ " holds no matching ability"
    | _, _ => "no subject"

/-! ### Subjects -/

theorem subject_eq_some_iff {c : CheckRequest} {s : Subject} :
    c.subject = some s ↔ c.anonymous = false ∧ c.role = some s.role ∧ s.user = c.user := by
  obtain ⟨role, user⟩ := s
  unfold CheckRequest.subject
  cases hanonymous : c.anonymous with
  | true => simp
  | false =>
    cases hrole : c.role with
    | none => simp
    | some role' => simp [eq_comm]

theorem not_grantedBy_of_subject_none {c : CheckRequest} (h : c.subject = none)
    (grants : List Grant) : ¬ c.GrantedBy grants := by
  rintro ⟨hanonymous, role, hrole, _⟩
  have hsome : c.subject = some ⟨role, c.user⟩ :=
    subject_eq_some_iff.mpr ⟨hanonymous, hrole, rfl⟩
  rw [h] at hsome
  cases hsome

/-- The denial of a request, in words. -/
theorem message_eq_refusal (c : CheckRequest) :
    NotAuthorized.message ⟨c.action, c.target.kind, Registry.denialOf c.subject⟩ = c.refusal := by
  have hreason : (Registry.denialOf c.subject).message =
      match c.anonymous, c.role with
      | false, some role => "role " ++ role.numeral ++ " holds no matching ability"
      | _, _ => "no subject" := by
    unfold CheckRequest.subject
    cases c.anonymous with
    | true => rfl
    | false =>
      cases c.role with
      | none => rfl
      | some role => rfl
  unfold NotAuthorized.message CheckRequest.refusal
  rw [hreason]
  rfl

/-! ### Grants -/

/-- A scope that is not the one of the single type named `*` is known by its text. -/
theorem covers_iff_text {scope : Scope} (h : scope ≠ .resource Scope.wildcard) {kind : String} :
    scope.covers kind = true ↔ scope.text = "*" ∨ scope.text = kind := by
  -- The scope is the one that is read from its text.
  have hcovers : (Scope.ofText scope.text).covers kind = true ↔
      scope.text = Scope.wildcard ∨ scope.text = kind := Scope.covers_ofText_iff
  rw [Scope.ofText_text h] at hcovers
  exact hcovers

/-- An ability that is granted lets a subject act exactly when the grant lets it. -/
theorem bearsOn_and_owner_iff {c : CheckRequest} {g : Grant} {role : Role}
    (hscope : g.scope ≠ .resource Scope.wildcard) {s : Subject} (hs : c.subject = some s) :
    ((⟨role, g.action, g.scope, g.ownerOnly⟩ : Ability).bearsOn s.role c.action c.target.kind
        = true ∧ (g.ownerOnly = false ∨ Id.run (c.target.ownedBy s.user) = true)) ↔
      role = s.role ∧ (g.action = c.action ∨ g.action = .manage) ∧
        (g.scope.text = "*" ∨ g.scope.text = c.resource) ∧
        (g.ownerOnly = false ∨ c.owner = some c.user) := by
  obtain ⟨-, -, huser⟩ := subject_eq_some_iff.mp hs
  have howned : Id.run (c.target.ownedBy s.user) = true ↔ c.owner = some c.user := by
    rw [huser]
    exact beq_iff_eq
  rw [howned, Ability.bearsOn_iff, Action.implies_iff]
  show (role = s.role ∧ _ ∧ g.scope.covers c.resource = true) ∧ _ ↔ _
  rw [covers_iff_text hscope, and_assoc, and_assoc]

/-- The scan of a registry in which a document was applied, by the grants of the document. -/
theorem permits_iff_grantedBy {d : Document} {abilities : List Ability}
    (habilities : d.abilities = .ok abilities)
    (hscopes : ∀ g ∈ d.grants, g.scope ≠ .resource Scope.wildcard) (c : CheckRequest) :
    (Registry.empty.grantAll abilities).Permits c.action c.target c.subject ↔
      c.GrantedBy d.grants := by
  have hmem : ∀ a, a ∈ (Registry.empty.grantAll abilities).abilities ↔
      ∃ g ∈ d.grants, g.ability = .ok a := by
    intro a
    rw [Registry.mem_abilities_grantAll_iff, Registry.abilities_empty,
      Document.mem_abilities_iff habilities]
    simp
  cases hsubject : c.subject with
  | none =>
    exact iff_of_false Registry.not_permits_none (not_grantedBy_of_subject_none hsubject d.grants)
  | some s =>
    obtain ⟨hanonymous, hrole, -⟩ := subject_eq_some_iff.mp hsubject
    rw [Registry.permits_some_iff]
    constructor
    -- The ability that is found was granted by a grant, whose reference resolves to its role.
    · rintro ⟨a, ha, hdecides⟩
      obtain ⟨g, hg, hability⟩ := (hmem a).mp ha
      obtain ⟨role, hresolve, rfl⟩ := Grant.ability_eq_ok_iff.mp hability
      obtain ⟨rfl, hlets⟩ := (bearsOn_and_owner_iff (hscopes g hg) hsubject).mp hdecides
      exact ⟨hanonymous, s.role, hrole, g, hg, hresolve, hlets⟩
    -- The grant has granted an ability in the role of the subject.
    · rintro ⟨_, role, hrole', g, hg, hresolve, hlets⟩
      obtain rfl : s.role = role := Option.some.inj (hrole.symm.trans hrole')
      refine ⟨_, (hmem _).mpr ⟨g, hg, Grant.ability_eq_ok_iff.mpr ⟨_, hresolve, rfl⟩⟩, ?_⟩
      exact (bearsOn_and_owner_iff (hscopes g hg) hsubject).mpr ⟨rfl, hlets⟩

/-! ### Runs -/

/-- What a check prints on a registry. -/
theorem run_check_eq (r : Registry) (c : CheckRequest) :
    (r.Permits c.action c.target c.subject → Command.run r (.check c) = ⟨true, "allowed\n"⟩) ∧
    (¬ r.Permits c.action c.target c.subject →
      Command.run r (.check c) = ⟨false, c.refusal ++ "\n"⟩) := by
  constructor
  · intro h
    have hok : c.evaluate r = .ok () := Registry.run_check_eq_ok_iff.mpr h
    simp only [Command.run, hok]
  · intro h
    have herror : c.evaluate r = .error ⟨c.action, c.target.kind, Registry.denialOf c.subject⟩ :=
      Registry.run_check_eq_error_iff.mpr h
    simp only [Command.run, herror, message_eq_refusal]

/-- **A policy file decides every check by its grants.**  If the file holds a text that is read as
    a document whose references all resolve, a check under it is allowed exactly when some grant
    of the document lets the request pass, and otherwise it is refused with one sentence. -/
theorem run_check_eq_grantedBy {files : Files} {path text : String} {d : Document}
    (hfile : files path = .ok text.toUTF8) (hd : Document.ofJson text = .ok d)
    (hroles : ∀ g ∈ d.grants, ∃ role, g.role.resolve = .ok role) (verbose : Bool)
    (c : CheckRequest) :
    (Invocation.run ⟨some path, verbose, .check c⟩ files = .ok ⟨true, "allowed\n"⟩ ↔
      c.GrantedBy d.grants) ∧
    (Invocation.run ⟨some path, verbose, .check c⟩ files = .ok ⟨false, c.refusal ++ "\n"⟩ ↔
      ¬ c.GrantedBy d.grants) := by
  obtain ⟨abilities, habilities⟩ := Document.exists_abilities hroles
  have hload := Registry.load_of_text (Files.text_of_toUTF8 hfile) hd habilities
  have hpermits := permits_iff_grantedBy habilities
    (fun g hg => Document.scope_ne_of_ofJson hd hg) c
  -- Loading the file cannot fail, so the run is the command on the registry it makes.
  have hrun : Invocation.run ⟨some path, verbose, .check c⟩ files =
      .ok (Command.run (Registry.empty.grantAll abilities) (.check c)) := by
    show (Registry.load files (some path) >>= _) = _
    rw [hload]
    rfl
  obtain ⟨hallowed, hrefused⟩ := run_check_eq (Registry.empty.grantAll abilities) c
  rw [hrun, ← hpermits]
  by_cases h : (Registry.empty.grantAll abilities).Permits c.action c.target c.subject
  · rw [hallowed h]
    exact ⟨iff_of_true rfl h, iff_of_false (by simp) (fun hnot => hnot h)⟩
  · rw [hrefused h]
    exact ⟨iff_of_false (by simp) h, iff_of_true rfl h⟩

/-- Under the sample policy, which lets role 0 see everything, showing is allowed and listing is
    refused. -/
theorem run_check_sample :
    Invocation.run ⟨some "policy.json", false, .check ⟨some .anon, 0, .show, "users", none, false⟩⟩
        (fun _ => .ok Document.sampleText.toUTF8) = .ok ⟨true, "allowed\n"⟩ ∧
    Invocation.run ⟨some "policy.json", false, .check ⟨some .anon, 0, .list, "users", none, false⟩⟩
        (fun _ => .ok Document.sampleText.toUTF8) =
      .ok ⟨false, "Not authorized to list users: role 0 holds no matching ability\n"⟩ := by
  have hd : Document.ofJson Document.sampleText = .ok Document.sample :=
    (Document.reads_decode.read Document.spellsText_sample _).mpr Document.denotes_sample
  have hresolve : (RoleRef.name "anon").resolve = .ok Role.anon := by decide +kernel
  have hroles : ∀ g ∈ Document.sample.grants, ∃ role, g.role.resolve = .ok role := by
    intro g hg
    obtain rfl := List.mem_singleton.mp hg
    exact ⟨Role.anon, hresolve⟩
  have hfile : (fun _ => .ok Document.sampleText.toUTF8 : Files) "policy.json" =
      .ok Document.sampleText.toUTF8 := rfl
  constructor
  · refine (run_check_eq_grantedBy hfile hd hroles false _).1.mpr ?_
    exact ⟨rfl, .anon, rfl, _, List.mem_cons_self, hresolve, .inl rfl, .inl rfl, .inl rfl⟩
  · refine (run_check_eq_grantedBy hfile hd hroles false _).2.mpr ?_
    rintro ⟨_, role, _, g, hg, _, haction, _⟩
    obtain rfl := List.mem_singleton.mp hg
    revert haction
    decide

end Warden.CommandLine
