import Warden.CommandLine.Run
import Warden.Proofs.CommandLine.Holding
import Warden.Proofs.Policy.Applying
import Warden.Proofs.Policy.RoundTrip

namespace Warden

/-!
# Policies that cannot be loaded

If the policy that an invocation asks for cannot be loaded, for whatever reason, nothing is decided
and nothing is printed; the built-in table takes its place under no circumstances.

* `PolicyFailure` — the four ways in which a policy cannot be loaded, with the error of each.
* `Registry.load_some_eq_error_iff` — loading fails in these four ways, and in no other.
* `CommandLine.run_eq_error_iff` — so does a run.
* `CommandLine.code_endingOf_eq_zero_iff` — the exit code.
* `CommandLine.program_fails_closed` — the whole program, from its arguments.
-/

/-! ### Files without a text -/

theorem fromUTF8?_eq_none_iff {bytes : ByteArray} :
    String.fromUTF8? bytes = none ↔ ¬ bytes.IsValidUTF8 := by
  unfold String.fromUTF8?
  split
  case isTrue hvalid => exact iff_of_false (by simp) (fun hnot => hnot hvalid)
  case isFalse hnot => exact iff_of_true rfl hnot

/-- There is no text in a file that cannot be read, or whose bytes encode none. -/
theorem Files.text_eq_error_iff {files : Files} {path : String} {failure : ReadFailure} :
    files.text path = .error failure ↔ files path = .error failure ∨
      failure = .notText ∧ ∃ bytes, files path = .ok bytes ∧ ¬ bytes.IsValidUTF8 := by
  unfold Files.text
  rw [bind_eq_error_iff]
  refine or_congr_right ⟨?_, ?_⟩
  · rintro ⟨bytes, hfile, htext⟩
    split at htext
    case h_1 => cases htext
    case h_2 hbytes =>
      obtain rfl := Except.error.inj htext
      exact ⟨rfl, bytes, hfile, fromUTF8?_eq_none_iff.mp hbytes⟩
  · rintro ⟨rfl, bytes, hfile, hnot⟩
    refine ⟨bytes, hfile, ?_⟩
    rw [fromUTF8?_eq_none_iff.mpr hnot]
    rfl

/-! ### Failures -/

/-- The policy in a file cannot be loaded: the file cannot be read, it is no text, the text is no
    policy document, or a grant of the document is for a role that does not exist. -/
inductive PolicyFailure (files : Files) (path : String) : PolicyError → Prop where
  | unreadable {failure : ReadFailure} (hfile : files path = .error failure) :
      PolicyFailure files path (.unreadable path failure)
  | notText {bytes : ByteArray} (hfile : files path = .ok bytes) (hnot : ¬ bytes.IsValidUTF8) :
      PolicyFailure files path (.unreadable path .notText)
  | invalid {text : String} {fault : Json.Fault} (hfile : files path = .ok text.toUTF8)
      (hread : Document.ofJson text = .error fault) : PolicyFailure files path (.invalid fault)
  | unknownRole {text name : String} {d : Document} (hfile : files path = .ok text.toUTF8)
      (hread : Document.ofJson text = .ok d) (hfirst : d.FirstUnknown name) :
      PolicyFailure files path (.unknownRole name)

theorem Document.load_eq_ok_iff {files : Files} {path : String} {d : Document} :
    Document.load files path = .ok d ↔
      ∃ text, files path = .ok text.toUTF8 ∧ Document.ofJson text = .ok d := by
  simp only [load, bind_eq_ok_iff, mapError_eq_ok_iff, Files.text_eq_ok_iff]

/-- A file has no document in it if it cannot be read or is none. -/
theorem Document.load_eq_error_iff {files : Files} {path : String} {e : PolicyError} :
    Document.load files path = .error e ↔
      (∃ failure, files.text path = .error failure ∧ .unreadable path failure = e) ∨
      ∃ text, files path = .ok text.toUTF8 ∧
        ∃ fault, Document.ofJson text = .error fault ∧ .invalid fault = e := by
  simp only [load, bind_eq_error_iff, mapError_eq_error_iff, mapError_eq_ok_iff,
    Files.text_eq_ok_iff]

/-- A policy file cannot be loaded in these four ways, and in no other. -/
theorem Registry.load_some_eq_error_iff {files : Files} {path : String} {e : PolicyError} :
    Registry.load files (some path) = .error e ↔ PolicyFailure files path e := by
  simp only [load, bind_eq_error_iff, mapError_eq_error_iff, Document.apply_eq_error_iff,
    Document.load_eq_error_iff, Document.load_eq_ok_iff, Files.text_eq_error_iff]
  constructor
  · rintro ((⟨failure, hfile | ⟨rfl, bytes, hfile, hnot⟩, rfl⟩ | ⟨text, hfile, fault, hread, rfl⟩) |
      ⟨d, ⟨text, hfile, hread⟩, ⟨name, hfirst, rfl⟩ | ⟨_, -, hpure⟩⟩)
    · exact .unreadable hfile
    · exact .notText hfile hnot
    · exact .invalid hfile hread
    · exact .unknownRole hfile hread hfirst
    · cases hpure
  · intro hfailure
    cases hfailure with
    | unreadable hfile => exact .inl (.inl ⟨_, .inl hfile, rfl⟩)
    | notText hfile hnot => exact .inl (.inl ⟨_, .inr ⟨rfl, _, hfile, hnot⟩, rfl⟩)
    | invalid hfile hread => exact .inl (.inr ⟨_, hfile, _, hread, rfl⟩)
    | unknownRole hfile hread hfirst => exact .inr ⟨_, ⟨_, hfile, hread⟩, .inl ⟨_, hfirst, rfl⟩⟩

namespace CommandLine

/-! ### Runs -/

/-- A run fails if the registry cannot be loaded, and then in the same way; otherwise it comes to
    what the command does. -/
theorem run_eq (i : Invocation) (files : Files) :
    i.run files = (Registry.load files i.policy).map fun r => i.command.run r := by
  show (Registry.load files i.policy >>= _) = _
  cases Registry.load files i.policy <;> rfl

/-- A run fails exactly if a policy was asked for that cannot be loaded. -/
theorem run_eq_error_iff {i : Invocation} {files : Files} {e : PolicyError} :
    i.run files = .error e ↔ ∃ path, i.policy = some path ∧ PolicyFailure files path e := by
  rw [run_eq]
  cases hpolicy : i.policy with
  | none => exact iff_of_false (by rintro ⟨⟩) (by rintro ⟨_, ⟨⟩, _⟩)
  | some path =>
    have hload := @Registry.load_some_eq_error_iff files path e
    simp only [Option.some.injEq, exists_eq_left', ← hload]
    cases Registry.load files (some path) <;> simp [Except.map]

/-- A run under a policy comes to what the command does on the registry that the grants of the
    policy make. -/
theorem run_eq_ok_iff {i : Invocation} {files : Files} {path : String} {outcome : Outcome}
    (hpolicy : i.policy = some path) :
    i.run files = .ok outcome ↔ ∃ text d abilities, files path = .ok text.toUTF8 ∧
      Document.ofJson text = .ok d ∧ d.abilities = .ok abilities ∧
      i.command.run (Registry.empty.grantAll abilities) = outcome := by
  have hmap : i.run files = .ok outcome ↔
      ∃ r, Registry.load files (some path) = .ok r ∧ i.command.run r = outcome := by
    rw [run_eq, hpolicy]
    cases Registry.load files (some path) <;> simp [Except.map]
  rw [hmap]
  simp only [Registry.load_some_eq_ok_iff, Files.text_eq_ok_iff]
  constructor
  · rintro ⟨_, ⟨text, d, abilities, hfile, hread, habilities, rfl⟩, houtcome⟩
    exact ⟨text, d, abilities, hfile, hread, habilities, houtcome⟩
  · rintro ⟨text, d, abilities, hfile, hread, habilities, houtcome⟩
    exact ⟨_, ⟨text, d, abilities, hfile, hread, habilities, rfl⟩, houtcome⟩

/-- The exit code says whether the run ended well. -/
theorem code_endingOf_eq_zero_iff {result : Except PolicyError Outcome} :
    (endingOf result).code = 0 ↔ ∃ outcome, result = .ok outcome ∧ outcome.allowed = true := by
  cases result with
  | error e => exact iff_of_false (by simp [endingOf]) (by rintro ⟨_, ⟨⟩, _⟩)
  | ok outcome =>
    cases hallowed : outcome.allowed <;> simp [endingOf, hallowed]

/-- What the program does with arguments that it accepts. -/
theorem program_eq {files : Files} {fallback : Option String} {args : List String} {i : Invocation}
    (h : Invocation.ofArguments fallback args = .ok i) :
    program files fallback args = endingOf (i.run files) := by
  rw [program, h]

/-- **The program fails closed.**  Take any arguments that are accepted, for whatever command.  If a
    policy is asked for that cannot be loaded, the run fails with the error that says so, and the
    program prints nothing and exits with 1.  A run fails in these cases only, and the exit code is 0
    exactly if the run ended well.  The built-in table takes part in no run for which an argument or
    the environment names a policy: such a run asks for the policy that the last of these arguments
    names, or for that of the environment if there is none, and if it does not fail it comes to what
    the command does on the registry that the grants of the policy make. -/
theorem program_fails_closed {files : Files} {fallback : Option String} {args : List String}
    {i : Invocation} (h : Invocation.ofArguments fallback args = .ok i) :
    (∀ path e, i.policy = some path → PolicyFailure files path e →
      i.run files = .error e ∧ (program files fallback args).output = "" ∧
        (program files fallback args).code = 1) ∧
    (∀ e, i.run files = .error e → ∃ path, i.policy = some path ∧ PolicyFailure files path e) ∧
    ((program files fallback args).code = 0 ↔
      ∃ outcome, i.run files = .ok outcome ∧ outcome.allowed = true) ∧
    (Given args .policy → ∃ path, i.policy = some path ∧ LastGivenAs args .policy path) ∧
    (¬ Given args .policy → i.policy = fallback) ∧
    ∀ path outcome, i.policy = some path → i.run files = .ok outcome →
      ∃ text d abilities, files path = .ok text.toUTF8 ∧ Document.ofJson text = .ok d ∧
        List.Forall₂ Grant.Gives d.grants abilities ∧
        i.command.run (Registry.empty.grantAll abilities) = outcome := by
  rw [program_eq h]
  refine ⟨fun path e hpolicy hfailure => ?_, fun e => run_eq_error_iff.mp,
    code_endingOf_eq_zero_iff, (Invocation.policy_eq h).1, (Invocation.policy_eq h).2,
    fun path outcome hpolicy hrun => ?_⟩
  · have hrun : i.run files = .error e := run_eq_error_iff.mpr ⟨path, hpolicy, hfailure⟩
    exact ⟨hrun, by rw [hrun]; rfl, by rw [hrun]; rfl⟩
  · obtain ⟨text, d, abilities, hfile, hread, habilities, houtcome⟩ := (run_eq_ok_iff hpolicy).mp hrun
    have hgives : List.Forall₂ Grant.Gives d.grants abilities :=
      (mapM_eq_ok_iff.mp habilities).imp fun _ _ => Grant.gives_iff.mpr
    exact ⟨text, d, abilities, hfile, hread, hgives, houtcome⟩

/-- A policy whose second grant names no role, behind one that resolves, makes a listing fail with
    that name; and a policy that is no text makes an anonymous check fail. -/
theorem program_fails_closed_sampleUnknown :
    let unknown : Files := fun _ => .ok Document.sampleUnknown.toJson.toUTF8
    let bytes : Files := fun _ => .ok ⟨#[0xff]⟩
    let check := ["check", "--anonymous", "--action=show", "--resource=pages"]
    Invocation.run ⟨some "policy.json", false, .list⟩ unknown = .error (.unknownRole " Owner ") ∧
    (program unknown none ["list", "--policy", "policy.json"]).output = "" ∧
    (program unknown none ["list", "--policy", "policy.json"]).code = 1 ∧
    (program bytes (some "policy.json") check).output = "" ∧
    (program bytes (some "policy.json") check).code = 1 := by
  intro unknown bytes check
  have hlist : Invocation.ofArguments none ["list", "--policy", "policy.json"] =
      .ok ⟨some "policy.json", false, .list⟩ := by decide +kernel
  have hcheck : Invocation.ofArguments (some "policy.json") check =
      .ok ⟨some "policy.json", false, .check ⟨none, 0, .show, "pages", none, true⟩⟩ := by
    decide +kernel
  have hread : Document.ofJson Document.sampleUnknown.toJson =
      .ok Document.sampleUnknown.normalised :=
    (Document.reads_decode.read (Json.spellsText_pretty (Document.isWritable_encode _)) _).mpr
      (Document.denotes_encode _)
  have hunknown : PolicyFailure unknown "policy.json" (.unknownRole " Owner ") :=
    .unknownRole rfl hread Document.firstUnknown_sampleUnknown
  have hbytes : PolicyFailure bytes "policy.json" (.unreadable "policy.json" .notText) := by
    refine .notText rfl ?_
    decide +kernel
  obtain ⟨hrun, houtput, hcode⟩ := (program_fails_closed hlist).1 _ _ rfl hunknown
  obtain ⟨-, houtput', hcode'⟩ := (program_fails_closed hcheck).1 _ _ rfl hbytes
  exact ⟨hrun, houtput, hcode, houtput', hcode'⟩

end CommandLine

end Warden
