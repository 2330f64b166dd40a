import Warden.CommandLine.Run
import Warden.Proofs.Policy.Copying

namespace Warden

/-!
# Running under an exported policy

The policy that a run exports can take the place of the one that it was run under: whatever is
asked, the answer is the same, and so is the policy that is exported from it.

* `Registry.exported` — the text that is exported; `Registry.load_exported` says that a file with
  this text makes a copy of the registry.
* `Registry.scope_ne_of_load` — no registry that is loaded holds an ability for the single type
  named `*`, so its copy lists the same abilities.
* `CommandLine.run_congr` — what a command prints depends on the listed abilities only.
* `CommandLine.run_under_export` — all runs under the exported policy.
-/

namespace Registry

/-! ### Exported texts -/

/-- The policy that is exported from a registry. -/
def exported (r : Registry) : String :=
  (Document.ofAbilities r.abilities).toJson ++ "\n"

/-- An exported text is read as the document of what is read back of each ability. -/
theorem ofJson_exported (r : Registry) :
    Document.ofJson r.exported = .ok (Document.ofAbilities (r.abilities.map Ability.normalised)) := by
  -- The line break behind the value is white space.
  have hgap : Json.IsGaps "\n".toList := by simp [Json.IsGaps, Json.isGap]
  exact Document.ofJson_ofAbilities
    ((Json.spellsText_pretty (Document.isWritable_encode _)).append hgap)

/-- A file with an exported text makes a copy of the registry. -/
theorem load_exported (r : Registry) {files : Files} {path : String}
    (hfile : files path = .ok r.exported.toUTF8) : load files (some path) = r.copy := by
  rw [r.copy_eq]
  exact load_of_text (Files.text_of_toUTF8 hfile) r.ofJson_exported
    (Document.abilities_ofAbilities _)

/-! ### Registries that are loaded -/

theorem scope_ne_of_mem_builtIn : ∀ a ∈ builtIn, a.scope ≠ .resource Scope.wildcard := by
  decide +kernel

/-- No registry that is loaded holds an ability for the single type named `*`. -/
theorem scope_ne_of_load {files : Files} {policy : Option String} {r : Registry}
    (h : load files policy = .ok r) {a : Ability} (ha : a ∈ r.abilities) :
    a.scope ≠ .resource Scope.wildcard := by
  cases policy with
  | none =>
    obtain rfl := Except.ok.inj h
    rw [grantBuiltIn, mem_abilities_grantAll_iff, abilities_empty] at ha
    exact scope_ne_of_mem_builtIn a (ha.resolve_left List.not_mem_nil)
  | some path =>
    obtain ⟨text, d, abilities, -, hd, habilities, rfl⟩ := load_some_eq_ok_iff.mp h
    rw [mem_abilities_grantAll_iff, abilities_empty] at ha
    -- The ability was granted by a grant, whose scope was read from the text.
    obtain ⟨g, hg, hability⟩ :=
      (Document.mem_abilities_iff habilities a).mp (ha.resolve_left List.not_mem_nil)
    obtain ⟨role, -, rfl⟩ := Grant.ability_eq_ok_iff.mp hability
    exact Document.scope_ne_of_ofJson hd hg

/-- A registry that is loaded can be exported and loaded again, and lists the same abilities. -/
theorem exists_load_exported {files files' : Files} {policy : Option String} {path : String}
    {r : Registry} (h : load files policy = .ok r) (hfile : files' path = .ok r.exported.toUTF8) :
    ∃ r', load files' (some path) = .ok r' ∧ r'.abilities = r.abilities := by
  obtain ⟨c, hcopy, hc⟩ := r.exists_copy
  refine ⟨c, (r.load_exported hfile).trans hcopy, ?_⟩
  rw [hc, map_normalised_eq_self fun a ha => scope_ne_of_load h ha]

end Registry

namespace CommandLine

/-- What a command prints depends on the listed abilities only. -/
theorem run_congr {r₁ r₂ : Registry} (h : r₁.abilities = r₂.abilities) (command : Command) :
    command.run r₁ = command.run r₂ := by
  cases command with
  | check request =>
    have hsame : request.evaluate r₁ = request.evaluate r₂ :=
      congrArg Id.run (Registry.check_eq_of_abilities_eq h _ _ _)
    simp only [Command.run, hsame]
  | list => simp only [Command.run, h]
  | exportPolicy => simp only [Command.run, h]

/-- A run under a policy that can be loaded is the run of the command on the registry. -/
theorem run_of_load {files : Files} {policy : Option String} {r : Registry}
    (h : Registry.load files policy = .ok r) (verbose : Bool) (command : Command) :
    Invocation.run ⟨policy, verbose, command⟩ files = .ok (command.run r) := by
  show (Registry.load files policy >>= _) = _
  rw [h]
  rfl

/-- **An exported policy can take the place of the one it was exported under.**  Whenever a policy
    can be loaded, or none was given, a run under it exports a text, and a file with this text can
    be loaded as well.  The two registries list the same abilities, in the same order and as often;
    all checks and all commands come to the same; and what is exported from the file is again what
    stands in it. -/
theorem run_under_export {files : Files} {policy : Option String} {r : Registry}
    (hload : Registry.load files policy = .ok r) :
    ∃ text, (∀ verbose, Invocation.run ⟨policy, verbose, .exportPolicy⟩ files = .ok ⟨true, text⟩) ∧
      ∀ (files' : Files) (path : String), files' path = .ok text.toUTF8 →
        ∃ r', Registry.load files' (some path) = .ok r' ∧ r'.abilities = r.abilities ∧
          (∀ (m : Type → Type) [Monad m] (action : Action) (resource : Resource m)
            (subject : Option Subject),
            r'.check action resource subject = r.check action resource subject) ∧
          (∀ (command : Command) (verbose verbose' : Bool),
            Invocation.run ⟨some path, verbose', command⟩ files' =
              Invocation.run ⟨policy, verbose, command⟩ files) ∧
          ∀ verbose, Invocation.run ⟨some path, verbose, .exportPolicy⟩ files' =
            .ok ⟨true, text⟩ := by
  have hexport : ∀ verbose, Invocation.run ⟨policy, verbose, .exportPolicy⟩ files =
      .ok ⟨true, r.exported⟩ := fun verbose => run_of_load hload verbose .exportPolicy
  refine ⟨r.exported, hexport, fun files' path hfile => ?_⟩
  obtain ⟨r', hload', habilities⟩ := Registry.exists_load_exported hload hfile
  have hruns : ∀ (command : Command) (verbose verbose' : Bool),
      Invocation.run ⟨some path, verbose', command⟩ files' =
        Invocation.run ⟨policy, verbose, command⟩ files := by
    intro command verbose verbose'
    rw [run_of_load hload', run_of_load hload, run_congr habilities]
  refine ⟨r', hload', habilities, ?_, hruns, fun verbose => ?_⟩
  · intro m _ action resource subject
    exact Registry.check_eq_of_abilities_eq habilities action resource subject
  · rw [hruns .exportPolicy verbose verbose, hexport]

/-- Abilities that are not in the order of the listing, one of them twice. -/
def sampleAbilities : List Ability :=
  [⟨.reader, .show, .resource "pages", false⟩, ⟨.anon, .create, .resource "users", true⟩,
    ⟨.reader, .show, .resource "pages", false⟩]

/-- Under a policy that grants them a text is exported that lists all three in order, and that is
    exported from itself. -/
theorem run_under_export_sampleAbilities :
    let policy := (Document.ofAbilities sampleAbilities).toJson
    ∃ text, Invocation.run ⟨some "policy.json", false, .exportPolicy⟩
        (fun _ => .ok policy.toUTF8) = .ok ⟨true, text⟩ ∧
      Invocation.run ⟨some "exported.json", false, .list⟩ (fun _ => .ok text.toUTF8) =
        .ok ⟨true, "role 0 may create users (owner only)\nrole 10 may show pages\n" ++
          "role 10 may show pages\n"⟩ ∧
      Invocation.run ⟨some "exported.json", false, .exportPolicy⟩ (fun _ => .ok text.toUTF8) =
        .ok ⟨true, text⟩ := by
  intro policy
  have hread : Document.ofJson policy = _ := Document.ofJson_ofAbilities
    (Json.spellsText_pretty (Document.isWritable_encode (Document.ofAbilities sampleAbilities)))
  have hfile : Files.text (fun _ => .ok policy.toUTF8) "policy.json" = .ok policy :=
    Files.text_of_toUTF8 rfl
  have hload := Registry.load_of_text hfile hread (Document.abilities_ofAbilities _)
  have hlist : Command.run (Registry.empty.grantAll (sampleAbilities.map Ability.normalised)) .list =
      ⟨true, "role 0 may create users (owner only)\nrole 10 may show pages\n" ++
        "role 10 may show pages\n"⟩ := by decide +kernel
  obtain ⟨text, hexport, hunder⟩ := run_under_export hload
  obtain ⟨r', -, -, -, hruns, hagain⟩ := hunder (fun _ => .ok text.toUTF8) "exported.json" rfl
  refine ⟨text, hexport false, ?_, hagain false⟩
  rw [hruns .list false false, run_of_load hload, hlist]

end CommandLine

end Warden
