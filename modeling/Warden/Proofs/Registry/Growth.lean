import Mathlib.Logic.Function.Basic
import Warden.Check
import Warden.Proofs.Policy.Applying
import Warden.Proofs.Registry.Listing
import Warden.Proofs.Registry.Ruling

namespace Warden

/-!
# Registries only grow

Several registries are used side by side: abilities are registered in them, one by one or with
documents, they are asked for checks and listings, and policies are written.  Whatever is done in
whatever order, nothing that a registry lists is ever lost and nothing that it allows is ever denied
later.

* `Operation` — what can be asked of a registry, and `Operation.perform`, which carries it out on a
  registry that is changed in place and gives an `Answer`.
* `Operation.granted` — the abilities that an operation registers; `Operation.run_perform` says that
  it grants these and does nothing else (the step).
* `Store` — registries by name, `Call` — an operation on one of them, `Store.after` — the registries
  after several calls.
* `Store.after_apply` — each registry after several calls has granted what they registered in it
  (the run).
* `Store.run_only_grows` — any two moments of a run.
-/

/-! ### Grants and what they change -/

namespace Registry

/-- What was listed before several grants is listed after them, in the same order. -/
theorem sublist_abilities_grantAll (r : Registry) (granted : List Ability) :
    r.abilities.Sublist (r.grantAll granted).abilities := by
  rw [abilities_grantAll]
  exact List.sublist_mergeSort Ability.le_trans Ability.le_total r.pairwise_abilities
    (List.sublist_append_left r.abilities granted)

theorem len_grantAll (r : Registry) (granted : List Ability) :
    (r.grantAll granted).len = r.len + granted.length := by
  rw [len_eq_length, abilities_grantAll, List.length_mergeSort, List.length_append, len_eq_length]

/-- A scan that finds an ability finds one among more abilities, too. -/
theorem Permits.mono {r₁ r₂ : Registry} {action : Action} {resource : Resource Id}
    {subject : Option Subject} (hsub : ∀ a ∈ r₁.abilities, a ∈ r₂.abilities)
    (h : r₁.Permits action resource subject) : r₂.Permits action resource subject := by
  obtain ⟨s, hs, a, ha, hlets⟩ := h
  exact ⟨s, hs, a, hsub a ha, hlets⟩

/-- What is allowed before several grants is allowed after them. -/
theorem run_check_grantAll_eq_ok {r : Registry} {action : Action} {resource : Resource Id}
    {subject : Option Subject} (granted : List Ability)
    (h : Id.run (r.check action resource subject) = .ok ()) :
    Id.run ((r.grantAll granted).check action resource subject) = .ok () := by
  have hpermits := run_check_eq_ok_iff.mp h
  exact run_check_eq_ok_iff.mpr
    (hpermits.mono fun a ha => (r.sublist_abilities_grantAll granted).subset ha)

end Registry

/-! ### Operations -/

/-- What can be asked of a registry: to register something, to check or to list, and to write
    abilities as a policy. -/
inductive Operation where
  | register (registration : Registration)
  | check (action : Action) (resource : Resource Id) (subject : Option Subject)
  | allows (action : Action) (resource : Resource Id) (subject : Option Subject)
  | abilities
  | len
  | ofAbilities (listed : List Ability)
  | toJson (document : Document)

/-- What an operation answers. -/
inductive Answer where
  | done
  | applied (result : Except PolicyError Nat)
  | checked (result : Except NotAuthorized Unit)
  | allowed (result : Bool)
  | listed (abilities : List Ability)
  | counted (len : Nat)
  | document (document : Document)
  | written (text : String)

/-- Registers something in a registry that is changed in place. -/
def Registration.perform : Registration → StateM Registry Answer
  | grant ability => do
      modify fun r => r.grant ability
      pure .done
  | authorise role action scope => do
      modify fun r => r.authorise role action scope
      pure .done
  | authoriseOwner role action scope => do
      modify fun r => r.authoriseOwner role action scope
      pure .done
  | builtIn => do
      modify fun r => r.grantBuiltIn
      pure .done
  | apply document => do
      let result ← document.applyInPlace.run
      pure (.applied result)

namespace Operation

/-- Carries out an operation on a registry that is changed in place. -/
def perform : Operation → StateM Registry Answer
  | register registration => registration.perform
  | check action resource subject => do
      let r ← get
      pure (.checked (Id.run (r.check action resource subject)))
  | allows action resource subject => do
      let r ← get
      pure (.allowed (Id.run (r.allows action resource subject)))
  | abilities => do
      let r ← get
      pure (.listed r.abilities)
  | len => do
      let r ← get
      pure (.counted r.len)
  | ofAbilities listed => pure (.document (Document.ofAbilities listed))
  | toJson document => pure (.written document.toJson)

/-- Whether an operation only reads. -/
def reads : Operation → Bool
  | register _ => false
  | _ => true

/-- How many abilities an operation has registered, to judge by its answer. -/
def count : Operation → Answer → Nat
  | register (.apply _), .applied (.ok n) => n
  | register (.apply _), _ => 0
  | register .builtIn, _ => builtIn.length
  | register _, _ => 1
  | _, _ => 0

/-- The abilities that an operation registers. -/
def granted : Operation → List Ability
  | register registration => registration.abilities
  | _ => []

end Operation

/-- A registration in place makes the registry that it makes of a value, and answers how many
    abilities it registered. -/
theorem Registration.run_perform (registration : Registration) (r : Registry) :
    (registration.perform.run r).2 = r.register registration ∧
      (Operation.register registration).count (registration.perform.run r).1 =
        registration.abilities.length := by
  cases registration with
  | grant ability => exact ⟨rfl, rfl⟩
  | authorise role action scope => exact ⟨rfl, rfl⟩
  | authoriseOwner role action scope => exact ⟨rfl, rfl⟩
  | builtIn => exact ⟨rfl, rfl⟩
  | apply document =>
    have hrun : (Registration.apply document).perform.run r =
        (.applied (document.applyInPlace.run.run r).1, (document.applyInPlace.run.run r).2) := rfl
    rw [hrun, Document.run_applyInPlace]
    simp only [Registry.register, Registration.abilities]
    cases habilities : document.abilities with
    | error text => simp [Registry.apply_of_unknown r habilities, Operation.count]
    | ok abilities => simp [Registry.apply_of_abilities r habilities, Operation.count]

namespace Operation

/-- An operation grants the abilities that it registers, and changes nothing else. -/
theorem run_perform_snd (op : Operation) (r : Registry) :
    (op.perform.run r).2 = r.grantAll op.granted := by
  cases op with
  | register registration =>
    exact (registration.run_perform r).1.trans (Registry.register_eq_grantAll r registration)
  | _ => rfl

/-- The answer of an operation tells how many abilities it has registered. -/
theorem count_run_perform (op : Operation) (r : Registry) :
    op.count (op.perform.run r).1 = op.granted.length := by
  cases op with
  | register registration => exact (registration.run_perform r).2
  | _ => rfl

/-- An operation that only reads registers nothing. -/
theorem granted_of_reads {op : Operation} (h : op.reads = true) : op.granted = [] := by
  cases op with
  | register registration => cases h
  | _ => rfl

/-- Only a document can fail to be applied, and then nothing is registered. -/
theorem granted_of_failed {op : Operation} {r : Registry} {e : PolicyError}
    (h : (op.perform.run r).1 = .applied (.error e)) : op.granted = [] := by
  have hcount : op.granted.length = op.count (.applied (.error e)) := by
    rw [← h, count_run_perform]
  cases op with
  | register registration =>
    cases registration with
    | apply document => exact List.length_eq_zero_iff.mp hcount
    | _ => cases h
  | _ => rfl

end Operation

/-! ### Runs over several registries -/

/-- Registries, each under its own name. -/
abbrev Store (ι : Type) : Type :=
  ι → Registry

/-- An operation on the registry of a name. -/
structure Call (ι : Type) where
  target : ι
  operation : Operation

namespace Store

variable {ι : Type} [DecidableEq ι]

/-- Carries out a call on its registry. -/
def call (s : Store ι) (c : Call ι) : Answer × Store ι :=
  let result := c.operation.perform.run (s c.target)
  (result.1, Function.update s c.target result.2)

/-- The registries after several calls, one after another. -/
def after (s : Store ι) (calls : List (Call ι)) : Store ι :=
  calls.foldl (fun s c => (s.call c).2) s

/-- How many abilities several calls have registered under a name, to judge by their answers. -/
def count (s : Store ι) (name : ι) : List (Call ι) → Nat
  | [] => 0
  | c :: calls =>
      (if c.target = name then c.operation.count (s.call c).1 else 0) +
        count (s.call c).2 name calls

/-- The abilities that several calls register under a name. -/
def granted (name : ι) (calls : List (Call ι)) : List Ability :=
  calls.flatMap fun c => if c.target = name then c.operation.granted else []

/-- A call grants what it registers in its own registry, and leaves the others alone. -/
theorem call_snd_apply (s : Store ι) (c : Call ι) (name : ι) :
    (s.call c).2 name = (s name).grantAll (granted name [c]) := by
  simp only [call, Operation.run_perform_snd, granted, List.flatMap_singleton]
  by_cases h : c.target = name
  · subst h
    simp
  · rw [Function.update_of_ne (Ne.symm h), if_neg h, Registry.grantAll_nil]

/-- After several calls each registry has been granted what they register in it. -/
theorem after_apply (s : Store ι) (calls : List (Call ι)) (name : ι) :
    s.after calls name = (s name).grantAll (granted name calls) := by
  induction calls generalizing s with
  | nil => rfl
  | cons c calls ih =>
    have hgranted : granted name (c :: calls) = granted name [c] ++ granted name calls := by
      simp [granted]
    show (s.call c).2.after calls name = _
    rw [ih, call_snd_apply, hgranted, Registry.grantAll_append]

/-- The answers of several calls tell how many abilities they have registered. -/
theorem count_eq_length (s : Store ι) (name : ι) (calls : List (Call ι)) :
    s.count name calls = (granted name calls).length := by
  induction calls generalizing s with
  | nil => rfl
  | cons c calls ih =>
    have hcount : c.operation.count (s.call c).1 = c.operation.granted.length :=
      c.operation.count_run_perform (s c.target)
    rw [count, ih, hcount]
    simp only [granted, List.flatMap_cons, List.length_append]
    split <;> rfl

theorem after_append (s : Store ι) (before calls : List (Call ι)) :
    s.after (before ++ calls) = (s.after before).after calls :=
  List.foldl_append

/-- A later moment of a run comes after the calls in between. -/
theorem after_take_eq (s : Store ι) (calls : List (Call ι)) {i j : Nat} (hij : i ≤ j) :
    s.after (calls.take j) = (s.after (calls.take i)).after ((calls.take j).drop i) := by
  have hsplit := List.take_append_drop i (calls.take j)
  rw [List.take_take, Nat.min_eq_left hij] at hsplit
  rw [← after_append, hsplit]

/-- A call that is addressed to another registry, only reads, or fails to apply a document leaves a
    registry as it was. -/
theorem call_snd_apply_of_idle {s : Store ι} {c : Call ι} {name : ι}
    (h : c.target ≠ name ∨ c.operation.reads = true ∨ ∃ e, (s.call c).1 = .applied (.error e)) :
    (s.call c).2 name = s name := by
  have hgranted : granted name [c] = [] := by
    rw [granted, List.flatMap_singleton]
    split
    case isFalse => rfl
    case isTrue htarget =>
      rcases h with hne | hreads | ⟨e, hfailed⟩
      · exact absurd htarget hne
      · exact Operation.granted_of_reads hreads
      · exact Operation.granted_of_failed hfailed
  rw [call_snd_apply, hgranted, Registry.grantAll_nil]

/-- **Registries only grow.**  Take any run of calls on any registries, and any two moments of it.
    What a registry lists at the earlier one is listed in the same order at the later one; it has
    grown by as many abilities as were registered in it in between; and whatever check it passes at
    the earlier moment it passes at the later one.  At any moment a call that is addressed to
    another registry, that only reads, or that fails to apply a document leaves a registry as it
    was, with all it lists and decides. -/
theorem run_only_grows (s : Store ι) (calls : List (Call ι)) (name : ι) {i j : Nat} (hij : i ≤ j) :
    (s.after (calls.take i) name).abilities.Sublist (s.after (calls.take j) name).abilities ∧
    (s.after (calls.take j) name).len = (s.after (calls.take i) name).len +
      (s.after (calls.take i)).count name ((calls.take j).drop i) ∧
    (∀ action resource subject,
      Id.run ((s.after (calls.take i) name).check action resource subject) = .ok () →
        Id.run ((s.after (calls.take j) name).check action resource subject) = .ok ()) ∧
    ∀ c : Call ι, (c.target ≠ name ∨ c.operation.reads = true ∨
        ∃ e, ((s.after (calls.take i)).call c).1 = .applied (.error e)) →
      ((s.after (calls.take i)).call c).2 name = s.after (calls.take i) name := by
  have hlater : s.after (calls.take j) name =
      (s.after (calls.take i) name).grantAll (granted name ((calls.take j).drop i)) := by
    rw [after_take_eq s calls hij, after_apply]
  rw [hlater, count_eq_length]
  refine ⟨Registry.sublist_abilities_grantAll _ _, Registry.len_grantAll _ _, ?_, ?_⟩
  · intro action resource subject hallowed
    exact Registry.run_check_grantAll_eq_ok _ hallowed
  · intro c hidle
    exact call_snd_apply_of_idle hidle

/-- Six calls on two registries, of which the second fails. -/
def sampleCalls : List (Call Bool) :=
  [⟨true, .register (.authorise ⟨7⟩ .show (.resource "pages"))⟩,
    ⟨true, .register (.apply Document.sampleUnknown)⟩, ⟨false, .register .builtIn⟩,
    ⟨true, .abilities⟩, ⟨true, .register (.apply Document.sampleKnown)⟩, ⟨false, .len⟩]

/-- In the first registry, three abilities are registered in the end, role 7 may see pages from the
    first call on, and the second call changes nothing. -/
theorem run_only_grows_sampleCalls :
    let s : Store Bool := fun _ => Registry.empty
    let pages : Resource Id := ⟨"pages", fun _ => false⟩
    (s.after sampleCalls true).len = 3 ∧
    Id.run ((s.after sampleCalls true).check .show pages (some ⟨⟨7⟩, 1⟩)) = .ok () ∧
    ((s.after (sampleCalls.take 1)).call ⟨true, .register (.apply Document.sampleUnknown)⟩).2 true =
      s.after (sampleCalls.take 1) true := by
  intro s pages
  obtain ⟨-, hlen, hallowed, hidle⟩ :=
    run_only_grows s sampleCalls true (by decide : 1 ≤ sampleCalls.length)
  rw [List.take_length] at hlen hallowed
  have hfirst : (s.after (sampleCalls.take 1) true).len = 1 := by decide +kernel
  have hcount : (s.after (sampleCalls.take 1)).count true (sampleCalls.drop 1) = 2 := by
    decide +kernel
  have hpermits : (s.after (sampleCalls.take 1) true).Permits .show pages (some ⟨⟨7⟩, 1⟩) := by
    decide +kernel
  have hfails : ((s.after (sampleCalls.take 1)).call
      ⟨true, .register (.apply Document.sampleUnknown)⟩).1 =
        .applied (.error (.unknownRole " Owner ")) := by
    have hfirst := Document.abilities_eq_error_iff.mpr Document.firstUnknown_sampleUnknown
    show Answer.applied (Document.sampleUnknown.applyInPlace.run.run
      (s.after (sampleCalls.take 1) true)).1 = _
    rw [Document.run_applyInPlace, Registry.apply_of_unknown _ hfirst]
  exact ⟨by rw [hlen, hfirst, hcount], hallowed _ _ _ (Registry.run_check_eq_ok_iff.mpr hpermits),
    hidle _ (.inr (.inr ⟨_, hfails⟩))⟩

end Store

end Warden
