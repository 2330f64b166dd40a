import Mathlib.Data.List.Dedup
import Warden.Proofs.Registry.Registrations

namespace Warden

/-!
# The order of the listing

A registry lists its abilities by role, then by action, then in the order in which they were
registered: the listing is the stable sort of the history.

* `Ability.le` — the order, which looks at role and action only.
* `Ability.eq_of_sorted` — a sorted list is known from what it holds in each slot.
* `Registry.Shelved` — a list of shelves that shows all of a registry; concatenated in the order of
  the slots it is the listing (`Registry.Shelved.flatMap_eq_abilities`).
* `Registry.abilities_grantAll` — the listing after several grants.
* `Walk` — a way through the shelves, role by role and in each role action by action, in whatever
  order these come.
* `Registry.abilities_eq_mergeSort` — the listing of what was registered, seen from any walk.
-/

/-! ### The order of abilities -/

theorem Slot.order_self (slot : Slot) : Slot.order slot slot = .eq :=
  Std.ReflCmp.compare_self

/-- Of two slots one is listed in front of the other, or they are the same. -/
theorem Slot.isLE_order_or (s t : Slot) :
    (Slot.order s t).isLE = true ∨ (Slot.order t s).isLE = true := by
  rw [← @Std.OrientedCmp.isGE_iff_isLE _ Slot.order _ s t]
  cases Slot.order s t <;> simp

namespace Ability

/-- Abilities are ordered by the number of the role, then by the place of the action among all
    actions. -/
def le (a b : Ability) : Bool :=
  decide (a.role.id.toInt < b.role.id.toInt ∨
    a.role.id.toInt = b.role.id.toInt ∧ a.action.rank ≤ b.action.rank)

variable {a b c : Ability}

theorem le_iff : a.le b = true ↔ a.role.id.toInt < b.role.id.toInt ∨
    a.role.id.toInt = b.role.id.toInt ∧ a.action.rank ≤ b.action.rank := by
  rw [le, decide_eq_true_eq]

/-- The order of abilities is the one of their slots. -/
theorem le_iff_isLE_order : a.le b = true ↔ (Slot.order a.slot b.slot).isLE = true := by
  rw [le_iff, Slot.order, Ordering.isLE_then_iff_or, Std.compare_eq_lt,
    Std.LawfulEqCmp.compare_eq_iff_eq, Nat.isLE_compare, Int64.lt_iff_toInt_lt, ← Int64.toInt_inj]
  exact Iff.rfl

theorem le_trans (a b c : Ability) (hab : a.le b = true) (hbc : b.le c = true) :
    a.le c = true := by
  rw [le_iff] at *
  omega

theorem le_total (a b : Ability) : (a.le b || b.le a) = true := by
  rw [Bool.or_eq_true, le_iff, le_iff]
  omega

theorem le_of_slot_eq (h : a.slot = b.slot) : a.le b = true := by
  rw [le_iff_isLE_order, h, Slot.order_self]
  rfl

theorem slot_eq_of_le_of_le (hab : a.le b = true) (hba : b.le a = true) : a.slot = b.slot := by
  rw [le_iff] at hab hba
  have hid : a.role.id = b.role.id := Int64.toInt_inj.mp (by omega)
  have hrole : a.role = b.role := congrArg Role.mk hid
  have haction : a.action = b.action := Action.rank_injective (by omega)
  rw [slot, slot, hrole, haction]

/-! ### Sorted lists -/

/-- What stands in two lists is the same if it is the same in each slot. -/
theorem mem_of_filter_eq {xs ys : List Ability}
    (h : ∀ slot, xs.filter (fun x => decide (x.slot = slot)) =
      ys.filter fun y => decide (y.slot = slot)) (ha : a ∈ xs) : a ∈ ys := by
  have hmem : a ∈ xs.filter fun x => decide (x.slot = a.slot) :=
    List.mem_filter.mpr ⟨ha, decide_eq_true rfl⟩
  rw [h] at hmem
  exact (List.mem_filter.mp hmem).1

/-- A sorted list is known from what it holds in each slot. -/
theorem eq_of_sorted {xs ys : List Ability} (hxs : xs.Pairwise fun x x' => x.le x' = true)
    (hys : ys.Pairwise fun y y' => y.le y' = true)
    (h : ∀ slot, xs.filter (fun x => decide (x.slot = slot)) =
      ys.filter fun y => decide (y.slot = slot)) : xs = ys := by
  induction xs generalizing ys with
  | nil =>
    refine (List.eq_nil_iff_forall_not_mem.mpr fun y hy => ?_).symm
    exact List.not_mem_nil (mem_of_filter_eq (fun slot => (h slot).symm) hy)
  | cons x xs ih =>
    cases ys with
    | nil => exact absurd (mem_of_filter_eq h List.mem_cons_self) List.not_mem_nil
    | cons y ys =>
      rw [List.pairwise_cons] at hxs hys
      -- Each head stands in the other list, so neither is listed behind the other.
      have hyx : y.le x = true := by
        rcases List.mem_cons.mp (mem_of_filter_eq h List.mem_cons_self) with rfl | hx
        · exact le_of_slot_eq rfl
        · exact hys.1 x hx
      have hxy : x.le y = true := by
        rcases List.mem_cons.mp (mem_of_filter_eq (fun slot => (h slot).symm) List.mem_cons_self)
          with rfl | hy
        · exact le_of_slot_eq rfl
        · exact hxs.1 y hy
      have hslot := slot_eq_of_le_of_le hxy hyx
      -- So both are the first ones of the same slot.
      obtain ⟨rfl, -⟩ : x = y ∧ _ := by simpa [hslot] using h y.slot
      rw [ih hxs.2 hys.2 fun slot => ?_]
      by_cases hx : x.slot = slot
      · simpa [hx] using h slot
      · simpa [hx] using h slot

/-- Sorting keeps the order of the abilities of one slot. -/
theorem filter_mergeSort (xs : List Ability) (slot : Slot) :
    (xs.mergeSort le).filter (fun x => decide (x.slot = slot)) =
      xs.filter fun x => decide (x.slot = slot) := by
  have hsorted : (xs.filter fun x => decide (x.slot = slot)).Pairwise fun x x' =>
      x.le x' = true := by
    refine List.pairwise_of_forall_mem_list fun x hx x' hx' => le_of_slot_eq ?_
    rw [of_decide_eq_true (List.mem_filter.mp hx).2, of_decide_eq_true (List.mem_filter.mp hx').2]
  -- They are a part of the list that is sorted already, so they stay one of the sorted list.
  have hsub := (List.sublist_mergeSort le_trans le_total hsorted List.filter_sublist).filter
    fun x => decide (x.slot = slot)
  rw [List.filter_filter] at hsub
  simp only [Bool.and_self] at hsub
  refine (hsub.eq_of_length ?_).symm
  exact (((List.mergeSort_perm xs le).filter _).length_eq).symm

theorem pairwise_mergeSort_le (xs : List Ability) :
    (xs.mergeSort le).Pairwise fun x x' => x.le x' = true :=
  List.pairwise_mergeSort le_trans le_total xs

end Ability

/-! ### Lists of shelves -/

namespace Registry

/-- A list of shelves shows all of a registry: no two shelves of one slot, each as the registry
    holds it, and none missing on which anything stands. -/
structure Shelved (r : Registry) (shelves : List (Slot × List Ability)) : Prop where
  distinct : shelves.Pairwise fun e f => e.1 ≠ f.1
  eq_shelf : ∀ e ∈ shelves, e.2 = r.shelf e.1
  complete : ∀ slot, r.shelf slot ≠ [] → ∃ e ∈ shelves, e.1 = slot

variable {r : Registry} {shelves : List (Slot × List Ability)}

/-- Shelves of other slots hold nothing that belongs in a slot. -/
theorem filter_flatMap_of_ne (slot : Slot) (heq : ∀ e ∈ shelves, e.2 = r.shelf e.1)
    (hne : ∀ e ∈ shelves, e.1 ≠ slot) :
    (shelves.flatMap Prod.snd).filter (fun a => decide (a.slot = slot)) = [] := by
  rw [List.filter_eq_nil_iff]
  intro a ha
  obtain ⟨e, he, hae⟩ := List.mem_flatMap.mp ha
  rw [heq e he] at hae
  rw [slot_of_mem_shelf hae, decide_eq_true_eq]
  exact hne e he

/-- What the shelves show of a slot is what stands on its shelf. -/
theorem Shelved.filter_flatMap (h : r.Shelved shelves) (slot : Slot) :
    (shelves.flatMap Prod.snd).filter (fun a => decide (a.slot = slot)) = r.shelf slot := by
  by_cases hmem : ∃ e ∈ shelves, e.1 = slot
  · obtain ⟨e, he, rfl⟩ := hmem
    have hself : e.2.filter (fun a => decide (a.slot = e.1)) = e.2 := by
      rw [List.filter_eq_self]
      intro a ha
      rw [h.eq_shelf e he] at ha
      rw [slot_of_mem_shelf ha, decide_eq_true_eq]
    obtain ⟨before, after, rfl⟩ := List.append_of_mem he
    -- In front of this shelf and behind it stand those of other slots only.
    have hdistinct := List.pairwise_append.mp h.distinct
    have hbefore := filter_flatMap_of_ne e.1
      (fun f hf => h.eq_shelf f (List.mem_append_left _ hf))
      fun f hf => hdistinct.2.2 f hf e List.mem_cons_self
    have hafter := filter_flatMap_of_ne e.1
      (fun f hf => h.eq_shelf f (List.mem_append_right _ (List.mem_cons_of_mem _ hf)))
      fun f hf => ((List.pairwise_cons.mp hdistinct.2.1).1 f hf).symm
    rw [List.flatMap_append, List.flatMap_cons, List.filter_append, List.filter_append, hbefore,
      hself, hafter, List.nil_append, List.append_nil, h.eq_shelf e he]
  · rw [filter_flatMap_of_ne slot h.eq_shelf fun e he heq => hmem ⟨e, he, heq⟩]
    cases hshelf : r.shelf slot with
    | nil => rfl
    | cons a rest => exact absurd (h.complete slot (by simp [hshelf])) hmem

/-- Shelves in the order of their slots show their abilities in order. -/
theorem Shelved.pairwise_flatMap (h : r.Shelved shelves)
    (hsorted : shelves.Pairwise fun e f => (Slot.order e.1 f.1).isLE = true) :
    (shelves.flatMap Prod.snd).Pairwise fun a b => a.le b = true := by
  have hslot : ∀ e ∈ shelves, ∀ a ∈ e.2, a.slot = e.1 := by
    intro e he a ha
    rw [h.eq_shelf e he] at ha
    exact slot_of_mem_shelf ha
  rw [List.pairwise_flatMap]
  constructor
  · intro e he
    refine List.pairwise_of_forall_mem_list fun a ha b hb => Ability.le_of_slot_eq ?_
    rw [hslot e he a ha, hslot e he b hb]
  · refine hsorted.imp_of_mem fun {e f} he hf hle a ha b hb => ?_
    rw [Ability.le_iff_isLE_order, hslot e he a ha, hslot f hf b hb]
    exact hle

theorem Shelved.perm {shelves' : List (Slot × List Ability)} (h : r.Shelved shelves)
    (hperm : shelves'.Perm shelves) : r.Shelved shelves' where
  distinct := (hperm.pairwise_iff fun hne => hne.symm).mpr h.distinct
  eq_shelf := fun e he => h.eq_shelf e (hperm.mem_iff.mp he)
  complete := by
    intro slot hshelf
    obtain ⟨e, he, heq⟩ := h.complete slot hshelf
    exact ⟨e, hperm.mem_iff.mpr he, heq⟩

/-! ### The listing -/

/-- The shelves of a registry, in the order of their slots. -/
def shelfList (r : Registry) : List (Slot × List Ability) :=
  r.shelves.toList.map fun entry => (entry.1, entry.2.toList)

theorem abilities_eq_flatMap (r : Registry) : r.abilities = r.shelfList.flatMap Prod.snd := by
  rw [shelfList, List.flatMap_map]
  rfl

theorem pairwise_shelfList (r : Registry) :
    r.shelfList.Pairwise fun e f => Slot.order e.1 f.1 = .lt :=
  List.pairwise_map.mpr Std.TreeMap.ordered_keys_toList

theorem shelved_shelfList (r : Registry) : r.Shelved r.shelfList where
  distinct := by
    refine r.pairwise_shelfList.imp fun {e f} hlt heq => ?_
    rw [heq, Slot.order_self] at hlt
    cases hlt
  eq_shelf := by
    intro e he
    obtain ⟨⟨slot, shelf⟩, hentry, rfl⟩ := List.mem_map.mp he
    exact (shelf_of_getElem? (Std.TreeMap.mem_toList_iff_getElem?_eq_some.mp hentry)).symm
  complete := by
    intro slot hne
    cases hshelf : r.shelves[slot]? with
    | none => simp [Registry.shelf, hshelf] at hne
    | some shelf =>
      have hentry := Std.TreeMap.mem_toList_iff_getElem?_eq_some.mpr hshelf
      exact ⟨_, List.mem_map_of_mem hentry, rfl⟩

/-- What is listed of a slot is its shelf. -/
theorem filter_abilities (r : Registry) (slot : Slot) :
    r.abilities.filter (fun a => decide (a.slot = slot)) = r.shelf slot := by
  rw [abilities_eq_flatMap]
  exact r.shelved_shelfList.filter_flatMap slot

/-- The listing is in order. -/
theorem pairwise_abilities (r : Registry) : r.abilities.Pairwise fun a b => a.le b = true := by
  rw [abilities_eq_flatMap]
  refine r.shelved_shelfList.pairwise_flatMap (r.pairwise_shelfList.imp fun hlt => ?_)
  rw [hlt]
  rfl

/-- The shelves in the order of their slots, however they were found, make up the listing. -/
theorem Shelved.flatMap_eq_abilities (h : r.Shelved shelves)
    (hsorted : shelves.Pairwise fun e f => (Slot.order e.1 f.1).isLE = true) :
    shelves.flatMap Prod.snd = r.abilities := by
  refine Ability.eq_of_sorted (h.pairwise_flatMap hsorted) r.pairwise_abilities fun slot => ?_
  rw [h.filter_flatMap, filter_abilities]

/-- After several grants the listing is the stable sort of what was listed and what was granted. -/
theorem abilities_grantAll (r : Registry) (granted : List Ability) :
    (r.grantAll granted).abilities = (r.abilities ++ granted).mergeSort Ability.le := by
  refine Ability.eq_of_sorted (pairwise_abilities _) (Ability.pairwise_mergeSort_le _) fun slot => ?_
  rw [filter_abilities, shelf_grantAll, Ability.filter_mergeSort, List.filter_append,
    filter_abilities]

/-- Abilities that are in order already are listed as they were granted. -/
theorem abilities_grantAll_of_sorted {granted : List Ability}
    (h : granted.Pairwise fun a b => a.le b = true) :
    (empty.grantAll granted).abilities = granted := by
  rw [abilities_grantAll, abilities_empty, List.nil_append]
  exact List.mergeSort_of_pairwise h

/-- Shelves are counted one after another. -/
theorem foldl_add_length (shelves : List (Slot × List Ability)) (n : Nat) :
    shelves.foldl (fun n e => n + e.2.length) n = n + (shelves.flatMap Prod.snd).length := by
  induction shelves generalizing n with
  | nil => rfl
  | cons e shelves ih =>
    rw [List.foldl_cons, ih, List.flatMap_cons, List.length_append, Nat.add_assoc]

/-- The number of abilities held is the length of the listing. -/
theorem len_eq_length (r : Registry) : r.len = r.abilities.length := by
  have hlen : r.len = r.shelfList.foldl (fun n e => n + e.2.length) 0 := by
    rw [len, Std.TreeMap.foldl_eq_foldl_toList, shelfList, List.foldl_map]
    rfl
  rw [hlen, foldl_add_length, Nat.zero_add, abilities_eq_flatMap]

end Registry

/-! ### Walks -/

/-- A way through the shelves of a registry: the roles in some order, with each role its actions in
    some order, and with each action what stands on the shelf. -/
abbrev Walk : Type :=
  List (Role × List (Action × List Ability))

namespace Walk

/-- The shelves on the way, in the order in which they are met. -/
def shelves (w : Walk) : List (Slot × List Ability) :=
  w.flatMap fun stop => stop.2.map fun e => (⟨stop.1, e.1⟩, e.2)

/-- What the shelves on the way hold, after they have been put in the order of their slots. -/
def snapshot (w : Walk) : List Ability :=
  (w.shelves.mergeSort fun e f => (Slot.order e.1 f.1).isLE).flatMap Prod.snd

/-- How many abilities are met on the way. -/
def count (w : Walk) : Nat :=
  w.shelves.foldl (fun n e => n + e.2.length) 0

/-- A walk goes through all of a registry: it comes to each role once and in each role to each
    action once, finds there what stands on the shelf, and misses nothing. -/
structure Through (w : Walk) (r : Registry) : Prop where
  roles : (w.map Prod.fst).Nodup
  actions : ∀ stop ∈ w, (stop.2.map Prod.fst).Nodup
  eq_shelf : ∀ e ∈ w.shelves, e.2 = r.shelf e.1
  complete : ∀ slot, r.shelf slot ≠ [] → ∃ e ∈ w.shelves, e.1 = slot

variable {w : Walk} {r : Registry}

/-- On its way a walk shows all of the registry. -/
theorem Through.shelved (h : w.Through r) : r.Shelved w.shelves where
  distinct := by
    refine List.pairwise_flatMap.mpr ⟨?_, ?_⟩
    -- In one role the actions differ, and otherwise the roles do.
    · intro stop hstop
      refine List.pairwise_map.mpr ((List.pairwise_map.mp (h.actions stop hstop)).imp ?_)
      intro e f hne heq
      exact hne (Slot.mk.inj heq).2
    · refine (List.pairwise_map.mp h.roles).imp ?_
      intro stop stop' hne e he f hf heq
      obtain ⟨_, _, rfl⟩ := List.mem_map.mp he
      obtain ⟨_, _, rfl⟩ := List.mem_map.mp hf
      exact hne (Slot.mk.inj heq).1
  eq_shelf := h.eq_shelf
  complete := h.complete

/-- Whatever its order, a walk finds the listing. -/
theorem Through.snapshot_eq (h : w.Through r) : w.snapshot = r.abilities := by
  refine (h.shelved.perm (List.mergeSort_perm _ _)).flatMap_eq_abilities ?_
  refine List.pairwise_mergeSort (fun e f g => Std.TransCmp.isLE_trans) (fun e f => ?_) _
  rw [Bool.or_eq_true]
  exact Slot.isLE_order_or e.1 f.1

/-- Whatever its order, a walk meets as many abilities as are held. -/
theorem Through.count_eq (h : w.Through r) : w.count = r.len := by
  rw [Registry.len_eq_length, ← h.snapshot_eq, count, Registry.foldl_add_length, Nat.zero_add]
  exact ((List.mergeSort_perm w.shelves _).flatMap_right Prod.snd).length_eq.symm

/-- The walk that comes to the roles as they are listed, and in each to all actions in turn. -/
def inTurn (r : Registry) : Walk :=
  (r.abilities.map Ability.role).dedup.map fun role =>
    (role, Action.all.map fun action => (action, r.shelf ⟨role, action⟩))

theorem mem_shelves_inTurn_iff {e : Slot × List Ability} :
    e ∈ (inTurn r).shelves ↔ (∃ a ∈ r.abilities, a.role = e.1.role) ∧ e.2 = r.shelf e.1 := by
  obtain ⟨⟨role, action⟩, shelf⟩ := e
  simp only [shelves, inTurn, List.mem_flatMap, List.mem_map, List.mem_dedup]
  constructor
  · rintro ⟨_, ⟨_, ⟨a, ha, rfl⟩, rfl⟩, hshelf⟩
    obtain ⟨_, hstop, heq⟩ := hshelf
    obtain ⟨action', _, rfl⟩ := List.mem_map.mp hstop
    cases heq
    exact ⟨⟨a, ha, rfl⟩, rfl⟩
  · rintro ⟨⟨a, ha, rfl⟩, rfl⟩
    exact ⟨_, ⟨a.role, ⟨a, ha, rfl⟩, rfl⟩, _, List.mem_map_of_mem (Action.mem_all action), rfl⟩

/-- There is a walk through every registry. -/
theorem through_inTurn (r : Registry) : (inTurn r).Through r where
  roles := by
    rw [inTurn, List.map_map]
    exact (List.map_id _).symm ▸ List.nodup_dedup _
  actions := by
    intro stop hstop
    obtain ⟨role, _, rfl⟩ := List.mem_map.mp hstop
    rw [List.map_map]
    exact (List.map_id Action.all).symm ▸ (by decide)
  eq_shelf := fun e he => (mem_shelves_inTurn_iff.mp he).2
  complete := by
    intro slot hne
    obtain ⟨a, ha⟩ := List.exists_mem_of_ne_nil _ hne
    obtain ⟨hmem, rfl⟩ := Registry.mem_shelf_iff.mp ha
    exact ⟨(a.slot, r.shelf a.slot), mem_shelves_inTurn_iff.mpr ⟨⟨a, hmem, rfl⟩, rfl⟩, rfl⟩

end Walk

/-! ### The listing of a history -/

namespace Registry

/-- **The listing is the stable sort of the history.**  After any registrations the abilities are
    listed by role and action, nothing is lost, added or merged, and those of one role and action
    stand in the order of their registration.  Whoever goes through the shelves in any order finds
    the same, and the number of abilities is the length of the history. -/
theorem abilities_eq_mergeSort (steps : List Registration) :
    (empty.registerAll steps).abilities = (history steps).mergeSort Ability.le ∧
    (∃ w : Walk, w.Through (empty.registerAll steps)) ∧
    (∀ w : Walk, w.Through (empty.registerAll steps) →
      w.snapshot = (history steps).mergeSort Ability.le ∧ w.count = (history steps).length) ∧
    (empty.registerAll steps).abilities.Perm (history steps) ∧
    (∀ slot, (empty.registerAll steps).abilities.filter (fun a => decide (a.slot = slot)) =
      (history steps).filter fun a => decide (a.slot = slot)) ∧
    (empty.registerAll steps).len = (history steps).length ∧
    ((empty.registerAll steps).isEmpty = true ↔ history steps = []) := by
  have hlisting : (empty.registerAll steps).abilities = (history steps).mergeSort Ability.le := by
    rw [registerAll_eq_grantAll, abilities_grantAll, abilities_empty, List.nil_append]
  have hlen : (empty.registerAll steps).len = (history steps).length := by
    rw [len_eq_length, hlisting, List.length_mergeSort]
  refine ⟨hlisting, ⟨_, Walk.through_inTurn _⟩, fun w hw => ⟨?_, ?_⟩, ?_, fun slot => ?_, hlen, ?_⟩
  · rw [hw.snapshot_eq, hlisting]
  · rw [hw.count_eq, hlen]
  · rw [hlisting]
    exact List.mergeSort_perm _ _
  · rw [hlisting, Ability.filter_mergeSort]
  · rw [isEmpty, beq_iff_eq, hlen, List.length_eq_zero_iff]

/-- Four registrations, not in the order of their roles. -/
def sampleSteps : List Registration :=
  [.authorise ⟨10⟩ .show (.resource "pages"), .authoriseOwner ⟨10⟩ .manage (.resource "pages"),
    .grant ⟨⟨3⟩, .show, .anything, false⟩, .authoriseOwner ⟨10⟩ .manage (.resource "users")]

/-- A walk through the registry that they make, against the order of its slots. -/
def sampleWalk : Walk :=
  [(⟨10⟩, [(.manage, [⟨⟨10⟩, .manage, .resource "pages", true⟩,
      ⟨⟨10⟩, .manage, .resource "users", true⟩]),
    (.show, [⟨⟨10⟩, .show, .resource "pages", false⟩])]),
    (⟨3⟩, [(.show, [⟨⟨3⟩, .show, .anything, false⟩])])]

/-- The four are listed in order, also by that walk. -/
theorem snapshot_sampleWalk :
    sampleWalk.Through (empty.registerAll sampleSteps) ∧
    sampleWalk.snapshot = (history sampleSteps).mergeSort Ability.le ∧ sampleWalk.count = 4 ∧
    (empty.registerAll sampleSteps).abilities =
      [⟨⟨3⟩, .show, .anything, false⟩, ⟨⟨10⟩, .show, .resource "pages", false⟩,
        ⟨⟨10⟩, .manage, .resource "pages", true⟩, ⟨⟨10⟩, .manage, .resource "users", true⟩] := by
  have hshelf : ∀ slot, (empty.registerAll sampleSteps).shelf slot =
      (history sampleSteps).filter fun a => decide (a.slot = slot) := by
    intro slot
    rw [registerAll_eq_grantAll, shelf_grantAll, shelf_empty, List.nil_append]
  have hwalk : sampleWalk.Through (empty.registerAll sampleSteps) := by
    refine ⟨by decide, by decide, by simp only [hshelf]; decide, fun slot hne => ?_⟩
    -- Whatever stands on a shelf was registered, and the walk comes to its slot.
    rw [hshelf] at hne
    obtain ⟨a, ha⟩ := List.exists_mem_of_ne_nil _ hne
    obtain ⟨hmem, hslot⟩ := List.mem_filter.mp ha
    have hall : ∀ a ∈ history sampleSteps, ∃ e ∈ sampleWalk.shelves, e.1 = a.slot := by decide
    rw [← of_decide_eq_true hslot]
    exact hall a hmem
  obtain ⟨hsnapshot, hcount⟩ := (abilities_eq_mergeSort sampleSteps).2.2.1 sampleWalk hwalk
  exact ⟨hwalk, hsnapshot, hcount, by decide +kernel⟩

end Registry

end Warden
