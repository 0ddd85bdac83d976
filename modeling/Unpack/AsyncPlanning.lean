import Unpack.StaticReachability
import Mathlib.Algebra.BigOperators.Group.Finset.Basic
import Mathlib.Algebra.Order.BigOperators.Group.Finset

/-! The invariant of async chunk planning. While a group waits in the queue its plan may be ahead of
what its children recorded about it; once the queue is empty every recorded parent agrees with its
own plan, and every import of every group is either available already or recorded. -/

namespace Unpack

/-- The reachability function answers with the modules of the static walk. -/
def ReachesExactly (graph : ModuleGraph) (reachable : ModuleHandle → List ModuleHandle) : Prop :=
  ∀ start < graph.modules.length, ∀ module, module ∈ reachable start ↔ graph.StaticReach start module

theorem reachesExactly_collectStaticReachable {graph : ModuleGraph} (h : graph.Indexed) :
    ReachesExactly graph graph.collectStaticReachable :=
  fun _ hstart module => ModuleGraph.mem_collectStaticReachable h hstart module

/-- A mask of availability: sized for the graph and closed under static imports. -/
structure MaskOk (graph : ModuleGraph) (mask : ModuleMask) : Prop where
  sized : mask.SizedFor graph.modules.length
  inRange : mask.InRange graph.modules.length
  closed : ∀ module, mask.contains module = true →
    ∀ target ∈ graph.staticSuccessors module, mask.contains target = true

namespace MaskOk

variable {graph : ModuleGraph} {reachable : ModuleHandle → List ModuleHandle}

theorem reach_of_contains {mask : ModuleMask} (h : MaskOk graph mask) {module target : ModuleHandle}
    (hmodule : mask.contains module = true) (hreach : graph.StaticReach module target) :
    mask.contains target = true :=
  Worklist.Reach.mem_of_closed (P := fun m => mask.contains m = true) h.closed hreach hmodule

theorem intersectWith {mask other : ModuleMask} (hmask : MaskOk graph mask)
    (hother : MaskOk graph other) : MaskOk graph (mask.intersectWith other) where
  sized := hmask.sized.intersectWith hother.sized
  inRange := fun module hmodule =>
    hmask.inRange module ((ModuleMask.contains_intersectWith hmask.sized hother.sized _).mp hmodule).1
  closed := by
    intro module hmodule target htarget
    rw [ModuleMask.contains_intersectWith hmask.sized hother.sized] at hmodule ⊢
    exact ⟨hmask.closed module hmodule.1 target htarget, hother.closed module hmodule.2 target htarget⟩

theorem reachable_lt (hgraph : graph.Indexed) (hreach : ReachesExactly graph reachable)
    {start : ModuleHandle} (hstart : start < graph.modules.length) :
    ∀ module ∈ reachable start, module < graph.modules.length :=
  fun module hmodule => ModuleGraph.StaticReach.lt hgraph ((hreach start hstart module).mp hmodule) hstart

theorem insertAll (hgraph : graph.Indexed) (hreach : ReachesExactly graph reachable)
    {mask : ModuleMask} (hmask : MaskOk graph mask) {start : ModuleHandle}
    (hstart : start < graph.modules.length) : MaskOk graph (mask.insertAll (reachable start)) where
  sized := hmask.sized.insertAll _
  inRange := by
    intro module hmodule
    rw [ModuleMask.contains_insertAll hmask.sized (reachable_lt hgraph hreach hstart)] at hmodule
    exact hmodule.elim (hmask.inRange module) (reachable_lt hgraph hreach hstart module)
  closed := by
    intro module hmodule target htarget
    rw [ModuleMask.contains_insertAll hmask.sized (reachable_lt hgraph hreach hstart)] at hmodule ⊢
    refine hmodule.imp (fun h => hmask.closed module h target htarget) fun h => ?_
    rw [hreach start hstart] at h ⊢
    exact Worklist.Reach.tail h htarget

theorem empty (graph : ModuleGraph) : MaskOk graph (.new graph.modules.length) where
  sized := ModuleMask.sizedFor_new _
  inRange := by simp [ModuleMask.InRange]
  closed := by simp

/-- Folding intersections keeps exactly what every mask contains. -/
theorem foldl_intersectWith {mask : ModuleMask} {masks : List ModuleMask} (hmask : MaskOk graph mask)
    (hmasks : ∀ other ∈ masks, MaskOk graph other) :
    MaskOk graph (masks.foldl ModuleMask.intersectWith mask) ∧
      ∀ module, (masks.foldl ModuleMask.intersectWith mask).contains module = true ↔
        mask.contains module = true ∧ ∀ other ∈ masks, other.contains module = true := by
  induction masks generalizing mask with
  | nil => simpa using hmask
  | cons other masks ih =>
      have hother := hmasks other List.mem_cons_self
      obtain ⟨hok, hcontains⟩ := ih (hmask.intersectWith hother) fun m hm =>
        hmasks m (List.mem_cons_of_mem _ hm)
      refine ⟨hok, fun module => ?_⟩
      rw [List.foldl_cons, hcontains module,
        ModuleMask.contains_intersectWith hmask.sized hother.sized, List.forall_mem_cons, and_assoc]

end MaskOk

/-- One plan by itself: its masks are what its parents and its static modules make them. -/
structure PlanOk (graph : ModuleGraph) (reachable : ModuleHandle → List ModuleHandle)
    (target : ModuleHandle) (plan : AsyncChunkPlan) : Prop where
  target_eq : plan.target = target
  target_lt : target < graph.modules.length
  staticModules_eq : plan.staticModules = reachable target
  min_eq : plan.minAvailableModules = AsyncChunkPlan.intersectParents plan.parents
  resulting_eq : plan.resultingAvailableModules =
    plan.minAvailableModules.insertAll plan.staticModules
  parents_ne : plan.parents.entries ≠ []
  parent_ok : ∀ parent parentPlan, plan.parents.lookup parent = some parentPlan →
    MaskOk graph parentPlan.resultingAvailableModules ∧
      parentPlan.resultingAvailableModules.contains target = false ∧ parentPlan.origins ≠ []

section

variable {graph : ModuleGraph} {reachable : ModuleHandle → List ModuleHandle}

theorem mem_entries_iff_lookup {α β : Type} [DecidableEq α] {map : FxHashMap α β} {key : α}
    {value : β} : (⟨key, value⟩ : Sigma fun _ : α => β) ∈ map.entries ↔ map.lookup key = some value :=
  AList.mem_lookup_iff.symm

theorem intersectParents_spec {parents : FxHashMap LogicalChunkGroup AsyncParentPlan}
    (hne : parents.entries ≠ [])
    (hok : ∀ parent parentPlan, parents.lookup parent = some parentPlan →
      MaskOk graph parentPlan.resultingAvailableModules) :
    MaskOk graph (AsyncChunkPlan.intersectParents parents) ∧
      ∀ module, (AsyncChunkPlan.intersectParents parents).contains module = true ↔
        ∀ parent parentPlan, parents.lookup parent = some parentPlan →
          parentPlan.resultingAvailableModules.contains module = true := by
  have hmasks : ∀ mask ∈ parents.entries.map (·.2.resultingAvailableModules), MaskOk graph mask := by
    intro mask hmask
    obtain ⟨entry, hentry, rfl⟩ := List.mem_map.mp hmask
    exact hok entry.1 entry.2 (mem_entries_iff_lookup.mp hentry)
  have hall : ∀ module, (∀ mask ∈ parents.entries.map (·.2.resultingAvailableModules),
      mask.contains module = true) ↔ ∀ parent parentPlan, parents.lookup parent = some parentPlan →
        parentPlan.resultingAvailableModules.contains module = true := by
    intro module
    constructor
    · intro h parent parentPlan hlookup
      exact h _ (List.mem_map.mpr ⟨⟨parent, parentPlan⟩, mem_entries_iff_lookup.mpr hlookup, rfl⟩)
    · intro h mask hmask
      obtain ⟨entry, hentry, rfl⟩ := List.mem_map.mp hmask
      exact h entry.1 entry.2 (mem_entries_iff_lookup.mp hentry)
  rw [AsyncChunkPlan.intersectParents]
  cases hlist : parents.entries.map (·.2.resultingAvailableModules) with
  | nil => exact absurd (List.map_eq_nil_iff.mp hlist) hne
  | cons mask masks =>
      rw [hlist] at hmasks hall
      obtain ⟨hmaskOk, hcontains⟩ := MaskOk.foldl_intersectWith (hmasks mask List.mem_cons_self)
        fun other hother => hmasks other (List.mem_cons_of_mem _ hother)
      refine ⟨hmaskOk, fun module => ?_⟩
      rw [hcontains module, ← hall module, List.forall_mem_cons]

namespace PlanOk

variable {target : ModuleHandle} {plan : AsyncChunkPlan}

theorem min_ok (h : PlanOk graph reachable target plan) : MaskOk graph plan.minAvailableModules := by
  rw [h.min_eq]
  exact (intersectParents_spec h.parents_ne fun p q hpq => (h.parent_ok p q hpq).1).1

/-- What is available before the chunk runs is what every parent leaves. -/
theorem min_contains_iff (h : PlanOk graph reachable target plan) (module : ModuleHandle) :
    plan.minAvailableModules.contains module = true ↔
      ∀ parent parentPlan, plan.parents.lookup parent = some parentPlan →
        parentPlan.resultingAvailableModules.contains module = true := by
  rw [h.min_eq]
  exact (intersectParents_spec h.parents_ne fun p q hpq => (h.parent_ok p q hpq).1).2 module

variable (hgraph : graph.Indexed) (hreach : ReachesExactly graph reachable)

include hgraph hreach

theorem resulting_ok (h : PlanOk graph reachable target plan) :
    MaskOk graph plan.resultingAvailableModules := by
  rw [h.resulting_eq, h.staticModules_eq]
  exact h.min_ok.insertAll hgraph hreach h.target_lt

theorem resulting_contains_iff (h : PlanOk graph reachable target plan) (module : ModuleHandle) :
    plan.resultingAvailableModules.contains module = true ↔
      plan.minAvailableModules.contains module = true ∨ graph.StaticReach target module := by
  rw [h.resulting_eq, ModuleMask.contains_insertAll h.min_ok.sized, h.staticModules_eq,
    hreach target h.target_lt]
  rw [h.staticModules_eq]
  exact MaskOk.reachable_lt hgraph hreach h.target_lt

omit hgraph in
theorem mem_modules_iff (h : PlanOk graph reachable target plan) (module : ModuleHandle) :
    module ∈ plan.modules ↔
      graph.StaticReach target module ∧ plan.minAvailableModules.contains module = false := by
  rw [AsyncChunkPlan.modules, List.mem_filter, h.staticModules_eq, hreach target h.target_lt,
    Bool.not_eq_true']

theorem resulting_contains_target (h : PlanOk graph reachable target plan) :
    plan.resultingAvailableModules.contains target = true :=
  (h.resulting_contains_iff hgraph hreach target).mpr (Or.inr (Worklist.Reach.refl target))

/-- Recording a parent that makes no more available than was recorded of it before. -/
theorem addParent {parent : LogicalChunkGroup} {mask : ModuleMask} (origin : AsyncBlockOrigin)
    (h : PlanOk graph reachable target plan) (hmask : MaskOk graph mask)
    (hlacks : mask.contains target = false)
    (hshrinks : ∀ parentPlan, plan.parents.lookup parent = some parentPlan →
      ∀ module, mask.contains module = true →
        parentPlan.resultingAvailableModules.contains module = true) :
    PlanOk graph reachable target (plan.addParent parent mask origin).1 ∧
      (∀ module, (plan.addParent parent mask origin).1.minAvailableModules.contains module = true →
        plan.minAvailableModules.contains module = true) ∧
      ∀ module,
        (plan.addParent parent mask origin).1.resultingAvailableModules.contains module = true →
          plan.resultingAvailableModules.contains module = true := by
  have hok : PlanOk graph reachable target (plan.addParent parent mask origin).1 := by
    refine ⟨h.target_eq, h.target_lt, h.staticModules_eq, rfl, rfl, ?_, ?_⟩
    · exact List.cons_ne_nil _ _
    · intro other otherPlan hother
      by_cases heq : other = parent
      · subst heq
        rw [AsyncChunkPlan.addParent, AsyncChunkPlan.updatedParents, AList.lookup_insert] at hother
        rw [← Option.some.inj hother]
        exact ⟨hmask, hlacks, List.ne_nil_of_mem (mem_pushNew.mpr (Or.inr rfl))⟩
      · rw [AsyncChunkPlan.addParent, AsyncChunkPlan.updatedParents, AList.lookup_insert_ne heq]
          at hother
        exact h.parent_ok other otherPlan hother
  have hmin : ∀ module,
      (plan.addParent parent mask origin).1.minAvailableModules.contains module = true →
        plan.minAvailableModules.contains module = true := by
    intro module hmodule
    rw [hok.min_contains_iff] at hmodule
    rw [h.min_contains_iff]
    intro other otherPlan hother
    by_cases heq : other = parent
    · subst heq
      exact hshrinks otherPlan hother module (hmodule other _ (AList.lookup_insert _))
    · exact hmodule other otherPlan ((AList.lookup_insert_ne heq).trans hother)
  refine ⟨hok, hmin, fun module hmodule => ?_⟩
  rw [hok.resulting_contains_iff hgraph hreach] at hmodule
  rw [h.resulting_contains_iff hgraph hreach]
  exact hmodule.imp_left (hmin module)

omit hgraph hreach in
/-- The plan of a newly found target. -/
theorem new {parent : LogicalChunkGroup} {mask : ModuleMask} {origin : AsyncBlockOrigin}
    (htarget : target < graph.modules.length) (hmask : MaskOk graph mask)
    (hlacks : mask.contains target = false) :
    PlanOk graph reachable target
      (AsyncChunkPlan.new target (reachable target) parent mask origin) := by
  refine ⟨rfl, htarget, rfl, rfl, rfl, List.cons_ne_nil _ _, ?_⟩
  intro other otherPlan hother
  have hentry := mem_entries_iff_lookup.mpr hother
  rw [AsyncChunkPlan.new] at hentry
  have heq : (⟨other, otherPlan⟩ : Sigma fun _ : LogicalChunkGroup => AsyncParentPlan) =
      ⟨parent, mask, [origin]⟩ := List.mem_singleton.mp hentry
  obtain ⟨rfl, hplan⟩ := Sigma.mk.inj heq
  rw [eq_of_heq hplan]
  exact ⟨hmask, hlacks, List.cons_ne_nil _ _⟩

end PlanOk

end

end Unpack
