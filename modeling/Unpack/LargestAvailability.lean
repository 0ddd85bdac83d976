import Unpack.SettledPlanning
import Unpack.Lib.Run
import Mathlib.Order.FixedPoints
import Mathlib.Order.CompletePartialOrder

/-! Async chunk planning computes the largest availability. The system below says what each group emits,
what it leaves available and which groups load a target, as a monotone operator on availability. The
loop starts above every solution, no turn of it falls below one, and an empty queue is itself a
solution, whatever the order in which the queue was worked off. -/

namespace Unpack

section System

variable (graph : ModuleGraph) (entries : List ModuleHandle)

/-- What a group has loaded once it has run, given what is available before each target runs. -/
def resultingModules (available : ModuleHandle → Set ModuleHandle) :
    LogicalChunkGroup → Set ModuleHandle
  | .entrypoint index =>
      {module | ∃ entry, entries[index]? = some entry ∧ graph.StaticReach entry module}
  | .asyncChunk target => available target ∪ {module | graph.StaticReach target module}

/-- The modules that a group brings itself. -/
def emittedModules (available : ModuleHandle → Set ModuleHandle) :
    LogicalChunkGroup → Set ModuleHandle
  | .entrypoint index =>
      {module | ∃ entry, entries[index]? = some entry ∧ graph.StaticReach entry module}
  | .asyncChunk target => {module | graph.StaticReach target module} \ available target

/-- The group emits a block that imports the target and does not leave the target available. -/
def LoadsTarget (available : ModuleHandle → Set ModuleHandle) (parent : LogicalChunkGroup)
    (target : ModuleHandle) : Prop :=
  (∃ origin : AsyncBlockOrigin, origin.module ∈ emittedModules graph entries available parent ∧
      graph.ImportsFrom origin target) ∧
    target ∉ resultingModules graph entries available parent

variable {graph entries} {available larger : ModuleHandle → Set ModuleHandle}

theorem resultingModules_mono (hle : available ≤ larger) (group : LogicalChunkGroup) :
    resultingModules graph entries available group ⊆ resultingModules graph entries larger group := by
  cases group with
  | entrypoint index => exact subset_rfl
  | asyncChunk target => exact Set.union_subset_union_left _ (hle target)

theorem emittedModules_anti (hle : available ≤ larger) (group : LogicalChunkGroup) :
    emittedModules graph entries larger group ⊆ emittedModules graph entries available group := by
  cases group with
  | entrypoint index => exact subset_rfl
  | asyncChunk target => exact Set.sdiff_subset_sdiff_right (hle target)

theorem LoadsTarget.anti (hle : available ≤ larger) {parent : LogicalChunkGroup}
    {target : ModuleHandle} (h : LoadsTarget graph entries larger parent target) :
    LoadsTarget graph entries available parent target := by
  obtain ⟨⟨origin, hmodule, himport⟩, hlacks⟩ := h
  exact ⟨⟨origin, emittedModules_anti hle parent hmodule, himport⟩,
    fun hmem => hlacks (resultingModules_mono hle parent hmem)⟩

variable (graph entries)

/-- Before a target runs, what all its parents leave is available. -/
def availabilitySystem : (ModuleHandle → Set ModuleHandle) →o (ModuleHandle → Set ModuleHandle) where
  toFun available target := {module | ∀ parent, LoadsTarget graph entries available parent target →
    module ∈ resultingModules graph entries available parent}
  monotone' := by
    intro available larger hle target module hmodule parent hparent
    exact resultingModules_mono hle parent (hmodule parent (hparent.anti hle))

end System

section

variable {graph : ModuleGraph} {reachable : ModuleHandle → List ModuleHandle}
variable {entries : List ModuleHandle} {planning planning' : AsyncPlanning}

/-- What the plans say is available before a target runs; a target that nothing loads has no limit. -/
def AsyncPlanning.available (planning : AsyncPlanning) (target : ModuleHandle) : Set ModuleHandle :=
  {module | ∀ plan, planning.plans.lookup target = some plan →
    plan.minAvailableModules.contains module = true}

theorem AsyncPlanning.available_of_lookup {target : ModuleHandle} {plan : AsyncChunkPlan}
    (hlookup : planning.plans.lookup target = some plan) (module : ModuleHandle) :
    module ∈ planning.available target ↔ plan.minAvailableModules.contains module = true := by
  refine ⟨fun hmodule => hmodule plan hlookup, fun hcontains other hother => ?_⟩
  rw [hlookup] at hother
  rw [← Option.some.inj hother]
  exact hcontains

theorem AsyncPlanning.available_of_none {target : ModuleHandle}
    (hlookup : planning.plans.lookup target = none) : planning.available target = Set.univ := by
  refine Set.eq_univ_of_forall fun module plan hplan => ?_
  rw [hlookup] at hplan
  cases hplan

/-- One turn for any group of the queue. -/
def PlanStep (graph : ModuleGraph) (reachable : ModuleHandle → List ModuleHandle)
    (entries : List ModuleHandle) (planning : AsyncPlanning) (parent : LogicalChunkGroup)
    (planning' : AsyncPlanning) : Prop :=
  ∃ rest, List.Perm (parent :: rest) planning.pending ∧
    planParent graph reachable (entrypointPlans graph reachable entries)
      { planning with pending := parent :: rest } = some planning'

/-- The loop before its first turn. -/
def planStart (entries : List ModuleHandle) : AsyncPlanning :=
  { plans := ∅, pending := (List.range entries.length).map .entrypoint }

/-- The states of the loop when its queue is worked off in some order. -/
abbrev PlanRun (graph : ModuleGraph) (reachable : ModuleHandle → List ModuleHandle)
    (entries : List ModuleHandle) :
    List (AsyncPlanning × LogicalChunkGroup) → AsyncPlanning → Prop :=
  Interleaving.Run (· = planStart entries) (PlanStep graph reachable entries)

/-- Every recorded edge is one of the solution, and the mask recorded with it holds what the solution
leaves available. -/
def AboveSolution (graph : ModuleGraph) (entries : List ModuleHandle)
    (solution : ModuleHandle → Set ModuleHandle) (planning : AsyncPlanning) : Prop :=
  ∀ target parent parentPlan, (planning.parentsOf target).lookup parent = some parentPlan →
    LoadsTarget graph entries solution parent target ∧
      ∀ module ∈ resultingModules graph entries solution parent,
        parentPlan.resultingAvailableModules.contains module = true

theorem lookup_parentsOf_visitImport {visiting parent : LogicalChunkGroup} {mask : ModuleMask}
    {item : AsyncBlockOrigin × ModuleHandle} {target : ModuleHandle} {parentPlan : AsyncParentPlan}
    (hlookup : ((visitImport reachable visiting mask planning item).parentsOf target).lookup parent =
      some parentPlan) :
    (planning.parentsOf target).lookup parent = some parentPlan ∨
      target = item.2 ∧ parent = visiting ∧ parentPlan.resultingAvailableModules = mask ∧
        mask.contains item.2 = false := by
  obtain ⟨origin, imported⟩ := item
  rw [visitImport] at hlookup
  cases hcontains : mask.contains imported with
  | true =>
      rw [if_pos hcontains] at hlookup
      exact Or.inl hlookup
  | false =>
      rw [if_neg (by rw [hcontains]; exact Bool.false_ne_true)] at hlookup
      -- both ways to record the import put the visiting group into the table of parents
      have hinsert : ∀ (next : AsyncPlanning) (plan : AsyncChunkPlan) (origins : List AsyncBlockOrigin),
          next.plans = planning.plans.insert imported plan →
          plan.parents = (planning.parentsOf imported).insert visiting ⟨mask, origins⟩ →
          (next.parentsOf target).lookup parent = some parentPlan →
          (planning.parentsOf target).lookup parent = some parentPlan ∨
            target = imported ∧ parent = visiting ∧
              parentPlan.resultingAvailableModules = mask ∧ false = false := by
        intro next plan origins hplans hparents hnext
        rw [parentsOf_insert hplans] at hnext
        by_cases htarget : target = imported
        · rw [if_pos htarget, hparents] at hnext
          by_cases hparent : parent = visiting
          · rw [hparent, AList.lookup_insert] at hnext
            rw [← Option.some.inj hnext]
            exact Or.inr ⟨htarget, hparent, rfl, rfl⟩
          · rw [AList.lookup_insert_ne hparent] at hnext
            rw [htarget]
            exact Or.inl hnext
        · rw [if_neg htarget] at hnext
          exact Or.inl hnext
      cases hplan : planning.plans.lookup imported with
      | none =>
          rw [hplan] at hlookup
          refine hinsert _ _ [origin] rfl ?_ hlookup
          rw [AsyncPlanning.parentsOf, hplan]
          rfl
      | some plan =>
          rw [hplan] at hlookup
          refine hinsert _ _ (pushNew ((plan.parents.lookup visiting).elim [] (·.origins)) origin) rfl
            ?_ hlookup
          rw [parentsOf_of_lookup hplan]
          rfl

theorem AboveSolution.foldl_visitImport {solution : ModuleHandle → Set ModuleHandle}
    {visiting : LogicalChunkGroup} {modules : List ModuleHandle} {mask : ModuleMask}
    (hmodules : ∀ module ∈ modules, module ∈ emittedModules graph entries solution visiting)
    (hmask : ∀ module ∈ resultingModules graph entries solution visiting,
      mask.contains module = true)
    (items : List (AsyncBlockOrigin × ModuleHandle))
    (hitems : ∀ item ∈ items, item ∈ graph.dynamicImportOrigins modules)
    (habove : AboveSolution graph entries solution planning) :
    AboveSolution graph entries solution
      (items.foldl (visitImport reachable visiting mask) planning) := by
  induction items generalizing planning with
  | nil => exact habove
  | cons item items ih =>
      refine ih (fun other hother => hitems other (List.mem_cons_of_mem _ hother)) ?_
      intro target parent parentPlan hlookup
      rcases lookup_parentsOf_visitImport hlookup with hbefore | ⟨rfl, rfl, hplan, hlacks⟩
      · exact habove target parent parentPlan hbefore
      · obtain ⟨hmodule, himport⟩ :=
          ModuleGraph.mem_dynamicImportOrigins.mp (hitems item List.mem_cons_self)
        refine ⟨⟨⟨item.1, hmodules _ hmodule, himport⟩, fun hmem => ?_⟩, hplan ▸ hmask⟩
        rw [hmask _ hmem] at hlacks
        cases hlacks

section Solution

variable {solution : ModuleHandle → Set ModuleHandle}

/-- A plan makes available what every solution does. -/
theorem AboveSolution.min_contains (habove : AboveSolution graph entries solution planning)
    (hsolution : solution ≤ availabilitySystem graph entries solution) {target : ModuleHandle}
    {plan : AsyncChunkPlan} (hlookup : planning.plans.lookup target = some plan)
    (hok : PlanOk graph reachable target plan) {module : ModuleHandle}
    (hmodule : module ∈ solution target) : plan.minAvailableModules.contains module = true := by
  refine (hok.min_contains_iff module).mpr fun parent parentPlan hparent => ?_
  rw [← parentsOf_of_lookup hlookup] at hparent
  obtain ⟨hloads, hmask⟩ := habove target parent parentPlan hparent
  exact hmask module (hsolution target hmodule parent hloads)

variable (hgraph : graph.Indexed) (hreach : ReachesExactly graph reachable)
variable (hentries : ∀ entry ∈ entries, entry < graph.modules.length)

include hgraph hreach hentries

/-- A group emits no more, and leaves no less, than in the solution. -/
theorem AboveSolution.parentModules (habove : AboveSolution graph entries solution planning)
    (hsolution : solution ≤ availabilitySystem graph entries solution)
    (hplans : ∀ target plan, planning.plans.lookup target = some plan →
      PlanOk graph reachable target plan) {parent : LogicalChunkGroup} {modules : List ModuleHandle}
    {mask : ModuleMask} (hparent : planning.parentModules
      (entrypointPlans graph reachable entries) parent = some (modules, mask)) :
    (∀ module ∈ modules, module ∈ emittedModules graph entries solution parent) ∧
      ∀ module ∈ resultingModules graph entries solution parent, mask.contains module = true := by
  cases parent with
  | entrypoint index =>
      obtain ⟨plan, hplan, hpair⟩ := Option.map_eq_some_iff.mp hparent
      obtain ⟨rfl, rfl⟩ := Prod.mk.inj hpair
      rw [getElem?_entrypointPlans] at hplan
      obtain ⟨entry, hentry, rfl⟩ := Option.map_eq_some_iff.mp hplan
      have hlt := hentries entry (List.mem_of_getElem? hentry)
      refine ⟨fun module hmodule => ⟨entry, hentry, (hreach entry hlt module).mp hmodule⟩, ?_⟩
      rintro module ⟨other, hother, hstatic⟩
      rw [hentry] at hother
      rw [entrypointPlan_contains_iff hgraph hreach hentries hentry, Option.some.inj hother]
      exact hstatic
  | asyncChunk target =>
      obtain ⟨plan, hplan, hpair⟩ := Option.map_eq_some_iff.mp hparent
      obtain ⟨rfl, rfl⟩ := Prod.mk.inj hpair
      have hok := hplans target plan hplan
      refine ⟨fun module hmodule => ?_, fun module hmodule => ?_⟩
      · obtain ⟨hstatic, hmin⟩ := (hok.mem_modules_iff hreach module).mp hmodule
        refine ⟨hstatic, fun hmem => ?_⟩
        rw [habove.min_contains hsolution hplan hok hmem] at hmin
        cases hmin
      · rw [hok.resulting_contains_iff hgraph hreach]
        exact hmodule.imp_left (habove.min_contains hsolution hplan hok)

/-- The step lemma: one turn keeps the plans above every solution. -/
theorem AboveSolution.planParent (habove : AboveSolution graph entries solution planning)
    (hsolution : solution ≤ availabilitySystem graph entries solution)
    (hplans : ∀ target plan, planning.plans.lookup target = some plan →
      PlanOk graph reachable target plan)
    (hstep : planParent graph reachable (entrypointPlans graph reachable entries) planning =
      some planning') : AboveSolution graph entries solution planning' := by
  unfold Unpack.planParent at hstep
  split at hstep
  · cases hstep
  next parent pending hpending =>
    rw [← Option.some.inj hstep]
    split
    next modules mask hparent =>
      obtain ⟨hmodules, hmask⟩ :=
        habove.parentModules hgraph hreach hentries hsolution hplans hparent
      exact AboveSolution.foldl_visitImport hmodules hmask _ (fun _ hitem => hitem) habove
    · exact habove

end Solution

section Runs

variable (hgraph : graph.Indexed) (hreach : ReachesExactly graph reachable)
variable (hentries : ∀ entry ∈ entries, entry < graph.modules.length)

/-- What holds in every state of the loop. -/
structure PlanningInv (graph : ModuleGraph) (reachable : ModuleHandle → List ModuleHandle)
    (entries : List ModuleHandle) (planning : AsyncPlanning) : Prop where
  plans : PlanInv graph reachable (entrypointPlans graph reachable entries) planning
    fun parent _ => parent ∈ planning.pending
  above : ∀ solution, solution ≤ availabilitySystem graph entries solution →
    AboveSolution graph entries solution planning

/-- The invariant and the measure do not see the order of the queue. -/
theorem planningInv_reorder {pending : List LogicalChunkGroup}
    (hinv : PlanningInv graph reachable entries planning)
    (hperm : List.Perm pending planning.pending) :
    PlanningInv graph reachable entries { planning with pending } ∧
      planningMeasure graph { planning with pending } = planningMeasure graph planning := by
  refine ⟨⟨⟨hinv.plans.plan_ok, ?_, ?_⟩, hinv.above⟩, ?_⟩
  · intro target parent parentPlan hlookup
    obtain ⟨modules, mask, hknown, hsub, horigins, hcurrent⟩ :=
      hinv.plans.parent_known target parent parentPlan hlookup
    refine ⟨modules, mask, hknown, hsub, horigins, hcurrent.imp_right ?_⟩
    rintro ⟨origin, horigin, hmem⟩
    exact ⟨origin, horigin, hperm.mem_iff.mpr hmem⟩
  · intro parent modules mask hparent item hitem
    exact (hinv.plans.settled parent modules mask hparent item hitem).imp_left hperm.mem_iff.mpr
  · show pending.length + _ = planning.pending.length + _
    rw [hperm.length_eq]
    rfl

include hgraph hreach hentries

theorem planningInv_step {parent : LogicalChunkGroup}
    (hinv : PlanningInv graph reachable entries planning)
    (hstep : PlanStep graph reachable entries planning parent planning') :
    PlanningInv graph reachable entries planning' ∧
      planningMeasure graph planning' < planningMeasure graph planning := by
  obtain ⟨rest, hperm, hturn⟩ := hstep
  obtain ⟨hinv', hmeasure⟩ := planningInv_reorder hinv hperm
  obtain ⟨hplans, hlt⟩ := planParent_spec hgraph hreach (entrypointsOk hgraph hreach hentries)
    hinv'.plans hturn
  refine ⟨⟨hplans, fun solution hsolution => ?_⟩, hmeasure ▸ hlt⟩
  exact (hinv'.above solution hsolution).planParent hgraph hreach hentries hsolution
    hinv'.plans.plan_ok hturn

/-- The run lemma: a run keeps the invariant and has no more turns than the fuel. -/
theorem planningInv_run {trace : List (AsyncPlanning × LogicalChunkGroup)}
    (hrun : PlanRun graph reachable entries trace planning) :
    PlanningInv graph reachable entries planning ∧
      trace.length + planningMeasure graph planning ≤ planningFuel graph entries := by
  induction hrun with
  | start hstart =>
      subst hstart
      refine ⟨⟨planInv_init, fun solution _ target parent parentPlan hlookup => ?_⟩, ?_⟩
      · exact absurd hlookup (by simp [planStart, AsyncPlanning.parentsOf])
      · rw [planStart, planningMeasure_init, List.length_nil, Nat.zero_add]
  | step _ hstep ih =>
      obtain ⟨hinv, hlt⟩ := planningInv_step hgraph hreach hentries ih.1 hstep
      have hbound := ih.2
      rw [List.length_append, List.length_singleton]
      exact ⟨hinv, by omega⟩

end Runs

section Settled

variable (hgraph : graph.Indexed) (hreach : ReachesExactly graph reachable)
variable (hentries : ∀ entry ∈ entries, entry < graph.modules.length)

/-- What is claimed of finished plans: the parents of a target are the groups that emit a block importing
it and do not leave it available, the masks are what the parents leave and the static modules, and the
availability is the largest solution. -/
structure FinishedPlans (graph : ModuleGraph) (reachable : ModuleHandle → List ModuleHandle)
    (entries : List ModuleHandle) (planning : AsyncPlanning) : Prop where
  parents : ∀ target plan, planning.plans.lookup target = some plan → ∀ parent,
    (∃ parentPlan, plan.parents.lookup parent = some parentPlan) ↔
      ∃ modules mask, planning.parentModules (entrypointPlans graph reachable entries) parent =
          some (modules, mask) ∧
        (∃ origin : AsyncBlockOrigin, origin.module ∈ modules ∧ graph.ImportsFrom origin target) ∧
        mask.contains target = false
  min_available : ∀ target plan, planning.plans.lookup target = some plan → ∀ module,
    plan.minAvailableModules.contains module = true ↔
      ∀ parent parentPlan modules mask, plan.parents.lookup parent = some parentPlan →
        planning.parentModules (entrypointPlans graph reachable entries) parent =
          some (modules, mask) → mask.contains module = true
  resulting : ∀ target plan, planning.plans.lookup target = some plan → ∀ module,
    plan.resultingAvailableModules.contains module = true ↔
      plan.minAvailableModules.contains module = true ∨ graph.StaticReach target module
  target_unavailable : ∀ target plan, planning.plans.lookup target = some plan →
    plan.minAvailableModules.contains target = false
  largest : planning.available = (availabilitySystem graph entries).gfp

include hgraph hreach hentries

/-- The emitted modules and the masks of the groups are those of the system. -/
theorem parentModules_iff (hinv : PlanningInv graph reachable entries planning)
    {parent : LogicalChunkGroup} {modules : List ModuleHandle} {mask : ModuleMask}
    (hparent : planning.parentModules (entrypointPlans graph reachable entries) parent =
      some (modules, mask)) (module : ModuleHandle) :
    (module ∈ modules ↔ module ∈ emittedModules graph entries planning.available parent) ∧
      (mask.contains module = true ↔
        module ∈ resultingModules graph entries planning.available parent) := by
  cases parent with
  | entrypoint index =>
      obtain ⟨plan, hplan, hpair⟩ := Option.map_eq_some_iff.mp hparent
      obtain ⟨rfl, rfl⟩ := Prod.mk.inj hpair
      rw [getElem?_entrypointPlans] at hplan
      obtain ⟨entry, hentry, rfl⟩ := Option.map_eq_some_iff.mp hplan
      have hlt := hentries entry (List.mem_of_getElem? hentry)
      have hroot : (∃ other, entries[index]? = some other ∧ graph.StaticReach other module) ↔
          graph.StaticReach entry module := by
        simp only [hentry, Option.some.injEq, exists_eq_left']
      exact ⟨(hreach entry hlt module).trans hroot.symm,
        (entrypointPlan_contains_iff hgraph hreach hentries hentry module).trans hroot.symm⟩
  | asyncChunk target =>
      obtain ⟨plan, hplan, hpair⟩ := Option.map_eq_some_iff.mp hparent
      obtain ⟨rfl, rfl⟩ := Prod.mk.inj hpair
      have hok := hinv.plans.plan_ok target plan hplan
      have havailable := AsyncPlanning.available_of_lookup hplan module
      constructor
      · rw [hok.mem_modules_iff hreach, Bool.eq_false_iff, Ne, ← havailable]
        exact Iff.rfl
      · rw [hok.resulting_contains_iff hgraph hreach, ← havailable]
        exact Iff.rfl

omit hgraph hreach hentries in
/-- Only planned groups emit anything. -/
theorem exists_parentModules {parent : LogicalChunkGroup} {module : ModuleHandle}
    (hmodule : module ∈ emittedModules graph entries planning.available parent) :
    ∃ pair, planning.parentModules (entrypointPlans graph reachable entries) parent = some pair := by
  cases parent with
  | entrypoint index =>
      obtain ⟨entry, hentry, -⟩ := hmodule
      rw [AsyncPlanning.parentModules, getElem?_entrypointPlans, hentry]
      exact ⟨_, rfl⟩
  | asyncChunk target =>
      cases hplan : planning.plans.lookup target with
      | none =>
          have hnot : module ∉ planning.available target := hmodule.2
          rw [AsyncPlanning.available_of_none hplan] at hnot
          exact absurd (Set.mem_univ module) hnot
      | some plan =>
          rw [AsyncPlanning.parentModules, hplan]
          exact ⟨_, rfl⟩

variable (hempty : planning.pending = [])

include hempty

omit hgraph hreach hentries in
/-- With nothing left to visit a recorded parent has the mask that was recorded. -/
theorem recorded_current (hinv : PlanningInv graph reachable entries planning)
    {target : ModuleHandle} {parent : LogicalChunkGroup} {parentPlan : AsyncParentPlan}
    (hlookup : (planning.parentsOf target).lookup parent = some parentPlan) :
    ∃ modules, planning.parentModules (entrypointPlans graph reachable entries) parent =
        some (modules, parentPlan.resultingAvailableModules) ∧
      (∃ origin : AsyncBlockOrigin, origin.module ∈ modules ∧ graph.ImportsFrom origin target) ∧
        parentPlan.resultingAvailableModules.contains target = false := by
  cases hplan : planning.plans.lookup target with
  | none =>
      rw [AsyncPlanning.parentsOf, hplan] at hlookup
      exact absurd hlookup (by simp)
  | some plan =>
      rw [parentsOf_of_lookup hplan] at hlookup
      obtain ⟨-, hlacks, hne⟩ := (hinv.plans.plan_ok target plan hplan).parent_ok parent parentPlan
        hlookup
      rw [← parentsOf_of_lookup hplan] at hlookup
      obtain ⟨modules, mask, hknown, -, horigins, hcurrent | ⟨_, _, hpending⟩⟩ :=
        hinv.plans.parent_known target parent parentPlan hlookup
      · obtain ⟨origin, horigin⟩ := List.exists_mem_of_ne_nil _ hne
        exact ⟨modules, hcurrent ▸ hknown,
          ⟨origin, ModuleGraph.mem_dynamicImportOrigins.mp (horigins origin horigin)⟩, hlacks⟩
      · rw [hempty] at hpending
        exact absurd hpending List.not_mem_nil

/-- The recorded parents are those of the system. -/
theorem recorded_iff_loadsTarget (hinv : PlanningInv graph reachable entries planning)
    (target : ModuleHandle) (parent : LogicalChunkGroup) :
    (∃ parentPlan, (planning.parentsOf target).lookup parent = some parentPlan) ↔
      LoadsTarget graph entries planning.available parent target := by
  constructor
  · rintro ⟨parentPlan, hlookup⟩
    obtain ⟨modules, hknown, ⟨origin, hmodule, himport⟩, hlacks⟩ :=
      recorded_current hempty hinv hlookup
    have hiff := parentModules_iff hgraph hreach hentries hinv hknown
    refine ⟨⟨origin, (hiff origin.module).1.mp hmodule, himport⟩, fun hmem => ?_⟩
    rw [(hiff target).2.mpr hmem] at hlacks
    cases hlacks
  · rintro ⟨⟨origin, hmodule, himport⟩, hlacks⟩
    obtain ⟨⟨modules, mask⟩, hknown⟩ := @exists_parentModules _ reachable _ _ _ _ hmodule
    have hiff := parentModules_iff hgraph hreach hentries hinv hknown
    have hitem := ModuleGraph.mem_dynamicImportOrigins.mpr
      ⟨(hiff origin.module).1.mpr hmodule, himport⟩
    rcases hinv.plans.settled parent modules mask hknown _ hitem with hpending | hcontains | hrecorded
    · rw [hempty] at hpending
      exact absurd hpending List.not_mem_nil
    · exact absurd ((hiff target).2.mp hcontains) hlacks
    · obtain ⟨parentPlan, hlookup, -⟩ := hrecorded
      exact ⟨parentPlan, hlookup⟩

/-- Finished plans solve the system. -/
theorem available_fixed (hinv : PlanningInv graph reachable entries planning) :
    availabilitySystem graph entries planning.available = planning.available := by
  funext target
  ext module
  have hrecorded := recorded_iff_loadsTarget hgraph hreach hentries hempty hinv target
  have hresulting : ∀ parent parentPlan,
      (planning.parentsOf target).lookup parent = some parentPlan →
      (module ∈ resultingModules graph entries planning.available parent ↔
        parentPlan.resultingAvailableModules.contains module = true) := by
    intro parent parentPlan hlookup
    obtain ⟨modules, hknown, -⟩ := recorded_current hempty hinv hlookup
    exact (parentModules_iff hgraph hreach hentries hinv hknown module).2.symm
  show (∀ parent, LoadsTarget graph entries planning.available parent target →
    module ∈ resultingModules graph entries planning.available parent) ↔ _
  cases hplan : planning.plans.lookup target with
  | none =>
      rw [AsyncPlanning.available_of_none hplan]
      refine iff_of_true (fun parent hloads => ?_) (Set.mem_univ module)
      obtain ⟨parentPlan, hlookup⟩ := (hrecorded parent).mpr hloads
      rw [AsyncPlanning.parentsOf, hplan] at hlookup
      exact absurd hlookup (by simp)
  | some plan =>
      rw [AsyncPlanning.available_of_lookup hplan,
        (hinv.plans.plan_ok target plan hplan).min_contains_iff, ← parentsOf_of_lookup hplan]
      constructor
      · intro hall parent parentPlan hlookup
        exact (hresulting parent parentPlan hlookup).mp (hall parent ((hrecorded parent).mp
          ⟨parentPlan, hlookup⟩))
      · intro hall parent hloads
        obtain ⟨parentPlan, hlookup⟩ := (hrecorded parent).mpr hloads
        exact (hresulting parent parentPlan hlookup).mpr (hall parent parentPlan hlookup)

/-- Finished plans are the largest solution. -/
theorem available_eq_gfp (hinv : PlanningInv graph reachable entries planning) :
    planning.available = (availabilitySystem graph entries).gfp := by
  refine le_antisymm ?_ fun target module hmodule => ?_
  · exact (availabilitySystem graph entries).le_gfp
      (available_fixed hgraph hreach hentries hempty hinv).ge
  · have hgfp : (availabilitySystem graph entries).gfp ≤
        availabilitySystem graph entries (availabilitySystem graph entries).gfp :=
      (availabilitySystem graph entries).map_gfp.ge
    intro plan hplan
    exact (hinv.above _ hgfp).min_contains hgfp hplan (hinv.plans.plan_ok target plan hplan) hmodule

theorem finishedPlans (hinv : PlanningInv graph reachable entries planning) :
    FinishedPlans graph reachable entries planning where
  parents := by
    intro target plan hplan parent
    rw [← parentsOf_of_lookup hplan]
    constructor
    · rintro ⟨parentPlan, hlookup⟩
      obtain ⟨modules, hknown, himports, hlacks⟩ :=
        recorded_current hempty hinv hlookup
      exact ⟨modules, _, hknown, himports, hlacks⟩
    · rintro ⟨modules, mask, hknown, ⟨origin, hmodule, himport⟩, hlacks⟩
      refine (recorded_iff_loadsTarget hgraph hreach hentries hempty hinv target parent).mpr ?_
      have hiff := parentModules_iff hgraph hreach hentries hinv hknown
      refine ⟨⟨origin, (hiff origin.module).1.mp hmodule, himport⟩, fun hmem => ?_⟩
      rw [(hiff target).2.mpr hmem] at hlacks
      cases hlacks
  min_available := by
    intro target plan hplan module
    rw [(hinv.plans.plan_ok target plan hplan).min_contains_iff, ← parentsOf_of_lookup hplan]
    constructor
    · intro hall parent parentPlan modules mask hlookup hknown
      obtain ⟨modules', hcurrent, -⟩ := recorded_current hempty hinv hlookup
      rw [hknown] at hcurrent
      rw [(Prod.mk.inj (Option.some.inj hcurrent)).2]
      exact hall parent parentPlan hlookup
    · intro hall parent parentPlan hlookup
      obtain ⟨modules', hcurrent, -⟩ := recorded_current hempty hinv hlookup
      exact hall parent parentPlan modules' _ hlookup hcurrent
  resulting := fun target plan hplan =>
    (hinv.plans.plan_ok target plan hplan).resulting_contains_iff hgraph hreach
  target_unavailable := by
    intro target plan hplan
    have hok := hinv.plans.plan_ok target plan hplan
    obtain ⟨entry, hentry⟩ := List.exists_mem_of_ne_nil _ hok.parents_ne
    have hlookup := mem_entries_iff_lookup.mp hentry
    rw [Bool.eq_false_iff, Ne, hok.min_contains_iff]
    intro hall
    have hlacks := (hok.parent_ok entry.1 entry.2 hlookup).2.1
    rw [hall entry.1 entry.2 hlookup] at hlacks
    cases hlacks
  largest := available_eq_gfp hgraph hreach hentries hempty hinv

end Settled

/-- Two plannings that agree in the targets they plan, in what each target's chunk carries, in its masks
and in its parents. -/
structure SamePlans (planning planning' : AsyncPlanning) : Prop where
  plans : ∀ target,
    (planning.plans.lookup target).map (fun plan =>
      (plan.modules, plan.minAvailableModules, plan.resultingAvailableModules)) =
    (planning'.plans.lookup target).map fun plan =>
      (plan.modules, plan.minAvailableModules, plan.resultingAvailableModules)
  parents : ∀ target parent,
    (∃ parentPlan, (planning.parentsOf target).lookup parent = some parentPlan) ↔
      ∃ parentPlan, (planning'.parentsOf target).lookup parent = some parentPlan

section Orders

variable (hgraph : graph.Indexed) (hreach : ReachesExactly graph reachable)
variable (hentries : ∀ entry ∈ entries, entry < graph.modules.length)

include hgraph hreach hentries

/-- A planned target is not available to itself, so the availability tells which targets are planned. -/
theorem lookup_isSome_iff (hinv : PlanningInv graph reachable entries planning)
    (hempty : planning.pending = []) (target : ModuleHandle) :
    (∃ plan, planning.plans.lookup target = some plan) ↔ target ∉ planning.available target := by
  constructor
  · rintro ⟨plan, hplan⟩ hmem
    have hlacks := (finishedPlans hgraph hreach hentries hempty hinv).target_unavailable target plan
      hplan
    rw [(AsyncPlanning.available_of_lookup hplan target).mp hmem] at hlacks
    cases hlacks
  · intro hnot
    cases hplan : planning.plans.lookup target with
    | none =>
        rw [AsyncPlanning.available_of_none hplan] at hnot
        exact absurd (Set.mem_univ target) hnot
    | some plan => exact ⟨plan, rfl⟩

theorem samePlans (hinv : PlanningInv graph reachable entries planning)
    (hempty : planning.pending = []) (hinv' : PlanningInv graph reachable entries planning')
    (hempty' : planning'.pending = []) : SamePlans planning planning' := by
  have havailable : planning.available = planning'.available := by
    rw [available_eq_gfp hgraph hreach hentries hempty hinv,
      available_eq_gfp hgraph hreach hentries hempty' hinv']
  refine ⟨fun target => ?_, fun target parent => ?_⟩
  · have hplanned := lookup_isSome_iff hgraph hreach hentries hinv hempty target
    have hplanned' := lookup_isSome_iff hgraph hreach hentries hinv' hempty' target
    rw [← havailable] at hplanned'
    have hsame := hplanned.trans hplanned'.symm
    cases hplan : planning.plans.lookup target with
    | none =>
        cases hplan' : planning'.plans.lookup target with
        | none => rfl
        | some plan' =>
            obtain ⟨plan, hsome⟩ := hsame.mpr ⟨plan', hplan'⟩
            rw [hplan] at hsome
            cases hsome
    | some plan =>
        obtain ⟨plan', hplan'⟩ := hsame.mp ⟨plan, hplan⟩
        have hok := hinv.plans.plan_ok target plan hplan
        have hok' := hinv'.plans.plan_ok target plan' hplan'
        have hmin : plan.minAvailableModules = plan'.minAvailableModules := by
          refine ModuleMask.eq_of_contains_eq hok.min_ok.sized hok'.min_ok.sized fun module => ?_
          rw [Bool.eq_iff_iff, ← AsyncPlanning.available_of_lookup hplan,
            ← AsyncPlanning.available_of_lookup hplan', havailable]
        have hresulting : plan.resultingAvailableModules = plan'.resultingAvailableModules := by
          rw [hok.resulting_eq, hok'.resulting_eq, hmin, hok.staticModules_eq, hok'.staticModules_eq]
        have hmodules : plan.modules = plan'.modules := by
          rw [AsyncChunkPlan.modules, AsyncChunkPlan.modules, hmin, hok.staticModules_eq,
            hok'.staticModules_eq]
        rw [hplan', Option.map_some, Option.map_some, hmin, hresulting, hmodules]
  · rw [recorded_iff_loadsTarget hgraph hreach hentries hempty hinv,
      recorded_iff_loadsTarget hgraph hreach hentries hempty' hinv', havailable]

omit hgraph hreach hentries in
/-- The loop takes the front of its queue each time, so it makes a run. -/
theorem exists_run_iterate (fuel : Nat) {trace : List (AsyncPlanning × LogicalChunkGroup)}
    (hrun : PlanRun graph reachable entries trace planning) :
    ∃ trace', PlanRun graph reachable entries trace' (Fixpoint.iterate
      (planParent graph reachable (entrypointPlans graph reachable entries)) fuel planning) := by
  induction fuel generalizing planning trace with
  | zero => exact ⟨trace, hrun⟩
  | succ fuel ih =>
      rw [Fixpoint.iterate]
      cases hturn : planParent graph reachable (entrypointPlans graph reachable entries) planning with
      | none => exact ⟨trace, hrun⟩
      | some next =>
          cases hpending : planning.pending with
          | nil =>
              rw [planParent, hpending] at hturn
              cases hturn
          | cons parent rest =>
              have hsame : { planning with pending := parent :: rest } = planning := by
                rw [← hpending]
              have hstep : PlanStep graph reachable entries planning parent next :=
                ⟨rest, hpending ▸ List.Perm.refl _, by rw [hsame]; exact hturn⟩
              exact ih (hrun.step hstep)

/-- **The planning loop stops and computes the largest availability, in whatever order it works off its
queue.** -/
theorem planRun_finished :
    (∀ trace planning, PlanRun graph reachable entries trace planning →
      trace.length ≤ planningFuel graph entries ∧ (planning.pending ≠ [] →
        ∃ parent next, PlanStep graph reachable entries planning parent next)) ∧
    (∃ trace, PlanRun graph reachable entries trace (planAsyncChunks graph reachable entries)) ∧
    (planAsyncChunks graph reachable entries).pending = [] ∧
    ∀ trace planning, PlanRun graph reachable entries trace planning → planning.pending = [] →
      FinishedPlans graph reachable entries planning ∧
        SamePlans planning (planAsyncChunks graph reachable entries) := by
  obtain ⟨trace, hloop⟩ := exists_run_iterate (planningFuel graph entries)
    (@Interleaving.Run.start _ _ _ (PlanStep graph reachable entries) (planStart entries) rfl)
  have hempty := (planAsyncChunks_spec hgraph hreach hentries).1
  have hinv := (planningInv_run hgraph hreach hentries hloop).1
  refine ⟨fun trace planning hrun => ⟨?_, fun hpending => ?_⟩, ⟨trace, hloop⟩, hempty,
    fun trace planning hrun hdone => ?_⟩
  · exact (Nat.le_add_right _ _).trans (planningInv_run hgraph hreach hentries hrun).2
  · cases hqueue : planning.pending with
    | nil => exact absurd hqueue hpending
    | cons parent rest =>
        exact ⟨parent, _, rest, hqueue ▸ List.Perm.refl _, rfl⟩
  · have hrunInv := (planningInv_run hgraph hreach hentries hrun).1
    exact ⟨finishedPlans hgraph hreach hentries hdone hrunInv,
      samePlans hgraph hreach hentries hrunInv hdone hinv hempty⟩

end Orders

end

/-- The entry imports `b` and `c` dynamically, and `b` imports `c` dynamically as well. -/
def twoParentsGraph : ModuleGraph :=
  .ofModules [.javaScript "a" [] [.dynamicImport "b", .dynamicImport "c"],
    .javaScript "b" [] [.dynamicImport "c"], .javaScript "c" [.bareImport "a"] []] [0]

theorem planRun_finished_twoParents :
    FinishedPlans twoParentsGraph twoParentsGraph.collectStaticReachable [0]
        (planAsyncChunks twoParentsGraph twoParentsGraph.collectStaticReachable [0]) ∧
      ∃ plan, (planAsyncChunks twoParentsGraph twoParentsGraph.collectStaticReachable
        [0]).plans.lookup 2 = some plan ∧ plan.parents.keys.length = 2 := by
  have hindexed : twoParentsGraph.Indexed := by decide
  obtain ⟨-, ⟨trace, hloop⟩, hempty, hfinished⟩ :=
    @planRun_finished _ twoParentsGraph.collectStaticReachable [0] hindexed
      (reachesExactly_collectStaticReachable hindexed) (by decide)
  exact ⟨(hfinished trace _ hloop hempty).1, _, rfl, by decide⟩

end Unpack
