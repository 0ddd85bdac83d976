import Unpack.PlanningLoop
import Unpack.Lib.Availability

/-! The finished plans in the terms of the loading model: which logical groups there are, what each
carries and finds available, and which groups load which. -/

namespace Unpack

section

variable (graph : ModuleGraph) (reachable : ModuleHandle → List ModuleHandle)
variable (entries : List ModuleHandle)

namespace LogicalChunkGroup

/-- The modules and the availability of a group in the finished plans. -/
def plan (group : LogicalChunkGroup) : Option (List ModuleHandle × ModuleMask) :=
  (planAsyncChunks graph reachable entries).parentModules (entrypointPlans graph reachable entries)
    group

/-- The module the group exists for. -/
def root : LogicalChunkGroup → Option ModuleHandle
  | .entrypoint index => entries[index]?
  | .asyncChunk target => some target

def Exists (group : LogicalChunkGroup) : Prop := (group.plan graph reachable entries).isSome

def Carries (group : LogicalChunkGroup) (module : ModuleHandle) : Prop :=
  ∃ modules mask, group.plan graph reachable entries = some (modules, mask) ∧ module ∈ modules

def Available (group : LogicalChunkGroup) (module : ModuleHandle) : Prop :=
  ∃ modules mask, group.plan graph reachable entries = some (modules, mask) ∧
    mask.contains module = true

/-- The parent loads the child for the import of this block. -/
def LoadsFor (parent : LogicalChunkGroup) (origin : AsyncBlockOrigin) (target : ModuleHandle) :
    Prop :=
  (planAsyncChunks graph reachable entries).Recorded parent (origin, target)

def Loads (parent child : LogicalChunkGroup) : Prop :=
  ∃ origin target, child = .asyncChunk target ∧ parent.LoadsFor graph reachable entries origin target

def IsEntrypoint (group : LogicalChunkGroup) : Prop := ∃ index, group = .entrypoint index

end LogicalChunkGroup

end

section

variable {graph : ModuleGraph} {reachable : ModuleHandle → List ModuleHandle}
variable {entries : List ModuleHandle}

theorem getElem?_entrypointPlans (index : Nat) :
    (entrypointPlans graph reachable entries)[index]? =
      entries[index]?.map (entrypointPlan graph reachable index) := by
  rw [entrypointPlans, List.getElem?_map, List.getElem?_zipIdx, Option.map_map, Nat.zero_add]
  rfl

variable (hgraph : graph.Indexed) (hreach : ReachesExactly graph reachable)
variable (hentries : ∀ entry ∈ entries, entry < graph.modules.length)

include hgraph hreach hentries

theorem entrypointPlan_contains_iff {index : Nat} {entry : ModuleHandle}
    (hentry : entries[index]? = some entry) (module : ModuleHandle) :
    (entrypointPlan graph reachable index entry).resultingAvailableModules.contains module = true ↔
      graph.StaticReach entry module := by
  have hlt := hentries entry (List.mem_of_getElem? hentry)
  rw [entrypointPlan, ModuleMask.contains_fromModules (MaskOk.reachable_lt hgraph hreach hlt),
    hreach entry hlt]

theorem entrypointsOk : EntrypointsOk graph (entrypointPlans graph reachable entries) := by
  intro plan hplan
  obtain ⟨index, hindex⟩ := List.mem_iff_getElem?.mp hplan
  rw [getElem?_entrypointPlans] at hindex
  obtain ⟨entry, hentry, rfl⟩ := Option.map_eq_some_iff.mp hindex
  have hlt := hentries entry (List.mem_of_getElem? hentry)
  refine ⟨(MaskOk.empty graph).insertAll hgraph hreach hlt, fun module hmodule => ?_⟩
  rw [entrypointPlan_contains_iff hgraph hreach hentries hentry]
  exact (hreach entry hlt module).mp hmodule

omit hgraph hreach hentries in
theorem planInv_init : PlanInv graph reachable (entrypointPlans graph reachable entries)
    { plans := ∅, pending := (List.range entries.length).map .entrypoint }
    fun parent _ => parent ∈ (List.range entries.length).map LogicalChunkGroup.entrypoint := by
  refine ⟨?_, ?_, ?_⟩
  · intro target plan hlookup
    exact absurd hlookup (by simp)
  · intro target parent parentPlan hlookup
    exact absurd hlookup (by simp [AsyncPlanning.parentsOf])
  · intro parent modules mask hparent item _
    refine Or.inl ?_
    cases parent with
    | entrypoint index =>
        obtain ⟨plan, hplan, -⟩ := Option.map_eq_some_iff.mp hparent
        rw [getElem?_entrypointPlans] at hplan
        obtain ⟨entry, hentry, -⟩ := Option.map_eq_some_iff.mp hplan
        have hlt := (List.getElem?_eq_some_iff.mp hentry).choose
        exact List.mem_map.mpr ⟨index, List.mem_range.mpr hlt, rfl⟩
    | asyncChunk target => exact absurd hparent (by simp [AsyncPlanning.parentModules])

/-- The run lemma: the loop ends with an empty queue and settled plans. -/
theorem planAsyncChunks_spec :
    (planAsyncChunks graph reachable entries).pending = [] ∧
      PlanInv graph reachable (entrypointPlans graph reachable entries)
        (planAsyncChunks graph reachable entries) fun _ _ => False := by
  let Inv : AsyncPlanning → Prop := fun planning =>
    PlanInv graph reachable (entrypointPlans graph reachable entries) planning
      fun parent _ => parent ∈ planning.pending
  have hok := entrypointsOk hgraph hreach hentries
  have hstep : ∀ planning planning', Inv planning →
      planParent graph reachable (entrypointPlans graph reachable entries) planning = some planning' →
        Inv planning' ∧ planningMeasure graph planning' < planningMeasure graph planning :=
    fun planning planning' hinv h => planParent_spec hgraph hreach hok hinv h
  have hdone := Fixpoint.step_iterate_eq_none _ (planningMeasure graph)
    (fun s s' hs h => (hstep s s' hs h).1) (fun s s' hs h => (hstep s s' hs h).2)
    (planningFuel graph entries) _ planInv_init
    (Nat.le_of_eq (planningMeasure_init entries))
  have hinv : Inv (planAsyncChunks graph reachable entries) :=
    Fixpoint.iterate_inv _ (fun s s' hs h => (hstep s s' hs h).1) _ _
      planInv_init
  have hpending : (planAsyncChunks graph reachable entries).pending = [] := by
    cases h : (planAsyncChunks graph reachable entries).pending with
    | nil => rfl
    | cons parent pending =>
        rw [planParent, show (Fixpoint.iterate _ _ _ : AsyncPlanning).pending = parent :: pending
          from h] at hdone
        cases hdone
  refine ⟨hpending, ?_⟩
  have hinv' : PlanInv graph reachable (entrypointPlans graph reachable entries)
      (planAsyncChunks graph reachable entries)
      fun parent _ => parent ∈ (planAsyncChunks graph reachable entries).pending := hinv
  rw [hpending] at hinv'
  simpa using hinv'

namespace LogicalChunkGroup

theorem plan_asyncChunk {target : ModuleHandle} {modules : List ModuleHandle} {mask : ModuleMask}
    (hplan : (asyncChunk target).plan graph reachable entries = some (modules, mask)) :
    ∃ plan, (planAsyncChunks graph reachable entries).plans.lookup target = some plan ∧
      PlanOk graph reachable target plan ∧ modules = plan.modules ∧
        mask = plan.resultingAvailableModules := by
  obtain ⟨plan, hlookup, hpair⟩ := Option.map_eq_some_iff.mp hplan
  obtain ⟨rfl, rfl⟩ := Prod.mk.inj hpair
  exact ⟨plan, hlookup, (planAsyncChunks_spec hgraph hreach hentries).2.plan_ok target plan hlookup,
    rfl, rfl⟩

omit hgraph hreach hentries in
theorem plan_entrypoint {index : Nat} {modules : List ModuleHandle} {mask : ModuleMask}
    (hplan : (entrypoint index).plan graph reachable entries = some (modules, mask)) :
    ∃ entry, entries[index]? = some entry ∧ modules = reachable entry ∧
      mask = (entrypointPlan graph reachable index entry).resultingAvailableModules := by
  obtain ⟨plan, hlookup, hpair⟩ := Option.map_eq_some_iff.mp hplan
  obtain ⟨rfl, rfl⟩ := Prod.mk.inj hpair
  rw [getElem?_entrypointPlans] at hlookup
  obtain ⟨entry, hentry, rfl⟩ := Option.map_eq_some_iff.mp hlookup
  exact ⟨entry, hentry, rfl, rfl⟩

theorem maskOk_plan {group : LogicalChunkGroup} {modules : List ModuleHandle} {mask : ModuleMask}
    (hplan : group.plan graph reachable entries = some (modules, mask)) : MaskOk graph mask := by
  cases group with
  | entrypoint index =>
      obtain ⟨plan, hlookup, hpair⟩ := Option.map_eq_some_iff.mp hplan
      rw [← (Prod.mk.inj hpair).2]
      exact (entrypointsOk hgraph hreach hentries plan (List.mem_of_getElem? hlookup)).1
  | asyncChunk target =>
      obtain ⟨plan, -, hok, -, rfl⟩ := plan_asyncChunk hgraph hreach hentries hplan
      exact hok.resulting_ok hgraph hreach

/-- A recorded parent is a group of its own and agrees with what its child recorded of it. -/
theorem parentPlan_spec {parent : LogicalChunkGroup} {target : ModuleHandle} {plan : AsyncChunkPlan}
    {parentPlan : AsyncParentPlan}
    (hplan : (planAsyncChunks graph reachable entries).plans.lookup target = some plan)
    (hparent : plan.parents.lookup parent = some parentPlan) :
    ∃ modules, parent.plan graph reachable entries =
        some (modules, parentPlan.resultingAvailableModules) ∧
      parentPlan.resultingAvailableModules.contains target = false ∧ parentPlan.origins ≠ [] ∧
        ∀ origin ∈ parentPlan.origins, origin.module ∈ modules ∧ graph.ImportsFrom origin target := by
  have hinv := (planAsyncChunks_spec hgraph hreach hentries).2
  obtain ⟨-, hlacks, hne⟩ := (hinv.plan_ok target plan hplan).parent_ok parent parentPlan hparent
  obtain ⟨modules, mask, hknown, -, horigins, hcurrent | ⟨_, _, hfalse⟩⟩ :=
    hinv.parent_known target parent parentPlan (parentsOf_of_lookup hplan ▸ hparent)
  · refine ⟨modules, hcurrent ▸ hknown, hlacks, hne, fun origin horigin => ?_⟩
    exact ModuleGraph.mem_dynamicImportOrigins.mp (horigins origin horigin)
  · exact hfalse.elim

omit hgraph hreach hentries in
theorem LoadsFor.lookup {parent : LogicalChunkGroup} {origin : AsyncBlockOrigin}
    {target : ModuleHandle} (h : parent.LoadsFor graph reachable entries origin target) :
    ∃ plan parentPlan, (planAsyncChunks graph reachable entries).plans.lookup target = some plan ∧
      plan.parents.lookup parent = some parentPlan ∧ origin ∈ parentPlan.origins := by
  obtain ⟨parentPlan, hlookup, horigin⟩ := h
  cases hplan : (planAsyncChunks graph reachable entries).plans.lookup target with
  | none =>
      rw [AsyncPlanning.parentsOf, hplan] at hlookup
      exact absurd hlookup (by simp)
  | some plan =>
      rw [parentsOf_of_lookup hplan] at hlookup
      exact ⟨plan, parentPlan, rfl, hlookup, horigin⟩

/-- What a loading edge says about its two ends. -/
theorem LoadsFor.spec {parent : LogicalChunkGroup} {origin : AsyncBlockOrigin}
    {target : ModuleHandle} (h : parent.LoadsFor graph reachable entries origin target) :
    parent.Carries graph reachable entries origin.module ∧ graph.ImportsFrom origin target ∧
      ¬ parent.Available graph reachable entries target ∧
        (asyncChunk target).Exists graph reachable entries := by
  obtain ⟨plan, parentPlan, hplan, hparent, horigin⟩ := h.lookup
  obtain ⟨modules, hknown, hlacks, -, horigins⟩ :=
    parentPlan_spec hgraph hreach hentries hplan hparent
  obtain ⟨hmem, himport⟩ := horigins origin horigin
  refine ⟨⟨modules, _, hknown, hmem⟩, himport, ?_, ?_⟩
  · rintro ⟨modules', mask', hknown', hcontains⟩
    rw [hknown] at hknown'
    rw [← (Prod.mk.inj (Option.some.inj hknown')).2, hlacks] at hcontains
    exact Bool.noConfusion hcontains
  · rw [Exists, LogicalChunkGroup.plan, AsyncPlanning.parentModules, hplan]
    rfl

theorem loads_of_lookup {parent : LogicalChunkGroup} {target : ModuleHandle} {plan : AsyncChunkPlan}
    {parentPlan : AsyncParentPlan}
    (hplan : (planAsyncChunks graph reachable entries).plans.lookup target = some plan)
    (hparent : plan.parents.lookup parent = some parentPlan) :
    ∃ origin, parent.LoadsFor graph reachable entries origin target := by
  obtain ⟨-, -, -, hne, -⟩ := parentPlan_spec hgraph hreach hentries hplan hparent
  obtain ⟨origin, horigin⟩ := List.exists_mem_of_ne_nil _ hne
  exact ⟨origin, parentPlan, parentsOf_of_lookup hplan ▸ hparent, horigin⟩

/-- Every import of a group is satisfied inside it or is a loading edge. -/
theorem Carries.import_settled {group : LogicalChunkGroup} {origin : AsyncBlockOrigin}
    {target : ModuleHandle} (hcarries : group.Carries graph reachable entries origin.module)
    (himport : graph.ImportsFrom origin target) :
    group.Available graph reachable entries target ∨
      group.LoadsFor graph reachable entries origin target := by
  obtain ⟨modules, mask, hplan, hmem⟩ := hcarries
  have hitem := ModuleGraph.mem_dynamicImportOrigins.mpr ⟨hmem, himport⟩
  rcases (planAsyncChunks_spec hgraph hreach hentries).2.settled group modules mask hplan _ hitem with
    hfalse | hcontains | hrecorded
  · exact hfalse.elim
  · exact Or.inl ⟨modules, mask, hplan, hcontains⟩
  · exact Or.inr hrecorded

theorem Available.reach {group : LogicalChunkGroup} {module target : ModuleHandle}
    (h : group.Available graph reachable entries module) (hstatic : graph.StaticReach module target) :
    group.Available graph reachable entries target := by
  obtain ⟨modules, mask, hplan, hcontains⟩ := h
  exact ⟨modules, mask, hplan,
    (maskOk_plan hgraph hreach hentries hplan).reach_of_contains hcontains hstatic⟩

theorem Carries.available {group : LogicalChunkGroup} {module : ModuleHandle}
    (h : group.Carries graph reachable entries module) :
    group.Available graph reachable entries module := by
  obtain ⟨modules, mask, hplan, hmem⟩ := h
  refine ⟨modules, mask, hplan, ?_⟩
  cases group with
  | entrypoint index =>
      obtain ⟨entry, hentry, rfl, rfl⟩ := plan_entrypoint hplan
      rw [entrypointPlan_contains_iff hgraph hreach hentries hentry]
      exact (hreach entry (hentries entry (List.mem_of_getElem? hentry)) module).mp hmem
  | asyncChunk target =>
      obtain ⟨plan, -, hok, rfl, rfl⟩ := plan_asyncChunk hgraph hreach hentries hplan
      rw [hok.resulting_contains_iff hgraph hreach]
      exact Or.inr ((hok.mem_modules_iff hreach module).mp hmem).1

/-- A group carries only what its root reaches. -/
theorem Carries.reach {group : LogicalChunkGroup} {module : ModuleHandle}
    (h : group.Carries graph reachable entries module) :
    ∃ start, group.root entries = some start ∧ graph.StaticReach start module := by
  obtain ⟨modules, mask, hplan, hmem⟩ := h
  cases group with
  | entrypoint index =>
      obtain ⟨entry, hentry, rfl, rfl⟩ := plan_entrypoint hplan
      exact ⟨entry, hentry, (hreach entry (hentries entry (List.mem_of_getElem? hentry)) module).mp
        hmem⟩
  | asyncChunk target =>
      obtain ⟨plan, -, hok, rfl, rfl⟩ := plan_asyncChunk hgraph hreach hentries hplan
      exact ⟨target, rfl, ((hok.mem_modules_iff hreach module).mp hmem).1⟩

/-- Everything the root reaches is available. -/
theorem Exists.available {group : LogicalChunkGroup} {start module : ModuleHandle}
    (h : group.Exists graph reachable entries) (hroot : group.root entries = some start)
    (hstatic : graph.StaticReach start module) : group.Available graph reachable entries module := by
  obtain ⟨⟨modules, mask⟩, hplan⟩ := Option.isSome_iff_exists.mp h
  refine ⟨modules, mask, hplan, ?_⟩
  cases group with
  | entrypoint index =>
      obtain ⟨entry, hentry, -, rfl⟩ := plan_entrypoint hplan
      rw [show entries[index]? = some start from hroot] at hentry
      rw [← Option.some.inj hentry, entrypointPlan_contains_iff hgraph hreach hentries hroot]
      exact hstatic
  | asyncChunk target =>
      obtain ⟨plan, -, hok, -, rfl⟩ := plan_asyncChunk hgraph hreach hentries hplan
      rw [hok.resulting_contains_iff hgraph hreach]
      exact Or.inr (Option.some.inj hroot ▸ hstatic)

/-- An available module that a group leaves out is available in everything that loads it. -/
theorem Available.inherited {target module : ModuleHandle}
    (h : (asyncChunk target).Available graph reachable entries module)
    (hnot : ¬ (asyncChunk target).Carries graph reachable entries module) :
    ∀ parent : LogicalChunkGroup, parent.Loads graph reachable entries (asyncChunk target) →
      parent.Available graph reachable entries module := by
  rintro parent ⟨origin, other, heq, hload⟩
  obtain rfl := asyncChunk.inj heq
  obtain ⟨modules, mask, hplan, hcontains⟩ := h
  obtain ⟨plan, hlookup, hok, rfl, rfl⟩ := plan_asyncChunk hgraph hreach hentries hplan
  obtain ⟨plan', parentPlan, hlookup', hparent, -⟩ := hload.lookup
  rw [hlookup] at hlookup'
  obtain rfl := Option.some.inj hlookup'
  obtain ⟨modules', hknown, -⟩ := parentPlan_spec hgraph hreach hentries hlookup hparent
  refine ⟨modules', _, hknown, ?_⟩
  refine (hok.min_contains_iff module).mp ?_ parent parentPlan hparent
  rcases (hok.resulting_contains_iff hgraph hreach module).mp hcontains with hmin | hstatic
  · exact hmin
  · by_contra hmin
    exact hnot ⟨plan.modules, _, hplan,
      (hok.mem_modules_iff hreach module).mpr ⟨hstatic, by simpa using hmin⟩⟩

/-- A group carries a module only when some parent lacks it. -/
theorem Carries.exists_parent_lacking {target module : ModuleHandle}
    (h : (asyncChunk target).Carries graph reachable entries module) :
    ∃ parent : LogicalChunkGroup, parent.Loads graph reachable entries (asyncChunk target) ∧
      ¬ parent.Available graph reachable entries module := by
  obtain ⟨modules, mask, hplan, hmem⟩ := h
  obtain ⟨plan, hlookup, hok, rfl, rfl⟩ := plan_asyncChunk hgraph hreach hentries hplan
  have hmin := ((hok.mem_modules_iff hreach module).mp hmem).2
  by_contra hall
  rw [Bool.eq_false_iff] at hmin
  refine hmin ((hok.min_contains_iff module).mpr fun parent parentPlan hparent => ?_)
  by_contra hlacks
  refine hall ⟨parent, ?_, ?_⟩
  · obtain ⟨origin, hload⟩ := loads_of_lookup hgraph hreach hentries hlookup hparent
    exact ⟨origin, target, rfl, hload⟩
  · obtain ⟨modules', hknown, -⟩ := parentPlan_spec hgraph hreach hentries hlookup hparent
    rintro ⟨modules'', mask', hknown', hcontains⟩
    rw [hknown] at hknown'
    rw [← (Prod.mk.inj (Option.some.inj hknown')).2] at hcontains
    exact hlacks hcontains

/-- An async group carries its own root. -/
theorem carries_target {target : ModuleHandle}
    (h : (asyncChunk target).Exists graph reachable entries) :
    (asyncChunk target).Carries graph reachable entries target := by
  obtain ⟨⟨modules, mask⟩, hplan⟩ := Option.isSome_iff_exists.mp h
  obtain ⟨plan, hlookup, hok, rfl, rfl⟩ := plan_asyncChunk hgraph hreach hentries hplan
  refine ⟨plan.modules, _, hplan, (hok.mem_modules_iff hreach target).mpr
    ⟨Worklist.Reach.refl target, ?_⟩⟩
  obtain ⟨entry, hentry⟩ := List.exists_mem_of_ne_nil _ hok.parents_ne
  obtain ⟨-, hlacks, -⟩ := hok.parent_ok entry.1 entry.2 (mem_entries_iff_lookup.mp hentry)
  by_contra hmin
  rw [(hok.min_contains_iff target).mp (by simpa using hmin) entry.1 entry.2
    (mem_entries_iff_lookup.mp hentry)] at hlacks
  exact Bool.noConfusion hlacks

/-- The finished plans justify everything they make available. -/
theorem justified : Availability.Justified IsEntrypoint (Loads graph reachable entries)
    (Carries graph reachable entries) (Available graph reachable entries) where
  root_carries := by
    rintro group module ⟨index, rfl⟩ ⟨modules, mask, hplan, hcontains⟩
    obtain ⟨entry, hentry, rfl, rfl⟩ := plan_entrypoint hplan
    rw [entrypointPlan_contains_iff hgraph hreach hentries hentry] at hcontains
    exact ⟨_, _, hplan, (hreach entry (hentries entry (List.mem_of_getElem? hentry)) module).mpr
      hcontains⟩
  inherited := by
    intro group module havailable
    by_cases hcarries : group.Carries graph reachable entries module
    · exact Or.inl hcarries
    · refine Or.inr fun parent hload => ?_
      obtain ⟨origin, target, rfl, -⟩ := id hload
      exact Available.inherited hgraph hreach hentries havailable hcarries parent hload

end LogicalChunkGroup

end

end Unpack
