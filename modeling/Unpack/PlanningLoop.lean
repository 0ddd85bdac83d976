import Unpack.AsyncPlanning

/-! The planning loop as a whole: one visited import keeps the invariant and lowers the measure or
leaves it, so the loop drains its queue within the fuel and ends in settled plans. -/

namespace Unpack

namespace AsyncPlanning

/-- The recorded parents of a target, none when it is not planned. -/
def parentsOf (planning : AsyncPlanning) (target : ModuleHandle) :
    FxHashMap LogicalChunkGroup AsyncParentPlan :=
  (planning.plans.lookup target).elim ∅ (·.parents)

/-- The import is recorded as an edge from this parent. -/
def Recorded (planning : AsyncPlanning) (parent : LogicalChunkGroup)
    (item : AsyncBlockOrigin × ModuleHandle) : Prop :=
  ∃ parentPlan, (planning.parentsOf item.2).lookup parent = some parentPlan ∧
    item.1 ∈ parentPlan.origins

end AsyncPlanning

/-- The imports still to be visited: every import of a queued group, and the rest of the group being
visited. -/
def Due (pending : List LogicalChunkGroup) (visiting : LogicalChunkGroup)
    (rest : List (AsyncBlockOrigin × ModuleHandle)) (parent : LogicalChunkGroup)
    (item : AsyncBlockOrigin × ModuleHandle) : Prop :=
  parent ∈ pending ∨ parent = visiting ∧ item ∈ rest

structure PlanInv (graph : ModuleGraph) (reachable : ModuleHandle → List ModuleHandle)
    (entrypoints : List EntrypointAsyncPlan) (planning : AsyncPlanning)
    (due : LogicalChunkGroup → AsyncBlockOrigin × ModuleHandle → Prop) : Prop where
  plan_ok : ∀ target plan, planning.plans.lookup target = some plan →
    PlanOk graph reachable target plan
  parent_known : ∀ target parent parentPlan,
    (planning.parentsOf target).lookup parent = some parentPlan →
    ∃ modules mask, planning.parentModules entrypoints parent = some (modules, mask) ∧
      (∀ module, mask.contains module = true →
        parentPlan.resultingAvailableModules.contains module = true) ∧
      (∀ origin ∈ parentPlan.origins, (origin, target) ∈ graph.dynamicImportOrigins modules) ∧
      (parentPlan.resultingAvailableModules = mask ∨
        ∃ origin ∈ parentPlan.origins, due parent (origin, target))
  settled : ∀ parent modules mask,
    planning.parentModules entrypoints parent = some (modules, mask) →
    ∀ item ∈ graph.dynamicImportOrigins modules,
      due parent item ∨ mask.contains item.2 = true ∨ planning.Recorded parent item

/-- The entrypoints carry what they make available, a closed set. -/
def EntrypointsOk (graph : ModuleGraph) (entrypoints : List EntrypointAsyncPlan) : Prop :=
  ∀ plan ∈ entrypoints, MaskOk graph plan.resultingAvailableModules ∧
    ∀ module ∈ plan.modules, plan.resultingAvailableModules.contains module = true

section

variable {graph : ModuleGraph} {reachable : ModuleHandle → List ModuleHandle}
variable {entrypoints : List EntrypointAsyncPlan} {planning planning' : AsyncPlanning}

theorem parentsOf_insert {target other : ModuleHandle} {plan : AsyncChunkPlan}
    (hplans : planning'.plans = planning.plans.insert target plan) :
    planning'.parentsOf other =
      if other = target then plan.parents else planning.parentsOf other := by
  rw [AsyncPlanning.parentsOf, hplans]
  split_ifs with heq
  · rw [heq, AList.lookup_insert]
    rfl
  · rw [AList.lookup_insert_ne heq]
    rfl

theorem parentModules_insert {target : ModuleHandle} {plan : AsyncChunkPlan}
    (hplans : planning'.plans = planning.plans.insert target plan) (parent : LogicalChunkGroup) :
    planning'.parentModules entrypoints parent =
      if parent = .asyncChunk target then some (plan.modules, plan.resultingAvailableModules)
      else planning.parentModules entrypoints parent := by
  cases parent with
  | entrypoint index => rfl
  | asyncChunk other =>
      rw [AsyncPlanning.parentModules, hplans]
      by_cases heq : other = target
      · rw [heq, AList.lookup_insert, if_pos rfl]
        rfl
      · rw [AList.lookup_insert_ne heq, if_neg fun h => heq (LogicalChunkGroup.asyncChunk.inj h)]
        rfl

theorem parentsOf_of_lookup {target : ModuleHandle} {plan : AsyncChunkPlan}
    (hlookup : planning.plans.lookup target = some plan) :
    planning.parentsOf target = plan.parents := by
  rw [AsyncPlanning.parentsOf, hlookup]
  rfl

/-- One visited import writes one plan: the visiting group becomes a parent with its current mask and
the import as an origin. -/
structure Written (planning planning' : AsyncPlanning) (parent : LogicalChunkGroup)
    (mask : ModuleMask) (item : AsyncBlockOrigin × ModuleHandle) (plan : AsyncChunkPlan) :
    Prop where
  plans_eq : planning'.plans = planning.plans.insert item.2 plan
  parents_eq : plan.parents = (planning.parentsOf item.2).insert parent
    ⟨mask, pushNew (((planning.parentsOf item.2).lookup parent).elim [] (·.origins)) item.1⟩

/-- The written plan makes nothing new available, and its target is queued when it differs from the
plan before. -/
structure Visited (planning planning' : AsyncPlanning) (parent : LogicalChunkGroup)
    (mask : ModuleMask) (item : AsyncBlockOrigin × ModuleHandle) (plan : AsyncChunkPlan) :
    Prop extends Written planning planning' parent mask item plan where
  pending_mono : ∀ group ∈ planning.pending, group ∈ planning'.pending
  shrinks : ∀ before, planning.plans.lookup item.2 = some before →
    (∀ module ∈ before.modules, module ∈ plan.modules) ∧
      ∀ module, plan.resultingAvailableModules.contains module = true →
        before.resultingAvailableModules.contains module = true
  queued : LogicalChunkGroup.asyncChunk item.2 ∈ planning'.pending ∨
    ∃ before, planning.plans.lookup item.2 = some before ∧ before.modules = plan.modules ∧
      before.resultingAvailableModules = plan.resultingAvailableModules

theorem Written.parentsOf_target {parent : LogicalChunkGroup} {mask : ModuleMask}
    {item : AsyncBlockOrigin × ModuleHandle} {plan : AsyncChunkPlan}
    (h : Written planning planning' parent mask item plan) :
    planning'.parentsOf item.2 = (planning.parentsOf item.2).insert parent
      ⟨mask, pushNew (((planning.parentsOf item.2).lookup parent).elim [] (·.origins)) item.1⟩ := by
  rw [parentsOf_insert h.plans_eq, if_pos rfl, h.parents_eq]

/-- Visiting never takes back a recorded import. -/
theorem Written.recorded_mono {parent : LogicalChunkGroup} {mask : ModuleMask}
    {item : AsyncBlockOrigin × ModuleHandle} {plan : AsyncChunkPlan}
    (h : Written planning planning' parent mask item plan) {other : LogicalChunkGroup}
    {recorded : AsyncBlockOrigin × ModuleHandle} (hrec : planning.Recorded other recorded) :
    planning'.Recorded other recorded := by
  obtain ⟨parentPlan, hlookup, horigin⟩ := hrec
  by_cases htarget : recorded.2 = item.2
  · rw [htarget] at hlookup
    rw [AsyncPlanning.Recorded, htarget, h.parentsOf_target]
    by_cases hparent : other = parent
    · subst hparent
      refine ⟨_, AList.lookup_insert _, mem_pushNew.mpr (Or.inl ?_)⟩
      rw [hlookup]
      exact horigin
    · exact ⟨parentPlan, (AList.lookup_insert_ne hparent).trans hlookup, horigin⟩
  · refine ⟨parentPlan, ?_, horigin⟩
    rw [parentsOf_insert h.plans_eq, if_neg htarget]
    exact hlookup

theorem Written.recorded {parent : LogicalChunkGroup} {mask : ModuleMask}
    {item : AsyncBlockOrigin × ModuleHandle} {plan : AsyncChunkPlan}
    (h : Written planning planning' parent mask item plan) : planning'.Recorded parent item := by
  rw [AsyncPlanning.Recorded, h.parentsOf_target]
  exact ⟨_, AList.lookup_insert _, mem_pushNew.mpr (Or.inr rfl)⟩

/-- A group keeps its modules, makes nothing new available, and is queued when it changed. -/
theorem Visited.parentModules {parent : LogicalChunkGroup} {mask : ModuleMask}
    {item : AsyncBlockOrigin × ModuleHandle} {plan : AsyncChunkPlan}
    (h : Visited planning planning' parent mask item plan) {group : LogicalChunkGroup}
    {modules : List ModuleHandle} {available : ModuleMask}
    (hgroup : planning.parentModules entrypoints group = some (modules, available)) :
    ∃ modules' available', planning'.parentModules entrypoints group = some (modules', available') ∧
      (∀ module ∈ modules, module ∈ modules') ∧
      (∀ module, available'.contains module = true → available.contains module = true) ∧
      (modules' = modules ∧ available' = available ∨ group ∈ planning'.pending) := by
  rw [parentModules_insert h.plans_eq]
  split_ifs with heq
  · subst heq
    obtain ⟨before, hbefore, hpair⟩ := Option.map_eq_some_iff.mp hgroup
    obtain ⟨rfl, rfl⟩ := Prod.mk.inj hpair
    obtain ⟨hmodules, hmask⟩ := h.shrinks before hbefore
    refine ⟨_, _, rfl, hmodules, hmask, ?_⟩
    rcases h.queued with hqueued | ⟨same, hsame, hsameModules, hsameMask⟩
    · exact Or.inr hqueued
    · rw [hbefore] at hsame
      rw [Option.some.inj hsame]
      exact Or.inl ⟨hsameModules.symm, hsameMask.symm⟩
  · exact ⟨modules, available, hgroup, fun _ hm => hm, fun _ hm => hm, Or.inl ⟨rfl, rfl⟩⟩

theorem Visited.parentModules_back {parent : LogicalChunkGroup} {mask : ModuleMask}
    {item : AsyncBlockOrigin × ModuleHandle} {plan : AsyncChunkPlan}
    (h : Visited planning planning' parent mask item plan) {group : LogicalChunkGroup}
    {modules : List ModuleHandle} {available : ModuleMask}
    (hgroup : planning'.parentModules entrypoints group = some (modules, available)) :
    planning.parentModules entrypoints group = some (modules, available) ∨
      group ∈ planning'.pending := by
  rw [parentModules_insert h.plans_eq] at hgroup
  split_ifs at hgroup with heq
  · subst heq
    rcases h.queued with hqueued | ⟨same, hsame, hsameModules, hsameMask⟩
    · exact Or.inr hqueued
    · refine Or.inl ?_
      rw [AsyncPlanning.parentModules, hsame, Option.map_some, hsameModules, hsameMask]
      exact hgroup
  · exact Or.inl hgroup

/-- The step lemma: visiting one import of a group keeps the invariant, with that import no longer
due. -/
theorem PlanInv.visit {visiting : LogicalChunkGroup} {modules : List ModuleHandle}
    {mask : ModuleMask} {item : AsyncBlockOrigin × ModuleHandle}
    {rest : List (AsyncBlockOrigin × ModuleHandle)} {plan : AsyncChunkPlan}
    (hinv : PlanInv graph reachable entrypoints planning
      (Due planning.pending visiting (item :: rest)))
    (hvisiting : planning.parentModules entrypoints visiting = some (modules, mask))
    (hitem : item ∈ graph.dynamicImportOrigins modules)
    (hself : visiting ≠ .asyncChunk item.2)
    (hvisited : Visited planning planning' visiting mask item plan)
    (hok : PlanOk graph reachable item.2 plan) :
    PlanInv graph reachable entrypoints planning' (Due planning'.pending visiting rest) := by
  have hdue : ∀ parent other, Due planning.pending visiting (item :: rest) parent other →
      Due planning'.pending visiting rest parent other ∨ parent = visiting ∧ other = item := by
    rintro parent other (hpending | ⟨hparent, hmem⟩)
    · exact Or.inl (Or.inl (hvisited.pending_mono parent hpending))
    · rcases List.mem_cons.mp hmem with heq | hmem
      · exact Or.inr ⟨hparent, heq⟩
      · exact Or.inl (Or.inr ⟨hparent, hmem⟩)
  have hvisiting' : planning'.parentModules entrypoints visiting = some (modules, mask) := by
    rw [parentModules_insert hvisited.plans_eq, if_neg hself]
    exact hvisiting
  refine ⟨?_, ?_, ?_⟩
  · intro target other hlookup
    rw [hvisited.plans_eq] at hlookup
    by_cases heq : target = item.2
    · subst heq
      rw [AList.lookup_insert] at hlookup
      rw [← Option.some.inj hlookup]
      exact hok
    · rw [AList.lookup_insert_ne heq] at hlookup
      exact hinv.plan_ok target other hlookup
  · intro target parent parentPlan hlookup
    by_cases hedge : target = item.2 ∧ parent = visiting
    · -- The edge just written: the mask is the current one.
      obtain ⟨rfl, rfl⟩ := hedge
      rw [hvisited.parentsOf_target, AList.lookup_insert] at hlookup
      rw [← Option.some.inj hlookup]
      refine ⟨modules, mask, hvisiting', fun _ hm => hm, ?_, Or.inl rfl⟩
      intro origin horigin
      rcases mem_pushNew.mp horigin with hold | hnew
      · cases hbefore : (planning.parentsOf item.2).lookup parent with
        | none =>
            rw [hbefore] at hold
            exact absurd hold List.not_mem_nil
        | some before =>
            rw [hbefore] at hold
            obtain ⟨modules', mask', hknown, -, horigins, -⟩ :=
              hinv.parent_known _ parent before hbefore
            rw [hvisiting] at hknown
            obtain ⟨rfl, rfl⟩ := Prod.mk.inj (Option.some.inj hknown)
            exact horigins origin hold
      · rw [hnew]
        exact hitem
    · -- Every other edge was there before; its parent may have changed, but then it is queued.
      have hbefore : (planning.parentsOf target).lookup parent = some parentPlan := by
        by_cases htarget : target = item.2
        · subst htarget
          have hparent : parent ≠ visiting := fun h => hedge ⟨rfl, h⟩
          rw [hvisited.parentsOf_target, AList.lookup_insert_ne hparent] at hlookup
          exact hlookup
        · rw [parentsOf_insert hvisited.plans_eq, if_neg htarget] at hlookup
          exact hlookup
      obtain ⟨before, available, hknown, hsub, horigins, hcurrent⟩ :=
        hinv.parent_known target parent parentPlan hbefore
      obtain ⟨modules', available', hknown', hgrow, hshrink, hsame⟩ :=
        hvisited.parentModules hknown
      refine ⟨modules', available', hknown', fun m hm => hsub m (hshrink m hm), ?_, ?_⟩
      · intro origin horigin
        have := ModuleGraph.mem_dynamicImportOrigins.mp (horigins origin horigin)
        exact ModuleGraph.mem_dynamicImportOrigins.mpr ⟨hgrow _ this.1, this.2⟩
      · rcases hsame with ⟨-, rfl⟩ | hqueued
        · rcases hcurrent with hcurrent | ⟨origin, horigin, hor⟩
          · exact Or.inl hcurrent
          · rcases hdue parent (origin, target) hor with hstill | ⟨hparent, heq⟩
            · exact Or.inr ⟨origin, horigin, hstill⟩
            · exact absurd ⟨congrArg Prod.snd heq, hparent⟩ hedge
        · have hne : parentPlan.origins ≠ [] := by
            cases htarget : planning.plans.lookup target with
            | none =>
                rw [AsyncPlanning.parentsOf, htarget] at hbefore
                exact absurd hbefore (by simp)
            | some targetPlan =>
                rw [parentsOf_of_lookup htarget] at hbefore
                exact ((hinv.plan_ok target targetPlan htarget).parent_ok _ _ hbefore).2.2
          obtain ⟨origin, horigin⟩ := List.exists_mem_of_ne_nil _ hne
          exact Or.inr ⟨origin, horigin, Or.inl hqueued⟩
  · intro parent modules' mask' hparent other hother
    rcases hvisited.parentModules_back hparent with hbefore | hqueued
    · rcases hinv.settled parent modules' mask' hbefore other hother with hor | hcontains | hrec
      · rcases hdue parent other hor with hstill | ⟨rfl, rfl⟩
        · exact Or.inl hstill
        · exact Or.inr (Or.inr hvisited.recorded)
      · exact Or.inr (Or.inl hcontains)
      · exact Or.inr (Or.inr (hvisited.recorded_mono hrec))
    · exact Or.inl (Or.inl hqueued)

/-- The changes a target's plan can still go through. -/
def planWeight (graph : ModuleGraph) (planning : AsyncPlanning) (target : ModuleHandle) : Nat :=
  (planning.plans.lookup target).elim (2 * graph.modules.length + 2) fun plan =>
    plan.minAvailableModules.count graph.modules.length +
      plan.resultingAvailableModules.count graph.modules.length

def planningMeasure (graph : ModuleGraph) (planning : AsyncPlanning) : Nat :=
  planning.pending.length + (Finset.range graph.modules.length).sum (planWeight graph planning)

theorem planWeight_insert {target : ModuleHandle} {plan : AsyncChunkPlan}
    (hplans : planning'.plans = planning.plans.insert target plan) (other : ModuleHandle) :
    planWeight graph planning' other =
      if other = target then plan.minAvailableModules.count graph.modules.length +
        plan.resultingAvailableModules.count graph.modules.length
      else planWeight graph planning other := by
  rw [planWeight, hplans]
  split_ifs with heq
  · rw [heq, AList.lookup_insert]
    rfl
  · rw [AList.lookup_insert_ne heq]
    rfl

/-- Rewriting one plan moves the measure by that plan's weight and by what is queued. -/
theorem planningMeasure_le_of_insert {target : ModuleHandle} {plan : AsyncChunkPlan}
    (htarget : target < graph.modules.length)
    (hplans : planning'.plans = planning.plans.insert target plan)
    (hweight : planning'.pending.length + (plan.minAvailableModules.count graph.modules.length +
        plan.resultingAvailableModules.count graph.modules.length) ≤
      planning.pending.length + planWeight graph planning target) :
    planningMeasure graph planning' ≤ planningMeasure graph planning := by
  have hmem : target ∈ Finset.range graph.modules.length := Finset.mem_range.mpr htarget
  have hrest : ((Finset.range graph.modules.length).erase target).sum (planWeight graph planning') =
      ((Finset.range graph.modules.length).erase target).sum (planWeight graph planning) := by
    apply Finset.sum_congr rfl
    intro other hother
    rw [planWeight_insert hplans, if_neg (Finset.ne_of_mem_erase hother)]
  have hafter : planWeight graph planning' target +
      ((Finset.range graph.modules.length).erase target).sum (planWeight graph planning') =
      (Finset.range graph.modules.length).sum (planWeight graph planning') :=
    Finset.add_sum_erase _ _ hmem
  have hbefore : planWeight graph planning target +
      ((Finset.range graph.modules.length).erase target).sum (planWeight graph planning) =
      (Finset.range graph.modules.length).sum (planWeight graph planning) :=
    Finset.add_sum_erase _ _ hmem
  rw [hrest, planWeight_insert hplans, if_pos rfl] at hafter
  simp only [planningMeasure]
  omega

theorem planningMeasure_init (entries : List ModuleHandle) :
    planningMeasure graph
        { plans := ∅, pending := (List.range entries.length).map LogicalChunkGroup.entrypoint } =
      planningFuel graph entries := by
  rw [planningMeasure, planningFuel, List.length_map, List.length_range]
  have hweight : ∀ target ∈ Finset.range graph.modules.length,
      planWeight graph { plans := ∅
                         pending := (List.range entries.length).map LogicalChunkGroup.entrypoint }
        target = 2 * graph.modules.length + 2 := fun _ _ => rfl
  rw [Finset.sum_const_nat hweight, Finset.card_range]

variable (hgraph : graph.Indexed) (hreach : ReachesExactly graph reachable)

include hgraph hreach

/-- What visiting one import does: nothing when its target is available, otherwise one plan is written,
and the measure does not grow. -/
theorem visitImport_spec {visiting : LogicalChunkGroup} {modules : List ModuleHandle}
    {mask : ModuleMask} {item : AsyncBlockOrigin × ModuleHandle}
    {rest : List (AsyncBlockOrigin × ModuleHandle)}
    (hinv : PlanInv graph reachable entrypoints planning
      (Due planning.pending visiting (item :: rest)))
    (hvisiting : planning.parentModules entrypoints visiting = some (modules, mask))
    (hmask : MaskOk graph mask) (hitem : item ∈ graph.dynamicImportOrigins modules)
    (hlacks : mask.contains item.2 = false) :
    ∃ plan, Visited planning (visitImport reachable visiting mask planning item) visiting mask item
        plan ∧ PlanOk graph reachable item.2 plan ∧
      planningMeasure graph (visitImport reachable visiting mask planning item) ≤
        planningMeasure graph planning := by
  obtain ⟨origin, target⟩ := item
  have htarget : target < graph.modules.length :=
    ModuleGraph.importBlockTarget_lt hgraph (ModuleGraph.mem_dynamicImportOrigins.mp hitem).2.2
  rw [visitImport, if_neg (by simp [hlacks])]
  cases hlookup : planning.plans.lookup target with
  | none =>
      refine ⟨AsyncChunkPlan.new target (reachable target) visiting mask origin, ?_,
        PlanOk.new htarget hmask hlacks, ?_⟩
      · refine ⟨⟨rfl, ?_⟩, fun group hgroup => List.mem_append_left _ hgroup, ?_, ?_⟩
        · simp only [AsyncPlanning.parentsOf, hlookup, Option.elim_none, AList.lookup_empty,
            AList.insert_empty]
          rfl
        · intro before hbefore
          rw [hlookup] at hbefore
          cases hbefore
        · exact Or.inl (List.mem_append_right _ (List.mem_singleton_self _))
      · refine planningMeasure_le_of_insert htarget rfl ?_
        rw [planWeight, hlookup, Option.elim_none, List.length_append, List.length_singleton]
        have hmin := ModuleMask.count_le
          (AsyncChunkPlan.new target (reachable target) visiting mask origin).minAvailableModules
          graph.modules.length
        have hresulting := ModuleMask.count_le
          (AsyncChunkPlan.new target (reachable target) visiting mask origin).resultingAvailableModules
          graph.modules.length
        omega
  | some plan =>
      have hplan := hinv.plan_ok target plan hlookup
      have hparents := parentsOf_of_lookup hlookup
      have hshrinks : ∀ parentPlan, plan.parents.lookup visiting = some parentPlan →
          ∀ module, mask.contains module = true →
            parentPlan.resultingAvailableModules.contains module = true := by
        intro parentPlan hparent
        obtain ⟨modules', mask', hknown, hsub, -⟩ :=
          hinv.parent_known target visiting parentPlan (hparents ▸ hparent)
        rw [hvisiting] at hknown
        rw [(Prod.mk.inj (Option.some.inj hknown)).2]
        exact hsub
      obtain ⟨hok, hmin, hresulting⟩ :=
        hplan.addParent hgraph hreach origin hmask hlacks hshrinks
      have hmodules : ∀ module ∈ plan.modules, module ∈ (plan.addParent visiting mask origin).1.modules := by
        intro module hmodule
        rw [hplan.mem_modules_iff hreach] at hmodule
        rw [hok.mem_modules_iff hreach]
        refine ⟨hmodule.1, ?_⟩
        by_contra hcontains
        rw [hmin module (by simpa using hcontains)] at hmodule
        exact Bool.noConfusion hmodule.2
      refine ⟨(plan.addParent visiting mask origin).1, ⟨⟨rfl, ?_⟩, ?_, ?_, ?_⟩, hok, ?_⟩
      · rw [hparents]
        rfl
      · intro group hgroup
        show group ∈ (if (plan.addParent visiting mask origin).2 then
          planning.pending ++ [.asyncChunk target] else planning.pending)
        split_ifs
        · exact List.mem_append_left _ hgroup
        · exact hgroup
      · intro before hbefore
        rw [hlookup] at hbefore
        rw [← Option.some.inj hbefore]
        exact ⟨hmodules, hresulting⟩
      · show LogicalChunkGroup.asyncChunk target ∈ (if (plan.addParent visiting mask origin).2 then
          planning.pending ++ [.asyncChunk target] else planning.pending) ∨ _
        split_ifs with hchanged
        · exact Or.inl (List.mem_append_right _ (List.mem_singleton_self _))
        · simp only [AsyncChunkPlan.addParent, Bool.or_eq_true, decide_eq_true_eq, not_or,
            ne_eq, not_not] at hchanged
          refine Or.inr ⟨plan, hlookup, ?_, hchanged.2⟩
          rw [AsyncChunkPlan.modules, AsyncChunkPlan.modules, hchanged.1]
          rfl
      · refine planningMeasure_le_of_insert htarget rfl ?_
        rw [planWeight, hlookup, Option.elim_some]
        show (if (plan.addParent visiting mask origin).2 then
          planning.pending ++ [.asyncChunk target] else planning.pending).length + _ ≤ _
        have hle := ModuleMask.count_le_count graph.modules.length hmin
        have hle' := ModuleMask.count_le_count graph.modules.length hresulting
        split_ifs with hchanged
        · rw [List.length_append, List.length_singleton]
          have hlt : (plan.addParent visiting mask origin).1.minAvailableModules.count
                graph.modules.length < plan.minAvailableModules.count graph.modules.length ∨
              (plan.addParent visiting mask origin).1.resultingAvailableModules.count
                graph.modules.length <
                  plan.resultingAvailableModules.count graph.modules.length := by
            simp only [AsyncChunkPlan.addParent, Bool.or_eq_true, decide_eq_true_eq] at hchanged
            refine hchanged.imp (fun hne => ?_) fun hne => ?_
            · exact ModuleMask.count_lt_count hok.min_ok.sized hplan.min_ok.sized
                hplan.min_ok.inRange hmin (Ne.symm hne)
            · exact ModuleMask.count_lt_count (hok.resulting_ok hgraph hreach).sized
                (hplan.resulting_ok hgraph hreach).sized (hplan.resulting_ok hgraph hreach).inRange
                hresulting (Ne.symm hne)
          omega
        · omega

/-- Visiting the imports of one group, from the first to the last. -/
theorem foldl_visitImport_spec {visiting : LogicalChunkGroup} {modules : List ModuleHandle}
    {mask : ModuleMask} {items : List (AsyncBlockOrigin × ModuleHandle)}
    (hinv : PlanInv graph reachable entrypoints planning (Due planning.pending visiting items))
    (hvisiting : planning.parentModules entrypoints visiting = some (modules, mask))
    (hmask : MaskOk graph mask)
    (hown : ∀ target, visiting = .asyncChunk target → mask.contains target = true)
    (hitems : ∀ item ∈ items, item ∈ graph.dynamicImportOrigins modules) :
    PlanInv graph reachable entrypoints (items.foldl (visitImport reachable visiting mask) planning)
        (Due (items.foldl (visitImport reachable visiting mask) planning).pending visiting []) ∧
      planningMeasure graph (items.foldl (visitImport reachable visiting mask) planning) ≤
        planningMeasure graph planning := by
  induction items generalizing planning with
  | nil => exact ⟨hinv, Nat.le_refl _⟩
  | cons item items ih =>
      have hitem := hitems item List.mem_cons_self
      have hrest : ∀ other ∈ items, other ∈ graph.dynamicImportOrigins modules :=
        fun other hother => hitems other (List.mem_cons_of_mem _ hother)
      rw [List.foldl_cons]
      cases hcontains : mask.contains item.2 with
      | true =>
          have hskip : visitImport reachable visiting mask planning item = planning := by
            obtain ⟨origin, target⟩ := item
            rw [visitImport, if_pos hcontains]
          rw [hskip]
          refine ih ⟨hinv.plan_ok, ?_, ?_⟩ hvisiting hrest
          · intro target parent parentPlan hlookup
            obtain ⟨modules', mask', hknown, hsub, horigins, hcurrent⟩ :=
              hinv.parent_known target parent parentPlan hlookup
            refine ⟨modules', mask', hknown, hsub, horigins, ?_⟩
            rcases hcurrent with hcurrent | ⟨origin, horigin, hpending | ⟨hparent, hmem⟩⟩
            · exact Or.inl hcurrent
            · exact Or.inr ⟨origin, horigin, Or.inl hpending⟩
            · rcases List.mem_cons.mp hmem with heq | hmem
              · -- A recorded parent never makes the target itself available.
                exfalso
                rw [hparent, hvisiting] at hknown
                rw [(Prod.mk.inj (Option.some.inj hknown)).2, ← heq] at hcontains
                have hin := hsub target hcontains
                cases htarget : planning.plans.lookup target with
                | none =>
                    rw [AsyncPlanning.parentsOf, htarget] at hlookup
                    exact absurd hlookup (by simp)
                | some plan =>
                    rw [parentsOf_of_lookup htarget] at hlookup
                    rw [((hinv.plan_ok target plan htarget).parent_ok _ _ hlookup).2.1] at hin
                    exact Bool.noConfusion hin
              · exact Or.inr ⟨origin, horigin, Or.inr ⟨hparent, hmem⟩⟩
          · intro parent modules' mask' hparent other hother
            rcases hinv.settled parent modules' mask' hparent other hother with
              (hpending | ⟨hvis, hmem⟩) | hdone
            · exact Or.inl (Or.inl hpending)
            · rcases List.mem_cons.mp hmem with heq | hmem
              · rw [hvis, hvisiting] at hparent
                rw [(Prod.mk.inj (Option.some.inj hparent)).2, ← heq] at hcontains
                exact Or.inr (Or.inl hcontains)
              · exact Or.inl (Or.inr ⟨hvis, hmem⟩)
            · exact Or.inr hdone
      | false =>
          have hself : visiting ≠ .asyncChunk item.2 := by
            intro heq
            rw [hown item.2 heq] at hcontains
            exact Bool.noConfusion hcontains
          obtain ⟨plan, hvisited, hok, hmeasure⟩ :=
            visitImport_spec hgraph hreach hinv hvisiting hmask hitem hcontains
          have hvisiting' : (visitImport reachable visiting mask planning item).parentModules
              entrypoints visiting = some (modules, mask) := by
            rw [parentModules_insert hvisited.plans_eq, if_neg hself]
            exact hvisiting
          obtain ⟨hinv', hmeasure'⟩ :=
            ih (hinv.visit hvisiting hitem hself hvisited hok) hvisiting' hrest
          exact ⟨hinv', hmeasure'.trans hmeasure⟩

/-- One turn of the loop keeps the invariant and lowers the measure. -/
theorem planParent_spec (hentrypoints : EntrypointsOk graph entrypoints)
    (hinv : PlanInv graph reachable entrypoints planning fun parent _ => parent ∈ planning.pending)
    (hstep : planParent graph reachable entrypoints planning = some planning') :
    (PlanInv graph reachable entrypoints planning' fun parent _ => parent ∈ planning'.pending) ∧
      planningMeasure graph planning' < planningMeasure graph planning := by
  rw [planParent] at hstep
  cases hpending : planning.pending with
  | nil =>
      rw [hpending] at hstep
      cases hstep
  | cons parent pending =>
      rw [hpending] at hstep
      dsimp only at hstep
      have hpop : planningMeasure graph { planning with pending } <
          planningMeasure graph planning := by
        show pending.length + (Finset.range graph.modules.length).sum (planWeight graph planning) <
          planningMeasure graph planning
        rw [planningMeasure, hpending, List.length_cons]
        omega
      cases hparent : planning.parentModules entrypoints parent with
      | none =>
          -- A group that is not there has nothing to visit and nothing recorded about it.
          rw [show ({ planning with pending } : AsyncPlanning).parentModules entrypoints parent = none
            from hparent] at hstep
          rw [← Option.some.inj hstep]
          refine ⟨⟨hinv.plan_ok, ?_, ?_⟩, hpop⟩
          · intro target other parentPlan hlookup
            obtain ⟨modules, mask, hknown, hsub, horigins, hcurrent⟩ :=
              hinv.parent_known target other parentPlan hlookup
            refine ⟨modules, mask, hknown, hsub, horigins, hcurrent.imp_right ?_⟩
            rintro ⟨origin, horigin, hmem⟩
            rw [hpending] at hmem
            rcases List.mem_cons.mp hmem with rfl | hmem
            · rw [hparent] at hknown
              cases hknown
            · exact ⟨origin, horigin, hmem⟩
          · intro other modules mask hother item hitem
            rcases hinv.settled other modules mask hother item hitem with hmem | hdone
            · rw [hpending] at hmem
              rcases List.mem_cons.mp hmem with rfl | hmem
              · exact absurd (hparent.symm.trans hother) (by simp)
              · exact Or.inl hmem
            · exact Or.inr hdone
      | some pair =>
          obtain ⟨modules, mask⟩ := pair
          rw [show ({ planning with pending } : AsyncPlanning).parentModules entrypoints parent =
            some (modules, mask) from hparent] at hstep
          have hmask : MaskOk graph mask ∧
              ∀ target, parent = .asyncChunk target → mask.contains target = true := by
            cases parent with
            | entrypoint index =>
                obtain ⟨plan, hplan, hpair⟩ := Option.map_eq_some_iff.mp hparent
                rw [← (Prod.mk.inj hpair).2]
                refine ⟨(hentrypoints plan (List.mem_of_getElem? hplan)).1, ?_⟩
                intro target heq
                cases heq
            | asyncChunk target =>
                obtain ⟨plan, hplan, hpair⟩ := Option.map_eq_some_iff.mp hparent
                rw [← (Prod.mk.inj hpair).2]
                have hok := hinv.plan_ok target plan hplan
                refine ⟨hok.resulting_ok hgraph hreach, ?_⟩
                intro other heq
                rw [← LogicalChunkGroup.asyncChunk.inj heq]
                exact hok.resulting_contains_target hgraph hreach
          have hstart : PlanInv graph reachable entrypoints { planning with pending }
              (Due pending parent (graph.dynamicImportOrigins modules)) := by
            refine ⟨hinv.plan_ok, ?_, ?_⟩
            · intro target other parentPlan hlookup
              obtain ⟨modules', mask', hknown, hsub, horigins, hcurrent⟩ :=
                hinv.parent_known target other parentPlan hlookup
              refine ⟨modules', mask', hknown, hsub, horigins, hcurrent.imp_right ?_⟩
              rintro ⟨origin, horigin, hmem⟩
              rw [hpending] at hmem
              refine ⟨origin, horigin, ?_⟩
              rcases List.mem_cons.mp hmem with heq | hmem
              · rw [heq, hparent] at hknown
                rw [← (Prod.mk.inj (Option.some.inj hknown)).1] at horigins
                exact Or.inr ⟨heq, horigins origin horigin⟩
              · exact Or.inl hmem
            · intro other modules' mask' hother item hitem
              rcases hinv.settled other modules' mask' hother item hitem with hmem | hdone
              · rw [hpending] at hmem
                rcases List.mem_cons.mp hmem with heq | hmem
                · have hother' := hother
                  rw [heq] at hother'
                  rw [show ({ planning with pending } : AsyncPlanning).parentModules entrypoints
                    parent = some (modules, mask) from hparent] at hother'
                  rw [← (Prod.mk.inj (Option.some.inj hother')).1] at hitem
                  exact Or.inl (Or.inr ⟨heq, hitem⟩)
                · exact Or.inl (Or.inl hmem)
              · exact Or.inr hdone
          obtain ⟨hinv', hmeasure⟩ := foldl_visitImport_spec hgraph hreach hstart hparent hmask.1
            hmask.2 fun _ hitem => hitem
          rw [← Option.some.inj hstep]
          refine ⟨⟨hinv'.plan_ok, ?_, ?_⟩, Nat.lt_of_le_of_lt hmeasure hpop⟩
          · intro target other parentPlan hlookup
            obtain ⟨modules', mask', hknown, hsub, horigins, hcurrent⟩ :=
              hinv'.parent_known target other parentPlan hlookup
            refine ⟨modules', mask', hknown, hsub, horigins, hcurrent.imp_right ?_⟩
            rintro ⟨origin, horigin, hmem | ⟨-, hmem⟩⟩
            · exact ⟨origin, horigin, hmem⟩
            · exact absurd hmem List.not_mem_nil
          · intro other modules' mask' hother item hitem
            rcases hinv'.settled other modules' mask' hother item hitem with (hmem | ⟨-, hmem⟩) | hdone
            · exact Or.inl hmem
            · exact absurd hmem List.not_mem_nil
            · exact Or.inr hdone

end

end Unpack
