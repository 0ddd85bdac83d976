import Unpack.ChunkGroupEdges
import Unpack.StaticAvailability

/-! Which async groups the child edges still reach. A target whose group reaches all its recorded parents
when its turn comes gets no parent, though each of the edges left out was needed; every other async group
descends from an entrypoint. -/

namespace Unpack

open Relation

namespace AsyncPlanning

def Has (entryCount : Nat) (planning : AsyncPlanning) : LogicalChunkGroup → Prop
  | .entrypoint index => index < entryCount
  | .asyncChunk target => (planning.plans.lookup target).isSome

structure ParentsKnown (entryCount : Nat) (planning : AsyncPlanning) : Prop where
  pending : ∀ group ∈ planning.pending, planning.Has entryCount group
  parents : ∀ target plan, planning.plans.lookup target = some plan →
    (∃ parent, parent ∈ plan.parents) ∧ ∀ parent ∈ plan.parents, planning.Has entryCount parent

end AsyncPlanning

section

variable {graph : ModuleGraph} {reachable : ModuleHandle → List ModuleHandle}
variable {entryCount : Nat} {planning : AsyncPlanning}

theorem AsyncPlanning.Has.insert {group : LogicalChunkGroup} (h : planning.Has entryCount group)
    {planning' : AsyncPlanning} {target : ModuleHandle} {plan : AsyncChunkPlan}
    (hplans : planning'.plans = planning.plans.insert target plan) : planning'.Has entryCount group := by
  cases group with
  | entrypoint index => exact h
  | asyncChunk other =>
      rw [AsyncPlanning.Has, hplans]
      by_cases heq : other = target
      · rw [heq, AList.lookup_insert]
        rfl
      · rw [AList.lookup_insert_ne heq]
        exact h

/-- One written plan: its parents are the ones before and the visiting group. -/
theorem AsyncPlanning.ParentsKnown.write (h : planning.ParentsKnown entryCount) {parent : LogicalChunkGroup}
    (hparent : planning.Has entryCount parent) {planning' : AsyncPlanning} {target : ModuleHandle}
    {plan : AsyncChunkPlan} (hplans : planning'.plans = planning.plans.insert target plan)
    (hpending : ∀ group ∈ planning'.pending,
      group ∈ planning.pending ∨ group = .asyncChunk target)
    (hnew : parent ∈ plan.parents)
    (hparents : ∀ other ∈ plan.parents, other = parent ∨
      ∃ before, planning.plans.lookup target = some before ∧ other ∈ before.parents) :
    planning'.ParentsKnown entryCount := by
  have hself : planning'.Has entryCount (.asyncChunk target) := by
    rw [AsyncPlanning.Has, hplans, AList.lookup_insert]
    rfl
  constructor
  · intro group hgroup
    rcases hpending group hgroup with hold | rfl
    · exact (h.pending group hold).insert hplans
    · exact hself
  · intro other found hfound
    by_cases heq : other = target
    · subst heq
      rw [hplans, AList.lookup_insert] at hfound
      obtain rfl := Option.some.inj hfound
      refine ⟨⟨parent, hnew⟩, fun group hgroup => ?_⟩
      rcases hparents group hgroup with rfl | ⟨before, hbefore, hmem⟩
      · exact hparent.insert hplans
      · exact ((h.parents _ before hbefore).2 group hmem).insert hplans
    · rw [hplans, AList.lookup_insert_ne heq] at hfound
      obtain ⟨hsome, hall⟩ := h.parents other found hfound
      exact ⟨hsome, fun group hgroup => (hall group hgroup).insert hplans⟩

theorem parentsKnown_visitImport (reachable : ModuleHandle → List ModuleHandle)
    (h : planning.ParentsKnown entryCount) {parent : LogicalChunkGroup}
    (hparent : planning.Has entryCount parent) (mask : ModuleMask)
    (item : AsyncBlockOrigin × ModuleHandle) :
    (visitImport reachable parent mask planning item).ParentsKnown entryCount ∧
      (visitImport reachable parent mask planning item).Has entryCount parent := by
  obtain ⟨origin, target⟩ := item
  rw [visitImport]
  split_ifs
  · exact ⟨h, hparent⟩
  · cases hlookup : planning.plans.lookup target with
    | none =>
        refine ⟨h.write hparent rfl (fun group hgroup => ?_) ?_ (fun other hother => ?_),
          hparent.insert rfl⟩
        · rcases List.mem_append.mp hgroup with hold | hnew
          · exact Or.inl hold
          · exact Or.inr (List.mem_singleton.mp hnew)
        · exact AList.mem_keys.mpr (List.mem_singleton_self parent)
        · exact Or.inl (List.mem_singleton.mp (AList.mem_keys.mp hother))
    | some plan =>
        refine ⟨h.write hparent rfl (fun group hgroup => ?_) ?_ (fun other hother => ?_),
          hparent.insert rfl⟩
        · dsimp only at hgroup
          split_ifs at hgroup
          · rcases List.mem_append.mp hgroup with hold | hnew
            · exact Or.inl hold
            · exact Or.inr (List.mem_singleton.mp hnew)
          · exact Or.inl hgroup
        · exact (AList.mem_insert _).mpr (Or.inl rfl)
        · exact ((AList.mem_insert _).mp hother).imp id fun hmem => ⟨plan, hlookup, hmem⟩

theorem parentsKnown_foldl_visitImport (mask : ModuleMask) {parent : LogicalChunkGroup}
    (items : List (AsyncBlockOrigin × ModuleHandle)) (h : planning.ParentsKnown entryCount)
    (hparent : planning.Has entryCount parent) :
    (items.foldl (visitImport reachable parent mask) planning).ParentsKnown entryCount := by
  induction items generalizing planning with
  | nil => exact h
  | cons item items ih =>
      obtain ⟨h', hparent'⟩ := parentsKnown_visitImport reachable h hparent mask item
      exact ih h' hparent'

/-- The planning loop records only groups that are there. -/
theorem parentsKnown_planAsyncChunks (graph : ModuleGraph)
    (reachable : ModuleHandle → List ModuleHandle) (entries : List ModuleHandle) :
    (planAsyncChunks graph reachable entries).ParentsKnown entries.length := by
  refine Fixpoint.iterate_inv (AsyncPlanning.ParentsKnown entries.length) ?_ _ _ ?_
  · intro before after h hstep
    rw [planParent] at hstep
    cases hpending : before.pending with
    | nil =>
        rw [hpending] at hstep
        exact absurd hstep (Option.some_ne_none after).symm
    | cons parent pending =>
        rw [hpending] at hstep
        obtain rfl := Option.some.inj hstep
        have hpopped : AsyncPlanning.ParentsKnown entries.length { before with pending } :=
          ⟨fun group hgroup => h.pending group (hpending ▸ List.mem_cons_of_mem _ hgroup), h.parents⟩
        have hparent : AsyncPlanning.Has entries.length { before with pending } parent :=
          h.pending parent (hpending ▸ List.mem_cons_self)
        split
        · exact parentsKnown_foldl_visitImport _ _ hpopped hparent
        · exact hpopped
  · constructor
    · intro group hgroup
      obtain ⟨index, hindex, rfl⟩ := List.mem_map.mp hgroup
      exact List.mem_range.mp hindex
    · intro target plan hplan
      exact absurd hplan (by simp)

theorem AsyncPlanning.Has.exists {entries : List ModuleHandle} {group : LogicalChunkGroup}
    (h : (planAsyncChunks graph reachable entries).Has entries.length group) :
    group.Exists graph reachable entries := by
  cases group with
  | entrypoint index => exact LogicalChunkGroup.exists_entrypoint.mpr h
  | asyncChunk target => exact LogicalChunkGroup.exists_asyncChunk.mpr (mem_orderedTargets.mpr h)

end

namespace ChunkGraph

/-- No group has an edge. -/
def Unlinked (chunkGraph : ChunkGraph) : Prop :=
  ∀ links ∈ chunkGraph.chunkGroups.map fun group => (group.children, group.parents), links = ([], [])

theorem Unlinked.addGroupWithChunk {chunkGraph : ChunkGraph} (h : chunkGraph.Unlinked)
    (name : Option String) (root : ModuleHandle) (kind : ChunkGroupKind)
    (origin : Option AsyncBlockOrigin) (modules : List ModuleHandle) :
    (addGroupWithChunk chunkGraph name root kind origin modules).2.Unlinked := by
  have hmodules : ∀ (modules : List ModuleHandle) (start : ChunkGraph) (chunk : ChunkHandle),
      (modules.foldl (fun chunkGraph module => chunkGraph.connectChunkAndModule chunk module)
        start).chunkGroups = start.chunkGroups := by
    intro modules
    induction modules with
    | nil => exact fun _ _ => rfl
    | cons module modules ih => exact fun start chunk => ih (start.connectChunkAndModule chunk module) chunk
  intro links hlinks
  unfold Unpack.addGroupWithChunk at hlinks
  dsimp only at hlinks
  rw [hmodules] at hlinks
  simp only [connectChunkAndGroup, addChunkGroup, addChunk] at hlinks
  rw [map_modify_of_same _ _ (fun group : ChunkGroup => group.pushChunk chunkGraph.chunks.length) _
    (fun _ => rfl), List.map_append] at hlinks
  rcases List.mem_append.mp hlinks with hold | hnew
  · exact h links hold
  · exact List.mem_singleton.mp hnew

theorem unlinked_layGroups (graph : ModuleGraph) (reachable : ModuleHandle → List ModuleHandle)
    (options : CompilerOptions) (entries : List ModuleHandle) (planning : AsyncPlanning) :
    (layGroups graph reachable options entries planning).Unlinked := by
  have hentries : ∀ (items : List (ModuleHandle × Nat)) (start : ChunkGraph), start.Unlinked →
      (items.foldl (addEntrypointGroup reachable options) start).Unlinked := by
    intro items
    induction items with
    | nil => exact fun _ h => h
    | cons item items ih => exact fun start h => ih _ (h.addGroupWithChunk _ _ _ _ _)
  have htargets : ∀ (targets : List ModuleHandle) (start : ChunkGraph), start.Unlinked →
      (targets.foldl (addAsyncGroup graph planning) start).Unlinked := by
    intro targets
    induction targets with
    | nil => exact fun _ h => h
    | cons target targets ih =>
        intro start h
        refine ih _ ?_
        rw [addAsyncGroup]
        split
        · exact h.addGroupWithChunk _ _ _ _ _
        · exact h
  exact htargets _ _ (hentries _ _ fun links hlinks => absurd hlinks List.not_mem_nil)

theorem Unlinked.children {chunkGraph : ChunkGraph} (h : chunkGraph.Unlinked)
    (group : ChunkGroupHandle) : chunkGraph.children group = [] ∧ chunkGraph.parents group = [] := by
  rw [ChunkGraph.children, ChunkGraph.parents]
  cases hgroup : chunkGraph.chunkGroup group with
  | none => exact ⟨rfl, rfl⟩
  | some found =>
      have hlinks := h (found.children, found.parents)
        (List.mem_map.mpr ⟨found, List.mem_of_getElem? hgroup, rfl⟩)
      exact ⟨congrArg Prod.fst hlinks, congrArg Prod.snd hlinks⟩

theorem Unlinked.linked {chunkGraph : ChunkGraph} (h : chunkGraph.Unlinked) : chunkGraph.Linked := by
  have hnone : ∀ parent child, child ∉ chunkGraph.children parent := by
    intro parent child hedge
    rw [(h.children parent).1] at hedge
    exact List.not_mem_nil hedge
  refine ⟨fun group hcycle => ?_, fun parent child => ?_, fun parent child hedge => ?_⟩
  · obtain ⟨child, hedge, -⟩ := TransGen.head'_iff.mp hcycle
    exact hnone group child hedge
  · rw [(h.children child).2]
    exact iff_of_false (hnone parent child) List.not_mem_nil
  · exact absurd hedge (hnone parent child)

end ChunkGraph

section

variable (graph : ModuleGraph) (reachable : ModuleHandle → List ModuleHandle)
variable (options : CompilerOptions) (entries : List ModuleHandle)

/-- The chunk graph after the parents of some targets have been connected. -/
def connectedAfter (targets : List ModuleHandle) : ChunkGraph :=
  targets.foldl (connectParents graph (planAsyncChunks graph reachable entries)
    (groupIndex graph reachable entries))
    (layGroups graph reachable options entries (planAsyncChunks graph reachable entries))

/-- When the turn of a target comes, its group does not reach all the parents recorded for it. -/
def LoadedFreely : Prop :=
  ∀ before target after,
    orderedTargets graph (planAsyncChunks graph reachable entries) = before ++ target :: after →
    ∀ plan, (planAsyncChunks graph reachable entries).plans.lookup target = some plan →
      ∃ parent ∈ plan.parents,
        chunkGroupReaches (connectedAfter graph reachable options entries before)
          (groupIndex graph reachable entries parent)
          (reachFuel (connectedAfter graph reachable options entries before))
          [groupIndex graph reachable entries (.asyncChunk target)] [] = false

end

section

variable {graph : ModuleGraph} {reachable : ModuleHandle → List ModuleHandle}
variable {options : CompilerOptions} {entries : List ModuleHandle}

/-- The edges to one planned target. -/
theorem linked_connectParents {target : ModuleHandle} {plan : AsyncChunkPlan}
    (hplan : (planAsyncChunks graph reachable entries).plans.lookup target = some plan)
    {chunkGraph : ChunkGraph} (h : chunkGraph.Linked)
    (hsized : chunkGraph.Sized (groupCount graph reachable entries)) :
    let result := connectParents graph (planAsyncChunks graph reachable entries)
      (groupIndex graph reachable entries) chunkGraph target
    result.Linked ∧ SameContents chunkGraph result ∧
      ∀ parent child, child ∈ result.children parent ↔ child ∈ chunkGraph.children parent ∨
        child = groupIndex graph reachable entries (.asyncChunk target) ∧
          (∃ group ∈ plan.parents, parent = groupIndex graph reachable entries group) ∧
            ¬ ReflTransGen chunkGraph.ChildEdge
              (groupIndex graph reachable entries (.asyncChunk target)) parent := by
  have hknown := parentsKnown_planAsyncChunks graph reachable entries
  let edges := (sortedParents graph plan).map fun parent =>
    (groupIndex graph reachable entries parent.1, parent.2)
  have hresult : connectParents graph (planAsyncChunks graph reachable entries)
      (groupIndex graph reachable entries) chunkGraph target =
      edges.foldl (connectLoadingEdge (groupIndex graph reachable entries (.asyncChunk target)))
        chunkGraph := by
    rw [connectParents, hplan]
  have hedges : ∀ handle, (∃ edge ∈ edges, handle = edge.1) ↔
      ∃ group ∈ plan.parents, handle = groupIndex graph reachable entries group := by
    intro handle
    constructor
    · rintro ⟨edge, hedge, rfl⟩
      obtain ⟨⟨group, origins⟩, hmem, rfl⟩ := List.mem_map.mp hedge
      obtain ⟨parentPlan, hparent, -⟩ := mem_sortedParents.mp hmem
      exact ⟨group, AList.lookup_isSome.mp (hparent ▸ rfl), rfl⟩
    · rintro ⟨group, hmem, rfl⟩
      obtain ⟨parentPlan, hparent⟩ := Option.isSome_iff_exists.mp (AList.lookup_isSome.mpr hmem)
      exact ⟨_, List.mem_map.mpr ⟨(group, parentPlan.origins),
        mem_sortedParents.mpr ⟨parentPlan, hparent, rfl⟩, rfl⟩, rfl⟩
  have hlt : ∀ edge ∈ edges, edge.1 < groupCount graph reachable entries := by
    intro edge hedge
    obtain ⟨group, hmem, heq⟩ := (hedges edge.1).mp ⟨edge, hedge, rfl⟩
    rw [heq]
    exact LogicalChunkGroup.groupIndex_lt (((hknown.parents target plan hplan).2 group hmem).exists)
  have hchild : groupIndex graph reachable entries (.asyncChunk target) <
      groupCount graph reachable entries :=
    LogicalChunkGroup.groupIndex_lt (LogicalChunkGroup.exists_asyncChunk.mpr
      (mem_orderedTargets.mpr (hplan ▸ rfl)))
  obtain ⟨hlinked, hchildren⟩ := ChunkGraph.linked_foldl_connectLoadingEdge hchild edges hlt h hsized
  obtain ⟨hsame, -, -⟩ := foldl_connectLoadingEdge chunkGraph
    (groupIndex graph reachable entries (.asyncChunk target)) edges
    fun edge hedge => hsized.2.symm ▸ hlt edge hedge
  rw [hresult]
  refine ⟨hlinked, hsame, fun parent child => ?_⟩
  rw [hchildren, hedges]

/-- The edges of some planned targets: each has the parents it did not reach when its turn came. -/
theorem linked_foldl_connectParents (targets : List ModuleHandle)
    (htargets : ∀ target ∈ targets,
      ((planAsyncChunks graph reachable entries).plans.lookup target).isSome)
    {chunkGraph : ChunkGraph} (h : chunkGraph.Linked)
    (hsized : chunkGraph.Sized (groupCount graph reachable entries)) :
    let connect := connectParents graph (planAsyncChunks graph reachable entries)
      (groupIndex graph reachable entries)
    (targets.foldl connect chunkGraph).Linked ∧
      SameContents chunkGraph (targets.foldl connect chunkGraph) ∧
      ∀ parent child, child ∈ (targets.foldl connect chunkGraph).children parent ↔
        child ∈ chunkGraph.children parent ∨ ∃ before target after plan,
          targets = before ++ target :: after ∧
          (planAsyncChunks graph reachable entries).plans.lookup target = some plan ∧
          child = groupIndex graph reachable entries (.asyncChunk target) ∧
          (∃ group ∈ plan.parents, parent = groupIndex graph reachable entries group) ∧
          ¬ ReflTransGen (before.foldl connect chunkGraph).ChildEdge child parent := by
  intro connect
  induction targets generalizing chunkGraph with
  | nil => exact ⟨h, SameContents.refl _, by simp⟩
  | cons target targets ih =>
      obtain ⟨plan, hplan⟩ := Option.isSome_iff_exists.mp (htargets target List.mem_cons_self)
      obtain ⟨hlinked, hsame, hchildren⟩ := linked_connectParents hplan h hsized
      obtain ⟨hlinked', hsame', hchildren'⟩ := ih
        (fun other hother => htargets other (List.mem_cons_of_mem _ hother)) hlinked
        (hsized.of_sameContents hsame)
      refine ⟨hlinked', hsame.trans hsame', fun parent child => ?_⟩
      rw [List.foldl_cons, hchildren', hchildren, or_assoc]
      refine or_congr Iff.rfl ⟨?_, ?_⟩
      · rintro (⟨rfl, hparent, hfree⟩ | ⟨before, other, after, otherPlan, rfl, hrest⟩)
        · exact ⟨[], target, targets, plan, rfl, hplan, rfl, hparent, hfree⟩
        · exact ⟨target :: before, other, after, otherPlan, rfl, hrest⟩
      · rintro ⟨before, other, after, otherPlan, hsplit, hlookup, hchild, hparent, hfree⟩
        cases before with
        | nil =>
            obtain ⟨rfl, rfl⟩ := List.cons.inj hsplit
            rw [hplan] at hlookup
            obtain rfl := Option.some.inj hlookup
            subst hchild
            exact Or.inl ⟨rfl, hparent, hfree⟩
        | cons first before =>
            obtain ⟨rfl, rfl⟩ := List.cons.inj hsplit
            exact Or.inr ⟨before, other, after, otherPlan, rfl, hlookup, hchild, hparent, hfree⟩

/-- The groups of the connected graph: entrypoints first, then one async group for each target. -/
theorem kind_connectedAfter (targets : List ModuleHandle)
    (hsame : SameContents (connectedAfter graph reachable options entries [])
      (connectedAfter graph reachable options entries targets))
    {group : LogicalChunkGroup} (h : group.Exists graph reachable entries) :
    ∃ found, (connectedAfter graph reachable options entries targets).chunkGroup
        (groupIndex graph reachable entries group) = some found ∧
      (found.kind = .async ↔ ¬ group.IsEntrypoint) := by
  obtain ⟨hlaid, -⟩ :=
    laid_layGroups graph reachable options entries
  obtain ⟨found, hfound, -, hkind, -⟩ :=
    hlaid.group_spec _ _ (LogicalChunkGroup.getElem?_contents options h)
  have hmade := congrArg (·[groupIndex graph reachable entries group]?) hsame.groups
  simp only [List.getElem?_map] at hmade
  rw [ChunkGraph.chunkGroup] at hfound
  rw [connectedAfter, connectedAfter, List.foldl_nil, hfound, Option.map_some,
    Option.map_eq_some_iff] at hmade
  obtain ⟨after, hafter, heq⟩ := hmade
  refine ⟨after, hafter, ?_⟩
  rw [(Prod.mk.inj heq).1, hkind]
  cases group with
  | entrypoint index =>
      simp [LogicalChunkGroup.content, entryContent, LogicalChunkGroup.IsEntrypoint]
  | asyncChunk target =>
      simp [LogicalChunkGroup.content, asyncContent, LogicalChunkGroup.IsEntrypoint]

end

namespace ChunkGraph

/-- Every async group descends from an entrypoint. -/
def AsyncReachable (chunkGraph : ChunkGraph) : Prop :=
  ∀ handle found, chunkGraph.chunkGroup handle = some found → found.kind = .async →
    ∃ entrypoint ∈ chunkGraph.entrypoints, ReflTransGen chunkGraph.ChildEdge entrypoint handle

end ChunkGraph

section

variable {graph : ModuleGraph} {reachable : ModuleHandle → List ModuleHandle}
variable {options : CompilerOptions} {entries : List ModuleHandle}

theorem buildGroups_eq : buildGroups graph reachable options entries =
    connectedAfter graph reachable options entries
      (orderedTargets graph (planAsyncChunks graph reachable entries)) := rfl

/-- What the connecting phase has done after some of the targets. -/
theorem connectedAfter_spec (graph : ModuleGraph) (reachable : ModuleHandle → List ModuleHandle)
    (options : CompilerOptions) (entries : List ModuleHandle) {targets rest : List ModuleHandle}
    (htargets : orderedTargets graph (planAsyncChunks graph reachable entries) = targets ++ rest) :
    (connectedAfter graph reachable options entries targets).Linked ∧
      SameContents (connectedAfter graph reachable options entries [])
        (connectedAfter graph reachable options entries targets) ∧
      (connectedAfter graph reachable options entries targets).Sized
        (groupCount graph reachable entries) ∧
      ∀ parent child,
        child ∈ (connectedAfter graph reachable options entries targets).children parent ↔
          ∃ before target after plan, targets = before ++ target :: after ∧
            (planAsyncChunks graph reachable entries).plans.lookup target = some plan ∧
            child = groupIndex graph reachable entries (.asyncChunk target) ∧
            (∃ group ∈ plan.parents, parent = groupIndex graph reachable entries group) ∧
            ¬ ReflTransGen (connectedAfter graph reachable options entries before).ChildEdge
              child parent := by
  have hunlinked := ChunkGraph.unlinked_layGroups graph reachable options entries
    (planAsyncChunks graph reachable entries)
  obtain ⟨hlaid, -⟩ :=
    laid_layGroups graph reachable options entries
  have hcount : (entries.zipIdx.map (entryContent reachable options) ++
      (orderedTargets graph (planAsyncChunks graph reachable entries)).map
        (asyncContent graph reachable entries)).length = groupCount graph reachable entries := by
    rw [List.length_append, List.length_map, List.length_map, List.length_zipIdx]
    rfl
  have hsized : (layGroups graph reachable options entries
      (planAsyncChunks graph reachable entries)).Sized (groupCount graph reachable entries) :=
    ⟨hlaid.groups_length.trans hcount, hlaid.children_length.trans hcount⟩
  obtain ⟨hlinked, hsame, hchildren⟩ := linked_foldl_connectParents targets
    (fun target hmem => mem_orderedTargets.mp (htargets ▸ List.mem_append_left rest hmem))
    hunlinked.linked hsized
  refine ⟨hlinked, hsame, hsized.of_sameContents hsame, fun parent child => ?_⟩
  refine (hchildren parent child).trans ⟨fun hor => hor.resolve_left fun hedge => ?_, Or.inr⟩
  rw [(hunlinked.children parent).1] at hedge
  exact List.not_mem_nil hedge

theorem linked_buildGroups : (buildGroups graph reachable options entries).Linked := by
  rw [buildGroups_eq]
  exact (connectedAfter_spec graph reachable options entries (List.append_nil _).symm).1

theorem entrypoints_buildGroups :
    (buildGroups graph reachable options entries).entrypoints = List.range entries.length := by
  rw [buildGroups_eq]
  obtain ⟨-, hsame, -⟩ := connectedAfter_spec graph reachable options entries
    (List.append_nil _).symm
  obtain ⟨-, hentrypoints⟩ :=
    laid_layGroups graph reachable options entries
  exact hsame.entrypoints.trans hentrypoints

/-- A target is free of a recorded parent exactly when the cycle check says so. -/
theorem not_reaches_iff {before after : List ModuleHandle} {target : ModuleHandle}
    (hsplit : orderedTargets graph (planAsyncChunks graph reachable entries) =
      before ++ target :: after) (parent : ChunkGroupHandle) :
    chunkGroupReaches (connectedAfter graph reachable options entries before) parent
        (reachFuel (connectedAfter graph reachable options entries before))
        [groupIndex graph reachable entries (.asyncChunk target)] [] = false ↔
      ¬ ReflTransGen (connectedAfter graph reachable options entries before).ChildEdge
        (groupIndex graph reachable entries (.asyncChunk target)) parent := by
  obtain ⟨hlinked, -, hsized, -⟩ := connectedAfter_spec graph reachable options entries hsplit
  have hexists : (LogicalChunkGroup.asyncChunk target).Exists graph reachable entries :=
    LogicalChunkGroup.exists_asyncChunk.mpr
      (hsplit ▸ List.mem_append_right before List.mem_cons_self : target ∈ orderedTargets graph _)
  have hlt := LogicalChunkGroup.groupIndex_lt hexists
  rw [← ChunkGraph.chunkGroupReaches_iff hlinked (hsized.1.symm ▸ hlt), Bool.not_eq_true]

/-- With a free parent for every target, every async group descends from an entrypoint. -/
theorem asyncReachable_buildGroups (h : LoadedFreely graph reachable options entries) :
    (buildGroups graph reachable options entries).AsyncReachable := by
  intro handle found hfound _
  rw [entrypoints_buildGroups]
  rw [buildGroups_eq] at hfound ⊢
  obtain ⟨hlinked, -, hsized, hchildren⟩ := connectedAfter_spec graph reachable options
    entries (List.append_nil _).symm
  have hlt : handle < groupCount graph reachable entries :=
    hsized.1 ▸ (List.getElem?_eq_some_iff.mp hfound).choose
  obtain ⟨entrypoint, hentrypoint, hreach⟩ := EdgeInsertion.exists_root_reaches hlinked.acyclic
    (Finset.range (groupCount graph reachable entries)) (· ∈ List.range entries.length) (by
      intro index hindex
      obtain ⟨group, hgroup, rfl⟩ :=
        LogicalChunkGroup.exists_of_groupIndex (Finset.mem_range.mp hindex)
      cases group with
      | entrypoint index =>
          exact Or.inl (List.mem_range.mpr (LogicalChunkGroup.exists_entrypoint.mp hgroup))
      | asyncChunk target =>
          obtain ⟨before, after, hsplit⟩ :=
            List.append_of_mem (LogicalChunkGroup.exists_asyncChunk.mp hgroup)
          obtain ⟨plan, hplan⟩ := Option.isSome_iff_exists.mp
            (mem_orderedTargets.mp (LogicalChunkGroup.exists_asyncChunk.mp hgroup))
          obtain ⟨parent, hparent, hfree⟩ := h before target after hsplit plan hplan
          have hknown := (parentsKnown_planAsyncChunks graph reachable entries).parents target plan hplan
          refine Or.inr ⟨groupIndex graph reachable entries parent, Finset.mem_range.mpr
            (LogicalChunkGroup.groupIndex_lt (hknown.2 parent hparent).exists), ?_⟩
          exact (hchildren _ _).mpr ⟨before, target, after, plan, hsplit, hplan, rfl,
            ⟨parent, hparent, rfl⟩, (not_reaches_iff hsplit _).mp hfree⟩)
    (Finset.mem_range.mpr hlt)
  exact ⟨entrypoint, hentrypoint, hreach⟩

/-- An async group that descends from an entrypoint had a free parent. -/
theorem loadedFreely_of_asyncReachable
    (h : (buildGroups graph reachable options entries).AsyncReachable) :
    LoadedFreely graph reachable options entries := by
  intro before target after hsplit plan hplan
  have hexists : (LogicalChunkGroup.asyncChunk target).Exists graph reachable entries :=
    LogicalChunkGroup.exists_asyncChunk.mpr (mem_orderedTargets.mpr (hplan ▸ rfl))
  rw [ChunkGraph.AsyncReachable, entrypoints_buildGroups, buildGroups_eq] at h
  obtain ⟨-, hsame, -, hchildren⟩ := connectedAfter_spec graph reachable options
    entries (List.append_nil _).symm
  obtain ⟨found, hfound, hkind⟩ := kind_connectedAfter _ hsame hexists
  obtain ⟨entrypoint, hentrypoint, hreach⟩ :=
    h _ found hfound (hkind.mpr fun ⟨_, heq⟩ => LogicalChunkGroup.noConfusion heq)
  rcases ReflTransGen.cases_tail hreach with heq | ⟨parent, -, hedge⟩
  · -- The handles of async groups come after those of the entrypoints.
    have hlt := List.mem_range.mp hentrypoint
    rw [← heq] at hlt
    exact absurd hlt (Nat.not_lt.mpr (Nat.le_add_right _ _))
  · obtain ⟨before', target', after', plan', hsplit', hplan', hindex, ⟨group, hgroup, rfl⟩, hfree⟩ :=
      (hchildren parent _).mp hedge
    have hexists' : (LogicalChunkGroup.asyncChunk target').Exists graph reachable entries :=
      LogicalChunkGroup.exists_asyncChunk.mpr (mem_orderedTargets.mpr (hplan' ▸ rfl))
    obtain rfl := LogicalChunkGroup.asyncChunk.inj
      (LogicalChunkGroup.groupIndex_injective hexists hexists' hindex)
    rw [hplan] at hplan'
    obtain rfl := Option.some.inj hplan'
    have hnodup := nodup_orderedTargets graph (planAsyncChunks graph reachable entries)
    rw [hsplit] at hnodup
    obtain ⟨-, hcons, hdisjoint⟩ := List.nodup_append.mp hnodup
    obtain ⟨rfl, -, -⟩ := (List.append_cons_inj_of_notMem
      (fun hmem => hdisjoint target hmem target List.mem_cons_self rfl)
      (List.nodup_cons.mp hcons).1).mp (hsplit.symm.trans hsplit')
    exact ⟨group, hgroup, (not_reaches_iff hsplit _).mpr hfree⟩

end

namespace ChunkGraph

theorem sameGroups_foldl {α : Type} (f : ChunkGraph → α → ChunkGraph)
    (hf : ∀ chunkGraph item, SameGroups chunkGraph (f chunkGraph item)) (items : List α)
    (chunkGraph : ChunkGraph) : SameGroups chunkGraph (items.foldl f chunkGraph) := by
  induction items generalizing chunkGraph with
  | nil => exact .refl chunkGraph
  | cons item items ih => exact (hf chunkGraph item).trans (ih (f chunkGraph item))

/-- Split chunks move modules and add chunks to groups, and leave every edge. -/
theorem sameGroups_applySplitChunks (chunkGraph : ChunkGraph) (minChunks : Nat)
    (name : Option String) :
    SameGroups chunkGraph (chunkGraph.applySplitChunks minChunks name) := by
  refine sameGroups_foldl _ (fun start candidate => ?_) _ chunkGraph
  have hjoin : ∀ (start : ChunkGraph) (newChunk : ChunkHandle) (group : ChunkGroupHandle),
      SameGroups start (start.connectChunkAndGroup newChunk group) := fun start newChunk group =>
    ⟨rfl, rfl, rfl, rfl, map_modify_of_same start.chunkGroups group
      (fun found : ChunkGroup => found.pushChunk newChunk) ChunkGroup.edges fun _ => rfl⟩
  have hsource : ∀ (newChunk : ChunkHandle) (start : ChunkGraph) (source : ChunkHandle),
      SameGroups start (splitSource newChunk start source) := by
    intro newChunk start source
    rw [splitSource]
    split
    · exact sameGroups_foldl _ (fun start group => hjoin start newChunk group) _ start
    · exact .refl start
  have hadd : SameGroups start (start.addSplitChunk candidate.1 name
      (candidate.2.insertionSort (· ≤ ·))).2 :=
    SameGroups.trans (show SameGroups start
      (start.addChunk name (candidate.2.insertionSort (· ≤ ·))).2 from ⟨rfl, rfl, rfl, rfl, rfl⟩)
      (sameGroups_foldl _ (hsource _) _ _)
  refine hadd.trans (sameGroups_foldl _ (fun moved module => ?_) _ _)
  have hleave : SameGroups moved (candidate.1.foldl (fun chunkGraph chunk =>
      chunkGraph.disconnectChunkAndModule chunk module) moved) :=
    sameGroups_foldl (fun chunkGraph chunk => chunkGraph.disconnectChunkAndModule chunk module)
      (fun _ _ => ⟨rfl, rfl, rfl, rfl, rfl⟩) candidate.1 moved
  exact hleave.trans ⟨rfl, rfl, rfl, rfl, rfl⟩

variable {before after : ChunkGraph}

theorem SameGroups.chunkGroup_edges (h : SameGroups before after) (group : ChunkGroupHandle) :
    (after.chunkGroup group).map ChunkGroup.edges =
      (before.chunkGroup group).map ChunkGroup.edges := by
  have hedges := congrArg (·[group]?) h.groups
  simp only [List.getElem?_map] at hedges
  exact hedges

theorem SameGroups.children_eq (h : SameGroups before after) : after.children = before.children := by
  funext group
  have hedges := congrArg (·.elim [] fun edges => edges.2.2.2) (h.chunkGroup_edges group)
  rw [Option.elim_map, Option.elim_map] at hedges
  exact hedges

theorem SameGroups.parents_eq (h : SameGroups before after) : after.parents = before.parents := by
  funext group
  have hedges := congrArg (·.elim [] fun edges => edges.2.2.1) (h.chunkGroup_edges group)
  rw [Option.elim_map, Option.elim_map] at hedges
  exact hedges

theorem SameGroups.childEdge_eq (h : SameGroups before after) :
    after.ChildEdge = before.ChildEdge := by
  funext parent child
  exact congrArg (child ∈ · parent) h.children_eq

theorem SameGroups.linked (h : SameGroups before after) (hbefore : before.Linked) :
    after.Linked := by
  refine ⟨h.childEdge_eq ▸ hbefore.acyclic, ?_, ?_⟩
  · rw [h.children_eq, h.parents_eq]
    exact hbefore.inverse
  · intro parent child hedge
    rw [runtimeChildren, h.children]
    exact hbefore.contained parent child (h.children_eq ▸ hedge)

theorem SameGroups.asyncReachable (h : SameGroups before after) (hbefore : before.AsyncReachable) :
    after.AsyncReachable := by
  intro handle found hfound hkind
  have hedges := h.chunkGroup_edges handle
  rw [hfound, Option.map_some, eq_comm, Option.map_eq_some_iff] at hedges
  obtain ⟨old, hold, heq⟩ := hedges
  obtain ⟨entrypoint, hentrypoint, hreach⟩ :=
    hbefore handle old hold ((Prod.mk.inj heq).1.trans hkind)
  exact ⟨entrypoint, h.entrypoints ▸ hentrypoint, h.childEdge_eq ▸ hreach⟩

theorem SameGroups.symm (h : SameGroups before after) : SameGroups after before :=
  ⟨h.entrypoints.symm, h.children.symm, h.blocks.symm, h.concatenatedModules.symm, h.groups.symm⟩

end ChunkGraph

theorem sameGroups_buildChunkGraphFrom (graph : ModuleGraph)
    (reachable : ModuleHandle → List ModuleHandle) (options : CompilerOptions)
    (entries : List ModuleHandle) :
    ChunkGraph.SameGroups (buildGroups graph reachable options entries)
      (buildChunkGraphFrom graph reachable options entries) := by
  rw [buildChunkGraphFrom]
  cases options.splitChunks with
  | none => exact .refl _
  | some splitChunks => exact ChunkGraph.sameGroups_applySplitChunks _ _ _

/-- **Reachable groups.** The edges are acyclic, inverse to one another and runtime edges, and every
async group descends from an entrypoint, exactly when every target is loaded freely. -/
theorem async_groups_reachable_iff (graph : ModuleGraph)
    (reachable : ModuleHandle → List ModuleHandle) (options : CompilerOptions)
    (entries : List ModuleHandle) :
    ((buildChunkGraphFrom graph reachable options entries).Linked ∧
        (buildChunkGraphFrom graph reachable options entries).AsyncReachable) ↔
      LoadedFreely graph reachable options entries := by
  have hsame := sameGroups_buildChunkGraphFrom graph reachable options entries
  constructor
  · rintro ⟨-, hreach⟩
    exact loadedFreely_of_asyncReachable (hsame.symm.asyncReachable hreach)
  · intro hfree
    exact ⟨hsame.linked linked_buildGroups, hsame.asyncReachable (asyncReachable_buildGroups hfree)⟩

theorem Compilation.linked (compilation : Compilation) : compilation.chunkGraph.Linked :=
  (sameGroups_buildChunkGraphFrom _ _ _ _).linked linked_buildGroups

/-- The entry imports `a` and `b` dynamically, both of them import `c`, and `c` imports both back. -/
def crossImportCompilation : Compilation where
  options := { entryNames := ["main"] }
  moduleGraph := .ofModules [.javaScript "entry" [] [.dynamicImport "a", .dynamicImport "b"],
    .javaScript "a" [] [.dynamicImport "c"], .javaScript "b" [] [.dynamicImport "c"],
    .javaScript "c" [] [.dynamicImport "a", .dynamicImport "b"]] [0]
  entries := [0]
  indexed := by decide
  entries_lt := by decide

/-- The group of `c` keeps no parent, though both edges to it were needed. -/
theorem cross_import_group_unreachable : ¬ crossImportCompilation.chunkGraph.AsyncReachable := by
  intro h
  have hasync : (crossImportCompilation.chunkGraph.chunkGroup 3).map (·.kind) = some .async := by
    decide +kernel
  have horphan : crossImportCompilation.chunkGraph.parents 3 = [] := by decide +kernel
  obtain ⟨found, hfound, hkind⟩ := Option.map_eq_some_iff.mp hasync
  obtain ⟨entrypoint, hentrypoint, hreach⟩ := h 3 found hfound hkind
  rcases ReflTransGen.cases_tail hreach with heq | ⟨parent, -, hedge⟩
  · rw [crossImportCompilation.built.entrypoints] at hentrypoint
    have hlt : entrypoint < 1 := List.mem_range.mp hentrypoint
    rw [← heq] at hlt
    exact absurd hlt (by decide)
  · have hparent := (crossImportCompilation.linked.inverse parent 3).mp hedge
    rw [horphan] at hparent
    exact List.not_mem_nil hparent

end Unpack
