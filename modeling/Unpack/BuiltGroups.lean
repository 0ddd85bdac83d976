import Unpack.GroupLayout

/-! The chunk graph before split chunks, described through the logical groups of the finished plans. -/

namespace Unpack

section

variable (graph : ModuleGraph) (reachable : ModuleHandle → List ModuleHandle)
variable (entries : List ModuleHandle)

/-- The position of a logical group among the materialised ones. -/
def groupIndex (group : LogicalChunkGroup) : ChunkGroupHandle :=
  groupOf entries.length (orderedTargets graph (planAsyncChunks graph reachable entries)) group

def groupCount : Nat :=
  entries.length + (orderedTargets graph (planAsyncChunks graph reachable entries)).length

def entryContent (options : CompilerOptions) (entry : ModuleHandle × Nat) : GroupContent :=
  { kind := .entrypoint (options.entryNames.getD entry.2 s!"entry{entry.2}")
    origin := none
    modules := reachable entry.1 }

def asyncContent (target : ModuleHandle) : GroupContent :=
  let plan := (planAsyncChunks graph reachable entries).plans.lookup target
  { kind := .async
    origin := plan.bind fun plan => minBy graph.compareAsyncOrigins plan.origins
    modules := plan.elim [] (·.modules) }

/-- The unsplit chunk graph: its groups are the logical ones, its edges are their loading edges, and a
block has the group of its target. -/
structure Unsplit (chunkGraph : ChunkGraph) : Prop where
  entrypoints : chunkGraph.entrypoints = List.range entries.length
  chunks_length : chunkGraph.chunks.length = groupCount graph reachable entries
  groups_length : chunkGraph.chunkGroups.length = groupCount graph reachable entries
  lists_length : chunkGraph.chunkModuleLists.length = groupCount graph reachable entries
  chunk_spec : ∀ index < groupCount graph reachable entries,
    ∃ chunk, chunkGraph.chunk index = some chunk ∧ chunk.handle = index ∧ chunk.groups = [index]
  group_spec : ∀ group : LogicalChunkGroup, group.Exists graph reachable entries →
    ∃ found, chunkGraph.chunkGroup (groupIndex graph reachable entries group) = some found ∧
      found.chunks = [groupIndex graph reachable entries group] ∧
      (found.kind = .async ↔ ¬ group.IsEntrypoint) ∧
      ∀ target, group = .asyncChunk target → ∃ origin parent, found.origin = some origin ∧
        LogicalChunkGroup.LoadsFor graph reachable entries parent origin target
  modules_spec : ∀ group : LogicalChunkGroup, group.Exists graph reachable entries →
    ∀ module, module ∈ chunkGraph.chunkModules (groupIndex graph reachable entries group) ↔
      group.Carries graph reachable entries module
  moduleChunks_spec : ∀ chunk module,
    chunk ∈ chunkGraph.moduleChunks module ↔ module ∈ chunkGraph.chunkModules chunk
  children_spec : ∀ parent child, child ∈ chunkGraph.runtimeChildren parent ↔
    ∃ group other : LogicalChunkGroup, group.Loads graph reachable entries other ∧
      parent = groupIndex graph reachable entries group ∧
      child = groupIndex graph reachable entries other
  blocks_spec : ∀ origin index, chunkGraph.blockChunkGroup origin = some index ↔
    ∃ (parent : LogicalChunkGroup) (target : ModuleHandle),
      parent.LoadsFor graph reachable entries origin target ∧
      index = groupIndex graph reachable entries (.asyncChunk target)
  no_concatenations : chunkGraph.concatenatedModules = ∅

end

section

variable {graph : ModuleGraph} {reachable : ModuleHandle → List ModuleHandle}
variable {entries : List ModuleHandle}

theorem Laid.addEntrypoint {chunkGraph : ChunkGraph} {contents : List GroupContent}
    (h : Laid chunkGraph contents) (entrypoint : ChunkGroupHandle) :
    Laid (chunkGraph.addEntrypoint entrypoint) contents :=
  ⟨h.chunks_length, h.groups_length, h.lists_length, h.children_length, h.chunk_spec, h.group_spec,
    h.modules_spec, h.moduleChunks_spec, h.no_children, h.no_blocks, h.no_concatenations⟩

/-- The entry loop. -/
theorem foldl_addEntrypointGroup (reachable : ModuleHandle → List ModuleHandle)
    (options : CompilerOptions) (modules : List ModuleHandle)
    {chunkGraph : ChunkGraph} {contents : List GroupContent} (h : Laid chunkGraph contents)
    (hentrypoints : chunkGraph.entrypoints = List.range contents.length) :
    let result := (modules.zipIdx contents.length).foldl (addEntrypointGroup reachable options)
      chunkGraph
    Laid result (contents ++ (modules.zipIdx contents.length).map (entryContent reachable options)) ∧
      result.entrypoints = List.range (contents.length + modules.length) := by
  induction modules generalizing chunkGraph contents with
  | nil => exact ⟨by simpa using h, hentrypoints⟩
  | cons module modules ih =>
      obtain ⟨hindex, hlaid, hkept⟩ := h.add
        (some (options.entryNames.getD contents.length s!"entry{contents.length}")) module
        (entryContent reachable options (module, contents.length))
      have hstep := ih (hlaid.addEntrypoint contents.length) (by
        show (ChunkGraph.entrypoints _) ++ [contents.length] = _
        rw [hkept, hentrypoints, List.length_append, List.length_singleton, List.range_succ])
      rw [List.length_append, List.length_singleton, List.append_assoc] at hstep
      rw [List.zipIdx_cons, List.foldl_cons, List.map_cons, List.length_cons,
        ← Nat.add_assoc, Nat.add_right_comm]
      have heq : addEntrypointGroup reachable options chunkGraph (module, contents.length) =
          (addGroupWithChunk chunkGraph
            (some (options.entryNames.getD contents.length s!"entry{contents.length}")) module
            (entryContent reachable options (module, contents.length)).kind
            (entryContent reachable options (module, contents.length)).origin
            (entryContent reachable options (module, contents.length)).modules).2.addEntrypoint
              contents.length := by
        rw [← hindex]
        rfl
      rw [heq]
      exact hstep

theorem mem_orderedTargets {planning : AsyncPlanning} {target : ModuleHandle} :
    target ∈ orderedTargets graph planning ↔ (planning.plans.lookup target).isSome := by
  rw [orderedTargets, List.mem_insertionSort, AList.lookup_isSome]
  rfl

theorem nodup_orderedTargets (graph : ModuleGraph) (planning : AsyncPlanning) : (orderedTargets graph planning).Nodup :=
  (List.perm_insertionSort _ _).nodup_iff.mpr (AList.keys_nodup _)

/-- The target loop. -/
theorem foldl_addAsyncGroup (graph : ModuleGraph) (reachable : ModuleHandle → List ModuleHandle)
    (entries targets : List ModuleHandle)
    (htargets : ∀ target ∈ targets,
      ((planAsyncChunks graph reachable entries).plans.lookup target).isSome)
    {chunkGraph : ChunkGraph} {contents : List GroupContent} (h : Laid chunkGraph contents) :
    let result := targets.foldl (addAsyncGroup graph (planAsyncChunks graph reachable entries))
      chunkGraph
    Laid result (contents ++ targets.map (asyncContent graph reachable entries)) ∧
      result.entrypoints = chunkGraph.entrypoints := by
  induction targets generalizing chunkGraph contents with
  | nil => exact ⟨by simpa using h, rfl⟩
  | cons target targets ih =>
      obtain ⟨plan, hplan⟩ := Option.isSome_iff_exists.mp (htargets target List.mem_cons_self)
      obtain ⟨-, hlaid, hkept⟩ := h.add none plan.target (asyncContent graph reachable entries target)
      have heq : addAsyncGroup graph (planAsyncChunks graph reachable entries) chunkGraph target =
          (addGroupWithChunk chunkGraph none plan.target
            (asyncContent graph reachable entries target).kind
            (asyncContent graph reachable entries target).origin
            (asyncContent graph reachable entries target).modules).2 := by
        simp only [addAsyncGroup, asyncContent, hplan, Option.bind_some, Option.elim_some]
      obtain ⟨hlaid', hkept'⟩ :=
        ih (fun other hother => htargets other (List.mem_cons_of_mem _ hother)) hlaid
      rw [List.foldl_cons, heq, List.map_cons]
      rw [List.append_assoc] at hlaid'
      exact ⟨hlaid', hkept'.trans hkept⟩

theorem mem_sortedParents {plan : AsyncChunkPlan} {parent : LogicalChunkGroup}
    {origins : List AsyncBlockOrigin} : (parent, origins) ∈ sortedParents graph plan ↔
      ∃ parentPlan, plan.parents.lookup parent = some parentPlan ∧ origins = parentPlan.origins := by
  rw [sortedParents, List.mem_insertionSort, List.mem_map]
  constructor
  · rintro ⟨entry, hentry, hpair⟩
    obtain ⟨rfl, rfl⟩ := Prod.mk.inj hpair
    exact ⟨entry.2, mem_entries_iff_lookup.mp hentry, rfl⟩
  · rintro ⟨parentPlan, hlookup, rfl⟩
    exact ⟨⟨parent, parentPlan⟩, mem_entries_iff_lookup.mpr hlookup, rfl⟩

theorem minBy_mem {α : Type} (cmp : α → α → Ordering) {items : List α} (hne : items ≠ []) :
    ∃ least ∈ items, minBy cmp items = some least := by
  cases items with
  | nil => exact absurd rfl hne
  | cons first items =>
      have hfold : ∀ (rest : List α) (least : α), rest.foldl
          (fun least item => if (cmp item least).isLT then item else least) least ∈ least :: rest := by
        intro rest
        induction rest with
        | nil => exact fun least => List.mem_singleton_self _
        | cons item rest ih =>
            intro least
            rw [List.foldl_cons]
            rcases List.mem_cons.mp (ih (if (cmp item least).isLT then item else least)) with h | h
            · rw [h]
              split_ifs
              · exact List.mem_cons_of_mem _ List.mem_cons_self
              · exact List.mem_cons_self
            · exact List.mem_cons_of_mem _ (List.mem_cons_of_mem _ h)
      exact ⟨_, hfold items first, rfl⟩

theorem isSome_getElem? {α : Type} {items : List α} {index : Nat} :
    (items[index]?).isSome ↔ index < items.length := by
  rw [Option.isSome_iff_exists]
  exact ⟨fun ⟨_, h⟩ => (List.getElem?_eq_some_iff.mp h).choose,
    fun h => ⟨items[index], List.getElem?_eq_getElem h⟩⟩

namespace LogicalChunkGroup

theorem exists_entrypoint {index : Nat} :
    (entrypoint index).Exists graph reachable entries ↔ index < entries.length := by
  rw [Exists, plan, AsyncPlanning.parentModules, getElem?_entrypointPlans, Option.isSome_map,
    Option.isSome_map]
  exact isSome_getElem?

theorem exists_asyncChunk {target : ModuleHandle} :
    (asyncChunk target).Exists graph reachable entries ↔
      target ∈ orderedTargets graph (planAsyncChunks graph reachable entries) := by
  rw [Exists, plan, AsyncPlanning.parentModules, Option.isSome_map, mem_orderedTargets]

theorem groupIndex_lt {group : LogicalChunkGroup} (h : group.Exists graph reachable entries) :
    groupIndex graph reachable entries group < groupCount graph reachable entries := by
  cases group with
  | entrypoint index =>
      exact Nat.lt_of_lt_of_le (exists_entrypoint.mp h) (Nat.le_add_right _ _)
  | asyncChunk target =>
      exact Nat.add_lt_add_left (List.idxOf_lt_length_of_mem (exists_asyncChunk.mp h)) _

theorem exists_of_groupIndex {index : Nat} (hlt : index < groupCount graph reachable entries) :
    ∃ group : LogicalChunkGroup, group.Exists graph reachable entries ∧
      groupIndex graph reachable entries group = index := by
  by_cases hentry : index < entries.length
  · exact ⟨entrypoint index, exists_entrypoint.mpr hentry, rfl⟩
  · have hrange : index - entries.length <
        (orderedTargets graph (planAsyncChunks graph reachable entries)).length := by
      rw [groupCount] at hlt
      omega
    refine ⟨asyncChunk (orderedTargets graph (planAsyncChunks graph reachable entries))[index -
      entries.length], exists_asyncChunk.mpr (List.getElem_mem hrange), ?_⟩
    show entries.length + List.idxOf _ _ = index
    rw [(nodup_orderedTargets _ _).idxOf_getElem]
    omega

/-- Different logical groups have different places. -/
theorem groupIndex_injective {group other : LogicalChunkGroup}
    (hgroup : group.Exists graph reachable entries) (hother : other.Exists graph reachable entries)
    (heq : groupIndex graph reachable entries group = groupIndex graph reachable entries other) :
    group = other := by
  cases group with
  | entrypoint index =>
      have hindex := exists_entrypoint.mp hgroup
      cases other with
      | entrypoint index' => exact congrArg entrypoint heq
      | asyncChunk target =>
          have heq' : index = entries.length + List.idxOf target _ := heq
          omega
  | asyncChunk target =>
      cases other with
      | entrypoint index =>
          have hindex := exists_entrypoint.mp hother
          have heq' : entries.length + List.idxOf target _ = index := heq
          omega
      | asyncChunk target' =>
          have heq' := Nat.add_left_cancel heq
          exact congrArg asyncChunk ((List.idxOf_inj (exists_asyncChunk.mp hgroup)).mp heq')

/-- The content a group was materialised from. -/
def content (graph : ModuleGraph) (reachable : ModuleHandle → List ModuleHandle)
    (entries : List ModuleHandle) (options : CompilerOptions) : LogicalChunkGroup → GroupContent
  | entrypoint index => entryContent reachable options (entries.getD index 0, index)
  | asyncChunk target => asyncContent graph reachable entries target

theorem getElem?_contents (options : CompilerOptions) {group : LogicalChunkGroup}
    (h : group.Exists graph reachable entries) :
    (entries.zipIdx.map (entryContent reachable options) ++
      (orderedTargets graph (planAsyncChunks graph reachable entries)).map
        (asyncContent graph reachable entries))[groupIndex graph reachable entries group]? =
      some (group.content graph reachable entries options) := by
  cases group with
  | entrypoint index =>
      have hlt := exists_entrypoint.mp h
      have hget : (entries.zipIdx.map (entryContent reachable options))[index]? =
          some (entryContent reachable options (entries.getD index 0, index)) := by
        rw [List.getElem?_map, List.getElem?_zipIdx, List.getElem?_eq_getElem hlt,
          List.getD_eq_getElem _ _ hlt, Nat.zero_add]
        rfl
      show (_ ++ _)[index]? = _
      rw [List.getElem?_append_left (List.getElem?_eq_some_iff.mp hget).choose, hget]
      rfl
  | asyncChunk target =>
      have hmem := exists_asyncChunk.mp h
      show (_ ++ _)[entries.length + List.idxOf target _]? = _
      rw [List.getElem?_append_right (by simp), List.length_map, List.length_zipIdx,
        Nat.add_sub_cancel_left, List.getElem?_map, List.getElem?_idxOf hmem]
      rfl

variable (hgraph : graph.Indexed) (hreach : ReachesExactly graph reachable)
variable (hentries : ∀ entry ∈ entries, entry < graph.modules.length)

theorem mem_content_modules (options : CompilerOptions) {group : LogicalChunkGroup}
    (h : group.Exists graph reachable entries) (module : ModuleHandle) :
    module ∈ (group.content graph reachable entries options).modules ↔
      group.Carries graph reachable entries module := by
  obtain ⟨⟨modules, mask⟩, hplan⟩ := Option.isSome_iff_exists.mp h
  have hcarries : group.Carries graph reachable entries module ↔ module ∈ modules := by
    constructor
    · rintro ⟨modules', mask', hplan', hmem⟩
      rw [hplan] at hplan'
      rwa [(Prod.mk.inj (Option.some.inj hplan')).1]
    · exact fun hmem => ⟨modules, mask, hplan, hmem⟩
  rw [hcarries]
  cases group with
  | entrypoint index =>
      obtain ⟨entry, hentry, rfl, -⟩ := plan_entrypoint hplan
      have hget : entries.getD index 0 = entry := by
        rw [List.getD_eq_getElem?_getD, hentry]
        rfl
      rw [content, entryContent, hget]
  | asyncChunk target =>
      obtain ⟨plan, hlookup, hpair⟩ := Option.map_eq_some_iff.mp hplan
      rw [content, asyncContent, hlookup, ← (Prod.mk.inj hpair).1]
      rfl

include hgraph hreach hentries

theorem content_origin (options : CompilerOptions) {target : ModuleHandle}
    (h : (asyncChunk target).Exists graph reachable entries) :
    ∃ origin parent, ((asyncChunk target).content graph reachable entries options).origin =
      some origin ∧ LoadsFor graph reachable entries parent origin target := by
  obtain ⟨⟨modules, mask⟩, hplan⟩ := Option.isSome_iff_exists.mp h
  obtain ⟨plan, hlookup, hok, -, -⟩ := plan_asyncChunk hgraph hreach hentries hplan
  have hne : plan.origins ≠ [] := by
    obtain ⟨entry, hentry⟩ := List.exists_mem_of_ne_nil _ hok.parents_ne
    obtain ⟨-, -, horigins⟩ := hok.parent_ok entry.1 entry.2 (mem_entries_iff_lookup.mp hentry)
    obtain ⟨origin, horigin⟩ := List.exists_mem_of_ne_nil _ horigins
    exact List.ne_nil_of_mem (List.mem_flatMap.mpr ⟨entry, hentry, horigin⟩)
  obtain ⟨origin, horigin, hmin⟩ := minBy_mem graph.compareAsyncOrigins hne
  obtain ⟨entry, hentry, hmem⟩ := List.mem_flatMap.mp horigin
  refine ⟨origin, entry.1, ?_, entry.2, ?_, hmem⟩
  · rw [content, asyncContent, hlookup]
    exact hmin
  · rw [parentsOf_of_lookup hlookup]
    exact mem_entries_iff_lookup.mp hentry

theorem Loads.exists {parent child : LogicalChunkGroup}
    (h : parent.Loads graph reachable entries child) :
    parent.Exists graph reachable entries ∧ child.Exists graph reachable entries := by
  obtain ⟨origin, target, rfl, hload⟩ := h
  obtain ⟨⟨modules, mask, hplan, -⟩, -, -, hchild⟩ := hload.spec hgraph hreach hentries
  refine ⟨?_, hchild⟩
  rw [Exists, hplan]
  rfl

end LogicalChunkGroup

variable (hgraph : graph.Indexed) (hreach : ReachesExactly graph reachable)
variable (hentries : ∀ entry ∈ entries, entry < graph.modules.length)

include hgraph hreach hentries

/-- The edges of one target, as the connecting phase reads them off its plan. -/
theorem connectParents_spec {target : ModuleHandle}
    (h : (LogicalChunkGroup.asyncChunk target).Exists graph reachable entries)
    {chunkGraph : ChunkGraph}
    (hlength : chunkGraph.runtimeChunkGroupChildren.length = groupCount graph reachable entries) :
    let result := connectParents graph (planAsyncChunks graph reachable entries)
      (groupIndex graph reachable entries) chunkGraph target
    SameContents chunkGraph result ∧
      (∀ other child, child ∈ result.runtimeChildren other ↔
        child ∈ chunkGraph.runtimeChildren other ∨
          child = groupIndex graph reachable entries (.asyncChunk target) ∧
            ∃ parent : LogicalChunkGroup, parent.Loads graph reachable entries (.asyncChunk target) ∧
              other = groupIndex graph reachable entries parent) ∧
      ∀ origin index, result.blockChunkGroup origin = some index ↔
        (∃ parent, LogicalChunkGroup.LoadsFor graph reachable entries parent origin target) ∧
            index = groupIndex graph reachable entries (.asyncChunk target) ∨
          (¬ ∃ parent, LogicalChunkGroup.LoadsFor graph reachable entries parent origin target) ∧
            chunkGraph.blockChunkGroup origin = some index := by
  obtain ⟨⟨modules, mask⟩, hplan⟩ := Option.isSome_iff_exists.mp h
  obtain ⟨plan, hlookup, -, -, -⟩ :=
    LogicalChunkGroup.plan_asyncChunk hgraph hreach hentries hplan
  let edges := (sortedParents graph plan).map fun parent =>
    (groupIndex graph reachable entries parent.1, parent.2)
  have hresult : connectParents graph (planAsyncChunks graph reachable entries)
      (groupIndex graph reachable entries) chunkGraph target =
      edges.foldl (connectLoadingEdge (groupIndex graph reachable entries (.asyncChunk target)))
        chunkGraph := by
    rw [connectParents, hlookup]
  have hedge : ∀ edge, edge ∈ edges ↔ ∃ parent parentPlan,
      plan.parents.lookup parent = some parentPlan ∧
        edge = (groupIndex graph reachable entries parent, parentPlan.origins) := by
    intro edge
    rw [List.mem_map]
    constructor
    · rintro ⟨⟨parent, origins⟩, hmem, rfl⟩
      obtain ⟨parentPlan, hparent, rfl⟩ := mem_sortedParents.mp hmem
      exact ⟨parent, parentPlan, hparent, rfl⟩
    · rintro ⟨parent, parentPlan, hparent, rfl⟩
      exact ⟨(parent, parentPlan.origins), mem_sortedParents.mpr ⟨parentPlan, hparent, rfl⟩, rfl⟩
  have hloads : ∀ parent, (∃ parentPlan, plan.parents.lookup parent = some parentPlan) ↔
      LogicalChunkGroup.Loads graph reachable entries parent (.asyncChunk target) := by
    intro parent
    constructor
    · rintro ⟨parentPlan, hparent⟩
      obtain ⟨origin, hload⟩ :=
        LogicalChunkGroup.loads_of_lookup hgraph hreach hentries hlookup hparent
      exact ⟨origin, target, rfl, hload⟩
    · rintro ⟨origin, other, heq, hload⟩
      obtain rfl := LogicalChunkGroup.asyncChunk.inj heq
      obtain ⟨plan', parentPlan, hlookup', hparent, -⟩ := hload.lookup
      rw [hlookup] at hlookup'
      obtain rfl := Option.some.inj hlookup'
      exact ⟨parentPlan, hparent⟩
  have horigins : ∀ origin, (∃ edge ∈ edges, origin ∈ edge.2) ↔
      ∃ parent, LogicalChunkGroup.LoadsFor graph reachable entries parent origin target := by
    intro origin
    constructor
    · rintro ⟨edge, hmem, horigin⟩
      obtain ⟨parent, parentPlan, hparent, rfl⟩ := (hedge edge).mp hmem
      exact ⟨parent, parentPlan, parentsOf_of_lookup hlookup ▸ hparent, horigin⟩
    · rintro ⟨parent, hload⟩
      obtain ⟨plan', parentPlan, hlookup', hparent, horigin⟩ := hload.lookup
      rw [hlookup] at hlookup'
      obtain rfl := Option.some.inj hlookup'
      exact ⟨_, (hedge _).mpr ⟨parent, parentPlan, hparent, rfl⟩, horigin⟩
  have hparents : ∀ edge ∈ edges, edge.1 < chunkGraph.runtimeChunkGroupChildren.length := by
    intro edge hmem
    obtain ⟨parent, parentPlan, hparent, rfl⟩ := (hedge edge).mp hmem
    rw [hlength]
    exact LogicalChunkGroup.groupIndex_lt
      (((hloads parent).mp ⟨parentPlan, hparent⟩).exists hgraph hreach hentries).1
  obtain ⟨hsame, hchildren, hblocks⟩ := foldl_connectLoadingEdge chunkGraph
    (groupIndex graph reachable entries (.asyncChunk target)) edges hparents
  rw [hresult]
  refine ⟨hsame, fun other child => ?_, fun origin index => ?_⟩
  · rw [hchildren]
    refine or_congr Iff.rfl (and_congr Iff.rfl ⟨?_, ?_⟩)
    · rintro ⟨edge, hmem, rfl⟩
      obtain ⟨parent, parentPlan, hparent, rfl⟩ := (hedge edge).mp hmem
      exact ⟨parent, (hloads parent).mp ⟨parentPlan, hparent⟩, rfl⟩
    · rintro ⟨parent, hload, rfl⟩
      obtain ⟨parentPlan, hparent⟩ := (hloads parent).mpr hload
      exact ⟨_, (hedge _).mpr ⟨parent, parentPlan, hparent, rfl⟩, rfl⟩
  · rw [hblocks, horigins]

/-- The edges of all targets. -/
theorem foldl_connectParents (targets : List ModuleHandle)
    (htargets : ∀ target ∈ targets,
      (LogicalChunkGroup.asyncChunk target).Exists graph reachable entries)
    {chunkGraph : ChunkGraph}
    (hlength : chunkGraph.runtimeChunkGroupChildren.length = groupCount graph reachable entries) :
    let result := targets.foldl (connectParents graph (planAsyncChunks graph reachable entries)
      (groupIndex graph reachable entries)) chunkGraph
    SameContents chunkGraph result ∧
      (∀ other child, child ∈ result.runtimeChildren other ↔
        child ∈ chunkGraph.runtimeChildren other ∨ ∃ target ∈ targets,
          child = groupIndex graph reachable entries (.asyncChunk target) ∧
            ∃ parent : LogicalChunkGroup, parent.Loads graph reachable entries (.asyncChunk target) ∧
              other = groupIndex graph reachable entries parent) ∧
      ∀ origin index, result.blockChunkGroup origin = some index ↔
        (∃ target ∈ targets,
            (∃ parent, LogicalChunkGroup.LoadsFor graph reachable entries parent origin target) ∧
              index = groupIndex graph reachable entries (.asyncChunk target)) ∨
          (¬ ∃ target ∈ targets,
              ∃ parent, LogicalChunkGroup.LoadsFor graph reachable entries parent origin target) ∧
            chunkGraph.blockChunkGroup origin = some index := by
  induction targets generalizing chunkGraph with
  | nil => exact ⟨SameContents.refl _, by simp, by simp⟩
  | cons target targets ih =>
      obtain ⟨hsame, hchildren, hblocks⟩ :=
        connectParents_spec hgraph hreach hentries (htargets target List.mem_cons_self) hlength
      obtain ⟨hsame', hchildren', hblocks'⟩ :=
        ih (fun other hother => htargets other (List.mem_cons_of_mem _ hother))
          (hsame.children_length.trans hlength)
      have hunique : ∀ {origin left right},
          (∃ parent, LogicalChunkGroup.LoadsFor graph reachable entries parent origin left) →
          (∃ parent, LogicalChunkGroup.LoadsFor graph reachable entries parent origin right) →
          left = right := by
        rintro origin left right ⟨_, hleft⟩ ⟨_, hright⟩
        exact (hleft.spec hgraph hreach hentries).2.1.target_unique
          (hright.spec hgraph hreach hentries).2.1
      refine ⟨hsame.trans hsame', fun other child => ?_, fun origin index => ?_⟩
      · rw [List.foldl_cons, hchildren', hchildren, or_assoc]
        simp only [List.mem_cons, exists_eq_or_imp]
      · rw [List.foldl_cons, hblocks', hblocks]
        simp only [List.mem_cons, exists_eq_or_imp, not_or]
        constructor
        · rintro (⟨other, hmem, hload, rfl⟩ | ⟨hnone, hcase⟩)
          · exact Or.inl (Or.inr ⟨other, hmem, hload, rfl⟩)
          · rcases hcase with hfirst | ⟨hnot, hold⟩
            · exact Or.inl (Or.inl hfirst)
            · exact Or.inr ⟨⟨hnot, hnone⟩, hold⟩
        · rintro ((⟨hload, rfl⟩ | hrest) | ⟨⟨hnot, hnone⟩, hold⟩)
          · by_cases hlater : ∃ other ∈ targets,
                ∃ parent, LogicalChunkGroup.LoadsFor graph reachable entries parent origin other
            · obtain ⟨other, hmem, hother⟩ := hlater
              exact Or.inl ⟨other, hmem, hother, by rw [hunique hload hother]⟩
            · exact Or.inr ⟨hlater, Or.inl ⟨hload, rfl⟩⟩
          · exact Or.inl hrest
          · exact Or.inr ⟨hnone, Or.inr ⟨hnot, hold⟩⟩

omit hgraph hreach hentries in
theorem laid_layGroups (graph : ModuleGraph) (reachable : ModuleHandle → List ModuleHandle)
    (options : CompilerOptions) (entries : List ModuleHandle) :
    Laid (layGroups graph reachable options entries (planAsyncChunks graph reachable entries))
        (entries.zipIdx.map (entryContent reachable options) ++
          (orderedTargets graph (planAsyncChunks graph reachable entries)).map
            (asyncContent graph reachable entries)) ∧
      (layGroups graph reachable options entries
        (planAsyncChunks graph reachable entries)).entrypoints = List.range entries.length := by
  obtain ⟨hlaid, hentrypoints⟩ :=
    foldl_addEntrypointGroup reachable options entries laid_empty rfl
  obtain ⟨hlaid', hkept⟩ := foldl_addAsyncGroup graph reachable entries
    (orderedTargets graph (planAsyncChunks graph reachable entries))
    (fun target htarget => mem_orderedTargets.mp htarget) hlaid
  exact ⟨hlaid', hkept.trans (hentrypoints.trans (congrArg List.range (Nat.zero_add _)))⟩

/-- **The unsplit chunk graph materialises the finished plans.** -/
theorem unsplit_buildGroups (options : CompilerOptions) :
    Unsplit graph reachable entries (buildGroups graph reachable options entries) := by
  obtain ⟨hlaid, hentrypoints⟩ := laid_layGroups graph reachable options entries
  have hcount : (entries.zipIdx.map (entryContent reachable options) ++
      (orderedTargets graph (planAsyncChunks graph reachable entries)).map
        (asyncContent graph reachable entries)).length = groupCount graph reachable entries := by
    rw [List.length_append, List.length_map, List.length_map, List.length_zipIdx]
    rfl
  obtain ⟨hsame, hchildren, hblocks⟩ := foldl_connectParents hgraph hreach hentries
    (orderedTargets graph (planAsyncChunks graph reachable entries))
    (fun target htarget => LogicalChunkGroup.exists_asyncChunk.mpr htarget)
    (hlaid.children_length.trans hcount)
  have hmodules : (buildGroups graph reachable options entries).chunkModules =
      (layGroups graph reachable options entries
        (planAsyncChunks graph reachable entries)).chunkModules :=
    funext fun chunk => congrArg (List.getD · chunk []) hsame.chunkModuleLists
  have hback : (buildGroups graph reachable options entries).moduleChunks =
      (layGroups graph reachable options entries
        (planAsyncChunks graph reachable entries)).moduleChunks :=
    funext fun module => congrArg (List.getD · module []) hsame.moduleChunkLists
  refine ⟨hsame.entrypoints.trans hentrypoints, ?_, ?_, ?_, ?_, ?_, ?_, ?_, ?_, ?_, ?_⟩
  · exact (congrArg List.length hsame.chunks).trans (hlaid.chunks_length.trans hcount)
  · have hlength := congrArg List.length hsame.groups
    rw [List.length_map, List.length_map] at hlength
    exact hlength.trans (hlaid.groups_length.trans hcount)
  · exact (congrArg List.length hsame.chunkModuleLists).trans (hlaid.lists_length.trans hcount)
  · intro index hindex
    obtain ⟨chunk, hchunk, hspec⟩ := hlaid.chunk_spec index (hcount.symm ▸ hindex)
    exact ⟨chunk, (congrArg (·[index]?) hsame.chunks).trans hchunk, hspec⟩
  · intro group hexists
    obtain ⟨found, hfound, hchunks, hkind, horigin⟩ :=
      hlaid.group_spec _ _ (LogicalChunkGroup.getElem?_contents options hexists)
    have hmade := congrArg (·[groupIndex graph reachable entries group]?) hsame.groups
    simp only [List.getElem?_map] at hmade
    rw [ChunkGraph.chunkGroup] at hfound
    rw [hfound, Option.map_some, Option.map_eq_some_iff] at hmade
    obtain ⟨after, hafter, heq⟩ := hmade
    obtain ⟨hkind', heq⟩ := Prod.mk.inj heq
    obtain ⟨horigin', hchunks'⟩ := Prod.mk.inj heq
    refine ⟨after, hafter, hchunks'.trans hchunks, ?_, ?_⟩
    · rw [hkind', hkind]
      cases group with
      | entrypoint index => simp [LogicalChunkGroup.content, entryContent,
          LogicalChunkGroup.IsEntrypoint]
      | asyncChunk target => simp [LogicalChunkGroup.content, asyncContent,
          LogicalChunkGroup.IsEntrypoint]
    · rintro target rfl
      obtain ⟨origin, parent, hcontent, hload⟩ :=
        LogicalChunkGroup.content_origin hgraph hreach hentries options hexists
      exact ⟨origin, parent, (horigin'.trans horigin).trans hcontent, hload⟩
  · intro group hexists module
    rw [hmodules, hlaid.modules_spec _ _ (LogicalChunkGroup.getElem?_contents options hexists)]
    exact LogicalChunkGroup.mem_content_modules options hexists module
  · intro chunk module
    rw [hmodules, hback]
    exact hlaid.moduleChunks_spec chunk module
  · intro parent child
    refine (hchildren parent child).trans ?_
    rw [hlaid.no_children]
    constructor
    · rintro (hnil | ⟨target, -, rfl, group, hload, rfl⟩)
      · exact absurd hnil List.not_mem_nil
      · exact ⟨group, _, hload, rfl, rfl⟩
    · rintro ⟨group, other, hload, rfl, rfl⟩
      obtain ⟨-, target, rfl, -⟩ := id hload
      exact Or.inr ⟨target, LogicalChunkGroup.exists_asyncChunk.mp
        (hload.exists hgraph hreach hentries).2, rfl, group, hload, rfl⟩
  · intro origin index
    refine (hblocks origin index).trans ?_
    rw [ChunkGraph.blockChunkGroup, hlaid.no_blocks]
    constructor
    · rintro (⟨target, -, ⟨parent, hload⟩, rfl⟩ | ⟨-, hnone⟩)
      · exact ⟨parent, target, hload, rfl⟩
      · exact absurd hnone (by simp)
    · rintro ⟨parent, target, hload, rfl⟩
      exact Or.inl ⟨target, LogicalChunkGroup.exists_asyncChunk.mp
        (hload.spec hgraph hreach hentries).2.2.2, ⟨parent, hload⟩, rfl⟩
  · exact hsame.concatenatedModules.trans hlaid.no_concatenations

end

end Unpack
