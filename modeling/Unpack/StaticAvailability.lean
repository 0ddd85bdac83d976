import Unpack.BuiltChunkGraph

/-! Static availability along loading paths: whatever the root of a group statically imports is carried
by some group on every path that loads it. -/

namespace Unpack

/-- What sealing starts from: the options, a module graph and the entry modules. -/
structure Compilation where
  options : CompilerOptions
  moduleGraph : ModuleGraph
  entries : List ModuleHandle
  indexed : moduleGraph.Indexed
  entries_lt : ∀ entry ∈ entries, entry < moduleGraph.modules.length

/-- A compilation whose dependencies may have been optimised: only static connections are inactive. -/
structure OptimizedCompilation extends Compilation where
  nonstatic_active : ∀ connection ∈ moduleGraph.connections,
    connection.dependency.isStaticModuleDependency = false → connection.isActive

def Compilation.chunkGraph (compilation : Compilation) : ChunkGraph :=
  buildChunkGraph compilation.options compilation.moduleGraph compilation.entries

namespace ChunkGraph

/-- A path of loading steps from an entrypoint, over the edges the runtime follows. -/
def LoadingPath (chunkGraph : ChunkGraph) : List ChunkGroupHandle → ChunkGroupHandle → Prop :=
  Availability.LoadingPath (· ∈ chunkGraph.entrypoints) fun parent child =>
    child ∈ chunkGraph.runtimeChildren parent

/-- A chunk of the group has the module. -/
def Has (chunkGraph : ChunkGraph) (group : ChunkGroupHandle) (module : ModuleHandle) : Prop :=
  ∃ chunk ∈ chunkGraph.groupChunks group, module ∈ chunkGraph.chunkModules chunk

instance (chunkGraph : ChunkGraph) (group : ChunkGroupHandle) (module : ModuleHandle) :
    Decidable (chunkGraph.Has group module) :=
  inferInstanceAs (Decidable (∃ chunk ∈ _, _))

/-- The entry module of an entrypoint, or the target of the import an async group was made for. -/
def PlannedRoot (chunkGraph : ChunkGraph) (graph : ModuleGraph) (entries : List ModuleHandle)
    (group : ChunkGroupHandle) (root : ModuleHandle) : Prop :=
  (∃ index : Nat, chunkGraph.entrypoints[index]? = some group ∧ entries[index]? = some root) ∨
    ∃ found origin, chunkGraph.chunkGroup group = some found ∧ found.kind = .async ∧
      found.origin = some origin ∧ graph.importBlockTarget origin = some root

end ChunkGraph

section

variable {graph : ModuleGraph} {reachable : ModuleHandle → List ModuleHandle}
variable {entries : List ModuleHandle} {splitName : Option String} {chunkGraph : ChunkGraph}

namespace Built

variable (hgraph : graph.Indexed) (hreach : ReachesExactly graph reachable)
variable (hentries : ∀ entry ∈ entries, entry < graph.modules.length)

/-- Every group of the chunk graph is a planned one. -/
theorem exists_group (h : Built graph reachable entries splitName chunkGraph)
    {index : ChunkGroupHandle} (hlt : index < chunkGraph.chunkGroups.length) :
    ∃ group : LogicalChunkGroup, group.Exists graph reachable entries ∧
      groupIndex graph reachable entries group = index :=
  LogicalChunkGroup.exists_of_groupIndex (h.groups_length ▸ hlt)

include hgraph hreach hentries in
/-- The planned root of a group in the chunk graph is the root of its logical group. -/
theorem plannedRoot_spec (h : Built graph reachable entries splitName chunkGraph)
    {index : ChunkGroupHandle} {root : ModuleHandle}
    (hroot : chunkGraph.PlannedRoot graph entries index root) :
    ∃ group : LogicalChunkGroup, group.Exists graph reachable entries ∧
      groupIndex graph reachable entries group = index ∧ group.root entries = some root := by
  rcases hroot with ⟨position, hposition, hentry⟩ | ⟨found, origin, hfound, hkind, horigin, htarget⟩
  · rw [h.entrypoints] at hposition
    obtain ⟨hlt, heq⟩ := List.getElem?_eq_some_iff.mp hposition
    rw [List.getElem_range] at heq
    rw [List.length_range] at hlt
    exact ⟨.entrypoint position, LogicalChunkGroup.exists_entrypoint.mpr hlt, heq, hentry⟩
  · obtain ⟨group, hgroup, rfl⟩ :=
      h.exists_group (List.getElem?_eq_some_iff.mp hfound).choose
    obtain ⟨found', hfound', hkind', horigin'⟩ := h.group_spec group hgroup
    rw [hfound] at hfound'
    obtain rfl := Option.some.inj hfound'
    cases group with
    | entrypoint position => exact absurd ⟨position, rfl⟩ (hkind'.mp hkind)
    | asyncChunk target =>
        obtain ⟨origin', parent, hsome, hload⟩ := horigin' target rfl
        rw [horigin] at hsome
        obtain rfl := Option.some.inj hsome
        have htarget' := (hload.spec hgraph hreach hentries).2.1.2
        rw [htarget] at htarget'
        exact ⟨.asyncChunk target, hgroup, rfl, htarget'.symm⟩

include hgraph hreach hentries in
/-- A path through the chunk graph is a path through the plans. -/
theorem logicalPath (h : Built graph reachable entries splitName chunkGraph)
    {path : List ChunkGroupHandle} {index : ChunkGroupHandle}
    (hpath : chunkGraph.LoadingPath path index) :
    ∃ (groups : List LogicalChunkGroup) (group : LogicalChunkGroup),
      Availability.LoadingPath LogicalChunkGroup.IsEntrypoint
        (LogicalChunkGroup.Loads graph reachable entries) groups group ∧
      groups.map (groupIndex graph reachable entries) = path ∧
      groupIndex graph reachable entries group = index ∧
      group.Exists graph reachable entries := by
  induction hpath with
  | @root index hroot =>
      rw [h.entrypoints, List.mem_range] at hroot
      exact ⟨[.entrypoint index], .entrypoint index, .root ⟨index, rfl⟩, rfl, rfl,
        LogicalChunkGroup.exists_entrypoint.mpr hroot⟩
  | @load path parent child hpath hload ih =>
      obtain ⟨groups, group, hgroups, rfl, rfl, hgroup⟩ := ih
      obtain ⟨group', other, hloads, heq, rfl⟩ := (h.children_spec _ _).mp hload
      obtain ⟨hexists, hother⟩ := hloads.exists hgraph hreach hentries
      rw [LogicalChunkGroup.groupIndex_injective hgroup hexists heq] at hgroups
      exact ⟨groups ++ [other], other, .load hgroups hloads, List.map_append, rfl, hother⟩

include hgraph hreach hentries in
/-- What a group finds available is in a chunk of some group on every path to it. -/
theorem has_on_path (h : Built graph reachable entries splitName chunkGraph)
    {path : List ChunkGroupHandle} {group : LogicalChunkGroup}
    (hgroup : group.Exists graph reachable entries)
    (hpath : chunkGraph.LoadingPath path (groupIndex graph reachable entries group))
    {module : ModuleHandle} (havailable : group.Available graph reachable entries module) :
    ∃ carrier ∈ path, chunkGraph.Has carrier module := by
  obtain ⟨groups, group', hgroups, rfl, heq, hgroup'⟩ :=
    h.logicalPath hgraph hreach hentries hpath
  rw [LogicalChunkGroup.groupIndex_injective hgroup' hgroup heq] at hgroups
  obtain ⟨carrier, hmem, hcarries⟩ :=
    (LogicalChunkGroup.justified hgraph hreach hentries).carried_on_path hgroups havailable
  exact ⟨groupIndex graph reachable entries carrier, List.mem_map_of_mem hmem,
    h.carries carrier module hcarries⟩

end Built

end

theorem Compilation.built (compilation : Compilation) :
    Built compilation.moduleGraph compilation.moduleGraph.collectStaticReachable compilation.entries
      compilation.options.splitName compilation.chunkGraph :=
  built_buildChunkGraphFrom compilation.indexed
    (reachesExactly_collectStaticReachable compilation.indexed) compilation.entries_lt _

/-- **Static availability.** Every module that the planned root of a group statically reaches is in a
chunk of some group on every loading path of that group. -/
theorem static_available_on_path (compilation : Compilation) (path : List ChunkGroupHandle)
    (group : ChunkGroupHandle) (root module : ModuleHandle)
    (hpath : compilation.chunkGraph.LoadingPath path group)
    (hroot : compilation.chunkGraph.PlannedRoot compilation.moduleGraph compilation.entries group root)
    (hreach : compilation.moduleGraph.StaticReach root module) :
    ∃ carrier ∈ path, compilation.chunkGraph.Has carrier module := by
  have hgraph := compilation.indexed
  have hexact := reachesExactly_collectStaticReachable hgraph
  obtain ⟨logical, hexists, rfl, hlogical⟩ :=
    compilation.built.plannedRoot_spec hgraph hexact compilation.entries_lt hroot
  exact compilation.built.has_on_path hgraph hexact compilation.entries_lt hexists hpath
    (hexists.available hgraph hexact compilation.entries_lt hlogical hreach)

/-- The entry `a` imports `b` dynamically, and `b` imports `c`. -/
def dynamicImportCompilation : Compilation where
  options := { entryNames := ["main"] }
  moduleGraph := .ofModules [.javaScript "a" [] [.dynamicImport "b"],
    .javaScript "b" [.bareImport "c"] [], .javaScript "c" [] []] [0]
  entries := [0]
  indexed := by decide
  entries_lt := by decide

theorem static_available_on_path_dynamicImport :
    ∃ carrier ∈ [0, 1], dynamicImportCompilation.chunkGraph.Has carrier 2 :=
  static_available_on_path dynamicImportCompilation [0, 1] 1 1 2
    (.load (.root (by decide)) (by decide))
    (Or.inr ⟨_, ⟨0, 0⟩, by rfl, by decide, by decide, by decide⟩)
    ((ModuleGraph.mem_collectStaticReachable
      dynamicImportCompilation.indexed (by decide) 2).mp (by decide))

end Unpack
