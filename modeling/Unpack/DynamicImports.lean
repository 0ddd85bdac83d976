import Unpack.SealedChunkGraph
import Unpack.LocatedDependencies
import Unpack.LoadedGroups

/-! Dynamic imports find their targets. A module is carried only by groups in which each of its imports
is settled: the target is available, or the block loads the group of the target. Where the block has no
group, every carrier of the module therefore has the target available. -/

namespace Unpack

namespace ChunkGraph

variable (chunkGraph : ChunkGraph)

/-- The code of the module is rendered into the chunk, by itself or inside a concatenation. -/
def Renders (chunk : ChunkHandle) (module : ModuleHandle) : Prop :=
  module ∈ chunkGraph.chunkModules chunk ∨ ∃ root concatenated,
    chunkGraph.concatenatedModule root = some concatenated ∧ module ∈ concatenated.innerModules ∧
      root ∈ chunkGraph.chunkModules chunk

/-- A chunk of the group has the code of the module. -/
def HasCode (group : ChunkGroupHandle) (module : ModuleHandle) : Prop :=
  ∃ chunk ∈ chunkGraph.groupChunks group, chunkGraph.Renders chunk module

end ChunkGraph

namespace Compilation

/-- The `import()` at this index of this block of the module leads to the target. -/
def DynamicImport (compilation : Compilation) (origin : AsyncBlockOrigin) (index : DependencyIndex)
    (target : ModuleHandle) : Prop :=
  ∃ module block dependency, compilation.moduleGraph.module origin.module = some module ∧
    module.blocks[origin.block]? = some block ∧
    block.dependencies[index]? = some (.import dependency) ∧
    compilation.moduleGraph.moduleForDependency origin.module (some origin.block) index = some target

/-- The promise of a dynamic import: the target has a render id and is in the group of the block, or,
where the block has no group, on every loading path of the `groups` that have the import's code. -/
def FindsTarget (compilation : Compilation) (context : RenderPathContext) (origin : AsyncBlockOrigin)
    (target : ModuleHandle) (groups : ChunkGroupHandle → Prop) : Prop :=
  (compilation.moduleRenderId context target).isSome ∧
    (∀ group, (compilation.sealedChunkGraph context).blockChunkGroup origin = some group →
      (compilation.sealedChunkGraph context).Has group target) ∧
    ((compilation.sealedChunkGraph context).blockChunkGroup origin = none → ∀ group path,
      (compilation.sealedChunkGraph context).HasCode group origin.module → groups group →
      (compilation.sealedChunkGraph context).LoadingPath path group →
        ∃ carrier ∈ path, (compilation.sealedChunkGraph context).Has carrier target)

end Compilation

section

variable {graph : ModuleGraph} {reachable : ModuleHandle → List ModuleHandle}
variable {entries : List ModuleHandle} {splitName : Option String} {chunkGraph : ChunkGraph}
variable {applied : List ConcatenationConfiguration} {result : ChunkGraph}

/-- Concatenation moves code inside chunks only. -/
theorem Concatenated.renders_iff (hgraph : graph.Sealable)
    (hreach : ReachesExactly graph reachable)
    (hentries : ∀ entry ∈ entries, entry < graph.modules.length)
    (hbuilt : Built graph reachable entries splitName chunkGraph)
    (h : Concatenated graph chunkGraph entries applied result) (chunk : ChunkHandle)
    (module : ModuleHandle) :
    result.Renders chunk module ↔ module ∈ chunkGraph.chunkModules chunk := by
  have hsameChunk : ∀ configuration ∈ applied, module ∈ configuration.modules →
      (configuration.root ∈ chunkGraph.chunkModules chunk ↔
        module ∈ chunkGraph.chunkModules chunk) := by
    intro configuration hmem hmodule
    rw [← hbuilt.moduleChunks_spec, ← hbuilt.moduleChunks_spec]
    exact ((h.ok configuration hmem).mem_moduleChunks_iff hgraph hreach hentries hbuilt hmodule
      chunk).symm
  constructor
  · rintro (hmem | ⟨root, concatenated, happlied, hinner, hroot⟩)
    · exact ((h.chunkModules chunk module).mp hmem).1
    · obtain ⟨configuration, hmem, rfl, rfl⟩ := (h.concatenatedModule root concatenated).mp happlied
      exact (hsameChunk configuration hmem (mem_innerModules.mp hinner).1).mp
        ((h.chunkModules chunk _).mp hroot).1
  · intro hmem
    by_cases hkept : ∀ configuration ∈ applied, module ∈ configuration.modules →
        module = configuration.root
    · exact Or.inl ((h.chunkModules chunk module).mpr ⟨hmem, hkept⟩)
    · simp only [not_forall] at hkept
      obtain ⟨configuration, happlied, hmodule, hne⟩ := hkept
      refine Or.inr ⟨configuration.root, graph.concatenatedModule configuration,
        (h.concatenatedModule _ _).mpr ⟨configuration, happlied, rfl, rfl⟩,
        mem_innerModules.mpr ⟨hmodule, hne⟩, (h.chunkModules chunk _).mpr
          ⟨(hsameChunk configuration happlied hmodule).mpr hmem, fun other hother hroot => ?_⟩⟩
      exact congrArg ConcatenationConfiguration.root
        (h.eq_of_mem happlied hother (h.ok configuration happlied).root_mem hroot)

/-- The target of a dynamic import from a chunk is no inner module, so it keeps its chunks. -/
theorem Concatenated.import_target_kept (hgraph : graph.Sealable)
    (h : Concatenated graph chunkGraph entries applied result) {origin : AsyncBlockOrigin}
    {target : ModuleHandle} (himport : graph.ImportsFrom origin target)
    (horigin : chunkGraph.moduleChunks origin.module ≠ []) (chunk : ChunkHandle) :
    target ∈ result.chunkModules chunk ↔ target ∈ chunkGraph.chunkModules chunk := by
  refine (h.chunkModules chunk target).trans (and_iff_left fun configuration hmem hmodule => ?_)
  by_contra hne
  obtain ⟨connection, hconnection, hfrom, -, hkind, hto⟩ :=
    ModuleGraph.importBlockTarget_eq_some hgraph.toIndexed himport.2
  obtain ⟨hstatic, hcannot⟩ := Dependency.static_canConcatenate_of_isImportDependency hkind
  have hcan := (((h.ok configuration hmem).inner_spec hgraph.toIndexed hmodule hne).2.2 connection
    hconnection hto (hgraph.nonstatic_active connection hconnection hstatic) _ hfrom horigin).1
  rw [hcannot] at hcan
  exact Bool.noConfusion hcan

/-- Where a block has no group, its target is on every path to a group that has the module available. -/
theorem Built.target_on_path (hgraph : graph.Indexed) (hreach : ReachesExactly graph reachable)
    (hentries : ∀ entry ∈ entries, entry < graph.modules.length)
    (h : Built graph reachable entries splitName chunkGraph) {origin : AsyncBlockOrigin}
    {target : ModuleHandle} (himport : graph.ImportsFrom origin target)
    (hnone : chunkGraph.blockChunkGroup origin = none) {group : LogicalChunkGroup}
    (havailable : group.Available graph reachable entries origin.module)
    (hgroup : group.Exists graph reachable entries) {path : List ChunkGroupHandle}
    (hpath : chunkGraph.LoadingPath path (groupIndex graph reachable entries group)) :
    ∃ carrier ∈ path, chunkGraph.Has carrier target := by
  obtain ⟨groups, group', hgroups, rfl, heq, hgroup'⟩ := h.logicalPath hgraph hreach hentries hpath
  rw [LogicalChunkGroup.groupIndex_injective hgroup' hgroup heq] at hgroups
  have hjustified := LogicalChunkGroup.justified hgraph hreach hentries
  obtain ⟨carrier, hmem, hcarries⟩ := hjustified.carried_on_path hgroups havailable
  obtain ⟨groups', hgroups', hsub⟩ := hgroups.upTo hmem
  have htarget : carrier.Available graph reachable entries target := by
    rcases hcarries.import_settled hgraph hreach hentries himport with hdone | hload
    · exact hdone
    · have hsome := (h.blocks_spec origin _).mpr ⟨carrier, target, hload, rfl⟩
      exact absurd (hnone.symm.trans hsome) (Option.some_ne_none _).symm
  obtain ⟨other, hother, hcarriesTarget⟩ := hjustified.carried_on_path hgroups' htarget
  exact ⟨groupIndex graph reachable entries other, List.mem_map_of_mem (hsub other hother),
    h.carries other target hcarriesTarget⟩

end

/-- The groups in which a module's import is promised its target: all of them, unless split chunks
force their modules into one named chunk, which then also loads with groups that never run them. -/
def Compilation.RunsIn (compilation : Compilation) (context : RenderPathContext)
    (module : ModuleHandle) (group : ChunkGroupHandle) : Prop :=
  compilation.options.splitName = none ∨
    ∃ root, (compilation.sealedChunkGraph context).PlannedRoot compilation.moduleGraph
      compilation.entries group root ∧ compilation.moduleGraph.StaticReach root module

namespace OptimizedCompilation

variable (compilation : OptimizedCompilation) (context : RenderPathContext)

theorem groupChunks_sealed : (compilation.sealedChunkGraph context).groupChunks =
    compilation.chunkGraph.groupChunks := by
  obtain ⟨applied, h⟩ := compilation.optimized
  funext group
  rw [ChunkGraph.groupChunks, (compilation.sameContent_sealed context).chunkGroup, h.chunkGroup,
    ChunkGraph.groupChunks]

theorem blockChunkGroup_sealed : (compilation.sealedChunkGraph context).blockChunkGroup =
    compilation.chunkGraph.blockChunkGroup := by
  obtain ⟨applied, h⟩ := compilation.optimized
  exact (compilation.sameContent_sealed context).blockChunkGroup.trans h.blockChunkGroup

theorem loadingPath_sealed : (compilation.sealedChunkGraph context).LoadingPath =
    compilation.chunkGraph.LoadingPath := by
  have hsame := compilation.sameContent_sealed context
  obtain ⟨applied, h⟩ := compilation.optimized
  simp only [ChunkGraph.LoadingPath, hsame.entrypoints, h.entrypoints, hsame.runtimeChildren,
    h.runtimeChildren]

theorem plannedRoot_sealed : (compilation.sealedChunkGraph context).PlannedRoot =
    compilation.chunkGraph.PlannedRoot := by
  have hsame := compilation.sameContent_sealed context
  obtain ⟨applied, h⟩ := compilation.optimized
  funext graph entries group root
  simp only [ChunkGraph.PlannedRoot, hsame.entrypoints, h.entrypoints, hsame.chunkGroup,
    h.chunkGroup]

theorem renders_sealed (chunk : ChunkHandle) (module : ModuleHandle) :
    (compilation.sealedChunkGraph context).Renders chunk module ↔
      module ∈ compilation.chunkGraph.chunkModules chunk := by
  have hsame := compilation.sameContent_sealed context
  have hgraph := compilation.sealable
  obtain ⟨applied, h⟩ := compilation.optimized
  rw [← h.renders_iff hgraph (reachesExactly_collectStaticReachable hgraph.toIndexed)
    compilation.entries_lt compilation.built, ChunkGraph.Renders, ChunkGraph.Renders,
    hsame.chunkModules, hsame.concatenatedModule]

end OptimizedCompilation

/-- A group that runs a module is planned with the module available. -/
theorem Compilation.RunsIn.exists_group {compilation : OptimizedCompilation} {context : RenderPathContext}
    {module : ModuleHandle} {group : ChunkGroupHandle}
    (hruns : compilation.RunsIn context module group)
    (hcode : (compilation.sealedChunkGraph context).HasCode group module) :
    ∃ logical : LogicalChunkGroup,
      logical.Exists compilation.moduleGraph compilation.moduleGraph.collectStaticReachable
        compilation.entries ∧
      groupIndex compilation.moduleGraph compilation.moduleGraph.collectStaticReachable
        compilation.entries logical = group ∧
      logical.Available compilation.moduleGraph compilation.moduleGraph.collectStaticReachable
        compilation.entries module := by
  have hgraph := compilation.indexed
  have hexact := reachesExactly_collectStaticReachable hgraph
  have hentries := compilation.entries_lt
  have hbuilt := compilation.built
  obtain ⟨place, hplace, hcodeIn⟩ := hcode
  rw [compilation.groupChunks_sealed] at hplace
  rw [compilation.renders_sealed] at hcodeIn
  rcases hruns with hunnamed | ⟨root, hroot, hstatic⟩
  · have hlt : group < compilation.chunkGraph.chunkGroups.length := by
      by_contra hge
      rw [ChunkGraph.groupChunks, ChunkGraph.chunkGroup,
        List.getElem?_eq_none (Nat.le_of_not_lt hge)] at hplace
      exact List.not_mem_nil hplace
    obtain ⟨logical, hexists, rfl⟩ := hbuilt.exists_group hlt
    have hcarries := hbuilt.unnamed hunnamed logical hexists place hplace module hcodeIn
    exact ⟨logical, hexists, rfl, hcarries.available hgraph hexact hentries⟩
  · rw [compilation.plannedRoot_sealed] at hroot
    obtain ⟨logical, hexists, rfl, hlogical⟩ :=
      hbuilt.plannedRoot_spec hgraph hexact hentries hroot
    exact ⟨logical, hexists, rfl, hexists.available hgraph hexact hentries hlogical hstatic⟩

/-- **Dynamic imports find their targets** in every group that runs their code. -/
theorem dynamic_import_finds_target (compilation : OptimizedCompilation)
    (hgraph : compilation.moduleGraph.WellFormed) (context : RenderPathContext) (origin : AsyncBlockOrigin)
    (index : DependencyIndex) (target : ModuleHandle)
    (hrendered : ∃ chunk, (compilation.sealedChunkGraph context).Renders chunk origin.module)
    (himport : compilation.DynamicImport origin index target) :
    compilation.FindsTarget context origin target (compilation.RunsIn context origin.module) := by
  have hexact := reachesExactly_collectStaticReachable hgraph.toIndexed
  have hentries := compilation.entries_lt
  have hbuilt := compilation.built
  have hsame := compilation.sameContent_sealed context
  obtain ⟨applied, h⟩ := compilation.optimized
  obtain ⟨module, block, dependency, hmodule, hblock, hdep, hlookup⟩ := himport
  have himport := hgraph.importsFrom hmodule hblock hdep hlookup
  obtain ⟨chunk, hchunk⟩ := hrendered
  rw [compilation.renders_sealed] at hchunk
  have horigin : compilation.chunkGraph.moduleChunks origin.module ≠ [] :=
    List.ne_nil_of_mem ((hbuilt.moduleChunks_spec chunk _).mpr hchunk)
  have hkept : ∀ chunk, target ∈ (compilation.sealedChunkGraph context).chunkModules chunk ↔
      target ∈ compilation.chunkGraph.chunkModules chunk := by
    intro chunk
    rw [hsame.chunkModules]
    exact h.import_target_kept hgraph.toSealable himport horigin chunk
  have hhas : ∀ group, (compilation.sealedChunkGraph context).Has group target ↔
      compilation.chunkGraph.Has group target := by
    intro group
    rw [ChunkGraph.Has, compilation.groupChunks_sealed]
    exact exists_congr fun chunk => and_congr_right fun _ => hkept chunk
  obtain ⟨group, hcarries, -⟩ := hbuilt.carried chunk _ hchunk
  refine ⟨?_, ?_, ?_⟩
  · obtain ⟨carrier, hcarrier⟩ :=
      hcarries.exists_target_carrier hgraph.toIndexed hexact hentries himport
    obtain ⟨found, -, hfound⟩ := hbuilt.carries carrier target hcarrier
    refine (compilation.isSome_moduleRenderId context
      (ModuleGraph.importBlockTarget_lt hgraph.toIndexed himport.2)).mpr ?_
    rw [hsame.moduleChunks]
    have hback := (h.moduleChunks found target).mpr
      ⟨(hbuilt.moduleChunks_spec found target).mpr hfound,
        ((h.chunkModules found target).mp
          ((h.import_target_kept hgraph.toSealable himport horigin found).mpr hfound)).2⟩
    exact List.ne_nil_of_mem hback
  · intro found hfound
    rw [compilation.blockChunkGroup_sealed] at hfound
    obtain ⟨parent, other, hload, rfl⟩ := (hbuilt.blocks_spec origin found).mp hfound
    obtain ⟨-, himport', -, hexists⟩ := hload.spec hgraph.toIndexed hexact hentries
    rw [hhas, himport.target_unique himport']
    exact hbuilt.carries _ other
      (LogicalChunkGroup.carries_target hgraph.toIndexed hexact hentries hexists)
  · intro hnone found path hcode hruns hpath
    rw [compilation.blockChunkGroup_sealed] at hnone
    rw [compilation.loadingPath_sealed] at hpath
    obtain ⟨logical, hexists, rfl, havailable⟩ := hruns.exists_group hcode
    obtain ⟨carrier, hmem, hcarrier⟩ := hbuilt.target_on_path hgraph.toIndexed hexact hentries
      himport hnone havailable hexists hpath
    exact ⟨carrier, hmem, (hhas carrier).mpr hcarrier⟩

/-- `e1` imports `t` and loads `a` and `b`, which share `m` with its `import("t")`; `e2` loads `c` and
`d`, which share `y`. The two shared sets are forced into one named chunk. -/
def namedChunkCompilation : OptimizedCompilation where
  options := { entryNames := ["e1", "e2"], splitChunks := some ⟨2, some "shared"⟩ }
  moduleGraph := .ofModules [
    .javaScript "e1" [.bareImport "t"] [.dynamicImport "a", .dynamicImport "b"],
    .javaScript "e2" [] [.dynamicImport "c", .dynamicImport "d"], .javaScript "t" [] [],
    .javaScript "a" [.bareImport "m"] [], .javaScript "b" [.bareImport "m"] [],
    .javaScript "c" [.bareImport "y"] [], .javaScript "d" [.bareImport "y"] [],
    .javaScript "m" [] [.dynamicImport "t"], .javaScript "y" [] []] [0, 1]
  entries := [0, 1]
  indexed := by decide
  entries_lt := by decide
  nonstatic_active := by decide

def plainPaths : RenderPathContext where
  makeRelative path := String.intercalate "/" path
  makeRequestRelative request := request
  moduleIdentityKey identity := String.intercalate "/" identity.resource
  stableHash _ := 0

/-- The shared chunk brings `m` into the group of `c`, where `t` was never installed. -/
theorem named_chunk_misses_target : ¬ ∀ (compilation : OptimizedCompilation), compilation.moduleGraph.WellFormed →
    ∀ (context : RenderPathContext) (origin : AsyncBlockOrigin) (index : DependencyIndex) (target : ModuleHandle),
    (∃ chunk, (compilation.sealedChunkGraph context).Renders chunk origin.module) →
    compilation.DynamicImport origin index target →
      compilation.FindsTarget context origin target fun _ => True := by
  intro hclaim
  have hsame := namedChunkCompilation.sameContent_sealed plainPaths
  obtain ⟨-, -, hpaths⟩ := hclaim namedChunkCompilation (by decide) plainPaths ⟨7, 0⟩ 0 2
    ⟨6, Or.inl (by rw [hsame.chunkModules]; decide)⟩
    ⟨_, _, _, rfl, rfl, rfl, by decide⟩
  obtain ⟨carrier, hmem, chunk, hchunk, hhas⟩ := hpaths (by rw [hsame.blockChunkGroup]; decide) 4
    [1, 4]
    ⟨6, by rw [ChunkGraph.groupChunks, hsame.chunkGroup]; decide,
      Or.inl (by rw [hsame.chunkModules]; decide)⟩ trivial
    (.load (.root (by rw [hsame.entrypoints]; decide)) (by rw [hsame.runtimeChildren]; decide))
  rw [ChunkGraph.groupChunks, hsame.chunkGroup] at hchunk
  rw [hsame.chunkModules] at hhas
  have hnone : ¬ ∃ carrier ∈ [1, 4],
      namedChunkCompilation.optimizedChunkGraph.Has carrier 2 := by decide
  exact hnone ⟨carrier, hmem, chunk, hchunk, hhas⟩

/-- In the group of `a`, which runs `m`, the target is there. -/
theorem dynamic_import_finds_target_namedChunk :
    ∃ carrier ∈ [0, 2], (namedChunkCompilation.sealedChunkGraph plainPaths).Has carrier 2 := by
  have hsame := namedChunkCompilation.sameContent_sealed plainPaths
  have hroot : namedChunkCompilation.optimizedChunkGraph.PlannedRoot
      namedChunkCompilation.moduleGraph namedChunkCompilation.entries 2 3 :=
    Or.inr ⟨_, ⟨0, 0⟩, by rfl, by decide, by decide, by decide⟩
  refine (dynamic_import_finds_target namedChunkCompilation (by decide) plainPaths ⟨7, 0⟩ 0 2
    ⟨6, Or.inl (by rw [hsame.chunkModules]; decide)⟩
    ⟨_, _, _, rfl, rfl, rfl, by decide⟩).2.2 (by rw [hsame.blockChunkGroup]; decide) 2 [0, 2]
    ⟨6, by rw [ChunkGraph.groupChunks, hsame.chunkGroup]; decide,
      Or.inl (by rw [hsame.chunkModules]; decide)⟩ (Or.inr ⟨3, ?_, ?_⟩)
    (.load (.root (by rw [hsame.entrypoints]; decide)) (by rw [hsame.runtimeChildren]; decide))
  · rw [ChunkGraph.PlannedRoot, hsame.entrypoints, hsame.chunkGroup]
    exact hroot
  · exact (ModuleGraph.mem_collectStaticReachable namedChunkCompilation.indexed
      (by decide) 7).mp (by decide)

end Unpack
