import Unpack.ChunkRegistry
import Unpack.RuntimeRequirements

/-! Runtime requirements cover what an entrypoint's runtime can execute. Every module that chunk loads can
bring into the runtime is carried by a group below the entrypoint: where an import loads a group over an
edge that the tree lacks, its target was available already, so groups above carry all its modules. -/

namespace Unpack

open Relation

namespace LogicalChunkGroup

section

variable (graph : ModuleGraph) (reachable : ModuleHandle → List ModuleHandle)
variable (entries : List ModuleHandle)

/-- The group is in the runtime tree of the entrypoint. -/
def Below (index : Nat) (group : LogicalChunkGroup) : Prop :=
  ReflTransGen (Loads graph reachable entries) (.entrypoint index) group

/-- A group of the runtime tree carries the module. -/
def Covered (index : Nat) (module : ModuleHandle) : Prop :=
  ∃ group : LogicalChunkGroup, group.Below graph reachable entries index ∧
    group.Carries graph reachable entries module

end

variable {graph : ModuleGraph} {reachable : ModuleHandle → List ModuleHandle}
variable {entries : List ModuleHandle} {index : Nat}

variable (hgraph : graph.Indexed) (hreach : ReachesExactly graph reachable)
variable (hentries : ∀ entry ∈ entries, entry < graph.modules.length)

include hgraph hreach hentries

/-- What a group of the tree finds available is carried in the tree. -/
theorem Below.covered {group : LogicalChunkGroup} (h : group.Below graph reachable entries index)
    {module : ModuleHandle} (havailable : group.Available graph reachable entries module) :
    Covered graph reachable entries index module := by
  have hjustified := justified hgraph hreach hentries
  induction h with
  | refl => exact ⟨_, .refl, hjustified.root_carries _ module ⟨index, rfl⟩ havailable⟩
  | @tail parent child hbelow hload ih =>
      rcases hjustified.inherited child module havailable with hcarries | hparents
      · exact ⟨child, hbelow.tail hload, hcarries⟩
      · exact ih (hparents parent hload)

/-- The step lemma of static imports. -/
theorem Covered.reach {module target : ModuleHandle}
    (h : Covered graph reachable entries index module) (hstatic : graph.StaticReach module target) :
    Covered graph reachable entries index target := by
  obtain ⟨group, hbelow, hcarries⟩ := h
  have havailable := hcarries.available hgraph hreach hentries
  exact hbelow.covered hgraph hreach hentries (havailable.reach hgraph hreach hentries hstatic)

/-- The step lemma of dynamic imports: whatever the group of the target carries is covered, whether the
tree has the loading edge or the target was available before. -/
theorem Covered.load {origin : AsyncBlockOrigin} {target module : ModuleHandle}
    (h : Covered graph reachable entries index origin.module)
    (himport : graph.ImportsFrom origin target)
    (hmodule : (asyncChunk target).Carries graph reachable entries module) :
    Covered graph reachable entries index module := by
  obtain ⟨group, hbelow, hcarries⟩ := h
  rcases hcarries.import_settled hgraph hreach hentries himport with havailable | hload
  · obtain ⟨start, hstart, hstatic⟩ := hmodule.reach hgraph hreach hentries
    obtain rfl : target = start := Option.some.inj hstart
    exact hbelow.covered hgraph hreach hentries (havailable.reach hgraph hreach hentries hstatic)
  · exact ⟨.asyncChunk target, hbelow.tail ⟨origin, target, rfl, hload⟩, hmodule⟩

/-- The target of a dynamic import is covered with its origin. -/
theorem Covered.target {origin : AsyncBlockOrigin} {target : ModuleHandle}
    (h : Covered graph reachable entries index origin.module)
    (himport : graph.ImportsFrom origin target) :
    Covered graph reachable entries index target := by
  obtain ⟨group, hbelow, hcarries⟩ := h
  rcases hcarries.import_settled hgraph hreach hentries himport with havailable | hload
  · exact hbelow.covered hgraph hreach hentries havailable
  · obtain ⟨-, -, -, hexists⟩ := hload.spec hgraph hreach hentries
    exact ⟨.asyncChunk target, hbelow.tail ⟨origin, target, rfl, hload⟩,
      carries_target hgraph hreach hentries hexists⟩

end LogicalChunkGroup

/-- The modules whose factories chunk loads can install in the runtime of an entrypoint: those of its
own chunks, and those of the group that a block of an installed module loads. -/
inductive ChunkGraph.Installable (chunkGraph : ChunkGraph) (entrypoint : ChunkGroupHandle) :
    ModuleHandle → Prop where
  | entry {module : ModuleHandle} (hhas : chunkGraph.Has entrypoint module) :
      Installable chunkGraph entrypoint module
  | load {origin : AsyncBlockOrigin} {group : ChunkGroupHandle} {module : ModuleHandle}
      (horigin : Installable chunkGraph entrypoint origin.module)
      (hblock : chunkGraph.blockChunkGroup origin = some group)
      (hhas : chunkGraph.Has group module) : Installable chunkGraph entrypoint module

/-- The modules that can run in the runtime of an entry: the entry module, and what a running module
imports statically or dynamically. -/
inductive ModuleGraph.Runs (graph : ModuleGraph) (entry : ModuleHandle) : ModuleHandle → Prop where
  | entry : Runs graph entry entry
  | staticImport {module target : ModuleHandle} (hmodule : Runs graph entry module)
      (hstatic : target ∈ graph.staticSuccessors module) : Runs graph entry target
  | dynamicImport {origin : AsyncBlockOrigin} {target : ModuleHandle}
      (horigin : Runs graph entry origin.module) (himport : graph.ImportsFrom origin target) :
      Runs graph entry target

namespace Compilation

variable (compilation : Compilation)

/-- The modules an entrypoint's runtime answers for: all that can be installed, unless split chunks
force their modules into one named chunk, which also installs modules that never run there. -/
def AnswersFor (entrypoint : ChunkGroupHandle) (module : ModuleHandle) : Prop :=
  compilation.options.splitName = none ∧ compilation.chunkGraph.Installable entrypoint module ∨
    ∃ entry, compilation.entries[entrypoint]? = some entry ∧
      compilation.moduleGraph.Runs entry module

variable {compilation} {entrypoint : ChunkGroupHandle} {module : ModuleHandle}

theorem Installable.covered (hunnamed : compilation.options.splitName = none)
    (hentry : entrypoint < compilation.entries.length)
    (h : compilation.chunkGraph.Installable entrypoint module) :
    LogicalChunkGroup.Covered compilation.moduleGraph compilation.moduleGraph.collectStaticReachable
      compilation.entries entrypoint module := by
  have hgraph := compilation.indexed
  have hexact := reachesExactly_collectStaticReachable hgraph
  have hbuilt := compilation.built
  induction h with
  | @entry module hhas =>
      obtain ⟨chunk, hchunk, hmodule⟩ := hhas
      exact ⟨.entrypoint entrypoint, .refl, hbuilt.unnamed hunnamed (.entrypoint entrypoint)
        (LogicalChunkGroup.exists_entrypoint.mpr hentry) chunk hchunk module hmodule⟩
  | @load origin group module _ hblock hhas ih =>
      obtain ⟨chunk, hchunk, hmodule⟩ := hhas
      obtain ⟨parent, target, hload, rfl⟩ := (hbuilt.blocks_spec origin group).mp hblock
      obtain ⟨-, himport, -, hexists⟩ := hload.spec hgraph hexact compilation.entries_lt
      exact ih.load hgraph hexact compilation.entries_lt himport
        (hbuilt.unnamed hunnamed (.asyncChunk target) hexists chunk hchunk module hmodule)

theorem Runs.covered {entry : ModuleHandle} (hentry : compilation.entries[entrypoint]? = some entry)
    (h : compilation.moduleGraph.Runs entry module) :
    LogicalChunkGroup.Covered compilation.moduleGraph compilation.moduleGraph.collectStaticReachable
      compilation.entries entrypoint module := by
  have hgraph := compilation.indexed
  have hexact := reachesExactly_collectStaticReachable hgraph
  induction h with
  | entry =>
      have hexists : (LogicalChunkGroup.entrypoint entrypoint).Exists compilation.moduleGraph
          compilation.moduleGraph.collectStaticReachable compilation.entries :=
        LogicalChunkGroup.exists_entrypoint.mpr (List.getElem?_eq_some_iff.mp hentry).choose
      exact LogicalChunkGroup.Below.covered hgraph hexact compilation.entries_lt .refl
        (hexists.available hgraph hexact compilation.entries_lt hentry (Worklist.Reach.refl entry))
  | staticImport _ hstatic ih =>
      exact ih.reach hgraph hexact compilation.entries_lt
        (Worklist.Reach.tail (Worklist.Reach.refl _) hstatic)
  | dynamicImport _ himport ih => exact ih.target hgraph hexact compilation.entries_lt himport

theorem AnswersFor.covered (hentry : entrypoint < compilation.entries.length)
    (h : compilation.AnswersFor entrypoint module) :
    LogicalChunkGroup.Covered compilation.moduleGraph compilation.moduleGraph.collectStaticReachable
      compilation.entries entrypoint module := by
  rcases h with ⟨hunnamed, hinstallable⟩ | ⟨entry, hentry, hruns⟩
  · exact Installable.covered hunnamed hentry hinstallable
  · exact Runs.covered hentry hruns

end Compilation

namespace ChunkGraph

variable {chunkGraph : ChunkGraph}

/-- Every module in range gets its own requirements. -/
theorem exists_foldlM_assignModuleRequirements
    (assignments : List (ModuleHandle × RuntimeRequirements)) (table : List RuntimeRequirements)
    (hlt : ∀ assignment ∈ assignments, assignment.1 < table.length)
    (hnodup : (assignments.map (·.1)).Nodup) :
    ∃ table', assignments.foldlM assignModuleRequirements table = some table' ∧
      (∀ assignment ∈ assignments, table'.getD assignment.1 ∅ = assignment.2) ∧
      ∀ module ∉ assignments.map (·.1), table'.getD module ∅ = table.getD module ∅ := by
  induction assignments generalizing table with
  | nil => exact ⟨table, rfl, by simp, fun _ _ => rfl⟩
  | cons assignment assignments ih =>
      rw [List.map_cons, List.nodup_cons] at hnodup
      have hfirst := hlt assignment List.mem_cons_self
      obtain ⟨table', hfold, hassigned, hkept⟩ := ih (table.set assignment.1 assignment.2)
        (fun other hother => by
          rw [List.length_set]
          exact hlt other (List.mem_cons_of_mem _ hother)) hnodup.2
      refine ⟨table', ?_, fun other hother => ?_, fun module hmodule => ?_⟩
      · rw [List.foldlM_cons, assignModuleRequirements, if_pos hfirst]
        exact hfold
      · rcases List.mem_cons.mp hother with rfl | hother
        · rw [hkept other.1 hnodup.1, List.getD_eq_getElem?_getD, List.getElem?_set_self hfirst]
          rfl
        · exact hassigned other hother
      · rw [List.map_cons, List.mem_cons, not_or] at hmodule
        rw [hkept module hmodule.2, List.getD_eq_getElem?_getD,
          List.getElem?_set_ne (Ne.symm hmodule.1), ← List.getD_eq_getElem?_getD]

theorem mem_chunkRequirements {table : List RuntimeRequirements} {chunk : ChunkHandle}
    (hlt : chunk < chunkGraph.chunks.length) {requirement : RuntimeRequirement} :
    requirement ∈ (chunkGraph.chunkRequirements table).getD chunk ∅ ↔
      ∃ module ∈ chunkGraph.chunkModules chunk, requirement ∈ table.getD module ∅ := by
  have hget : (chunkGraph.chunkRequirements table).getD chunk ∅ =
      (chunkGraph.chunkModules chunk).foldl (fun requirements module =>
        requirements ∪ table.getD module ∅) ∅ := by
    rw [chunkRequirements, List.getD_eq_getElem?_getD, List.getElem?_map, List.getElem?_range hlt]
    rfl
  rw [hget, mem_foldl_union]
  exact or_iff_right (Finset.notMem_empty requirement)

theorem mem_treeRequirements {chunkRequirements : List RuntimeRequirements}
    {entrypoint : ChunkGroupHandle} {requirement : RuntimeRequirement} :
    requirement ∈ chunkGraph.treeRequirements chunkRequirements entrypoint ↔
      ∃ group ∈ chunkGraph.runtimeTreeGroups entrypoint, ∃ chunk ∈ chunkGraph.groupChunks group,
        requirement ∈ chunkRequirements.getD chunk ∅ := by
  rw [treeRequirements, mem_foldl_of_step (fun (set : RuntimeRequirements) other =>
    other ∈ set) (fun group other => ∃ chunk ∈ chunkGraph.groupChunks group,
      other ∈ chunkRequirements.getD chunk ∅) fun set group other =>
        mem_foldl_union (fun chunk => chunkRequirements.getD chunk ∅) _ set other]
  exact or_iff_right (Finset.notMem_empty requirement)

/-- The tables after some entrypoints, each with its runtime modules in its own chunk. -/
structure EntrypointsSet (chunkGraph : ChunkGraph) (chunkRequirements : List RuntimeRequirements)
    (count : Nat) (done : List ChunkGroupHandle) (tables : RuntimeRequirementTables) : Prop where
  chunkRuntimeRequirements : tables.chunkRuntimeRequirements = chunkRequirements
  length : tables.chunkRuntimeModules.length = count
  tree : ∀ entrypoint ∈ done, tables.runtimeTreeRequirements.lookup entrypoint =
    some (resolveRuntimeModules (chunkGraph.treeRequirements chunkRequirements entrypoint ∪
      entryStartupRuntimeRequirements)).1
  modules : ∀ entrypoint ∈ done, tables.chunkRuntimeModules.getD entrypoint [] =
    (resolveRuntimeModules (chunkGraph.treeRequirements chunkRequirements entrypoint ∪
      entryStartupRuntimeRequirements)).2

theorem setEntrypointRequirements_eq {tables : RuntimeRequirementTables}
    {entrypoint : ChunkGroupHandle} {chunk : ChunkHandle}
    (hhead : (chunkGraph.groupChunks entrypoint).head? = some chunk) :
    chunkGraph.setEntrypointRequirements tables entrypoint =
      let resolved := resolveRuntimeModules (chunkGraph.treeRequirements
        tables.chunkRuntimeRequirements entrypoint ∪ entryStartupRuntimeRequirements)
      some { tables with
        chunkRuntimeModules := tables.chunkRuntimeModules.set chunk resolved.2
        runtimeTreeRequirements := tables.runtimeTreeRequirements.insert entrypoint resolved.1 } := by
  unfold setEntrypointRequirements
  dsimp only
  generalize resolveRuntimeModules _ = resolved
  rw [hhead]
  rfl

theorem EntrypointsSet.step {chunkRequirements : List RuntimeRequirements} {count : Nat}
    {done : List ChunkGroupHandle} {tables : RuntimeRequirementTables}
    (h : EntrypointsSet chunkGraph chunkRequirements count done tables)
    {entrypoint : ChunkGroupHandle} (hhead : (chunkGraph.groupChunks entrypoint).head? =
      some entrypoint) (hlt : entrypoint < count) (hfresh : entrypoint ∉ done) :
    ∃ tables', chunkGraph.setEntrypointRequirements tables entrypoint = some tables' ∧
      EntrypointsSet chunkGraph chunkRequirements count (done ++ [entrypoint]) tables' := by
  rw [setEntrypointRequirements_eq hhead, h.chunkRuntimeRequirements]
  refine ⟨_, rfl, ⟨rfl, (List.length_set ..).trans h.length, ?_, ?_⟩⟩
  · intro other hother
    rcases List.mem_append.mp hother with hold | hnew
    · have hne : other ≠ entrypoint := fun heq => hfresh (heq ▸ hold)
      exact (AList.lookup_insert_ne hne).trans (h.tree other hold)
    · rw [List.mem_singleton.mp hnew]
      exact AList.lookup_insert _
  · intro other hother
    rw [List.getD_eq_getElem?_getD]
    rcases List.mem_append.mp hother with hold | hnew
    · have hne : entrypoint ≠ other := fun heq => hfresh (heq ▸ hold)
      rw [List.getElem?_set_ne hne, ← List.getD_eq_getElem?_getD]
      exact h.modules other hold
    · rw [List.mem_singleton.mp hnew, List.getElem?_set_self (h.length.symm ▸ hlt), Option.getD_some]

theorem exists_foldlM_setEntrypointRequirements {chunkRequirements : List RuntimeRequirements}
    {count : Nat} (entrypoints : List ChunkGroupHandle) {done : List ChunkGroupHandle}
    {tables : RuntimeRequirementTables}
    (h : EntrypointsSet chunkGraph chunkRequirements count done tables)
    (hheads : ∀ entrypoint ∈ entrypoints, (chunkGraph.groupChunks entrypoint).head? =
      some entrypoint ∧ entrypoint < count)
    (hnodup : (done ++ entrypoints).Nodup) :
    ∃ tables', entrypoints.foldlM chunkGraph.setEntrypointRequirements tables = some tables' ∧
      EntrypointsSet chunkGraph chunkRequirements count (done ++ entrypoints) tables' := by
  induction entrypoints generalizing done tables with
  | nil => exact ⟨tables, rfl, by simpa using h⟩
  | cons entrypoint entrypoints ih =>
      obtain ⟨hhead, hlt⟩ := hheads entrypoint List.mem_cons_self
      have hfresh : entrypoint ∉ done := fun hmem =>
        (List.nodup_append.mp hnodup).2.2 entrypoint hmem entrypoint List.mem_cons_self rfl
      obtain ⟨middle, hstep, hmiddle⟩ := h.step hhead hlt hfresh
      rw [List.append_cons] at hnodup ⊢
      obtain ⟨tables', hrest, htables'⟩ := ih hmiddle
        (fun other hother => hheads other (List.mem_cons_of_mem _ hother)) hnodup
      refine ⟨tables', ?_, htables'⟩
      rw [List.foldlM_cons, hstep]
      exact hrest

/-- The stack walk reaches every group of the tree. -/
theorem mem_runtimeTreeGroups {count : Nat} (hsized : chunkGraph.Sized count)
    (hchildren : ∀ parent child, child ∈ chunkGraph.runtimeChildren parent → child < count)
    {entrypoint group : ChunkGroupHandle} (hentry : entrypoint < count)
    (h : Worklist.Reach chunkGraph.runtimeChildren entrypoint group) :
    group ∈ chunkGraph.runtimeTreeGroups entrypoint := by
  have hsum : (List.range count).map (fun group => (chunkGraph.runtimeChildren group).length) =
      chunkGraph.runtimeChunkGroupChildren.map (·.length) := by
    apply List.ext_getElem
    · simp [hsized.2]
    · intro index hleft hright
      have hlt : index < chunkGraph.runtimeChunkGroupChildren.length := by simpa using hright
      simp [runtimeChildren, List.getElem?_eq_getElem hlt]
  refine Worklist.mem_collectWith_of_reach ⟨fun queue new a => ?_, fun queue new => ?_⟩
    chunkGraph.runtimeChildren (List.range count) ?_ _ entrypoint (List.mem_range.mpr hentry) ?_ h
  · rw [List.mem_append, List.mem_reverse, or_comm]
  · rw [List.length_append, List.length_reverse, Nat.add_comm]
  · exact fun parent _ child hchild => List.mem_range.mpr (hchildren parent child hchild)
  · rw [hsum]

end ChunkGraph

theorem ChunkGraph.Registered.groupChunks_lt {chunkGraph : ChunkGraph} (h : chunkGraph.Registered)
    {group : ChunkGroupHandle} {chunk : ChunkHandle} (hchunk : chunk ∈ chunkGraph.groupChunks group) :
    chunk < chunkGraph.chunks.length := by
  rw [ChunkGraph.groupChunks] at hchunk
  cases hgroup : chunkGraph.chunkGroup group with
  | none =>
      rw [hgroup] at hchunk
      exact absurd hchunk List.not_mem_nil
  | some found =>
      rw [hgroup] at hchunk
      exact h.grouped found (List.mem_of_getElem? hgroup) chunk hchunk

namespace Compilation

variable (compilation : Compilation)

theorem registered : compilation.chunkGraph.Registered := registered_buildChunkGraphFrom _ _ _ _

theorem sized : compilation.chunkGraph.Sized (groupCount compilation.moduleGraph
    compilation.moduleGraph.collectStaticReachable compilation.entries) := by
  have hsame := sameGroups_buildChunkGraphFrom compilation.moduleGraph
    compilation.moduleGraph.collectStaticReachable compilation.options compilation.entries
  obtain ⟨-, -, hsized, -⟩ := connectedAfter_spec compilation.moduleGraph
    compilation.moduleGraph.collectStaticReachable compilation.options compilation.entries
    (List.append_nil _).symm
  have hlength := congrArg List.length hsame.groups
  rw [List.length_map, List.length_map] at hlength
  exact ⟨hlength.trans hsized.1, (congrArg List.length hsame.children).trans hsized.2⟩

/-- An entrypoint has one chunk, its own. -/
theorem entryChunks {index : Nat} (hindex : index < compilation.entries.length)
    (chunk : ChunkHandle) : chunk ∈ compilation.chunkGraph.groupChunks index ↔ chunk = index := by
  have hunsplit := unsplit_buildGroups compilation.indexed
    (reachesExactly_collectStaticReachable compilation.indexed) compilation.entries_lt
    compilation.options
  have hexists : (LogicalChunkGroup.entrypoint index).Exists compilation.moduleGraph
      compilation.moduleGraph.collectStaticReachable compilation.entries :=
    LogicalChunkGroup.exists_entrypoint.mpr hindex
  unfold chunkGraph buildChunkGraph buildChunkGraphFrom
  cases compilation.options.splitChunks with
  | none =>
      have hchunks : (buildGroups compilation.moduleGraph
          compilation.moduleGraph.collectStaticReachable compilation.options
            compilation.entries).groupChunks index = [index] := hunsplit.groupChunks hexists
      dsimp only
      rw [hchunks, List.mem_singleton]
  | some splitChunks => exact entryChunks_applySplitChunks hunsplit _ _ hindex chunk

theorem head?_entryChunks {index : Nat} (hindex : index < compilation.entries.length) :
    (compilation.chunkGraph.groupChunks index).head? = some index := by
  have hmem := (compilation.entryChunks hindex index).mpr rfl
  obtain ⟨first, hfirst⟩ := Option.isSome_iff_exists.mp
    (List.isSome_head?.mpr (List.ne_nil_of_mem hmem))
  rw [hfirst, (compilation.entryChunks hindex first).mp (List.mem_of_mem_head? hfirst)]

variable {compilation}

/-- A covered module contributes its requirements to the tree. -/
theorem mem_treeRequirements_of_covered {index : Nat} (hindex : index < compilation.entries.length)
    {module : ModuleHandle} (h : LogicalChunkGroup.Covered compilation.moduleGraph
      compilation.moduleGraph.collectStaticReachable compilation.entries index module)
    {table : List RuntimeRequirements} {requirement : RuntimeRequirement}
    (hrequirement : requirement ∈ table.getD module ∅) :
    requirement ∈ compilation.chunkGraph.treeRequirements
      (compilation.chunkGraph.chunkRequirements table) index := by
  have hgraph := compilation.indexed
  have hexact := reachesExactly_collectStaticReachable hgraph
  have hbuilt := compilation.built
  obtain ⟨group, hbelow, hcarries⟩ := h
  have hreach : Worklist.Reach compilation.chunkGraph.runtimeChildren index
      (groupIndex compilation.moduleGraph compilation.moduleGraph.collectStaticReachable
        compilation.entries group) := by
    clear hcarries
    induction hbelow with
    | refl => exact Worklist.Reach.refl _
    | tail _ hload ih => exact ih.tail ((hbuilt.children_spec _ _).mpr ⟨_, _, hload, rfl, rfl⟩)
  have hchildren : ∀ parent child, child ∈ compilation.chunkGraph.runtimeChildren parent →
      child < groupCount compilation.moduleGraph compilation.moduleGraph.collectStaticReachable
        compilation.entries := by
    intro parent child hchild
    obtain ⟨group, other, hload, -, rfl⟩ := (hbuilt.children_spec parent child).mp hchild
    exact LogicalChunkGroup.groupIndex_lt (hload.exists hgraph hexact compilation.entries_lt).2
  obtain ⟨chunk, hchunk, hmodule⟩ := hbuilt.carries group module hcarries
  refine ChunkGraph.mem_treeRequirements.mpr ⟨_, ChunkGraph.mem_runtimeTreeGroups compilation.sized
    hchildren (Nat.lt_of_lt_of_le hindex (Nat.le_add_right _ _)) hreach, chunk, hchunk, ?_⟩
  exact (ChunkGraph.mem_chunkRequirements (compilation.registered.groupChunks_lt hchunk)).mpr
    ⟨module, hmodule, hrequirement⟩

end Compilation

/-- **Runtime requirements cover the runtime.** The tree requirements of an entrypoint have the processed
requirements of every module its runtime answers for, and its chunk has the runtime modules of all of
them and of their prerequisites. -/
theorem runtime_requirements_cover (compilation : Compilation)
    (direct : FxHashMap ModuleHandle RuntimeRequirements)
    (hdirect : ∀ module ∈ direct, module < compilation.chunkGraph.moduleChunkLists.length) :
    ∃ tables, compilation.chunkGraph.processRuntimeRequirements direct = some tables ∧
      ∀ entrypoint ∈ compilation.chunkGraph.entrypoints,
        ∃ tree chunk, tables.runtimeTreeRequirements.lookup entrypoint = some tree ∧
          (compilation.chunkGraph.groupChunks entrypoint).head? = some chunk ∧
          (∀ module requirements, compilation.AnswersFor entrypoint module →
            direct.lookup module = some requirements →
              (resolveRuntimeModules requirements).1 ⊆ tree) ∧
          ∀ requirement ∈ tree, ∀ prerequisite, ReflTransGen Requires requirement prerequisite →
            ∀ runtimeModule, runtimeModuleForRequirement prerequisite = some runtimeModule →
              runtimeModule ∈ tables.chunkRuntimeModules.getD chunk [] := by
  have hentrypoints := compilation.built.entrypoints
  obtain ⟨table, htable, hassigned, -⟩ := ChunkGraph.exists_foldlM_assignModuleRequirements
    (direct.entries.map fun entry => (entry.1, (resolveRuntimeModules entry.2).1))
    (List.replicate compilation.chunkGraph.moduleChunkLists.length ∅) (by
      intro assignment hassignment
      obtain ⟨entry, hentry, rfl⟩ := List.mem_map.mp hassignment
      rw [List.length_replicate]
      exact hdirect entry.1 (List.mem_map_of_mem hentry))
    (by
      rw [List.map_map]
      exact direct.nodupKeys)
  have hstart : ChunkGraph.EntrypointsSet compilation.chunkGraph
      (compilation.chunkGraph.chunkRequirements table) compilation.chunkGraph.chunks.length []
      { moduleRuntimeRequirements := table
        chunkRuntimeRequirements := compilation.chunkGraph.chunkRequirements table
        chunkRuntimeModules := List.replicate compilation.chunkGraph.chunks.length []
        runtimeTreeRequirements := ∅ } :=
    ⟨rfl, List.length_replicate, by simp, by simp⟩
  obtain ⟨tables, htables, hset⟩ := ChunkGraph.exists_foldlM_setEntrypointRequirements
    compilation.chunkGraph.entrypoints hstart
    (fun entrypoint hentry => by
      rw [hentrypoints, List.mem_range] at hentry
      exact ⟨compilation.head?_entryChunks hentry, compilation.registered.groupChunks_lt
        ((compilation.entryChunks hentry entrypoint).mpr rfl)⟩)
    (by
      rw [hentrypoints]
      exact List.nodup_range)
  refine ⟨tables, ?_, fun entrypoint hentry => ?_⟩
  · unfold ChunkGraph.processRuntimeRequirements ChunkGraph.setModuleRuntimeRequirements
    exact Option.bind_eq_some_iff.mpr ⟨table, htable, htables⟩
  · have hindex : entrypoint < compilation.entries.length := by
      rw [hentrypoints, List.mem_range] at hentry
      exact hentry
    refine ⟨_, entrypoint, hset.tree entrypoint hentry, compilation.head?_entryChunks hindex, ?_, ?_⟩
    · intro module requirements hanswers hlookup requirement hrequirement
      refine subset_resolveRuntimeModules _ (Finset.mem_union_left _ ?_)
      refine Compilation.mem_treeRequirements_of_covered hindex (hanswers.covered hindex) ?_
      have hentry := mem_entries_iff_lookup.mpr hlookup
      rw [hassigned _ (List.mem_map_of_mem hentry)]
      exact hrequirement
    · intro requirement hrequirement prerequisite hrequires runtimeModule hmodule
      obtain ⟨hmem, hmodules⟩ := resolveRuntimeModules_spec
        (compilation.chunkGraph.treeRequirements
          (compilation.chunkGraph.chunkRequirements table) entrypoint ∪ entryStartupRuntimeRequirements)
      rw [hset.modules entrypoint hentry, hmodules]
      obtain ⟨start, hstart, hreach⟩ := (hmem requirement).mp hrequirement
      exact ⟨prerequisite, (hmem prerequisite).mpr ⟨start, hstart, hreach.trans hrequires⟩, hmodule⟩

/-- `e1` loads `a` and `b`, which share `m`; `e2` loads `c` and `d`, which share `y` with its
`import("z")`. The two shared sets are forced into one named chunk. -/
def namedInstallCompilation : Compilation where
  options := { entryNames := ["e1", "e2"], splitChunks := some ⟨2, some "shared"⟩ }
  moduleGraph := .ofModules [
    .javaScript "e1" [] [.dynamicImport "a", .dynamicImport "b"],
    .javaScript "e2" [] [.dynamicImport "c", .dynamicImport "d"],
    .javaScript "a" [.bareImport "m"] [], .javaScript "b" [.bareImport "m"] [],
    .javaScript "c" [.bareImport "y"] [], .javaScript "d" [.bareImport "y"] [],
    .javaScript "m" [] [], .javaScript "y" [] [.dynamicImport "z"], .javaScript "z" [] []] [0, 1]
  entries := [0, 1]
  indexed := by decide
  entries_lt := by decide

/-- One module asks for property getters. -/
def getterRequirements (module : ModuleHandle) : FxHashMap ModuleHandle RuntimeRequirements :=
  AList.singleton module {.definePropertyGetters}

/-- The shared chunk installs `y` in the runtime of `e1`, so its `import("z")` counts, but the tree of
`e1` does not have the group of `z`. -/
theorem named_chunk_requirements_uncovered : ¬ ∀ (compilation : Compilation)
    (direct : FxHashMap ModuleHandle RuntimeRequirements) (tables : RuntimeRequirementTables)
    (entrypoint : ChunkGroupHandle) (tree : RuntimeRequirements) (module : ModuleHandle)
    (requirements : RuntimeRequirements), entrypoint ∈ compilation.chunkGraph.entrypoints →
    compilation.chunkGraph.processRuntimeRequirements direct = some tables →
    tables.runtimeTreeRequirements.lookup entrypoint = some tree →
    compilation.chunkGraph.Installable entrypoint module →
    direct.lookup module = some requirements → (resolveRuntimeModules requirements).1 ⊆ tree := by
  intro hclaim
  have hmissing : ((namedInstallCompilation.chunkGraph.processRuntimeRequirements
      (getterRequirements 8)).bind (·.runtimeTreeRequirements.lookup 0)).map
        (fun tree => decide (RuntimeRequirement.definePropertyGetters ∈ tree)) = some false := by
    decide +kernel
  obtain ⟨tree, htree, hnot⟩ := Option.map_eq_some_iff.mp hmissing
  obtain ⟨tables, htables, hlookup⟩ := Option.bind_eq_some_iff.mp htree
  have hhas : namedInstallCompilation.chunkGraph.Has 0 0 ∧
      (∃ group, namedInstallCompilation.chunkGraph.blockChunkGroup ⟨0, 0⟩ = some group ∧
        namedInstallCompilation.chunkGraph.Has group 7) ∧
      ∃ group, namedInstallCompilation.chunkGraph.blockChunkGroup ⟨7, 0⟩ = some group ∧
        namedInstallCompilation.chunkGraph.Has group 8 := by
    refine ⟨?_, ⟨2, ?_, ?_⟩, 6, ?_, ?_⟩ <;> decide +kernel
  obtain ⟨hentry, ⟨first, hfirst, hshared⟩, second, hsecond, htarget⟩ := hhas
  have hcarried : namedInstallCompilation.chunkGraph.Installable 0 7 :=
    .load (show namedInstallCompilation.chunkGraph.Installable 0
      (AsyncBlockOrigin.mk 0 0).module from .entry hentry) hfirst hshared
  have hinstallable : namedInstallCompilation.chunkGraph.Installable 0 8 :=
    .load (show namedInstallCompilation.chunkGraph.Installable 0
      (AsyncBlockOrigin.mk 7 0).module from hcarried) hsecond htarget
  have hcovered := hclaim namedInstallCompilation (getterRequirements 8) tables 0 tree 8
    {.definePropertyGetters} (by decide +kernel) htables hlookup hinstallable rfl
  have hmem := hcovered (subset_resolveRuntimeModules _ (Finset.mem_singleton_self _))
  exact of_decide_eq_false hnot hmem

/-- `e1` runs `m`, so its tree has the requirements of `m`. -/
theorem runtime_requirements_cover_namedInstall :
    ∃ tables tree, namedInstallCompilation.chunkGraph.processRuntimeRequirements
        (getterRequirements 6) = some tables ∧
      tables.runtimeTreeRequirements.lookup 0 = some tree ∧
      RuntimeRequirement.definePropertyGetters ∈ tree := by
  obtain ⟨tables, htables, hset⟩ := runtime_requirements_cover namedInstallCompilation
    (getterRequirements 6) (by
      intro module hmodule
      obtain rfl : module = 6 := List.mem_singleton.mp (AList.mem_keys.mp hmodule)
      decide +kernel)
  obtain ⟨tree, -, htree, -, hcovers, -⟩ := hset 0 (by decide +kernel)
  refine ⟨tables, tree, htables, htree, hcovers 6 {.definePropertyGetters} (Or.inr ⟨0, rfl, ?_⟩) rfl
    (subset_resolveRuntimeModules _ (Finset.mem_singleton_self _))⟩
  have himport : namedInstallCompilation.moduleGraph.ImportsFrom ⟨0, 0⟩ 2 :=
    ⟨⟨_, _, rfl, rfl, by decide⟩, by decide⟩
  exact .staticImport (.dynamicImport .entry himport) (by decide)

end Unpack
