import Unpack.ConcatenationSearch
import Unpack.StaticAvailability

/-! Module concatenation is lossless and disjoint. The root of a configuration dominates its inner
modules: a group that carries an inner module carries every module on the way to it, the importers of
an inner module are in the configuration, and no group is made for an inner module, so the way back
from it ends at the root. The root is therefore in the same chunks, and two configurations that share
a module are nested. -/

namespace Unpack

namespace LogicalChunkGroup

section

variable {graph : ModuleGraph} {reachable : ModuleHandle → List ModuleHandle}
variable {entries : List ModuleHandle}
variable (hgraph : graph.Indexed) (hreach : ReachesExactly graph reachable)
variable (hentries : ∀ entry ∈ entries, entry < graph.modules.length)

include hgraph hreach hentries

/-- A group that carries a module carries everything on the way to it from its root. -/
theorem Carries.predecessor {group : LogicalChunkGroup} {start predecessor module : ModuleHandle}
    (hcarries : group.Carries graph reachable entries module) (hroot : group.root entries = some start)
    (hstatic : graph.StaticReach start predecessor)
    (hnext : module ∈ graph.staticSuccessors predecessor) :
    group.Carries graph reachable entries predecessor := by
  have havailable := hcarries.exists.available hgraph hreach hentries hroot hstatic
  cases group with
  | entrypoint index =>
      exact (justified hgraph hreach hentries).root_carries _ _ ⟨index, rfl⟩ havailable
  | asyncChunk target =>
      -- What every parent has available would be available with all it imports.
      by_contra hnot
      obtain ⟨parent, hloads, hlacks⟩ := hcarries.exists_parent_lacking hgraph hreach hentries
      refine hlacks ?_
      exact (Available.inherited hgraph hreach hentries havailable hnot parent hloads).reach hgraph
        hreach hentries (Worklist.Reach.tail (Worklist.Reach.refl predecessor) hnext)

/-- Going back from a carried module: a property that importers inherit holds of the root of the
group, unless the walk ends before. -/
theorem Carries.descend {group : LogicalChunkGroup} {module : ModuleHandle}
    {P : ModuleHandle → Prop} {Q : Prop}
    (hcarries : group.Carries graph reachable entries module) (hmodule : P module)
    (hroot : ∀ start, group.root entries = some start → group.Carries graph reachable entries start →
      P start → Q)
    (hback : ∀ next predecessor, group.Carries graph reachable entries next → P next →
      group.Carries graph reachable entries predecessor →
      next ∈ graph.staticSuccessors predecessor → Q ∨ P predecessor) : Q := by
  obtain ⟨start, hstart, hstatic⟩ := hcarries.reach hgraph hreach hentries
  induction hstatic with
  | refl => exact hroot start hstart hcarries hmodule
  | tail hstatic hnext ih =>
      have hpredecessor := hcarries.predecessor hgraph hreach hentries hstart hstatic hnext
      rcases hback _ _ hcarries hmodule hpredecessor hnext with hdone | hprevious
      · exact hdone
      · exact ih hpredecessor hprevious

end

end LogicalChunkGroup

section

variable (graph : ModuleGraph) (chunkGraph : ChunkGraph) (entries : List ModuleHandle)

structure ConfigurationOk (configuration : ConcatenationConfiguration) : Prop extends
    ModuleGraph.SearchDone graph (graph.importersToAdd chunkGraph
      (chunkGraph.moduleChunks configuration.root) (graph.possibleInners chunkGraph entries))
      configuration.root configuration.modules where
  root_can : graph.moduleCanConcatenate chunkGraph configuration.root = true

end

section

variable {graph : ModuleGraph} {reachable : ModuleHandle → List ModuleHandle}
variable {entries : List ModuleHandle} {splitName : Option String} {chunkGraph : ChunkGraph}
variable {configuration other : ConcatenationConfiguration}

theorem foldl_findConfiguration (hgraph : graph.Indexed) (roots : List ModuleHandle)
    (hroots : ∀ root ∈ roots, root < graph.modules.length ∧
      graph.moduleCanConcatenate chunkGraph root = true)
    (found : List ModuleHandle × List ConcatenationConfiguration)
    (hfound : ∀ configuration ∈ found.2, ConfigurationOk graph chunkGraph entries configuration) :
    ∀ configuration ∈ (roots.foldl (graph.findConfiguration chunkGraph entries) found).2,
      ConfigurationOk graph chunkGraph entries configuration := by
  induction roots generalizing found with
  | nil => exact hfound
  | cons root roots ih =>
      rw [List.foldl_cons]
      refine ih (fun next hnext => hroots next (List.mem_cons_of_mem root hnext)) _ ?_
      obtain ⟨hlt, hcan⟩ := hroots root List.mem_cons_self
      simp only [ModuleGraph.findConfiguration]
      split_ifs
      · exact hfound
      · intro configuration hconfiguration
        rcases List.mem_append.mp hconfiguration with hold | hnew
        · exact hfound configuration hold
        · rw [List.mem_singleton.mp hnew]
          exact ⟨ModuleGraph.searchModules_spec hgraph
            (fun inner hinner => (ModuleGraph.mem_possibleInners hgraph hinner).1) hlt, hcan⟩
      · exact hfound

theorem configurationOk_of_mem (hgraph : graph.Indexed)
    (hmem : configuration ∈ graph.findConfigurations chunkGraph entries) :
    ConfigurationOk graph chunkGraph entries configuration := by
  rw [ModuleGraph.findConfigurations, List.mem_insertionSort] at hmem
  refine foldl_findConfiguration hgraph _ (fun root hroot => ?_) ([], [])
    (fun _ hnil => absurd hnil List.not_mem_nil) configuration hmem
  rw [ModuleGraph.concatenationRoots, List.mem_insertionSort, List.mem_filter, Bool.and_eq_true,
    hgraph.module_handles, List.mem_range] at hroot
  exact ⟨hroot.1, hroot.2.1⟩

namespace ModuleGraph

theorem compareConfigurations_isLE {left right : ConcatenationConfiguration} :
    (graph.compareConfigurations left right).isLE = true ↔
      right.modules.length < left.modules.length ∨
        right.modules.length = left.modules.length ∧
          graph.identity left.root ≤ graph.identity right.root := by
  have hidentity : (graph.compareModuleIdentities left.root right.root).isLE = true ↔
      graph.identity left.root ≤ graph.identity right.root :=
    Ordering.ne_gt_iff_isLE.symm.trans compare_le_iff_le
  rw [compareConfigurations, Ordering.isLE_then_iff_or, compare_lt_iff_lt, compare_eq_iff_eq,
    hidentity]

instance : Std.Total fun left right => (graph.compareConfigurations left right).isLE = true where
  total left right := by
    rw [compareConfigurations_isLE, compareConfigurations_isLE]
    rcases Nat.lt_trichotomy right.modules.length left.modules.length with h | h | h
    · exact Or.inl (Or.inl h)
    · exact (le_total (graph.identity left.root) (graph.identity right.root)).imp
        (fun hle => Or.inr ⟨h, hle⟩) fun hle => Or.inr ⟨h.symm, hle⟩
    · exact Or.inr (Or.inl h)

instance : IsTrans ConcatenationConfiguration
    fun left right => (graph.compareConfigurations left right).isLE = true where
  trans first second third hfirst hsecond := by
    rw [compareConfigurations_isLE] at hfirst hsecond ⊢
    rcases hfirst with hlt | ⟨heq, hle⟩ <;> rcases hsecond with hlt' | ⟨heq', hle'⟩
    · exact Or.inl (hlt'.trans hlt)
    · exact Or.inl (heq' ▸ hlt)
    · exact Or.inl (heq ▸ hlt')
    · exact Or.inr ⟨heq'.trans heq, hle.trans hle'⟩

/-- Larger configurations come first. -/
theorem findConfigurations_sorted :
    (graph.findConfigurations chunkGraph entries).Pairwise fun earlier later =>
      later.modules.length ≤ earlier.modules.length := by
  refine (List.pairwise_insertionSort
    (fun left right => (graph.compareConfigurations left right).isLE = true) _).imp ?_
  intro earlier later hle
  rcases compareConfigurations_isLE.mp hle with hlt | ⟨heq, -⟩
  · exact hlt.le
  · exact heq.le

end ModuleGraph

/-- What is known of an inner module: its chunks, and who imports it. -/
theorem ConfigurationOk.inner_spec (hgraph : graph.Indexed)
    (h : ConfigurationOk graph chunkGraph entries configuration) {inner : ModuleHandle}
    (hmem : inner ∈ configuration.modules) (hne : inner ≠ configuration.root) :
    inner ∉ entries ∧
      (∀ chunk ∈ chunkGraph.moduleChunks configuration.root, inner ∈ chunkGraph.chunkModules chunk) ∧
      ∀ connection ∈ graph.connections, connection.module = inner → connection.isActive = true →
        ∀ origin, connection.originModule = some origin → chunkGraph.moduleChunks origin ≠ [] →
          connection.dependency.canConcatenate = true ∧ origin ∈ configuration.modules := by
  obtain ⟨importers, hadd, hin⟩ := h.closed inner hmem hne
  obtain ⟨hpossible, hchunks, hincoming⟩ := ModuleGraph.importersToAdd_spec hgraph hadd
  refine ⟨(ModuleGraph.mem_possibleInners hgraph hpossible).2.1, hchunks, ?_⟩
  intro connection hconnection hmodule hactive origin horigin hsome
  obtain ⟨hcan, himporter⟩ :=
    hincoming connection hconnection hmodule hactive origin horigin hsome
  exact ⟨hcan, hin origin himporter⟩

theorem Built.moduleChunks_ne_nil (hbuilt : Built graph reachable entries splitName chunkGraph)
    {group : LogicalChunkGroup} {module : ModuleHandle}
    (hcarries : group.Carries graph reachable entries module) :
    chunkGraph.moduleChunks module ≠ [] := by
  obtain ⟨chunk, -, hmem⟩ := hbuilt.carries group module hcarries
  exact List.ne_nil_of_mem ((hbuilt.moduleChunks_spec chunk module).mpr hmem)

namespace ConfigurationOk

variable (hgraph : graph.Sealable) (hreach : ReachesExactly graph reachable)
variable (hentries : ∀ entry ∈ entries, entry < graph.modules.length)
variable (hbuilt : Built graph reachable entries splitName chunkGraph)

include hgraph hreach hentries hbuilt

/-- No group is made for an inner module. -/
theorem not_group_root (h : ConfigurationOk graph chunkGraph entries configuration)
    {inner : ModuleHandle} (hmem : inner ∈ configuration.modules) (hne : inner ≠ configuration.root)
    {group : LogicalChunkGroup} (hgroup : group.Exists graph reachable entries) :
    group.root entries ≠ some inner := by
  obtain ⟨hentry, -, hincoming⟩ := h.inner_spec hgraph.toIndexed hmem hne
  intro hroot
  cases group with
  | entrypoint index => exact hentry (List.mem_of_getElem? hroot)
  | asyncChunk target =>
      obtain rfl := Option.some.inj hroot
      obtain ⟨parent, ⟨origin, other, heq, hload⟩, -⟩ :=
        (LogicalChunkGroup.carries_target hgraph.toIndexed hreach hentries
          hgroup).exists_parent_lacking hgraph.toIndexed hreach hentries
      obtain rfl := LogicalChunkGroup.asyncChunk.inj heq
      obtain ⟨hcarries, ⟨-, htarget⟩, -, -⟩ := hload.spec hgraph.toIndexed hreach hentries
      obtain ⟨connection, hconnection, horigin, -, himport, hmodule⟩ :=
        ModuleGraph.importBlockTarget_eq_some hgraph.toIndexed htarget
      have hkind := Dependency.static_canConcatenate_of_isImportDependency himport
      have hactive := hgraph.nonstatic_active connection hconnection hkind.1
      have hcan := (hincoming connection hconnection hmodule hactive _ horigin
        (hbuilt.moduleChunks_ne_nil hcarries)).1
      rw [hkind.2] at hcan
      exact Bool.noConfusion hcan

omit hreach hentries in
/-- Going one step back from an inner module stays inside the configuration. -/
theorem predecessor_mem (h : ConfigurationOk graph chunkGraph entries configuration)
    {inner predecessor : ModuleHandle} (hmem : inner ∈ configuration.modules)
    (hne : inner ≠ configuration.root) {group : LogicalChunkGroup}
    (hcarries : group.Carries graph reachable entries predecessor)
    (hnext : inner ∈ graph.staticSuccessors predecessor) : predecessor ∈ configuration.modules := by
  obtain ⟨-, -, hincoming⟩ := h.inner_spec hgraph.toIndexed hmem hne
  obtain ⟨connection, hconnection, horigin, hstatic, hmodule⟩ :=
    (ModuleGraph.mem_staticSuccessors hgraph.toIndexed).mp hnext
  rw [ModuleGraphConnection.isStatic, Bool.and_eq_true] at hstatic
  exact (hincoming connection hconnection hmodule hstatic.2 predecessor horigin
    (hbuilt.moduleChunks_ne_nil hcarries)).2

/-- **Domination.** A group that carries a module of the configuration carries its root. -/
theorem carries_root (h : ConfigurationOk graph chunkGraph entries configuration)
    {module : ModuleHandle} (hmem : module ∈ configuration.modules) {group : LogicalChunkGroup}
    (hcarries : group.Carries graph reachable entries module) :
    group.Carries graph reachable entries configuration.root := by
  refine hcarries.descend hgraph.toIndexed hreach hentries (P := (· ∈ configuration.modules)) hmem
    ?_ ?_
  · intro start hstart hstartCarries hstartMem
    by_cases hroot : start = configuration.root
    · exact hroot ▸ hstartCarries
    · exact absurd hstart (h.not_group_root hgraph hreach hentries hbuilt hstartMem hroot
        hcarries.exists)
  · intro next predecessor hnextCarries hnextMem hpredecessor hnext
    by_cases hroot : next = configuration.root
    · exact Or.inl (hroot ▸ hnextCarries)
    · exact Or.inr (h.predecessor_mem hgraph hbuilt hnextMem hroot hpredecessor
        hnext)

/-- All modules of a configuration are in the chunks of its root. -/
theorem mem_moduleChunks_iff (h : ConfigurationOk graph chunkGraph entries configuration)
    {module : ModuleHandle} (hmem : module ∈ configuration.modules) (chunk : ChunkHandle) :
    chunk ∈ chunkGraph.moduleChunks module ↔ chunk ∈ chunkGraph.moduleChunks configuration.root := by
  by_cases hroot : module = configuration.root
  · rw [hroot]
  · have hroots : ∀ chunk ∈ chunkGraph.moduleChunks configuration.root,
        chunk ∈ chunkGraph.moduleChunks module := fun chunk hchunk =>
      (hbuilt.moduleChunks_spec chunk module).mpr
        ((h.inner_spec hgraph.toIndexed hmem hroot).2.1 chunk hchunk)
    exact ⟨hbuilt.dominated module configuration.root
      (fun group hcarries => h.carries_root hgraph hreach hentries hbuilt hmem hcarries) hroots chunk,
      hroots chunk⟩

/-- Two configurations that share a module: the root of one is in the other. -/
theorem root_mem_or_root_mem (h : ConfigurationOk graph chunkGraph entries configuration)
    (h' : ConfigurationOk graph chunkGraph entries other) {module : ModuleHandle}
    (hmem : module ∈ configuration.modules) (hmem' : module ∈ other.modules) :
    configuration.root ∈ other.modules ∨ other.root ∈ configuration.modules := by
  obtain ⟨chunk, hchunk⟩ := List.exists_mem_of_ne_nil _ (ModuleGraph.moduleChunks_ne_nil h.root_can)
  have hin := (hbuilt.moduleChunks_spec chunk module).mp
    ((h.mem_moduleChunks_iff hgraph hreach hentries hbuilt hmem chunk).mpr hchunk)
  obtain ⟨group, hcarries, -⟩ := hbuilt.carried chunk module hin
  refine hcarries.descend hgraph.toIndexed hreach hentries
    (P := fun module => module ∈ configuration.modules ∧ module ∈ other.modules) ⟨hmem, hmem'⟩ ?_ ?_
  · rintro start hstart - ⟨hstartMem, hstartMem'⟩
    by_cases hroot : start = configuration.root
    · exact Or.inl (hroot ▸ hstartMem')
    · exact absurd hstart (h.not_group_root hgraph hreach hentries hbuilt hstartMem hroot
        hcarries.exists)
  · rintro next predecessor - ⟨hnextMem, hnextMem'⟩ hpredecessor hnext
    by_cases hroot : next = configuration.root
    · exact Or.inl (Or.inl (hroot ▸ hnextMem'))
    · by_cases hroot' : next = other.root
      · exact Or.inl (Or.inr (hroot' ▸ hnextMem))
      · exact Or.inr ⟨
          h.predecessor_mem hgraph hbuilt hnextMem hroot hpredecessor hnext,
          h'.predecessor_mem hgraph hbuilt hnextMem' hroot' hpredecessor hnext⟩

/-- A configuration whose root is an inner module of another is nested in it: whatever could join the
one could join the other. -/
theorem subset_of_root_mem (h : ConfigurationOk graph chunkGraph entries configuration)
    (h' : ConfigurationOk graph chunkGraph entries other)
    (hinner : configuration.root ∈ other.modules) (hnot : other.root ∉ configuration.modules) :
    ∀ module ∈ configuration.modules, module ∈ other.modules := by
  have hparents : ∀ candidate,
      graph.importersToAdd chunkGraph (chunkGraph.moduleChunks configuration.root)
        (graph.possibleInners chunkGraph entries) candidate =
      graph.importersToAdd chunkGraph (chunkGraph.moduleChunks other.root)
        (graph.possibleInners chunkGraph entries) candidate :=
    ModuleGraph.importersToAdd_congr
      (h'.mem_moduleChunks_iff hgraph hreach hentries hbuilt hinner) _
  refine h.minimal (· ∈ other.modules) hinner ?_ ?_
  · intro module _ hmodule target himport htarget
    refine h'.complete module hmodule target himport
      (fun member => member ∈ other.modules ∨ member ∈ configuration.modules) (Or.inr htarget)
      (fun member hmember => Or.inl hmember) ?_
    have hfromOther : ∀ member ∈ other.modules, member ≠ other.root → ∃ importers,
        graph.importersToAdd chunkGraph (chunkGraph.moduleChunks other.root)
          (graph.possibleInners chunkGraph entries) member = some importers ∧
        ∀ importer ∈ importers, importer ∈ other.modules ∨ importer ∈ configuration.modules := by
      intro member hmember hne
      obtain ⟨importers, hadd, hin⟩ := h'.closed member hmember hne
      exact ⟨importers, hadd, fun importer himporter => Or.inl (hin importer himporter)⟩
    rintro member (hmember | hmember) hne
    · exact hfromOther member hmember hne
    · by_cases hroot : member = configuration.root
      · exact hfromOther member (hroot ▸ hinner) hne
      · obtain ⟨importers, hadd, hin⟩ := h.closed member hmember hroot
        exact ⟨importers, hparents member ▸ hadd, fun importer himporter =>
          Or.inr (hin importer himporter)⟩
  · intro module hmodule hmember _ importers hadd importer himporter
    obtain ⟨importers', hadd', hin⟩ :=
      h'.closed module hmember fun heq => hnot (heq ▸ hmodule)
    rw [hparents module, hadd'] at hadd
    exact hin importer (Option.some.inj hadd ▸ himporter)

/-- An earlier configuration shares nothing with a later one that is still applied. -/
theorem disjoint (h : ConfigurationOk graph chunkGraph entries configuration)
    (h' : ConfigurationOk graph chunkGraph entries other)
    (hlength : other.modules.length ≤ configuration.modules.length)
    (hnot : other.root ∉ configuration.modules) :
    ∀ module ∈ configuration.modules, module ∉ other.modules := by
  intro module hmem hmem'
  rcases h.root_mem_or_root_mem hgraph hreach hentries hbuilt h' hmem hmem' with hinner | hroot
  · have hsub := h.subset_of_root_mem hgraph hreach hentries hbuilt h' hinner hnot
    have hle := (List.subperm_of_subset (List.nodup_cons.mpr ⟨hnot, h.nodup⟩) fun member hmember =>
      (List.mem_cons.mp hmember).elim (fun heq => heq ▸ h'.root_mem) (hsub member)).length_le
    rw [List.length_cons] at hle
    omega
  · exact hnot hroot

end ConfigurationOk

end

namespace ChunkGraph

theorem foldl_disconnectInner (chunkGraph : ChunkGraph) (chunks : List ChunkHandle)
    (inners : List ModuleHandle) :
    let result := inners.foldl (fun chunkGraph inner =>
      chunks.foldl (fun chunkGraph chunk => chunkGraph.disconnectChunkAndModule chunk inner)
        chunkGraph) chunkGraph
    SameGroups chunkGraph result ∧ result.chunkGroups = chunkGraph.chunkGroups ∧
      (∀ chunk member, member ∈ result.chunkModules chunk ↔
        member ∈ chunkGraph.chunkModules chunk ∧ ¬ (chunk ∈ chunks ∧ member ∈ inners)) ∧
      ∀ chunk member, chunk ∈ result.moduleChunks member ↔
        chunk ∈ chunkGraph.moduleChunks member ∧ ¬ (chunk ∈ chunks ∧ member ∈ inners) := by
  induction inners generalizing chunkGraph with
  | nil => exact ⟨SameGroups.refl _, rfl, by simp, by simp⟩
  | cons inner inners ih =>
      obtain ⟨hsame, -, hgroups, -, hmodules, hback⟩ := foldl_disconnect chunkGraph chunks inner
      obtain ⟨hsame', hgroups', hmodules', hback'⟩ := ih (chunks.foldl
        (fun chunkGraph chunk => chunkGraph.disconnectChunkAndModule chunk inner) chunkGraph)
      have hnot : ∀ chunk member, ¬ (chunk ∈ chunks ∧ member ∈ inner :: inners) ↔
          ¬ (chunk ∈ chunks ∧ member = inner) ∧ ¬ (chunk ∈ chunks ∧ member ∈ inners) := by
        intro chunk member
        rw [← not_or, ← and_or_left, List.mem_cons]
      refine ⟨hsame.trans hsame', hgroups'.trans hgroups, ?_, ?_⟩
      · intro chunk member
        rw [List.foldl_cons, hmodules', hmodules, hnot, and_assoc]
      · intro chunk member
        rw [List.foldl_cons, hback', hback, hnot, and_assoc]

/-- Applying a configuration takes its inner modules out of the chunks of its root. -/
theorem addConcatenatedModule_spec (chunkGraph : ChunkGraph) (module : ConcatenatedModule) :
    (chunkGraph.addConcatenatedModule module).concatenatedModules =
        chunkGraph.concatenatedModules.insert module.rootModule module ∧
      (chunkGraph.addConcatenatedModule module).entrypoints = chunkGraph.entrypoints ∧
      (chunkGraph.addConcatenatedModule module).runtimeChildren = chunkGraph.runtimeChildren ∧
      (chunkGraph.addConcatenatedModule module).blockChunkGroup = chunkGraph.blockChunkGroup ∧
      (chunkGraph.addConcatenatedModule module).chunkGroup = chunkGraph.chunkGroup ∧
      (∀ chunk member, member ∈ (chunkGraph.addConcatenatedModule module).chunkModules chunk ↔
        member ∈ chunkGraph.chunkModules chunk ∧
          ¬ (chunk ∈ chunkGraph.moduleChunks module.rootModule ∧ member ∈ module.innerModules)) ∧
      ∀ chunk member, chunk ∈ (chunkGraph.addConcatenatedModule module).moduleChunks member ↔
        chunk ∈ chunkGraph.moduleChunks member ∧
          ¬ (chunk ∈ chunkGraph.moduleChunks module.rootModule ∧ member ∈ module.innerModules) := by
  obtain ⟨hsame, hgroups, hmodules, hback⟩ := foldl_disconnectInner chunkGraph
    (chunkGraph.moduleChunks module.rootModule) module.innerModules
  have hchildren : (chunkGraph.addConcatenatedModule module).runtimeChildren =
      chunkGraph.runtimeChildren :=
    congrArg (fun lists => fun group => lists.getD group []) hsame.children
  have hblocks : (chunkGraph.addConcatenatedModule module).blockChunkGroup =
      chunkGraph.blockChunkGroup :=
    congrArg (fun table => fun origin => table.lookup origin) hsame.blocks
  have hgroup : (chunkGraph.addConcatenatedModule module).chunkGroup = chunkGraph.chunkGroup :=
    congrArg (fun groups => fun handle : ChunkGroupHandle => groups[handle]?) hgroups
  refine ⟨?_, hsame.entrypoints, hchildren, hblocks, hgroup, hmodules, hback⟩
  exact congrArg (fun table => table.insert module.rootModule module) hsame.concatenatedModules

end ChunkGraph

section

variable (graph : ModuleGraph) (chunkGraph : ChunkGraph) (entries : List ModuleHandle)

/-- The chunk graph after some configurations: each took its inner modules out of all their chunks,
and nothing else moved. -/
structure Concatenated (applied : List ConcatenationConfiguration) (result : ChunkGraph) : Prop where
  ok : ∀ configuration ∈ applied, ConfigurationOk graph chunkGraph entries configuration
  disjoint : applied.Pairwise fun configuration other =>
    ∀ module ∈ configuration.modules, module ∉ other.modules
  concatenatedModule : ∀ root module, result.concatenatedModule root = some module ↔
    ∃ configuration ∈ applied, configuration.root = root ∧
      module = graph.concatenatedModule configuration
  entrypoints : result.entrypoints = chunkGraph.entrypoints
  runtimeChildren : result.runtimeChildren = chunkGraph.runtimeChildren
  blockChunkGroup : result.blockChunkGroup = chunkGraph.blockChunkGroup
  chunkGroup : result.chunkGroup = chunkGraph.chunkGroup
  chunkModules : ∀ chunk module, module ∈ result.chunkModules chunk ↔
    module ∈ chunkGraph.chunkModules chunk ∧
      ∀ configuration ∈ applied, module ∈ configuration.modules → module = configuration.root
  moduleChunks : ∀ chunk module, chunk ∈ result.moduleChunks module ↔
    chunk ∈ chunkGraph.moduleChunks module ∧
      ∀ configuration ∈ applied, module ∈ configuration.modules → module = configuration.root

end

section

variable {graph : ModuleGraph} {reachable : ModuleHandle → List ModuleHandle}
variable {entries : List ModuleHandle} {splitName : Option String} {chunkGraph : ChunkGraph}
variable {configuration : ConcatenationConfiguration}

theorem mem_innerModules {module : ModuleHandle} :
    module ∈ (graph.concatenatedModule configuration).innerModules ↔
      module ∈ configuration.modules ∧ module ≠ configuration.root := by
  rw [ConcatenatedModule.innerModules, List.mem_filter, decide_eq_true_eq,
    ModuleGraph.concatenatedModule, ModuleGraph.mem_dedupAdjacent, List.mem_insertionSort]

theorem concatenated_nil (hbuilt : Built graph reachable entries splitName chunkGraph) :
    Concatenated graph chunkGraph entries [] chunkGraph where
  ok _ hnil := absurd hnil List.not_mem_nil
  disjoint := List.Pairwise.nil
  concatenatedModule root module := by
    rw [ChunkGraph.concatenatedModule, hbuilt.no_concatenations]
    simp
  entrypoints := rfl
  runtimeChildren := rfl
  blockChunkGroup := rfl
  chunkGroup := rfl
  chunkModules chunk module := by simp
  moduleChunks chunk module := by simp

/-- One more configuration, disjoint from those before. -/
theorem Concatenated.add (hgraph : graph.Sealable) (hreach : ReachesExactly graph reachable)
    (hentries : ∀ entry ∈ entries, entry < graph.modules.length)
    (hbuilt : Built graph reachable entries splitName chunkGraph)
    {applied : List ConcatenationConfiguration} {result : ChunkGraph}
    (h : Concatenated graph chunkGraph entries applied result)
    (hok : ConfigurationOk graph chunkGraph entries configuration)
    (hdisjoint : ∀ earlier ∈ applied, ∀ module ∈ earlier.modules, module ∉ configuration.modules) :
    Concatenated graph chunkGraph entries (applied ++ [configuration])
      (result.addConcatenatedModule (graph.concatenatedModule configuration)) := by
  obtain ⟨hmap, hentrypoints, hchildren, hblocks, hgroups, hmodules, hback⟩ :=
    result.addConcatenatedModule_spec (graph.concatenatedModule configuration)
  -- Nothing applied before has touched the chunks of this root.
  have hroot : ∀ chunk, chunk ∈ result.moduleChunks configuration.root ↔
      chunk ∈ chunkGraph.moduleChunks configuration.root := by
    intro chunk
    rw [h.moduleChunks]
    exact and_iff_left fun earlier hearlier hmem =>
      absurd hok.root_mem (hdisjoint earlier hearlier _ hmem)
  have hinner : ∀ chunk module, chunk ∈ chunkGraph.moduleChunks module →
      (¬ (chunk ∈ result.moduleChunks configuration.root ∧
        module ∈ (graph.concatenatedModule configuration).innerModules) ↔
          (module ∈ configuration.modules → module = configuration.root)) := by
    intro chunk module hchunk
    rw [hroot, mem_innerModules]
    constructor
    · intro hnot hmem
      by_contra hne
      exact hnot ⟨(hok.mem_moduleChunks_iff hgraph hreach hentries hbuilt hmem chunk).mp hchunk,
        hmem, hne⟩
    · rintro himp ⟨-, hmem, hne⟩
      exact hne (himp hmem)
  have happend : ∀ module, (∀ other ∈ applied ++ [configuration],
      module ∈ other.modules → module = other.root) ↔
        (∀ other ∈ applied, module ∈ other.modules → module = other.root) ∧
          (module ∈ configuration.modules → module = configuration.root) := by
    intro module
    simp only [List.mem_append, List.mem_singleton, or_imp, forall_and, forall_eq]
  refine ⟨?_, ?_, ?_, hentrypoints.trans h.entrypoints, hchildren.trans h.runtimeChildren,
    hblocks.trans h.blockChunkGroup, hgroups.trans h.chunkGroup, ?_, ?_⟩
  · intro other hother
    rcases List.mem_append.mp hother with hold | hnew
    · exact h.ok other hold
    · exact List.mem_singleton.mp hnew ▸ hok
  · refine List.pairwise_append.mpr ⟨h.disjoint, List.pairwise_singleton _ _, ?_⟩
    intro earlier hearlier other hother
    rw [List.mem_singleton.mp hother]
    exact hdisjoint earlier hearlier
  · intro root module
    rw [ChunkGraph.concatenatedModule, hmap,
      show (graph.concatenatedModule configuration).rootModule = configuration.root from rfl]
    by_cases hsame : configuration.root = root
    · subst hsame
      rw [AList.lookup_insert, Option.some_inj]
      constructor
      · rintro rfl
        exact ⟨configuration, List.mem_append_right _ (List.mem_singleton_self _), rfl, rfl⟩
      · rintro ⟨other, hother, heq, rfl⟩
        rcases List.mem_append.mp hother with hold | hnew
        · exact absurd (heq ▸ hok.root_mem) (hdisjoint other hold _ (h.ok other hold).root_mem)
        · rw [List.mem_singleton.mp hnew]
    · rw [AList.lookup_insert_ne (Ne.symm hsame), ← ChunkGraph.concatenatedModule,
        h.concatenatedModule]
      simp only [List.mem_append, List.mem_singleton]
      constructor
      · rintro ⟨other, hother, hrest⟩
        exact ⟨other, Or.inl hother, hrest⟩
      · rintro ⟨other, hother | rfl, hrest⟩
        · exact ⟨other, hother, hrest⟩
        · exact absurd hrest.1 hsame
  · intro chunk module
    rw [hmodules, h.chunkModules, happend, and_assoc]
    refine and_congr_right fun hmem => and_congr_right fun _ => ?_
    exact hinner chunk module ((hbuilt.moduleChunks_spec chunk module).mpr hmem)
  · intro chunk module
    rw [hback, h.moduleChunks, happend, and_assoc]
    exact and_congr_right fun hmem => and_congr_right fun _ => hinner chunk module hmem

/-- The run over the sorted configurations: each is skipped or joins those applied. -/
theorem foldl_applyConfiguration (hgraph : graph.Sealable)
    (hreach : ReachesExactly graph reachable)
    (hentries : ∀ entry ∈ entries, entry < graph.modules.length)
    (hbuilt : Built graph reachable entries splitName chunkGraph)
    (configurations applied : List ConcatenationConfiguration)
    (state : List ModuleHandle × ChunkGraph)
    (hok : ∀ configuration ∈ configurations, ConfigurationOk graph chunkGraph entries configuration)
    (hsorted : (applied ++ configurations).Pairwise fun earlier later =>
      later.modules.length ≤ earlier.modules.length)
    (hused : ∀ configuration ∈ applied, ∀ module ∈ configuration.modules, module ∈ state.1)
    (h : Concatenated graph chunkGraph entries applied state.2) :
    ∃ applied', Concatenated graph chunkGraph entries applied'
      (configurations.foldl graph.applyConfiguration state).2 := by
  induction configurations generalizing applied state with
  | nil => exact ⟨applied, h⟩
  | cons configuration configurations ih =>
      rw [List.foldl_cons, ModuleGraph.applyConfiguration]
      have hrest : ∀ other ∈ configurations, ConfigurationOk graph chunkGraph entries other :=
        fun other hother => hok other (List.mem_cons_of_mem _ hother)
      split_ifs with hskip
      · refine ih applied state hrest (hsorted.sublist ?_) hused h
        exact (List.sublist_cons_self configuration configurations).append_left applied
      · have hhead := hok configuration List.mem_cons_self
        have hdisjoint : ∀ earlier ∈ applied, ∀ module ∈ earlier.modules,
            module ∉ configuration.modules := by
          intro earlier hearlier
          refine (h.ok earlier hearlier).disjoint hgraph hreach hentries hbuilt hhead ?_
            fun hmem => hskip (hused earlier hearlier _ hmem)
          exact (List.pairwise_append.mp hsorted).2.2 earlier hearlier configuration
            List.mem_cons_self
        refine ih (applied ++ [configuration]) _ hrest ?_ ?_
          (h.add hgraph hreach hentries hbuilt hhead hdisjoint)
        · rw [List.append_assoc]
          exact hsorted
        · intro other hother module hmem
          rcases List.mem_append.mp hother with hold | hnew
          · exact List.mem_append_left _ (hused other hold module hmem)
          · exact List.mem_append_right _ (List.mem_singleton.mp hnew ▸ hmem)

theorem concatenated_optimizeChunkModules (hgraph : graph.Sealable)
    (hreach : ReachesExactly graph reachable)
    (hentries : ∀ entry ∈ entries, entry < graph.modules.length)
    (hbuilt : Built graph reachable entries splitName chunkGraph) :
    ∃ applied, Concatenated graph chunkGraph entries applied
      (graph.optimizeChunkModules chunkGraph entries) :=
  foldl_applyConfiguration hgraph hreach hentries hbuilt _ [] ([], chunkGraph)
    (fun _ hmem => configurationOk_of_mem hgraph.toIndexed hmem)
    ModuleGraph.findConfigurations_sorted (fun _ hnil => absurd hnil List.not_mem_nil)
    (concatenated_nil hbuilt)

/-- Two applied configurations that share a module are one. -/
theorem Concatenated.eq_of_mem {applied : List ConcatenationConfiguration} {result : ChunkGraph}
    (h : Concatenated graph chunkGraph entries applied result)
    {other : ConcatenationConfiguration} (hmem : configuration ∈ applied) (hother : other ∈ applied)
    {module : ModuleHandle} (hmodule : module ∈ configuration.modules)
    (hmodule' : module ∈ other.modules) : configuration = other := by
  by_contra hne
  have hsymmetric : Std.Symm fun configuration other : ConcatenationConfiguration =>
      ∀ module ∈ configuration.modules, module ∉ other.modules :=
    ⟨fun _ _ hdisjoint module hin hin' => hdisjoint module hin' hin⟩
  exact h.disjoint.forall hmem hother hne module hmodule hmodule'

end

/-- The chunk graph after module concatenation. -/
def Compilation.concatenatedChunkGraph (compilation : Compilation) : ChunkGraph :=
  compilation.moduleGraph.optimizeChunkModules compilation.chunkGraph compilation.entries

namespace OptimizedCompilation

theorem sealable (compilation : OptimizedCompilation) : compilation.moduleGraph.Sealable :=
  ⟨compilation.indexed, compilation.nonstatic_active⟩

theorem concatenated (compilation : OptimizedCompilation) :
    ∃ applied, Concatenated compilation.moduleGraph compilation.chunkGraph compilation.entries
      applied compilation.concatenatedChunkGraph :=
  concatenated_optimizeChunkModules compilation.sealable
    (reachesExactly_collectStaticReachable compilation.indexed) compilation.entries_lt
    compilation.built

end OptimizedCompilation

/-- **Module concatenation is lossless and disjoint.** The inner modules of an applied configuration
are in no chunk, its root is in the chunks it was in, whatever in a chunk actively imports an inner
module is in the configuration, and no module is in two of them. -/
theorem concatenation_lossless_disjoint (compilation : OptimizedCompilation) (root : ModuleHandle)
    (module : ConcatenatedModule)
    (happlied : compilation.concatenatedChunkGraph.concatenatedModule root = some module) :
    (∀ inner ∈ module.innerModules, ∀ chunk,
      inner ∉ compilation.concatenatedChunkGraph.chunkModules chunk ∧
        chunk ∉ compilation.concatenatedChunkGraph.moduleChunks inner) ∧
    (∀ chunk, (root ∈ compilation.concatenatedChunkGraph.chunkModules chunk ↔
        root ∈ compilation.chunkGraph.chunkModules chunk) ∧
      (chunk ∈ compilation.concatenatedChunkGraph.moduleChunks root ↔
        chunk ∈ compilation.chunkGraph.moduleChunks root)) ∧
    (∀ inner ∈ module.innerModules, ∀ connection ∈ compilation.moduleGraph.connections,
      connection.module = inner → connection.isActive = true →
        ∀ origin, connection.originModule = some origin →
          (∃ chunk, origin ∈ compilation.chunkGraph.chunkModules chunk) →
            origin ∈ module.modules) ∧
    ∀ otherRoot other, compilation.concatenatedChunkGraph.concatenatedModule otherRoot = some other →
      root ≠ otherRoot → ∀ member ∈ module.modules, member ∉ other.modules := by
  obtain ⟨applied, h⟩ := compilation.concatenated
  obtain ⟨configuration, hmem, rfl, rfl⟩ := (h.concatenatedModule _ _).mp happlied
  have hmodules : ∀ (configuration : ConcatenationConfiguration) (member : ModuleHandle),
      member ∈ (compilation.moduleGraph.concatenatedModule configuration).modules ↔
        member ∈ configuration.modules := by
    intro configuration member
    rw [ModuleGraph.concatenatedModule, ModuleGraph.mem_dedupAdjacent, List.mem_insertionSort]
  have hkept : ∀ other ∈ applied, configuration.root ∈ other.modules →
      configuration.root = other.root := fun other hother hroot =>
    congrArg ConcatenationConfiguration.root
      (h.eq_of_mem hmem hother (h.ok configuration hmem).root_mem hroot)
  refine ⟨?_, ?_, ?_, ?_⟩
  · intro inner hinner chunk
    obtain ⟨hin, hne⟩ := mem_innerModules.mp hinner
    exact ⟨fun hchunk => hne (((h.chunkModules chunk inner).mp hchunk).2 configuration hmem hin),
      fun hchunk => hne (((h.moduleChunks chunk inner).mp hchunk).2 configuration hmem hin)⟩
  · intro chunk
    exact ⟨(h.chunkModules chunk _).trans (and_iff_left hkept),
      (h.moduleChunks chunk _).trans (and_iff_left hkept)⟩
  · intro inner hinner connection hconnection hmodule hactive origin horigin hchunk
    obtain ⟨hin, hne⟩ := mem_innerModules.mp hinner
    obtain ⟨-, -, hincoming⟩ :=
      (h.ok configuration hmem).inner_spec compilation.indexed hin hne
    obtain ⟨chunk, hchunk⟩ := hchunk
    have hchunks : compilation.chunkGraph.moduleChunks origin ≠ [] :=
      List.ne_nil_of_mem ((compilation.built.moduleChunks_spec chunk origin).mpr hchunk)
    exact (hmodules configuration origin).mpr
      (hincoming connection hconnection hmodule hactive origin horigin hchunks).2
  · intro otherRoot other hother hne member hmember hmember'
    obtain ⟨configuration', hmem', rfl, rfl⟩ := (h.concatenatedModule _ _).mp hother
    have heq := h.eq_of_mem hmem hmem' ((hmodules configuration member).mp hmember)
      ((hmodules configuration' member).mp hmember')
    exact hne (congrArg ConcatenationConfiguration.root heq)

/-- The entry `a` imports `b`, and both can be concatenated. -/
def concatenationCompilation : OptimizedCompilation where
  options := { entryNames := ["main"] }
  moduleGraph := (ModuleGraph.ofModules [.javaScript "a" [.bareImport "b"] [],
    .javaScript "b" [] []] [0]).setExportsInfo 0 (.fromNames [])
  entries := [0]
  indexed := by decide
  entries_lt := by decide
  nonstatic_active := by decide

theorem concatenation_lossless_disjoint_inner :
    1 ∈ concatenationCompilation.chunkGraph.chunkModules 0 ∧
      1 ∉ concatenationCompilation.concatenatedChunkGraph.chunkModules 0 :=
  ⟨by decide, ((concatenation_lossless_disjoint concatenationCompilation 0 ⟨0, [0, 1]⟩ (by decide)).1
    1 (by decide) 0).1⟩

end Unpack
