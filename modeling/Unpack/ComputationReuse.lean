import Unpack.GraphSimilarity
import Unpack.LocatedDependencies
import Unpack.ModuleComputationCache

/-! What a memo that is kept says of the graph it is kept for. A module that is not affected reaches modules with
unchanged signatures only; from it the graph looks as the one did for which the memo was made. -/

namespace Unpack

open Worklist Similarity Memo

namespace ModuleComputationCacheState

variable {cache : ModuleComputationCacheState} {graph : ModuleGraph}

theorem refresh_self (affected : List ModuleHandle) (entries : ModuleIdentity → Option ModuleComputationEntry)
    (module : Module) : refresh graph affected entries module module.identity = some
      (if module.handle ∈ affected then { preChunkGraph := { signature := graph.preChunkGraphSignature module } }
        else (entries module.identity).getD
          { preChunkGraph := { signature := graph.preChunkGraphSignature module } }) :=
  Function.update_self _ _ _

theorem foldl_refresh {affected : List ModuleHandle} {modules : List Module}
    {entries : ModuleIdentity → Option ModuleComputationEntry} (hnodup : (modules.map (·.identity)).Nodup)
    (identity : ModuleIdentity) :
    (∀ module ∈ modules, module.identity = identity →
      modules.foldl (refresh graph affected) entries identity = refresh graph affected entries module identity) ∧
      ((∀ module ∈ modules, module.identity ≠ identity) →
        modules.foldl (refresh graph affected) entries identity = entries identity) := by
  induction modules generalizing entries with
  | nil => exact ⟨fun _ hmodule => absurd hmodule List.not_mem_nil, fun _ => rfl⟩
  | cons first modules ih =>
      obtain ⟨hfirst, hnodup⟩ := List.nodup_cons.mp hnodup
      have hfresh : ∀ other ∈ modules, other.identity ≠ first.identity := by
        intro other hother heq
        have hmem : other.identity ∈ modules.map (·.identity) := List.mem_map_of_mem hother
        rw [heq] at hmem
        exact hfirst hmem
      obtain ⟨hfound, hmissed⟩ := @ih (refresh graph affected entries first) hnodup
      have hother : first.identity ≠ identity → refresh graph affected entries first identity = entries identity :=
        fun hne => Function.update_of_ne (Ne.symm hne) _ _
      constructor
      · intro module hmodule hidentity
        rw [List.foldl_cons]
        rcases List.mem_cons.mp hmodule with rfl | hmodule
        · exact hmissed fun other hmember heq => hfresh other hmember (heq.trans hidentity.symm)
        · have hne : first.identity ≠ identity := fun heq => hfresh module hmodule (hidentity.trans heq.symm)
          rw [hfound module hmodule hidentity]
          subst hidentity
          rw [refresh_self, refresh_self, hother hne]
      · intro hnone
        rw [List.foldl_cons, hmissed fun other hmember => hnone other (List.mem_cons_of_mem _ hmember)]
        exact hother (hnone first List.mem_cons_self)

/-- The entry of a module once the cache has been prepared. -/
theorem modules_prepare (h : graph.Made) {module : Module} (hmodule : module ∈ graph.modules) :
    (cache.prepareBeforeChunkGraph graph).modules module.identity = some
      (if module.handle ∈ cache.affected graph
        then { preChunkGraph := { signature := graph.preChunkGraphSignature module } }
        else (cache.modules module.identity).getD
          { preChunkGraph := { signature := graph.preChunkGraphSignature module } }) := by
  have hfold := (@foldl_refresh graph (cache.affected graph) graph.modules (cache.retained graph) h.identities
    module.identity).1 module hmodule rfl
  refine hfold.trans ?_
  rw [refresh_self, retained, if_pos (List.mem_map_of_mem hmodule)]

theorem modules_prepare_of_absent {identity : ModuleIdentity} (h : graph.Made)
    (habsent : ∀ module ∈ graph.modules, module.identity ≠ identity) :
    (cache.prepareBeforeChunkGraph graph).modules identity = none := by
  have hfold := (@foldl_refresh graph (cache.affected graph) graph.modules (cache.retained graph) h.identities
    identity).2 habsent
  refine hfold.trans ?_
  rw [retained, if_neg]
  intro hmem
  obtain ⟨module, hmodule, heq⟩ := List.mem_map.mp hmem
  exact habsent module hmodule heq

theorem currentHandles_prepare (h : graph.Made) {module : Module} (hmodule : module ∈ graph.modules) :
    (cache.prepareBeforeChunkGraph graph).currentHandles module.identity = some module.handle := by
  show (graph.modules.find? fun other => other.identity = module.identity).map (·.handle) = some module.handle
  cases hfind : graph.modules.find? fun other => other.identity = module.identity with
  | none =>
      have hnone := List.find?_eq_none.mp hfind module hmodule
      simp at hnone
  | some found =>
      have hidentity : found.identity = module.identity := by simpa using List.find?_some hfind
      have hsame : found = module :=
        List.inj_on_of_nodup_map h.identities (List.mem_of_find?_eq_some hfind) hmodule hidentity
      rw [Option.map_some, hsame]

theorem mem_importers (h : graph.Indexed) {handle importer : ModuleHandle} :
    importer ∈ graph.importers handle ↔ ∃ connection ∈ graph.connections,
      connection.originModule = some importer ∧ connection.module = handle := by
  rw [ModuleGraph.importers, List.mem_filterMap]
  constructor
  · rintro ⟨connection, hconnection, horigin⟩
    obtain ⟨hmember, hmodule⟩ := h.mem_incomingConnections.mp hconnection
    exact ⟨connection, hmember, horigin, hmodule⟩
  · rintro ⟨connection, hmember, horigin, hmodule⟩
    exact ⟨connection, h.mem_incomingConnections.mpr ⟨hmember, hmodule⟩, horigin⟩

/-- Affected are the modules from which a module with another signature is reached. -/
theorem mem_affected_iff (h : graph.Made) {handle : ModuleHandle} :
    handle ∈ cache.affected graph ↔ ∃ module ∈ graph.modules, cache.isUnchanged graph module = false ∧
      Reach graph.importers module.handle handle := by
  have hrange : (graph.modules.map (·.handle)).Nodup := h.module_handles ▸ List.nodup_range
  have hmark := @Marking.mem_mark_iff _ _ graph.importers (List.range graph.modules.length) ?_
    ((graph.modules.filter fun module => !cache.isUnchanged graph module).map (·.handle))
    (hrange.sublist (List.filter_sublist.map _)) ?_ graph.modules.length (by rw [List.length_range]) handle
  · rw [affected, hmark]
    constructor
    · rintro ⟨start, hstart, hreach⟩
      obtain ⟨module, hmodule, rfl⟩ := List.mem_map.mp hstart
      obtain ⟨hmember, hchanged⟩ := List.mem_filter.mp hmodule
      exact ⟨module, hmember, by simpa using hchanged, hreach⟩
    · rintro ⟨module, hmember, hchanged, hreach⟩
      exact ⟨module.handle, List.mem_map_of_mem (List.mem_filter.mpr ⟨hmember, by simpa using hchanged⟩), hreach⟩
  · intro target _ importer himporter
    obtain ⟨connection, hconnection, horigin, -⟩ := (mem_importers h.toIndexed).mp himporter
    exact List.mem_range.mpr (h.origin_lt connection hconnection importer
      (by rw [horigin]; exact List.mem_singleton_self _))
  · intro start hstart
    rw [← h.module_handles]
    exact (List.filter_sublist.map _).subset hstart

theorem not_affected_target (h : graph.Made) {connection : ModuleGraphConnection}
    (hconnection : connection ∈ graph.connections) {origin : ModuleHandle}
    (horigin : connection.originModule = some origin)
    (hkept : origin ∉ cache.affected graph) : connection.module ∉ cache.affected graph := by
  intro htarget
  obtain ⟨module, hmember, hchanged, hreach⟩ := (mem_affected_iff h).mp htarget
  refine hkept ((mem_affected_iff h).mpr ⟨module, hmember, hchanged, hreach.tail ?_⟩)
  exact (mem_importers h.toIndexed).mpr ⟨connection, hconnection, horigin, rfl⟩

theorem isUnchanged_of_not_affected (h : graph.Made) {module : Module} (hmodule : module ∈ graph.modules)
    (hkept : module.handle ∉ cache.affected graph) : ∃ entry, cache.modules module.identity = some entry ∧
      entry.preChunkGraph.signature = graph.preChunkGraphSignature module := by
  have hunchanged : cache.isUnchanged graph module = true := by
    by_contra hchanged
    exact hkept ((mem_affected_iff h).mpr ⟨module, hmodule, Bool.not_eq_true _ ▸ hchanged, .refl _⟩)
  rw [isUnchanged, retained, if_pos (List.mem_map_of_mem hmodule), Option.any_eq_true] at hunchanged
  obtain ⟨entry, hentry, hsignature⟩ := hunchanged
  exact ⟨entry, hentry, by simpa using hsignature⟩

end ModuleComputationCacheState

structure OptimizationOptions where
  providedExports : Bool
  usedExports : Bool
  sideEffects : Bool
  deriving DecidableEq

namespace ModuleGraph

variable (optimization : OptimizationOptions) (entries : List ModuleHandle) (graph : ModuleGraph)

/-- `finish_modules` -/
def finishModules : ModuleGraph := if optimization.providedExports then graph.flagDependencyExports else graph

def finishModulesCached : CachedComputation ModuleGraph :=
  if optimization.providedExports then graph.flagDependencyExportsCached else pure graph

def flagUsage : ModuleGraph := if optimization.usedExports then graph.flagDependencyUsage entries else graph

/-- The graph that is sealed: usage is flagged first. -/
def optimizeWith : ModuleGraph :=
  if optimization.sideEffects then (graph.flagUsage optimization entries).optimizeDependencies
  else graph.flagUsage optimization entries

end ModuleGraph

/-- A compilation whose modules could be made; hooks may still keep it from being sealed. -/
structure CompilationTurn where
  graph : ModuleGraph
  entries : List ModuleHandle
  isSealed : Bool := true
  made : graph.Made
  entries_lt : ∀ entry ∈ entries, entry < graph.modules.length

namespace CompilationTurn

variable (optimization : OptimizationOptions) (options : CompilerOptions) (turn : CompilationTurn)

def flagged : ModuleGraph := (turn.graph.finishModules optimization).flagUsage optimization turn.entries

def optimized : ModuleGraph := (turn.graph.finishModules optimization).optimizeWith optimization turn.entries

/-- The finished modules and the chunk graph, without a cache. -/
def compile : ModuleGraph × Option ChunkGraph :=
  (turn.graph.finishModules optimization,
    if turn.isSealed then some (buildChunkGraph options (turn.optimized optimization) turn.entries) else none)

def compileCached : CachedComputation (ModuleGraph × Option ChunkGraph) := do
  .preparedFor turn.graph
  let graph ← turn.graph.finishModulesCached optimization
  if turn.isSealed then
    let chunkGraph ← buildChunkGraphWithCache (graph.optimizeWith optimization turn.entries) options turn.entries
    pure (graph, some chunkGraph)
  else pure (graph, none)

/-- What the compilations of a compiler yield, one after the other. -/
def compileAllCached : List CompilationTurn → ModuleComputationCacheState →
    List (Except String (ModuleGraph × Option ChunkGraph))
  | [], _ => []
  | turn :: turns, cache =>
      let (output, cache) := (turn.compileCached optimization options).run cache
      output :: compileAllCached turns cache

end CompilationTurn

/-- A module that kept its signature was parsed to the same, and one that has failed again was connected for the
same dependencies, if it was built before it failed. Where unused imports are pruned, a module that kept its
signature also kept its side effects flag and the exports that are used of it. -/
structure Steady (optimization : OptimizationOptions) (before after : CompilationTurn) : Prop where
  parsed : ∀ old ∈ before.graph.modules, ∀ new ∈ after.graph.modules, old.identity = new.identity →
    old.sourceHash = new.sourceHash → old.buildError = new.buildError →
      old.builtContent.parsed = new.builtContent.parsed
  failed : ∀ old ∈ before.graph.modules, ∀ new ∈ after.graph.modules, old.identity = new.identity →
    before.graph.preChunkGraphSignature old = after.graph.preChunkGraphSignature new → old.buildError ≠ none →
      ∀ c ∈ before.graph.outgoingConnections old.handle, ∀ d ∈ after.graph.outgoingConnections new.handle,
        c.originBlock = d.originBlock → c.originDependencyIndex = d.originDependencyIndex →
          c.dependency = d.dependency
  usage : optimization.sideEffects = true → ∀ old ∈ before.graph.modules, ∀ new ∈ after.graph.modules,
    old.identity = new.identity → before.graph.preChunkGraphSignature old = after.graph.preChunkGraphSignature new →
      old.isSideEffectFree = new.isSideEffectFree ∧
        (before.flagged optimization).exportsInfo old.handle = (after.flagged optimization).exportsInfo new.handle

namespace ModuleComputationCacheState

/-- Every module has its entry, and the memos in it are what would be computed. -/
structure Sound (optimization : OptimizationOptions) (turn : CompilationTurn) (cache : ModuleComputationCacheState) :
    Prop where
  entry : ∀ module ∈ turn.graph.modules, ∃ entry, cache.modules module.identity = some entry ∧
    entry.preChunkGraph.signature = turn.graph.preChunkGraphSignature module ∧
      (∀ info, entry.preChunkGraph.providedExports = some info → info = module.providedExports) ∧
        ∀ identities, entry.preChunkGraph.staticReachable = some identities →
          identities = ((turn.optimized optimization).collectStaticReachable module.handle).map turn.graph.identity
  handle : ∀ module ∈ turn.graph.modules, cache.currentHandles module.identity = some module.handle
  absent : ∀ identity, (∀ module ∈ turn.graph.modules, module.identity ≠ identity) → cache.modules identity = none

end ModuleComputationCacheState

namespace ModuleGraph

variable {graph : ModuleGraph}

theorem Indexed.withExportsInfos (h : graph.Indexed) {infos : List ExportsInfo}
    (hlength : infos.length = graph.modules.length) :
    ModuleGraph.Indexed { graph with exportsInfos := infos } :=
  { h with exportsInfos_length := hlength }

theorem identity_of_module {handle : ModuleHandle} {module : Module} (hmodule : graph.module handle = some module) :
    graph.identity handle = module.identity := by
  rw [identity, hmodule]
  rfl

theorem Made.module_of_mem (h : graph.Made) {module : Module} (hmodule : module ∈ graph.modules) :
    graph.module module.handle = some module := by
  obtain ⟨index, hindex⟩ := List.mem_iff_getElem?.mp hmodule
  have hhandle := h.toIndexed.handle_eq hindex
  rw [hhandle]
  exact hindex

/-- Modules are told apart by their identities. -/
theorem Made.eq_of_identity (h : graph.Made) {left right : ModuleHandle} {module module' : Module}
    (hleft : graph.module left = some module) (hright : graph.module right = some module')
    (hidentity : module.identity = module'.identity) : left = right := by
  have hsame : module = module' := List.inj_on_of_nodup_map h.identities (Indexed.mem_modules hleft)
    (Indexed.mem_modules hright) hidentity
  rw [← h.toIndexed.handle_eq hleft, ← h.toIndexed.handle_eq hright, hsame]

end ModuleGraph

namespace CompilationTurn

variable {optimization : OptimizationOptions} (turn : CompilationTurn)

/-- Flagging changes the exports infos only. -/
theorem exists_flagged : ∃ infos : List ExportsInfo, infos.length = turn.graph.modules.length ∧
    turn.flagged optimization = { turn.graph with exportsInfos := infos } := by
  have hfinished : ∃ infos : List ExportsInfo, infos.length = turn.graph.modules.length ∧
      turn.graph.finishModules optimization = { turn.graph with exportsInfos := infos } := by
    rw [ModuleGraph.finishModules]
    split_ifs
    · exact ⟨_, List.length_map _, rfl⟩
    · exact ⟨turn.graph.exportsInfos, turn.made.exportsInfos_length, rfl⟩
  obtain ⟨infos, hlength, heq⟩ := hfinished
  rw [flagged, heq, ModuleGraph.flagUsage]
  split_ifs
  · exact ⟨_, (List.length_mapIdx).trans hlength, rfl⟩
  · exact ⟨infos, hlength, rfl⟩

theorem indexed_flagged : (turn.flagged optimization).Indexed := by
  obtain ⟨infos, hlength, heq⟩ := @exists_flagged optimization turn
  rw [heq]
  exact turn.made.toIndexed.withExportsInfos hlength

theorem optimized_eq : turn.optimized optimization = if optimization.sideEffects
    then (turn.flagged optimization).optimizeDependencies else turn.flagged optimization := rfl

theorem modules_flagged : (turn.flagged optimization).modules = turn.graph.modules := by
  obtain ⟨infos, -, heq⟩ := @exists_flagged optimization turn
  rw [heq]

theorem indexed_optimized : (turn.optimized optimization).Indexed := by
  rw [optimized_eq]
  split_ifs
  · exact (ModuleGraph.optimizeDependencies_spec turn.indexed_flagged).1
  · exact turn.indexed_flagged

theorem modules_optimized : (turn.optimized optimization).modules = turn.graph.modules := by
  rw [optimized_eq]
  split_ifs
  · exact (ModuleGraph.optimizeDependencies_spec turn.indexed_flagged).2.1.trans turn.modules_flagged
  · exact turn.modules_flagged

theorem identity_optimized (handle : ModuleHandle) :
    (turn.optimized optimization).identity handle = turn.graph.identity handle := by
  rw [ModuleGraph.identity, ModuleGraph.identity, ModuleGraph.module, ModuleGraph.module, modules_optimized]

end CompilationTurn

section

variable {optimization : OptimizationOptions} {before after : CompilationTurn} {cache : ModuleComputationCacheState}

/-- A module that is not affected, with the module that it was before. -/
def Kept (cache : ModuleComputationCacheState) (before after : CompilationTurn) (old new : ModuleHandle) : Prop :=
  new ∉ cache.affected after.graph ∧ ∃ module module', before.graph.module old = some module ∧
    after.graph.module new = some module' ∧ module.identity = module'.identity

/-- An unaffected module was there before, with the signature that it has now. -/
theorem ModuleComputationCacheState.Sound.kept (h : Sound optimization before cache) {new : Module}
    (hnew : new ∈ after.graph.modules) (hkept : new.handle ∉ cache.affected after.graph) :
    ∃ old ∈ before.graph.modules, Kept cache before after old.handle new.handle ∧ old.identity = new.identity ∧
      before.graph.preChunkGraphSignature old = after.graph.preChunkGraphSignature new := by
  obtain ⟨entry, hentry, hsignature⟩ :=
    ModuleComputationCacheState.isUnchanged_of_not_affected after.made hnew hkept
  have hpresent : ∃ old ∈ before.graph.modules, old.identity = new.identity := by
    by_contra hnone
    rw [h.absent new.identity fun old hold heq => hnone ⟨old, hold, heq⟩] at hentry
    cases hentry
  obtain ⟨old, hold, hidentity⟩ := hpresent
  obtain ⟨entry', hentry', hsignature', -⟩ := h.entry old hold
  rw [hidentity, hentry] at hentry'
  refine ⟨old, hold, ⟨hkept, old, new, before.made.module_of_mem hold, after.made.module_of_mem hnew, hidentity⟩,
    hidentity, ?_⟩
  rw [← hsignature', ← Option.some.inj hentry', hsignature]

theorem Kept.signature (h : ModuleComputationCacheState.Sound optimization before cache) {old new : ModuleHandle}
    (hkept : Kept cache before after old new) : ∃ module module', before.graph.module old = some module ∧
      after.graph.module new = some module' ∧ module.identity = module'.identity ∧
        before.graph.preChunkGraphSignature module = after.graph.preChunkGraphSignature module' := by
  obtain ⟨hunaffected, module, module', hmodule, hmodule', hidentity⟩ := hkept
  have hhandle := after.made.toIndexed.handle_eq hmodule'
  obtain ⟨other, hother, -, hidentity', hsignature⟩ :=
    h.kept (ModuleGraph.Indexed.mem_modules hmodule') (hhandle.symm ▸ hunaffected)
  have hsame : other = module := List.inj_on_of_nodup_map before.made.identities hother
    (ModuleGraph.Indexed.mem_modules hmodule) (hidentity'.trans hidentity.symm)
  exact ⟨module, module', hmodule, hmodule', hidentity, hsame ▸ hsignature⟩

theorem biUnique_kept : Relator.BiUnique (Kept cache before after) := by
  constructor
  · rintro old old' new ⟨-, module, module', hmodule, hmodule', hidentity⟩
      ⟨-, other, other', hother, hother', hidentity'⟩
    obtain rfl := Option.some.inj (hmodule'.symm.trans hother')
    exact before.made.eq_of_identity hmodule hother (hidentity.trans hidentity'.symm)
  · rintro old new new' ⟨-, module, module', hmodule, hmodule', hidentity⟩
      ⟨-, other, other', hother, hother', hidentity'⟩
    obtain rfl := Option.some.inj (hmodule.symm.trans hother)
    exact after.made.eq_of_identity hmodule' hother' (hidentity.symm.trans hidentity')

theorem ModuleGraph.Made.exists_located {graph : ModuleGraph} (h : graph.Made) {handle : ModuleHandle} {module : Module}
    (hmodule : graph.module handle = some module) (hbuilt : module.buildError = none)
    {connection : ModuleGraphConnection} (hconnection : connection ∈ graph.outgoingConnections handle) :
    ∃ location, (location, connection.dependency) ∈ module.locatedDependencies ∧
      connection.originBlock = location.block ∧ connection.originDependencyIndex = some location.dependencyIndex := by
  obtain ⟨hmember, horigin⟩ := h.toIndexed.mem_outgoingConnections.mp hconnection
  have hhandle := h.toIndexed.handle_eq hmodule
  obtain ⟨⟨location, dependency⟩, hlocated, hat, hdependency⟩ := h.located connection hmember module
    (ModuleGraph.Indexed.mem_modules hmodule) hbuilt (hhandle.symm ▸ horigin)
  exact ⟨location, by rw [hdependency]; exact hlocated, hat.2.1, hat.2.2⟩

/-- Connections that a signature does not tell apart. -/
theorem sameConnection_of_reference (h : ModuleComputationCacheState.Sound optimization before cache)
    (hsteady : Steady optimization before after) {old new : ModuleHandle} (hkept : Kept cache before after old new)
    {c d : ModuleGraphConnection} (hc : c ∈ before.graph.outgoingConnections old)
    (hd : d ∈ after.graph.outgoingConnections new) (hblock : c.originBlock = d.originBlock)
    (hindex : c.originDependencyIndex = d.originDependencyIndex)
    (htarget : before.graph.identity c.module = after.graph.identity d.module) :
    SameConnection (Kept cache before after) c d := by
  obtain ⟨module, module', hmodule, hmodule', hidentity, hsignature⟩ := hkept.signature h
  have hparsed := hsteady.parsed module (ModuleGraph.Indexed.mem_modules hmodule) module'
    (ModuleGraph.Indexed.mem_modules hmodule') hidentity (congrArg (·.sourceHash) hsignature)
    (congrArg (·.buildError) hsignature)
  obtain ⟨hcMember, hcOrigin⟩ := before.made.toIndexed.mem_outgoingConnections.mp hc
  obtain ⟨hdMember, hdOrigin⟩ := after.made.toIndexed.mem_outgoingConnections.mp hd
  have hdependency : c.dependency = d.dependency := by
    by_cases hbuilt : module.buildError = none
    swap
    · exact hsteady.failed module (ModuleGraph.Indexed.mem_modules hmodule) module'
        (ModuleGraph.Indexed.mem_modules hmodule') hidentity hsignature hbuilt c
        (by rwa [before.made.toIndexed.handle_eq hmodule]) d (by rwa [after.made.toIndexed.handle_eq hmodule'])
        hblock hindex
    have hbuilt' : module'.buildError = none := (congrArg (·.buildError) hsignature).symm.trans hbuilt
    obtain ⟨location, hlocated, hat, hat'⟩ := before.made.exists_located hmodule hbuilt hc
    obtain ⟨location', hlocated', hatD, hatD'⟩ := after.made.exists_located hmodule' hbuilt' hd
    have hsame : location = location' := by
      obtain ⟨block, index⟩ := location
      obtain ⟨block', index'⟩ := location'
      obtain rfl : block = block' := hat.symm.trans (hblock.trans hatD)
      obtain rfl : index = index' := Option.some.inj (hat'.symm.trans (hindex.trans hatD'))
      rfl
    have hlists : module.locatedDependencies = module'.locatedDependencies := by
      rw [Module.locatedDependencies, Module.locatedDependencies,
        Module.dependencies, Module.dependencies, Module.blocks,
        Module.blocks, hparsed]
    rw [hlists, hsame] at hlocated
    exact Module.located_unique hlocated hlocated'
  obtain ⟨target, htargetModule⟩ := ModuleGraph.Indexed.exists_module (before.made.target_lt c hcMember)
  obtain ⟨target', htargetModule'⟩ := ModuleGraph.Indexed.exists_module (after.made.target_lt d hdMember)
  rw [ModuleGraph.identity_of_module htargetModule, ModuleGraph.identity_of_module htargetModule'] at htarget
  refine ⟨⟨old, new, hcOrigin, hdOrigin, hkept⟩, hblock, hdependency, ?_, ?_⟩
  · exact ⟨ModuleComputationCacheState.not_affected_target after.made hdMember hdOrigin hkept.1, target,
      target', htargetModule, htargetModule', htarget⟩
  · rw [before.made.active c hcMember, after.made.active d hdMember]

/-- From the modules that are not affected the two graphs look alike. -/
theorem graphsAlike_kept (h : ModuleComputationCacheState.Sound optimization before cache)
    (hsteady : Steady optimization before after) : GraphsAlike before.graph after.graph (Kept cache before after) where
  indexed := before.made.toIndexed
  indexed' := after.made.toIndexed
  unique := biUnique_kept
  lt := by
    rintro old new ⟨-, module, module', hmodule, hmodule', -⟩
    exact ⟨ModuleGraph.Indexed.module_lt hmodule, ModuleGraph.Indexed.module_lt hmodule'⟩
  outgoing := by
    intro old new hkept
    obtain ⟨module, module', hmodule, hmodule', -, hsignature⟩ := hkept.signature h
    have hreferences : List.Forall₂ (fun c d : ModuleGraphConnection =>
        (⟨c.originBlock, c.originDependencyIndex, before.graph.identity c.module⟩ : PreChunkGraphModuleReference) =
          ⟨d.originBlock, d.originDependencyIndex, after.graph.identity d.module⟩)
        (before.graph.outgoingConnections old) (after.graph.outgoingConnections new) := by
      have hlists := congrArg (·.references) hsignature
      simp only [ModuleGraph.preChunkGraphSignature, before.made.toIndexed.handle_eq hmodule,
        after.made.toIndexed.handle_eq hmodule'] at hlists
      rw [← List.forall₂_map_right_iff, ← List.forall₂_map_left_iff, List.forall₂_eq_eq_eq]
      exact hlists
    have hmembers := (List.forall₂_and_left _ _).mpr ⟨fun c hc => hc, List.Forall₂.flip ((List.forall₂_and_left _ _).mpr
      ⟨fun d hd => hd, hreferences.flip⟩)⟩
    refine hmembers.imp fun c d hcd => ?_
    obtain ⟨hc, hd, hreference⟩ := hcd
    have hfields := PreChunkGraphModuleReference.mk.inj hreference
    exact sameConnection_of_reference h hsteady hkept hc hd hfields.1 hfields.2.1 hfields.2.2

theorem graphsAlike_optimized (h : ModuleComputationCacheState.Sound optimization before cache)
    (hsteady : Steady optimization before after) :
    GraphsAlike (before.optimized optimization) (after.optimized optimization) (Kept cache before after) := by
  have halike := graphsAlike_kept h hsteady
  have hflagged : GraphsAlike (before.flagged optimization) (after.flagged optimization) (Kept cache before after) := by
    obtain ⟨infos, hlength, heq⟩ := @CompilationTurn.exists_flagged optimization before
    obtain ⟨infos', hlength', heq'⟩ := @CompilationTurn.exists_flagged optimization after
    rw [heq, heq']
    exact ⟨halike.indexed.withExportsInfos hlength, halike.indexed'.withExportsInfos hlength', halike.unique, halike.lt,
      halike.outgoing⟩
  rw [CompilationTurn.optimized_eq, CompilationTurn.optimized_eq]
  split_ifs with hsideEffects
  · refine hflagged.optimizeDependencies ⟨?_, ?_⟩
    · intro old new hkept
      obtain ⟨module, module', hmodule, hmodule', hidentity, hsignature⟩ := hkept.signature h
      have hfree := (hsteady.usage hsideEffects module (ModuleGraph.Indexed.mem_modules hmodule) module'
        (ModuleGraph.Indexed.mem_modules hmodule') hidentity hsignature).1
      rw [GraphsAlike.isFlaggedSideEffectFree_congr before.modules_flagged,
        GraphsAlike.isFlaggedSideEffectFree_congr after.modules_flagged, ModuleGraph.isFlaggedSideEffectFree,
        ModuleGraph.isFlaggedSideEffectFree, hmodule, hmodule']
      exact hfree
    · intro old new hkept
      obtain ⟨module, module', hmodule, hmodule', hidentity, hsignature⟩ := hkept.signature h
      have hinfo := (hsteady.usage hsideEffects module (ModuleGraph.Indexed.mem_modules hmodule) module'
        (ModuleGraph.Indexed.mem_modules hmodule') hidentity hsignature).2
      rw [before.made.toIndexed.handle_eq hmodule, after.made.toIndexed.handle_eq hmodule'] at hinfo
      exact hinfo
  · exact hflagged

/-- **Preparing.** The memos that are kept are right for the next compilation. -/
theorem ModuleComputationCacheState.Sound.prepare (h : Sound optimization before cache)
    (hsteady : Steady optimization before after) :
    Sound optimization after (cache.prepareBeforeChunkGraph after.graph) where
  entry := by
    intro new hnew
    refine ⟨_, modules_prepare after.made hnew, ?_⟩
    split_ifs with haffected
    · refine ⟨rfl, ?_, ?_⟩
      · intro info hinfo
        cases hinfo
      · intro identities hidentities
        cases hidentities
    · obtain ⟨old, hold, hkept, hidentity, hsignature⟩ := h.kept hnew haffected
      obtain ⟨entry, hentry, hstored, hprovided, hreachable⟩ := h.entry old hold
      rw [← hidentity, hentry, Option.getD_some]
      refine ⟨hstored.trans hsignature, ?_, ?_⟩
      · intro info hinfo
        have hparsed := hsteady.parsed old hold new hnew hidentity (congrArg (·.sourceHash) hsignature)
          (congrArg (·.buildError) hsignature)
        rw [hprovided info hinfo, Module.providedExports, Module.providedExports, Module.parsedData, Module.parsedData,
          Module.dependencies, Module.dependencies, hparsed]
      · intro identities hidentities
        rw [hreachable identities hidentities]
        refine map_eq_map ((graphsAlike_optimized h hsteady).collectStaticReachable hkept) ?_
        rintro a b ⟨-, module, module', hmodule, hmodule', heq⟩
        rw [ModuleGraph.identity_of_module hmodule, ModuleGraph.identity_of_module hmodule', heq]
  handle := fun _ hnew => currentHandles_prepare after.made hnew
  absent := fun _ habsent => modules_prepare_of_absent after.made habsent

end

section

variable {optimization : OptimizationOptions} {turn : CompilationTurn}

/-- A computation that asks a sound cache first yields what it would compute. -/
theorem yields_remembered {α : Type} {Right : ModuleComputationCacheState → Prop}
    {find : ModuleComputationCacheState → Option α}
    {store : ModuleComputationCacheState → α → Except String ModuleComputationCacheState} {value : α}
    (hfind : ∀ cache, Right cache → ∀ found, find cache = some found → found = value)
    (hstore : ∀ cache, Right cache → ∃ stored, store cache value = .ok stored ∧ Right stored) :
    Yields Right (CachedComputation.remembered find store value).run (.ok value) := by
  intro cache hcache
  rw [CachedComputation.remembered, ExceptT.run_mk]
  cases hfound : find cache with
  | some found => exact ⟨congrArg _ (hfind cache hcache found hfound), hcache⟩
  | none =>
      obtain ⟨stored, hstored, hright⟩ := hstore cache hcache
      rw [hstored]
      exact ⟨rfl, hright⟩

namespace ModuleComputationCacheState

/-- A memo that is right may be stored with the entry of its module. -/
theorem Sound.modifyEntry {cache : ModuleComputationCacheState} (h : Sound optimization turn cache) {module : Module}
    (hmodule : module ∈ turn.graph.modules) {f : ModuleComputationEntry → ModuleComputationEntry}
    (hsignature : ∀ entry, (f entry).preChunkGraph.signature = entry.preChunkGraph.signature)
    (hprovided : ∀ entry info, (f entry).preChunkGraph.providedExports = some info →
      entry.preChunkGraph.providedExports = some info ∨ info = module.providedExports)
    (hreachable : ∀ entry identities, (f entry).preChunkGraph.staticReachable = some identities →
      entry.preChunkGraph.staticReachable = some identities ∨ identities =
        ((turn.optimized optimization).collectStaticReachable module.handle).map turn.graph.identity) :
    ∃ stored, cache.modifyEntry module.identity f = .ok stored ∧ Sound optimization turn stored := by
  obtain ⟨entry, hentry, hstored, hinfo, hidentities⟩ := h.entry module hmodule
  refine ⟨{ cache with modules := Function.update cache.modules module.identity (some (f entry)) },
    ?_, ?_, h.handle, ?_⟩
  · rw [ModuleComputationCacheState.modifyEntry, hentry]
  · intro other hother
    by_cases heq : other.identity = module.identity
    · obtain rfl := List.inj_on_of_nodup_map turn.made.identities hother hmodule heq
      refine ⟨f entry, Function.update_self _ _ _, (hsignature entry).trans hstored, ?_, ?_⟩
      · exact fun info hf => (hprovided entry info hf).elim (hinfo info) id
      · exact fun identities hf => (hreachable entry identities hf).elim (hidentities identities) id
    · obtain ⟨entry', hentry', hrest⟩ := h.entry other hother
      exact ⟨entry', (Function.update_of_ne heq _ _).trans hentry', hrest⟩
  · intro identity habsent
    exact (Function.update_of_ne (fun heq => habsent module hmodule heq.symm) _ _).trans (h.absent identity habsent)

theorem mapM_currentHandles {cache : ModuleComputationCacheState} (h : Sound optimization turn cache)
    {handles : List ModuleHandle} (hlt : ∀ handle ∈ handles, handle < turn.graph.modules.length) :
    (handles.map turn.graph.identity).mapM cache.currentHandles = some handles := by
  induction handles with
  | nil => rfl
  | cons handle handles ih =>
      obtain ⟨module, hmodule⟩ := ModuleGraph.Indexed.exists_module (hlt handle List.mem_cons_self)
      have hfound := h.handle module (ModuleGraph.Indexed.mem_modules hmodule)
      rw [turn.made.toIndexed.handle_eq hmodule] at hfound
      rw [List.map_cons, List.mapM_cons, ModuleGraph.identity_of_module hmodule, hfound,
        ih fun other hother => hlt other (List.mem_cons_of_mem _ hother)]
      rfl

end ModuleComputationCacheState

open ModuleComputationCacheState

theorem yields_collectStaticReachable {start : ModuleHandle} (hstart : start < turn.graph.modules.length) :
    Yields (Sound optimization turn) ((turn.optimized optimization).collectStaticReachableCached start).run
      (.ok ((turn.optimized optimization).collectStaticReachable start)) := by
  obtain ⟨module, hmodule⟩ := ModuleGraph.Indexed.exists_module hstart
  have hmember := ModuleGraph.Indexed.mem_modules hmodule
  have hhandle := turn.made.toIndexed.handle_eq hmodule
  have hidentity : (turn.optimized optimization).identity start = module.identity :=
    (turn.identity_optimized start).trans (ModuleGraph.identity_of_module hmodule)
  rw [ModuleGraph.collectStaticReachableCached, hidentity]
  refine yields_remembered ?_ ?_
  · intro cache hcache found hfound
    obtain ⟨entry, hentry, -, -, hreachable⟩ := hcache.entry module hmember
    rw [getStaticReachable, hentry, Option.bind_some] at hfound
    cases hstored : entry.preChunkGraph.staticReachable with
    | none =>
        rw [hstored] at hfound
        cases hfound
    | some identities =>
        rw [hstored, Option.bind_some, hreachable identities hstored, mapM_currentHandles hcache, hhandle] at hfound
        · exact (Option.some.inj hfound).symm
        · intro handle hin
          rw [hhandle] at hin
          have hreach := (ModuleGraph.mem_collectStaticReachable turn.indexed_optimized
            (by rw [turn.modules_optimized]; exact hstart) handle).mp hin
          have hlt := hreach.lt turn.indexed_optimized (by rw [turn.modules_optimized]; exact hstart)
          rwa [turn.modules_optimized] at hlt
  · intro cache hcache
    refine hcache.modifyEntry hmember (fun _ => rfl) (fun _ _ hinfo => Or.inl hinfo) ?_
    intro entry identities hidentities
    refine Or.inr ?_
    rw [← Option.some.inj hidentities, hhandle]
    exact List.map_congr_left fun handle _ => turn.identity_optimized handle

theorem yields_providedExports {module : Module} (hmodule : module ∈ turn.graph.modules) :
    Yields (Sound optimization turn) (ModuleGraph.providedExportsCached module).run (.ok module.providedExports) := by
  refine yields_remembered ?_ ?_
  · intro cache hcache found hfound
    obtain ⟨entry, hentry, -, hprovided, -⟩ := hcache.entry module hmodule
    rw [getProvidedExports, hentry, Option.bind_some] at hfound
    exact hprovided found hfound
  · intro cache hcache
    refine hcache.modifyEntry hmodule (fun _ => rfl) ?_ fun _ _ hidentities => Or.inl hidentities
    intro entry info hinfo
    exact Or.inr (Option.some.inj hinfo).symm

theorem yields_flagDependencyExports :
    Yields (Sound optimization turn) turn.graph.flagDependencyExportsCached.run
      (.ok turn.graph.flagDependencyExports) := by
  have hinfos : Yields (Sound optimization turn) (turn.graph.modules.mapM ModuleGraph.providedExportsCached).run
      (.ok (turn.graph.modules.map (·.providedExports))) :=
    Yields.mapM_ok fun module hmodule => yields_providedExports hmodule
  exact hinfos.bindOk (Yields.pure _)

end

section

variable {Right : ModuleComputationCacheState → Prop} {graph : ModuleGraph}

variable (hindexed : graph.Indexed)
  (hreachable : ∀ start < graph.modules.length,
    Yields Right (graph.collectStaticReachableCached start).run (.ok (graph.collectStaticReachable start)))

include hreachable

theorem yields_visitImport {parent : LogicalChunkGroup} {resulting : ModuleMask} {origin : AsyncBlockOrigin}
    {target : ModuleHandle} (htarget : target < graph.modules.length) (planning : AsyncPlanning) :
    Yields Right (visitImportCached graph parent resulting planning (origin, target)).run
      (.ok (visitImport graph.collectStaticReachable parent resulting planning (origin, target))) := by
  rw [visitImportCached, visitImport]
  split_ifs
  · exact Yields.pure _
  · cases planning.plans.lookup target with
    | some plan => exact Yields.pure _
    | none => exact (hreachable target htarget).bindOk (Yields.pure _)

include hindexed

theorem yields_planPending (entrypoints : List EntrypointAsyncPlan) (fuel : Nat) (planning : AsyncPlanning) :
    Yields Right (planPendingCached graph entrypoints fuel planning).run
      (.ok (Fixpoint.iterate (planParent graph graph.collectStaticReachable entrypoints) fuel planning)) := by
  induction fuel generalizing planning with
  | zero => exact Yields.pure _
  | succ fuel ih =>
      rw [planPendingCached, Fixpoint.iterate, planParent]
      cases planning.pending with
      | nil => exact Yields.pure _
      | cons parent pending =>
          dsimp only
          cases ({ planning with pending } : AsyncPlanning).parentModules entrypoints parent with
          | none => exact ih _
          | some found =>
              obtain ⟨modules, resulting⟩ := found
              refine (Yields.foldlM ?_ _).bindOk (ih _)
              rintro ⟨origin, target⟩ hmember later
              have himports := (ModuleGraph.mem_dynamicImportOrigins.mp hmember).2
              exact yields_visitImport hreachable (ModuleGraph.importBlockTarget_lt hindexed himports.2) later

theorem yields_buildChunkGraph {options : CompilerOptions} {entries : List ModuleHandle}
    (hentries : ∀ entry ∈ entries, entry < graph.modules.length) :
    Yields Right (buildChunkGraphWithCache graph options entries).run
      (.ok (buildChunkGraph options graph entries)) := by
  rw [buildChunkGraphWithCache]
  refine (Yields.mapM_ok fun entry hentry => hreachable entry (hentries entry hentry)).bindOk ?_
  have hinitial : ∀ entry ∈ entries.zipIdx,
      (entries.map graph.collectStaticReachable).getD entry.2 [] = graph.collectStaticReachable entry.1 := by
    rintro ⟨entry, index⟩ hmember
    rw [List.mem_zipIdx_iff_getElem?] at hmember
    rw [List.getD_eq_getElem?_getD, List.getElem?_map, hmember]
    rfl
  have hplans : (entries.zipIdx.map fun entry => entrypointPlan graph
      (fun _ => (entries.map graph.collectStaticReachable).getD entry.2 []) entry.2 entry.1) =
        entrypointPlans graph graph.collectStaticReachable entries := by
    refine List.map_congr_left fun entry hmember => ?_
    unfold entrypointPlan
    rw [hinitial entry hmember]
  have hgroups : (entries.zipIdx.foldl (fun chunkGraph entry => addEntrypointGroup
      (fun _ => (entries.map graph.collectStaticReachable).getD entry.2 []) options chunkGraph entry) {}) =
        entries.zipIdx.foldl (addEntrypointGroup graph.collectStaticReachable options) {} := by
    refine List.foldl_ext _ _ _ fun chunkGraph entry hmember => ?_
    obtain ⟨entryModule, entryIndex⟩ := entry
    rw [addEntrypointGroup, addEntrypointGroup, hinitial _ hmember]
  dsimp only
  rw [hplans, hgroups]
  exact (yields_planPending hindexed hreachable _ _ _).bindOk (Yields.pure _)

end

namespace CompilationTurn

variable {optimization : OptimizationOptions} {options : CompilerOptions}

open ModuleComputationCacheState

/-- Once the cache has been prepared for it, a compilation yields what it yields without one. -/
theorem compileCached_eq (turn : CompilationTurn) {cache : ModuleComputationCacheState}
    (hprepared : Sound optimization turn (cache.prepareBeforeChunkGraph turn.graph)) :
    ((turn.compileCached optimization options).run cache).1 = .ok (turn.compile optimization options) ∧
      Sound optimization turn ((turn.compileCached optimization options).run cache).2 := by
  have hfinished : Yields (Sound optimization turn) (turn.graph.finishModulesCached optimization).run
      (.ok (turn.graph.finishModules optimization)) := by
    rw [ModuleGraph.finishModules, ModuleGraph.finishModulesCached]
    split_ifs
    · exact yields_flagDependencyExports
    · exact Yields.pure _
  have hchunks : Yields (Sound optimization turn)
      (buildChunkGraphWithCache (turn.optimized optimization) options turn.entries).run
      (.ok (buildChunkGraph options (turn.optimized optimization) turn.entries)) := by
    refine yields_buildChunkGraph turn.indexed_optimized ?_ ?_
    · rw [turn.modules_optimized]
      exact fun start hstart => yields_collectStaticReachable hstart
    · rw [turn.modules_optimized]
      exact turn.entries_lt
  have hrest : Yields (Sound optimization turn) (do
      let graph ← turn.graph.finishModulesCached optimization
      if turn.isSealed then
        let chunkGraph ← buildChunkGraphWithCache (graph.optimizeWith optimization turn.entries) options turn.entries
        pure (graph, some chunkGraph)
      else pure (graph, none) : CachedComputation _).run (.ok (turn.compile optimization options)) := by
    refine hfinished.bindOk ?_
    rw [compile]
    split_ifs
    · exact hchunks.bindOk (Yields.pure _)
    · exact Yields.pure _
  exact hrest _ hprepared

/-- Nothing has been compiled yet. -/
def initial : CompilationTurn where
  graph := .empty
  entries := []
  made := by decide
  entries_lt := by simp

theorem sound_initial : Sound optimization initial {} where
  entry := fun _ hmodule => absurd hmodule List.not_mem_nil
  handle := fun _ hmodule => absurd hmodule List.not_mem_nil
  absent := fun _ _ => rfl

theorem steady_initial (turn : CompilationTurn) : Steady optimization initial turn where
  parsed := fun _ hmodule => absurd hmodule List.not_mem_nil
  failed := fun _ hmodule => absurd hmodule List.not_mem_nil
  usage := fun _ _ hmodule => absurd hmodule List.not_mem_nil

theorem compileAllCached_cons (turn : CompilationTurn) (turns : List CompilationTurn)
    (cache : ModuleComputationCacheState) :
    compileAllCached optimization options (turn :: turns) cache =
      ((turn.compileCached optimization options).run cache).1 ::
        compileAllCached optimization options turns ((turn.compileCached optimization options).run cache).2 := rfl

theorem compileAllCached_of_sound {before : CompilationTurn} {turns : List CompilationTurn}
    (hsteady : (before :: turns).IsChain (Steady optimization)) {cache : ModuleComputationCacheState}
    (hcache : Sound optimization before cache) :
    compileAllCached optimization options turns cache =
      turns.map fun turn => .ok (turn.compile optimization options) := by
  induction turns generalizing before cache with
  | nil => rfl
  | cons turn turns ih =>
      obtain ⟨hfirst, hrest⟩ := List.isChain_cons_cons.mp hsteady
      obtain ⟨hvalue, hsound⟩ := @compileCached_eq optimization options turn _ (hcache.prepare hfirst)
      rw [compileAllCached_cons, List.map_cons, hvalue, ih hrest hsound]

/-- **Unaffected modules.** Over any sequence of compilations of one compiler, the memos of modules that are not
affected change nothing: the finished modules and the chunk graphs are those of compilations without the cache. -/
theorem compileAllCached_eq_compile (optimization : OptimizationOptions) (options : CompilerOptions)
    (turns : List CompilationTurn) (hsteady : turns.IsChain (Steady optimization)) :
    compileAllCached optimization options turns {} =
      turns.map fun turn => .ok (turn.compile optimization options) := by
  refine compileAllCached_of_sound ?_ sound_initial
  cases turns with
  | nil => exact List.isChain_singleton _
  | cons turn turns => exact List.isChain_cons_cons.mpr ⟨steady_initial turn, hsteady⟩

/-- A module that imports others for their side effects. -/
def importing (name : String) (sourceHash : UInt64) (requests : List String) : Module where
  handle := 0
  identity := { resource := [name] }
  builtContent := { parsed := { dependencies := requests.map Dependency.bareImport }, sourceHash }
  harmony := true

def firstTurn : CompilationTurn where
  graph := .ofModules [importing "a" 1 ["b"], importing "b" 2 ["c"], importing "c" 3 []] [0]
  entries := [0]
  made := by decide
  entries_lt := by decide

/-- The entry comes to import another module. -/
def editedTurn : CompilationTurn where
  graph := .ofModules [importing "a" 4 ["d", "b"], importing "d" 5 ["c"], importing "b" 2 ["c"], importing "c" 3 []] [0]
  entries := [0]
  made := by decide
  entries_lt := by decide

theorem steady_editedTurn : Steady ⟨true, false, true⟩ firstTurn editedTurn where
  parsed := by decide
  failed := by decide
  usage := by decide

theorem compileAllCached_eq_compile_edited :
    compileAllCached ⟨true, false, true⟩ { entryNames := ["main"] } [firstTurn, editedTurn] {} =
      [firstTurn, editedTurn].map fun turn => .ok (turn.compile ⟨true, false, true⟩ { entryNames := ["main"] }) :=
  compileAllCached_eq_compile _ _ _ (List.isChain_cons_cons.mpr ⟨steady_editedTurn, List.isChain_singleton _⟩)

/-- Of the imported module only the flag that its package gives it may be edited. -/
def flaggedTurn (sideEffectFree : Bool) : CompilationTurn where
  graph := .ofModules
    [importing "a" 1 ["b"], { importing "b" 2 [] with factorySideEffectFree := some sideEffectFree }] [0]
  entries := [0]
  made := by cases sideEffectFree <;> decide
  entries_lt := by cases sideEffectFree <;> decide

/-- The modules of the first chunk. -/
def loaded (output : ModuleGraph × Option ChunkGraph) : Option (List ModuleHandle) := output.2.map (·.chunkModules 0)

-- The flag belongs to the condition: no signature tells it, and with the memo of the entry a module is left out.
example :
    (compileAllCached ⟨true, false, true⟩ { entryNames := ["main"] } [flaggedTurn true, flaggedTurn false] {}).map
        (·.map loaded) = [.ok (some [0]), .ok (some [0])] ∧
      loaded ((flaggedTurn false).compile ⟨true, false, true⟩ { entryNames := ["main"] }) = some [0, 1] := by
  decide

end CompilationTurn

end Unpack
