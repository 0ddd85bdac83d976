import Unpack.FlagDependencyUsagePlugin
import Unpack.SideEffectsFlagPlugin
import Unpack.RuntimeRequirements
import Unpack.Lib.Marking
import Unpack.Lib.Memo

/-! The memos that a compiler keeps of modules from one compilation to the next. A memo made before the chunk graph
is dropped when its module or a module that it reaches has another signature; one made after the ids are assigned is
dropped with it, or when the module's own references or exports info differ. -/

namespace Unpack

structure PreChunkGraphModuleReference where
  block : Option AsyncDependenciesBlockIndex
  dependency : Option DependencyIndex
  target : ModuleIdentity
  deriving DecidableEq

structure PreChunkGraphSignature where
  sourceHash : UInt64
  buildError : Option String
  references : List PreChunkGraphModuleReference
  deriving DecidableEq

structure PreChunkGraphModuleComputationEntry where
  signature : PreChunkGraphSignature
  providedExports : Option ExportsInfo := none
  staticReachable : Option (List ModuleIdentity) := none

/-- What the chunk graph says of a module: its id and those of its chunks, of its targets, of the chunks of its
blocks, and the modules concatenated with it. -/
structure ChunkGraphModuleReferences where
  moduleRenderId : Option RenderId
  chunkRenderIds : List RenderId
  outgoingModuleRenderIds : List (Option RenderId)
  blockChunkRenderIds : List (Option (List RenderId))
  concatenatedModuleIdentities : List ModuleIdentity
  deriving DecidableEq

structure PostIdAssignmentSignature where
  references : ChunkGraphModuleReferences
  exportsInfo : ExportsInfo
  deriving DecidableEq

structure PostIdAssignmentModuleComputationEntry where
  signature : PostIdAssignmentSignature
  runtimeRequirements : Option RuntimeRequirements := none
  moduleHash : Option UInt64 := none

structure ModuleComputationEntry where
  preChunkGraph : PreChunkGraphModuleComputationEntry
  postIdAssignment : Option PostIdAssignmentModuleComputationEntry := none

/-- The two hash maps, as what is found in them. -/
structure ModuleComputationCacheState where
  modules : ModuleIdentity → Option ModuleComputationEntry := fun _ => none
  currentHandles : ModuleIdentity → Option ModuleHandle := fun _ => none

namespace ModuleGraph

variable (graph : ModuleGraph)

def preChunkGraphSignature (module : Module) : PreChunkGraphSignature where
  sourceHash := module.sourceHash
  buildError := module.buildError
  references := (graph.outgoingConnections module.handle).map fun connection =>
    ⟨connection.originBlock, connection.originDependencyIndex, graph.identity connection.module⟩

/-- The modules with a connection to this one. -/
def importers (handle : ModuleHandle) : List ModuleHandle :=
  (graph.incomingConnections handle).filterMap (·.originModule)

end ModuleGraph

namespace ModuleComputationCacheState

variable (cache : ModuleComputationCacheState) (graph : ModuleGraph)

/-- `retain`: only the modules of the current graph. -/
def retained (identity : ModuleIdentity) : Option ModuleComputationEntry :=
  if identity ∈ graph.modules.map (·.identity) then cache.modules identity else none

def isUnchanged (module : Module) : Bool :=
  (cache.retained graph module.identity).any fun entry =>
    entry.preChunkGraph.signature = graph.preChunkGraphSignature module

/-- Modules with another signature, and all that lead to one. -/
def affected : List ModuleHandle :=
  let changed := (graph.modules.filter fun module => !cache.isUnchanged graph module).map (·.handle)
  Marking.mark graph.importers graph.modules.length changed changed

/-- The entry of a module is made where it is missing, and emptied where the module is affected. -/
def refresh (affected : List ModuleHandle) (modules : ModuleIdentity → Option ModuleComputationEntry)
    (module : Module) : ModuleIdentity → Option ModuleComputationEntry :=
  let signature := graph.preChunkGraphSignature module
  let entry := (modules module.identity).getD { preChunkGraph := { signature } }
  Function.update modules module.identity
    (some (if module.handle ∈ affected then { preChunkGraph := { signature } } else entry))

def prepareBeforeChunkGraph : ModuleComputationCacheState where
  modules := graph.modules.foldl (refresh graph (cache.affected graph)) (cache.retained graph)
  currentHandles identity := (graph.modules.find? fun module => module.identity = identity).map (·.handle)

def getProvidedExports (identity : ModuleIdentity) : Option ExportsInfo :=
  (cache.modules identity).bind (·.preChunkGraph.providedExports)

/-- The stored identities, as long as there is a module of each. -/
def getStaticReachable (identity : ModuleIdentity) : Option (List ModuleHandle) :=
  ((cache.modules identity).bind (·.preChunkGraph.staticReachable)).bind fun identities =>
    identities.mapM cache.currentHandles

/-- An entry that is changed must be there. -/
def modifyEntry (identity : ModuleIdentity) (f : ModuleComputationEntry → ModuleComputationEntry) :
    Except String ModuleComputationCacheState :=
  match cache.modules identity with
  | none => .error "Module Computation Cache must be prepared before storing a memo"
  | some entry => .ok { cache with modules := Function.update cache.modules identity (some (f entry)) }

def storeProvidedExports (identity : ModuleIdentity) (exportsInfo : ExportsInfo) :
    Except String ModuleComputationCacheState :=
  cache.modifyEntry identity fun entry =>
    { entry with preChunkGraph := { entry.preChunkGraph with providedExports := some exportsInfo } }

def storeStaticReachable (identity : ModuleIdentity) (modules : List ModuleHandle) :
    Except String ModuleComputationCacheState :=
  cache.modifyEntry identity fun entry =>
    { entry with preChunkGraph :=
      { entry.preChunkGraph with staticReachable := some (modules.map graph.identity) } }

end ModuleComputationCacheState

/-- A computation over the cache; it fails where the source panics. -/
abbrev CachedComputation := ExceptT String (StateM ModuleComputationCacheState)

namespace CachedComputation

/-- What is found is the answer; what is not is computed and stored. -/
def remembered {α : Type} (find : ModuleComputationCacheState → Option α)
    (store : ModuleComputationCacheState → α → Except String ModuleComputationCacheState) (value : α) :
    CachedComputation α :=
  ExceptT.mk fun cache =>
    match find cache with
    | some found => (.ok found, cache)
    | none =>
        match store cache value with
        | .ok cache => (.ok value, cache)
        | .error message => (.error message, cache)

def preparedFor (graph : ModuleGraph) : CachedComputation Unit :=
  ExceptT.mk fun cache => (.ok (), cache.prepareBeforeChunkGraph graph)

end CachedComputation

namespace ModuleGraph

variable (graph : ModuleGraph)

def providedExportsCached (module : Module) : CachedComputation ExportsInfo :=
  .remembered (·.getProvidedExports module.identity) (·.storeProvidedExports module.identity) module.providedExports

/-- `flag_dependency_exports` -/
def flagDependencyExportsCached : CachedComputation ModuleGraph := do
  let exportsInfos ← graph.modules.mapM providedExportsCached
  pure { graph with exportsInfos }

def collectStaticReachableCached (start : ModuleHandle) : CachedComputation (List ModuleHandle) :=
  .remembered (·.getStaticReachable (graph.identity start)) (·.storeStaticReachable graph (graph.identity start))
    (graph.collectStaticReachable start)

end ModuleGraph

section Builder

variable (graph : ModuleGraph)

def visitImportCached (parent : LogicalChunkGroup) (parentResultingAvailableModules : ModuleMask)
    (planning : AsyncPlanning) : AsyncBlockOrigin × ModuleHandle → CachedComputation AsyncPlanning
  | (origin, target) =>
      if parentResultingAvailableModules.contains target then pure planning
      else
        match planning.plans.lookup target with
        | some plan =>
            let (plan, changed) := plan.addParent parent parentResultingAvailableModules origin
            pure { plans := planning.plans.insert target plan
                   pending :=
                     if changed then planning.pending ++ [.asyncChunk target] else planning.pending }
        | none => do
            let staticModules ← graph.collectStaticReachableCached target
            pure { plans := planning.plans.insert target
                     (.new target staticModules parent parentResultingAvailableModules origin)
                   pending := planning.pending ++ [.asyncChunk target] }

/-- The loop over the pending groups. -/
def planPendingCached (entrypoints : List EntrypointAsyncPlan) :
    Nat → AsyncPlanning → CachedComputation AsyncPlanning
  | 0, planning => pure planning
  | fuel + 1, planning =>
      match planning.pending with
      | [] => pure planning
      | parent :: pending =>
          let planning := { planning with pending }
          match planning.parentModules entrypoints parent with
          | some (modules, resulting) => do
              let planning ← (graph.dynamicImportOrigins modules).foldlM
                (visitImportCached graph parent resulting) planning
              planPendingCached entrypoints fuel planning
          | none => planPendingCached entrypoints fuel planning

/-- The modules of each entry are collected once, for its chunk and for its plan. -/
def buildChunkGraphWithCache (options : CompilerOptions) (entries : List ModuleHandle) :
    CachedComputation ChunkGraph := do
  let initialModules ← entries.mapM graph.collectStaticReachableCached
  let initial := fun (index : Nat) (_ : ModuleHandle) => initialModules.getD index []
  let entrypoints := entries.zipIdx.map fun entry => entrypointPlan graph (initial entry.2) entry.2 entry.1
  let planning ← planPendingCached graph entrypoints (planningFuel graph entries)
    { plans := ∅
      pending := (List.range entries.length).map .entrypoint }
  let targets := orderedTargets graph planning
  let groups := targets.foldl (addAsyncGroup graph planning)
    (entries.zipIdx.foldl (fun chunkGraph entry => addEntrypointGroup (initial entry.2) options chunkGraph entry) {})
  let chunkGraph := targets.foldl (connectParents graph planning (groupOf entries.length targets)) groups
  pure (match options.splitChunks with
    | some splitChunks => chunkGraph.applySplitChunks splitChunks.minChunks splitChunks.name
    | none => chunkGraph)

end Builder

end Unpack
