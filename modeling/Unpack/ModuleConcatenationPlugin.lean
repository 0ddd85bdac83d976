import Unpack.BuildChunkGraph
import Unpack.Lib.Closure

/-! Module concatenation: the search for groups of modules that can be rendered as one, and what
applying a group does to the chunk graph. The source's ordered sets are lists here; the order they are
read in is always that of the module identities. -/

namespace Unpack

structure ConcatenationConfiguration where
  root : ModuleHandle
  modules : List ModuleHandle
  deriving DecidableEq

namespace ModuleGraph

variable (graph : ModuleGraph) (chunkGraph : ChunkGraph)

def moduleCanConcatenate (handle : ModuleHandle) : Bool :=
  match graph.module handle with
  | none => false
  | some module =>
      module.identity.moduleType = .javaScriptAuto && module.isHarmony && !module.usesDirectEval &&
        module.buildError.isNone && !(chunkGraph.moduleChunks handle).isEmpty

/-- `imports`: what a module imports in a way that concatenation can follow. -/
def concatenationImports (module : ModuleHandle) : List ModuleHandle :=
  (((graph.outgoingConnections module).filter fun connection =>
    connection.isActive && connection.dependency.canConcatenate).map (·.module)).dedup

/-- The active connections into a module from modules that are in a chunk. -/
def incomingFromChunks (candidate : ModuleHandle) : List (ModuleHandle × Bool) :=
  (((graph.incomingConnections candidate).filter (·.isActive)).filterMap fun connection =>
    connection.originModule.map fun origin => (origin, connection.dependency.canConcatenate)).filter
    fun incoming => !(chunkGraph.moduleChunks incoming.1).isEmpty

/-- The importers that have to join together with a candidate, none when it cannot join. -/
def importersToAdd (rootChunks : List ChunkHandle) (possibleInners : List ModuleHandle)
    (candidate : ModuleHandle) : Option (List ModuleHandle) :=
  if candidate ∉ possibleInners ∨
      rootChunks.any (fun chunk => candidate ∉ chunkGraph.chunkModules chunk) then none
  else
    let incoming := graph.incomingFromChunks chunkGraph candidate
    if incoming.any fun importer => !importer.2 ||
        rootChunks.any (fun chunk => importer.1 ∉ chunkGraph.chunkModules chunk) then none
    else
      some (dedupAdjacent ((incoming.map (·.1)).insertionSort fun left right =>
        (graph.compareModuleIdentities left right).isLE))

/-- Every level of the recursion adds a module. -/
def tryToAdd (rootChunks : List ChunkHandle) (possibleInners : List ModuleHandle)
    (modules : List ModuleHandle) (candidate : ModuleHandle) : Option (List ModuleHandle) :=
  Closure.close (graph.importersToAdd chunkGraph rootChunks possibleInners)
    (graph.modules.length + 1) modules candidate

end ModuleGraph

/-- The loop over the candidates of one root. -/
structure ConcatenationSearch where
  modules : List ModuleHandle
  candidates : List ModuleHandle
  processed : List ModuleHandle

namespace ModuleGraph

variable (graph : ModuleGraph) (chunkGraph : ChunkGraph)

def searchStep (rootChunks : List ChunkHandle) (possibleInners : List ModuleHandle)
    (search : ConcatenationSearch) : Option ConcatenationSearch :=
  (minBy graph.compareModuleIdentities search.candidates).map fun candidate =>
    let candidates := search.candidates.filter (· ≠ candidate)
    if candidate ∈ search.processed then { search with candidates }
    else
      let processed := candidate :: search.processed
      match graph.tryToAdd chunkGraph rootChunks possibleInners search.modules candidate with
      | none => { search with candidates, processed }
      | some modules =>
          let newlyAdded := modules.filter (· ∉ search.modules)
          { modules, candidates := newlyAdded.flatMap graph.concatenationImports ∪ candidates,
            processed }

/-- Each candidate is processed once, and is dropped each other time it is found. -/
def searchFuel : Nat := (graph.modules.length + 1) * (graph.modules.length + 1)

def searchModules (possibleInners : List ModuleHandle) (root : ModuleHandle) :
    ConcatenationSearch :=
  Fixpoint.iterate
    (graph.searchStep chunkGraph (chunkGraph.moduleChunks root) possibleInners) graph.searchFuel
    { modules := [root], candidates := graph.concatenationImports root, processed := [] }

def possibleInners (entries : List ModuleHandle) : List ModuleHandle :=
  (graph.modules.map (·.handle)).filter fun handle =>
    graph.moduleCanConcatenate chunkGraph handle && decide (handle ∉ entries)

def concatenationRoots : List ModuleHandle :=
  ((graph.modules.map (·.handle)).filter fun handle =>
    graph.moduleCanConcatenate chunkGraph handle &&
      (graph.exportsInfo handle).providedExports.isSome).insertionSort fun left right =>
    (graph.compareModuleIdentities left right).isLE

def findConfiguration (entries : List ModuleHandle)
    (found : List ModuleHandle × List ConcatenationConfiguration) (root : ModuleHandle) :
    List ModuleHandle × List ConcatenationConfiguration :=
  if root ∈ found.1 then found
  else
    let modules := (graph.searchModules chunkGraph
      (graph.possibleInners chunkGraph entries) root).modules
    if 1 < modules.length then
      (found.1 ++ modules.filter (· ≠ root), found.2 ++ [⟨root, modules⟩])
    else found

def compareConfigurations (left right : ConcatenationConfiguration) : Ordering :=
  (compare right.modules.length left.modules.length).then
    (graph.compareModuleIdentities left.root right.root)

def findConfigurations (entries : List ModuleHandle) : List ConcatenationConfiguration :=
  ((graph.concatenationRoots chunkGraph).foldl (graph.findConfiguration chunkGraph entries)
    ([], [])).2.insertionSort fun left right => (graph.compareConfigurations left right).isLE

/-- `ConcatenatedModule::new`. -/
def concatenatedModule (configuration : ConcatenationConfiguration) : ConcatenatedModule where
  rootModule := configuration.root
  modules := dedupAdjacent (configuration.modules.insertionSort fun left right =>
    graph.identity left ≤ graph.identity right)

def applyConfiguration (applied : List ModuleHandle × ChunkGraph)
    (configuration : ConcatenationConfiguration) : List ModuleHandle × ChunkGraph :=
  if configuration.root ∈ applied.1 then applied
  else
    (applied.1 ++ configuration.modules,
      applied.2.addConcatenatedModule (graph.concatenatedModule configuration))

def optimizeChunkModules (entries : List ModuleHandle) : ChunkGraph :=
  ((graph.findConfigurations chunkGraph entries).foldl graph.applyConfiguration
    ([], chunkGraph)).2

end ModuleGraph

end Unpack
