import Unpack.ChunkGraph
import Unpack.ModuleMask
import Unpack.Lib.Worklist
import Unpack.Lib.Fixpoint
import Mathlib.Data.List.Sort
import Mathlib.Data.List.Dedup

/-! The construction of the chunk graph: one chunk group for each entry, a worklist that plans one
async chunk for each dynamic import target, the materialised groups with their loading edges, and
split chunks. The builder takes the static reachability function as a parameter, because the module
computation cache may answer in place of the graph walk. -/

namespace Unpack

structure SplitChunksOptions where
  minChunks : Nat
  name : Option String
  deriving DecidableEq

/-- The compiler options that sealing reads. -/
structure CompilerOptions where
  entryNames : List String
  splitChunks : Option SplitChunksOptions := none
  concatenateModules : Bool := false
  deriving DecidableEq

namespace ModuleGraph

/-- Identities of modules that are there; the source panics on any other. -/
def identity (graph : ModuleGraph) (handle : ModuleHandle) : ModuleIdentity :=
  (graph.module handle).elim { resource := [] } (·.identity)

def compareModuleIdentities (graph : ModuleGraph) (left right : ModuleHandle) : Ordering :=
  compare (graph.identity left) (graph.identity right)

def compareAsyncOrigins (graph : ModuleGraph) (left right : AsyncBlockOrigin) : Ordering :=
  (graph.compareModuleIdentities left.module right.module).then (compare left.block right.block)

/-- The modules the static walk visits next. -/
def staticSuccessors (graph : ModuleGraph) (module : ModuleHandle) : List ModuleHandle :=
  ((graph.outgoingConnections module).filter (·.isStatic)).map (·.module)

/-- Every connection is followed at most once, and the start is popped. -/
def collectStaticReachable (graph : ModuleGraph) (start : ModuleHandle) : List ModuleHandle :=
  Worklist.collect graph.staticSuccessors (graph.connections.length + 1) [start] []

def importBlockTarget (graph : ModuleGraph) (origin : AsyncBlockOrigin) : Option ModuleHandle :=
  ((graph.outgoingConnections origin.module).find? fun connection =>
    connection.originBlock = some origin.block && connection.dependency.isImportDependency).map
    (·.module)

/-- `Vec::dedup` removes repeated neighbours. -/
def dedupAdjacent {α : Type} [DecidableEq α] (items : List α) : List α := items.destutter (· ≠ ·)

def dynamicImportOrigins (graph : ModuleGraph) (modules : List ModuleHandle) :
    List (AsyncBlockOrigin × ModuleHandle) :=
  let origins := modules.flatMap fun module =>
    (graph.module module).elim [] fun moduleRef =>
      moduleRef.blocks.zipIdx.filterMap fun (block, blockIndex) =>
        if block.dependencies.any Dependency.isImportDependency then
          (graph.importBlockTarget ⟨module, blockIndex⟩).map fun target =>
            (⟨module, blockIndex⟩, target)
        else none
  dedupAdjacent (origins.insertionSort fun left right =>
    ((graph.compareAsyncOrigins left.1 right.1).then
      (graph.compareModuleIdentities left.2 right.2)).isLE)

end ModuleGraph

structure EntrypointAsyncPlan where
  group : ChunkGroupHandle
  resultingAvailableModules : ModuleMask
  modules : List ModuleHandle
  deriving DecidableEq

inductive LogicalChunkGroup where
  | entrypoint (index : Nat)
  | asyncChunk (target : ModuleHandle)
  deriving DecidableEq

structure AsyncParentPlan where
  resultingAvailableModules : ModuleMask
  origins : List AsyncBlockOrigin
  deriving DecidableEq

structure AsyncChunkPlan where
  target : ModuleHandle
  staticModules : List ModuleHandle
  minAvailableModules : ModuleMask
  resultingAvailableModules : ModuleMask
  parents : FxHashMap LogicalChunkGroup AsyncParentPlan

namespace AsyncChunkPlan

def new (target : ModuleHandle) (staticModules : List ModuleHandle) (parent : LogicalChunkGroup)
    (parentResultingAvailableModules : ModuleMask) (origin : AsyncBlockOrigin) : AsyncChunkPlan :=
  { target, staticModules
    minAvailableModules := parentResultingAvailableModules
    resultingAvailableModules := parentResultingAvailableModules.insertAll staticModules
    parents := AList.singleton parent ⟨parentResultingAvailableModules, [origin]⟩ }

/-- What every parent makes available; there always is a parent. -/
def intersectParents (parents : FxHashMap LogicalChunkGroup AsyncParentPlan) : ModuleMask :=
  match parents.entries.map (·.2.resultingAvailableModules) with
  | [] => ⟨[]⟩
  | mask :: masks => masks.foldl ModuleMask.intersectWith mask

def updatedParents (plan : AsyncChunkPlan) (parent : LogicalChunkGroup)
    (parentResultingAvailableModules : ModuleMask) (origin : AsyncBlockOrigin) :
    FxHashMap LogicalChunkGroup AsyncParentPlan :=
  plan.parents.insert parent
    ⟨parentResultingAvailableModules,
      pushNew ((plan.parents.lookup parent).elim [] (·.origins)) origin⟩

/-- The updated plan, and whether its availability changed. -/
def addParent (plan : AsyncChunkPlan) (parent : LogicalChunkGroup)
    (parentResultingAvailableModules : ModuleMask) (origin : AsyncBlockOrigin) :
    AsyncChunkPlan × Bool :=
  let parents := plan.updatedParents parent parentResultingAvailableModules origin
  let minAvailableModules := intersectParents parents
  let resultingAvailableModules := minAvailableModules.insertAll plan.staticModules
  ({ plan with minAvailableModules, resultingAvailableModules, parents },
    plan.minAvailableModules ≠ minAvailableModules ||
      plan.resultingAvailableModules ≠ resultingAvailableModules)

/-- The modules the chunk itself carries. -/
def modules (plan : AsyncChunkPlan) : List ModuleHandle :=
  plan.staticModules.filter fun module => !plan.minAvailableModules.contains module

end AsyncChunkPlan

/-- The plans made so far and the groups whose imports are still to be visited. -/
structure AsyncPlanning where
  plans : FxHashMap ModuleHandle AsyncChunkPlan
  pending : List LogicalChunkGroup

section Builder

variable (graph : ModuleGraph) (reachable : ModuleHandle → List ModuleHandle)

def entrypointPlan (group : ChunkGroupHandle) (entryModule : ModuleHandle) : EntrypointAsyncPlan :=
  let initialModules := reachable entryModule
  { group
    resultingAvailableModules := .fromModules graph.modules.length initialModules
    modules := initialModules }

def entrypointPlans (entries : List ModuleHandle) : List EntrypointAsyncPlan :=
  entries.zipIdx.map fun (entryModule, entryIndex) =>
    entrypointPlan graph reachable entryIndex entryModule

/-- The modules a planned group carries and what is available once it has run. -/
def AsyncPlanning.parentModules (planning : AsyncPlanning) (entrypoints : List EntrypointAsyncPlan) :
    LogicalChunkGroup → Option (List ModuleHandle × ModuleMask)
  | .entrypoint index =>
      entrypoints[index]?.map fun plan => (plan.modules, plan.resultingAvailableModules)
  | .asyncChunk target =>
      (planning.plans.lookup target).map fun plan => (plan.modules, plan.resultingAvailableModules)

def visitImport (parent : LogicalChunkGroup) (parentResultingAvailableModules : ModuleMask)
    (planning : AsyncPlanning) : AsyncBlockOrigin × ModuleHandle → AsyncPlanning
  | (origin, target) =>
      if parentResultingAvailableModules.contains target then planning
      else
        match planning.plans.lookup target with
        | some plan =>
            let (plan, changed) := plan.addParent parent parentResultingAvailableModules origin
            { plans := planning.plans.insert target plan
              pending :=
                if changed then planning.pending ++ [.asyncChunk target] else planning.pending }
        | none =>
            { plans := planning.plans.insert target
                (.new target (reachable target) parent parentResultingAvailableModules origin)
              pending := planning.pending ++ [.asyncChunk target] }

def planParent (entrypoints : List EntrypointAsyncPlan) (planning : AsyncPlanning) :
    Option AsyncPlanning :=
  match planning.pending with
  | [] => none
  | parent :: pending =>
      let planning := { planning with pending }
      some (match planning.parentModules entrypoints parent with
        | some (modules, resulting) =>
            (graph.dynamicImportOrigins modules).foldl (visitImport reachable parent resulting)
              planning
        | none => planning)

/-- Each module's plan can change its two masks once for each module, and each change puts one group
back in the queue. -/
def planningFuel (entries : List ModuleHandle) : Nat :=
  entries.length + graph.modules.length * (2 * graph.modules.length + 2)

def planAsyncChunks (entries : List ModuleHandle) : AsyncPlanning :=
  Fixpoint.iterate (planParent graph reachable (entrypointPlans graph reachable entries))
    (planningFuel graph entries)
    { plans := ∅
      pending := (List.range entries.length).map .entrypoint }

def compareLogicalGroups : LogicalChunkGroup → LogicalChunkGroup → Ordering
  | .entrypoint left, .entrypoint right => compare left right
  | .entrypoint _, .asyncChunk _ => .lt
  | .asyncChunk _, .entrypoint _ => .gt
  | .asyncChunk left, .asyncChunk right => graph.compareModuleIdentities left right

def orderedTargets (planning : AsyncPlanning) : List ModuleHandle :=
  planning.plans.keys.insertionSort fun left right => (graph.compareModuleIdentities left right).isLE

/-- `Iterator::min_by`, the first of the least items. -/
def minBy {α : Type} (cmp : α → α → Ordering) : List α → Option α
  | [] => none
  | item :: items =>
      some (items.foldl (fun least item => if (cmp item least).isLT then item else least) item)

def AsyncChunkPlan.origins (plan : AsyncChunkPlan) : List AsyncBlockOrigin :=
  plan.parents.entries.flatMap (·.2.origins)

/-- One chunk in one new group, with the modules it carries. -/
def addGroupWithChunk (chunkGraph : ChunkGraph) (name : Option String) (root : ModuleHandle)
    (kind : ChunkGroupKind) (origin : Option AsyncBlockOrigin) (modules : List ModuleHandle) :
    ChunkGroupHandle × ChunkGraph :=
  let (chunk, chunkGraph) := chunkGraph.addChunk name [root]
  let (group, chunkGraph) := chunkGraph.addChunkGroup kind origin
  let chunkGraph := chunkGraph.connectChunkAndGroup chunk group
  (group, modules.foldl (fun chunkGraph module => chunkGraph.connectChunkAndModule chunk module)
    chunkGraph)

def addEntrypointGroup (options : CompilerOptions) (chunkGraph : ChunkGraph) :
    ModuleHandle × Nat → ChunkGraph
  | (entryModule, entryIndex) =>
      let entryName := options.entryNames.getD entryIndex s!"entry{entryIndex}"
      let (group, chunkGraph) := addGroupWithChunk chunkGraph (some entryName) entryModule
        (.entrypoint entryName) none (reachable entryModule)
      chunkGraph.addEntrypoint group

def addAsyncGroup (planning : AsyncPlanning) (chunkGraph : ChunkGraph) (target : ModuleHandle) :
    ChunkGraph :=
  match planning.plans.lookup target with
  | some plan =>
      (addGroupWithChunk chunkGraph none plan.target .async
        (minBy graph.compareAsyncOrigins plan.origins) plan.modules).2
  | none => chunkGraph

/-- The children a group loads, in the acyclic part of the graph. -/
def chunkGroupReaches (chunkGraph : ChunkGraph) (target : ChunkGroupHandle) :
    Nat → List ChunkGroupHandle → List ChunkGroupHandle → Bool
  | 0, _, _ => false
  | _ + 1, [], _ => false
  | fuel + 1, group :: pending, visited =>
      if group = target then true
      else if group ∈ visited then chunkGroupReaches chunkGraph target fuel pending visited
      else
        chunkGroupReaches chunkGraph target fuel
          (pending ++ (chunkGraph.chunkGroup group).elim [] (·.children)) (group :: visited)

def reachFuel (chunkGraph : ChunkGraph) : Nat :=
  1 + (chunkGraph.chunkGroups.map (·.children.length)).sum

def connectLoadingEdge (childGroup : ChunkGroupHandle) (chunkGraph : ChunkGraph)
    (edge : ChunkGroupHandle × List AsyncBlockOrigin) : ChunkGraph :=
  let chunkGraph :=
    if chunkGroupReaches chunkGraph edge.1 (reachFuel chunkGraph) [childGroup] [] then
      chunkGraph.connectRuntimeChunkGroups edge.1 childGroup
    else chunkGraph.connectChunkGroups edge.1 childGroup
  edge.2.foldl (fun chunkGraph origin => chunkGraph.connectBlockAndChunkGroup origin childGroup)
    chunkGraph

/-- Entry groups come first, then one group for each target in order. -/
def groupOf (entryCount : Nat) (targets : List ModuleHandle) : LogicalChunkGroup → ChunkGroupHandle
  | .entrypoint index => index
  | .asyncChunk target => entryCount + targets.idxOf target

def sortedParents (plan : AsyncChunkPlan) : List (LogicalChunkGroup × List AsyncBlockOrigin) :=
  (plan.parents.entries.map fun entry => (entry.1, entry.2.origins)).insertionSort
    fun left right => (compareLogicalGroups graph left.1 right.1).isLE

def connectParents (planning : AsyncPlanning) (group : LogicalChunkGroup → ChunkGroupHandle)
    (chunkGraph : ChunkGraph) (target : ModuleHandle) : ChunkGraph :=
  match planning.plans.lookup target with
  | some plan =>
      ((sortedParents graph plan).map fun parent => (group parent.1, parent.2)).foldl
        (connectLoadingEdge (group (.asyncChunk target))) chunkGraph
  | none => chunkGraph

/-- One group for each entry and each planned target, not connected yet. -/
def layGroups (options : CompilerOptions) (entries : List ModuleHandle)
    (planning : AsyncPlanning) : ChunkGraph :=
  (orderedTargets graph planning).foldl (addAsyncGroup graph planning)
    (entries.zipIdx.foldl (addEntrypointGroup reachable options) {})

/-- The chunk graph before split chunks. -/
def buildGroups (options : CompilerOptions) (entries : List ModuleHandle) : ChunkGraph :=
  let planning := planAsyncChunks graph reachable entries
  let targets := orderedTargets graph planning
  targets.foldl (connectParents graph planning (groupOf entries.length targets))
    (layGroups graph reachable options entries planning)

end Builder

namespace ChunkGraph

def asyncChunks (chunkGraph : ChunkGraph) : List ChunkHandle :=
  (chunkGraph.chunks.filter fun chunk =>
    !chunk.groups.isEmpty && chunk.groups.all fun group =>
      (chunkGraph.chunkGroup group).elim false (·.kind = .async)).map (·.handle)

/-- The async chunks of each module, in the order of the chunks. -/
def chunksByModule (chunkGraph : ChunkGraph) (asyncChunks : List ChunkHandle) :
    FxHashMap ModuleHandle (List ChunkHandle) :=
  asyncChunks.foldl (fun table chunk =>
    (chunkGraph.chunkModules chunk).foldl (fun table module =>
      table.insert module ((table.lookup module).getD [] ++ [chunk])) table) ∅

/-- `sort` and `dedup`. -/
def chunkSet (chunks : List ChunkHandle) : List ChunkHandle :=
  ModuleGraph.dedupAdjacent (chunks.insertionSort (· ≤ ·))

def addToChunkSet (minChunks : Nat) (table : FxHashMap (List ChunkHandle) (List ModuleHandle))
    (entry : Sigma fun _ : ModuleHandle => List ChunkHandle) :
    FxHashMap (List ChunkHandle) (List ModuleHandle) :=
  let chunks := chunkSet entry.2
  if minChunks ≤ chunks.length then
    table.insert chunks ((table.lookup chunks).getD [] ++ [entry.1])
  else table

def modulesByChunkSet (minChunks : Nat) (chunksByModule : FxHashMap ModuleHandle (List ChunkHandle)) :
    FxHashMap (List ChunkHandle) (List ModuleHandle) :=
  chunksByModule.entries.foldl (addToChunkSet minChunks) ∅

/-- The shared module sets in the order of their chunks. -/
def sharedSets (chunkGraph : ChunkGraph) (minChunks : Nat) :
    List (List ChunkHandle × List ModuleHandle) :=
  ((modulesByChunkSet minChunks
    (chunkGraph.chunksByModule chunkGraph.asyncChunks)).entries.map fun entry =>
      (entry.1, entry.2)).insertionSort fun left right => left.1 ≤ right.1

/-- A name forces the shared sets into one chunk. -/
def splitCandidates (chunkGraph : ChunkGraph) (minChunks : Nat) (name : Option String) :
    List (List ChunkHandle × List ModuleHandle) :=
  let candidates := chunkGraph.sharedSets minChunks
  if name.isSome ∧ 1 < candidates.length then
    [(chunkSet (candidates.flatMap (·.1)), candidates.flatMap (·.2))]
  else candidates

def applySplitCandidate (name : Option String) (chunkGraph : ChunkGraph)
    (candidate : List ChunkHandle × List ModuleHandle) : ChunkGraph :=
  let modules := candidate.2.insertionSort (· ≤ ·)
  let (sharedChunk, chunkGraph) := chunkGraph.addSplitChunk candidate.1 name modules
  modules.foldl (fun chunkGraph module =>
    (candidate.1.foldl (fun chunkGraph chunk => chunkGraph.disconnectChunkAndModule chunk module)
      chunkGraph).connectChunkAndModule sharedChunk module) chunkGraph

def applySplitChunks (chunkGraph : ChunkGraph) (minChunks : Nat) (name : Option String) :
    ChunkGraph :=
  (chunkGraph.splitCandidates minChunks name).foldl (applySplitCandidate name) chunkGraph

end ChunkGraph

def buildChunkGraphFrom (graph : ModuleGraph) (reachable : ModuleHandle → List ModuleHandle)
    (options : CompilerOptions) (entries : List ModuleHandle) : ChunkGraph :=
  let chunkGraph := buildGroups graph reachable options entries
  match options.splitChunks with
  | some splitChunks => chunkGraph.applySplitChunks splitChunks.minChunks splitChunks.name
  | none => chunkGraph

/-- Without a computation cache. -/
def buildChunkGraph (options : CompilerOptions) (graph : ModuleGraph)
    (entries : List ModuleHandle) : ChunkGraph :=
  buildChunkGraphFrom graph graph.collectStaticReachable options entries

end Unpack
