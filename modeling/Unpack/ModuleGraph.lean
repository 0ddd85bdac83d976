import Unpack.Module
import Mathlib.Data.List.AList
import Mathlib.Data.List.GetD

/-! The module graph: modules and connections in dense arenas, with index tables from a module to its
outgoing and incoming connections and from a dependency location to its connection. The tables are
kept as the source keeps them; `Indexed` says that they agree with the connections, and every later
proof reads the connections only. -/

namespace Unpack

/-- A hash map; nothing observable may depend on its order. -/
abbrev FxHashMap (α β : Type) := AList fun _ : α => β

inductive ModuleGraphConnectionState where
  | active
  | inactive
  | circular
  deriving DecidableEq

structure DependencyLocation where
  block : Option AsyncDependenciesBlockIndex
  dependencyIndex : DependencyIndex
  deriving DecidableEq

structure ModuleGraphConnection where
  handle : ModuleGraphConnectionHandle
  originModule : Option ModuleHandle
  originBlock : Option AsyncDependenciesBlockIndex
  originDependencyIndex : Option DependencyIndex
  dependency : Dependency
  resolvedModule : ModuleHandle
  module : ModuleHandle
  state : ModuleGraphConnectionState := .active
  deriving DecidableEq

namespace ModuleGraphConnection

def isActive (connection : ModuleGraphConnection) : Bool := connection.state ≠ .inactive

/-- The connections chunk membership follows. -/
def isStatic (connection : ModuleGraphConnection) : Bool :=
  connection.originBlock.isNone && connection.dependency.isStaticModuleDependency &&
    connection.isActive

/-- The connection was made for the dependency at this location of this module. -/
def At (connection : ModuleGraphConnection) (module : ModuleHandle)
    (location : DependencyLocation) : Prop :=
  connection.originModule = some module ∧ connection.originBlock = location.block ∧
    connection.originDependencyIndex = some location.dependencyIndex

instance (connection : ModuleGraphConnection) (module : ModuleHandle)
    (location : DependencyLocation) : Decidable (connection.At module location) :=
  inferInstanceAs (Decidable (_ ∧ _ ∧ _))

end ModuleGraphConnection

structure ModuleGraph where
  modules : List Module
  connections : List ModuleGraphConnection
  outgoing : List (List ModuleGraphConnectionHandle)
  incoming : List (List ModuleGraphConnectionHandle)
  outgoingByLocation : List (FxHashMap DependencyLocation ModuleGraphConnectionHandle)
  exportsInfos : List ExportsInfo

namespace ModuleGraph

def empty : ModuleGraph := ⟨[], [], [], [], [], []⟩

def module (graph : ModuleGraph) (handle : ModuleHandle) : Option Module := graph.modules[handle]?

def exportsInfo (graph : ModuleGraph) (handle : ModuleHandle) : ExportsInfo :=
  graph.exportsInfos.getD handle {}

def outgoingConnections (graph : ModuleGraph) (module : ModuleHandle) :
    List ModuleGraphConnection :=
  (graph.outgoing.getD module []).filterMap fun handle => graph.connections[handle]?

def incomingConnections (graph : ModuleGraph) (module : ModuleHandle) :
    List ModuleGraphConnection :=
  (graph.incoming.getD module []).filterMap fun handle => graph.connections[handle]?

def moduleForDependency (graph : ModuleGraph) (originModule : ModuleHandle)
    (originBlock : Option AsyncDependenciesBlockIndex) (dependencyIndex : DependencyIndex) :
    Option ModuleHandle :=
  (graph.outgoingByLocation[originModule]?.bind fun table =>
    (table.lookup ⟨originBlock, dependencyIndex⟩).bind fun handle => graph.connections[handle]?).map
    (·.module)

def addModule (graph : ModuleGraph) (module : ModuleHandle → Module) : ModuleGraph :=
  { graph with
    modules := graph.modules ++ [module graph.modules.length]
    outgoing := graph.outgoing ++ [[]]
    incoming := graph.incoming ++ [[]]
    outgoingByLocation := graph.outgoingByLocation ++ [∅]
    exportsInfos := graph.exportsInfos ++ [{}] }

def connect (graph : ModuleGraph) (originModule : Option ModuleHandle)
    (originBlock : Option AsyncDependenciesBlockIndex)
    (originDependencyIndex : Option DependencyIndex) (dependency : Dependency)
    (module : ModuleHandle) : ModuleGraph :=
  let handle := graph.connections.length
  { graph with
    connections := graph.connections ++
      [{ handle, originModule, originBlock, originDependencyIndex, dependency,
         resolvedModule := module, module }]
    outgoing :=
      match originModule with
      | some origin => graph.outgoing.modify origin (· ++ [handle])
      | none => graph.outgoing
    outgoingByLocation :=
      match originModule, originDependencyIndex with
      | some origin, some index =>
          graph.outgoingByLocation.modify origin (·.insert ⟨originBlock, index⟩ handle)
      | _, _ => graph.outgoingByLocation
    incoming := graph.incoming.modify module (· ++ [handle]) }

def updateConnectionModule (graph : ModuleGraph) (handle : ModuleGraphConnectionHandle)
    (module : ModuleHandle) : ModuleGraph :=
  match graph.connections[handle]? with
  | none => graph
  | some connection =>
      if connection.module = module then graph
      else
        { graph with
          incoming := (graph.incoming.modify connection.module (·.filter (· ≠ handle))).modify module
            (· ++ [handle])
          connections := graph.connections.modify handle fun connection =>
            { connection with module } }

def setExportsInfo (graph : ModuleGraph) (handle : ModuleHandle) (info : ExportsInfo) :
    ModuleGraph :=
  { graph with exportsInfos := graph.exportsInfos.set handle info }

end ModuleGraph

/-- The dependencies of a module in the order Make processes them, with their locations. -/
def Module.locatedDependencies (module : Module) : List (DependencyLocation × Dependency) :=
  (module.dependencies.zipIdx.map fun (dependency, index) => (⟨none, index⟩, dependency)) ++
    module.blocks.zipIdx.flatMap fun (block, blockIndex) =>
      block.dependencies.zipIdx.map fun (dependency, index) => (⟨some blockIndex, index⟩, dependency)

/-- A graph from built modules in which a request names a resource: the entries are connected first,
then the dependencies of each module at their locations. -/
def ModuleGraph.ofModules (modules : List Module) (entries : List ModuleHandle) : ModuleGraph :=
  let graph := modules.foldl (fun graph module =>
    ModuleGraph.addModule graph fun handle => { module with handle }) ModuleGraph.empty
  let graph := entries.foldl (fun graph entry =>
    graph.connect none none none (.entry ⟨{ request := "" }⟩) entry) graph
  graph.modules.foldl (fun graph module =>
    module.locatedDependencies.foldl (fun graph located =>
      match located.2.moduleDependency with
      | some dependency =>
          graph.connect module.handle located.1.block located.1.dependencyIndex located.2
            (modules.findIdx fun target => target.identity.resource = [dependency.request])
      | none => graph) graph) graph

/-- A harmony module of one file. -/
def Module.javaScript (name : String) (dependencies : List Dependency)
    (blocks : List AsyncDependenciesBlock) : Module :=
  { handle := 0
    identity := { resource := [name] }
    builtContent := { parsed := { dependencies, blocks } }
    harmony := true }

/-- `import(request)`. -/
def AsyncDependenciesBlock.dynamicImport (request : String) : AsyncDependenciesBlock :=
  ⟨[.import ⟨{ request }⟩]⟩

/-- `import "request"`. -/
def Dependency.bareImport (request : String) : Dependency :=
  .harmonyImportSideEffect ⟨{ request }⟩

/-- The handles are positions and the index tables agree with the connections. -/
structure ModuleGraph.Indexed (graph : ModuleGraph) : Prop where
  module_handles : graph.modules.map (·.handle) = List.range graph.modules.length
  connection_handles : graph.connections.map (·.handle) = List.range graph.connections.length
  target_lt : ∀ connection ∈ graph.connections, connection.module < graph.modules.length
  origin_lt : ∀ connection ∈ graph.connections, ∀ origin ∈ connection.originModule.toList,
    origin < graph.modules.length
  outgoing_eq : graph.outgoing = (List.range graph.modules.length).map fun module =>
    (graph.connections.filter fun connection => connection.originModule = some module).map (·.handle)
  incoming_length : graph.incoming.length = graph.modules.length
  incoming_sound : ∀ module < graph.modules.length, ∀ handle ∈ graph.incoming.getD module [],
    ∃ connection ∈ graph.connections, connection.handle = handle ∧ connection.module = module
  incoming_complete : ∀ connection ∈ graph.connections,
    connection.handle ∈ graph.incoming.getD connection.module []
  locations_length : graph.outgoingByLocation.length = graph.modules.length
  location_complete : ∀ connection ∈ graph.connections,
    ∀ origin ∈ connection.originModule.toList, ∀ index ∈ connection.originDependencyIndex.toList,
      (graph.outgoingByLocation.getD origin ∅).lookup ⟨connection.originBlock, index⟩ =
        some connection.handle
  location_sound : ∀ module < graph.modules.length,
    ∀ entry ∈ (graph.outgoingByLocation.getD module ∅).entries,
      ∃ connection ∈ graph.connections, connection.handle = entry.2 ∧ connection.At module entry.1
  exportsInfos_length : graph.exportsInfos.length = graph.modules.length

/-- What sealing relies on: the tables agree, and only static connections are ever inactive. Make activates
every connection, and the side effects phase keeps this. -/
structure ModuleGraph.Sealable (graph : ModuleGraph) : Prop extends graph.Indexed where
  nonstatic_active : ∀ connection ∈ graph.connections,
    connection.dependency.isStaticModuleDependency = false → connection.isActive

/-- The graph of parsed modules, also when its dependencies are optimised: a module that was built has the
connections of its own dependencies only, up to the first id that the side effects phase rewrites. A module
that failed has no dependencies, though it may keep the connections of an earlier build. -/
structure ModuleGraph.WellFormed (graph : ModuleGraph) : Prop extends graph.Sealable where
  located : ∀ connection ∈ graph.connections, ∀ module ∈ graph.modules, module.buildError = none →
    connection.originModule = some module.handle → ∃ located ∈ module.locatedDependencies,
      connection.At module.handle located.1 ∧
        connection.dependency.setFirstId "" = located.2.setFirstId ""
  failed_empty : ∀ module ∈ graph.modules, module.buildError ≠ none → module.locatedDependencies = []
  block_imports : ∀ module ∈ graph.modules, ∀ block ∈ module.blocks,
    block.dependencies.length = 1 ∧ block.dependencies.all Dependency.isImportDependency

/-- Blocks hold no static dependencies. -/
def ModuleGraph.StaticUnblocked (graph : ModuleGraph) : Prop :=
  ∀ connection ∈ graph.connections,
    connection.dependency.isStaticModuleDependency → connection.originBlock = none

/-- The graph of parsed modules as Make leaves it. -/
structure ModuleGraph.Made (graph : ModuleGraph) : Prop extends graph.Indexed where
  identities : (graph.modules.map (·.identity)).Nodup
  located : ∀ connection ∈ graph.connections, ∀ module ∈ graph.modules, module.buildError = none →
    connection.originModule = some module.handle → ∃ located ∈ module.locatedDependencies,
      connection.At module.handle located.1 ∧ connection.dependency = located.2
  failed_empty : ∀ module ∈ graph.modules, module.buildError ≠ none → module.locatedDependencies = []
  block_imports : ∀ module ∈ graph.modules, ∀ block ∈ module.blocks,
    block.dependencies.length = 1 ∧ block.dependencies.all Dependency.isImportDependency
  static_unblocked : graph.StaticUnblocked
  active : ∀ connection ∈ graph.connections, connection.state = .active

/-- Every dependency on a module has its connection. -/
def ModuleGraph.Connected (graph : ModuleGraph) : Prop :=
  ∀ module ∈ graph.modules, ∀ located ∈ module.locatedDependencies, located.2.isModuleDependency →
    ∃ connection ∈ graph.connections, connection.At module.handle located.1

instance (graph : ModuleGraph) : Decidable graph.Indexed :=
  decidable_of_iff (_ ∧ _ ∧ _ ∧ _ ∧ _ ∧ _ ∧ _ ∧ _ ∧ _ ∧ _ ∧ _ ∧ _)
    ⟨fun ⟨h1, h2, h3, h4, h5, h6, h7, h8, h9, h10, h11, h12⟩ =>
        ⟨h1, h2, h3, h4, h5, h6, h7, h8, h9, h10, h11, h12⟩,
      fun ⟨h1, h2, h3, h4, h5, h6, h7, h8, h9, h10, h11, h12⟩ =>
        ⟨h1, h2, h3, h4, h5, h6, h7, h8, h9, h10, h11, h12⟩⟩

instance (graph : ModuleGraph) : Decidable graph.Sealable :=
  decidable_of_iff (_ ∧ _) ⟨fun ⟨h1, h2⟩ => ⟨h1, h2⟩, fun ⟨h1, h2⟩ => ⟨h1, h2⟩⟩

instance (graph : ModuleGraph) : Decidable graph.WellFormed :=
  decidable_of_iff (_ ∧ _ ∧ _ ∧ _) ⟨fun ⟨h1, h2, h3, h4⟩ => ⟨h1, h2, h3, h4⟩,
    fun ⟨h1, h2, h3, h4⟩ => ⟨h1, h2, h3, h4⟩⟩

instance (graph : ModuleGraph) : Decidable graph.StaticUnblocked :=
  inferInstanceAs (Decidable (∀ connection ∈ _, _ → _))

instance (graph : ModuleGraph) : Decidable graph.Made :=
  decidable_of_iff (_ ∧ _ ∧ _ ∧ _ ∧ _ ∧ _ ∧ _)
    ⟨fun ⟨h1, h2, h3, h4, h5, h6, h7⟩ => ⟨h1, h2, h3, h4, h5, h6, h7⟩,
      fun ⟨h1, h2, h3, h4, h5, h6, h7⟩ => ⟨h1, h2, h3, h4, h5, h6, h7⟩⟩

instance (graph : ModuleGraph) : Decidable graph.Connected :=
  inferInstanceAs (Decidable (∀ module ∈ _, ∀ located ∈ _, _ → ∃ connection ∈ _, _))

namespace ModuleGraph.Indexed

variable {graph : ModuleGraph}

theorem handle_eq (h : graph.Indexed) {handle : ModuleHandle} {module : Module}
    (hmodule : graph.module handle = some module) : module.handle = handle := by
  have hmap : (graph.modules.map (·.handle))[handle]? = some module.handle := by
    rw [List.getElem?_map, show graph.modules[handle]? = some module from hmodule]
    rfl
  rw [h.module_handles] at hmap
  exact ((List.getElem?_eq_some_iff.mp hmap).choose_spec.symm.trans (by simp))

theorem module_lt {handle : ModuleHandle} {module : Module}
    (hmodule : graph.module handle = some module) : handle < graph.modules.length :=
  (List.getElem?_eq_some_iff.mp hmodule).choose

theorem exists_module {handle : ModuleHandle} (hlt : handle < graph.modules.length) :
    ∃ module, graph.module handle = some module :=
  ⟨graph.modules[handle], List.getElem?_eq_getElem hlt⟩

theorem mem_modules {handle : ModuleHandle} {module : Module}
    (hmodule : graph.module handle = some module) : module ∈ graph.modules :=
  List.mem_of_getElem? hmodule

/-- A connection is what its own handle addresses. -/
theorem getElem_handle (h : graph.Indexed) {connection : ModuleGraphConnection}
    (hconnection : connection ∈ graph.connections) :
    graph.connections[connection.handle]? = some connection := by
  obtain ⟨index, hindex⟩ := List.mem_iff_getElem?.mp hconnection
  have hmap : (graph.connections.map (·.handle))[index]? = some connection.handle := by
    rw [List.getElem?_map, hindex]
    rfl
  rw [h.connection_handles] at hmap
  have heq : index = connection.handle :=
    (by simpa using (List.getElem?_eq_some_iff.mp hmap).choose_spec)
  rw [← heq]
  exact hindex

theorem handle_injective (h : graph.Indexed) {left right : ModuleGraphConnection}
    (hleft : left ∈ graph.connections) (hright : right ∈ graph.connections)
    (heq : left.handle = right.handle) : left = right := by
  have hl := h.getElem_handle hleft
  rw [heq, h.getElem_handle hright] at hl
  exact (Option.some.inj hl).symm

theorem outgoingConnections_eq (h : graph.Indexed) (module : ModuleHandle) :
    graph.outgoingConnections module =
      graph.connections.filter fun connection => connection.originModule = some module := by
  rw [outgoingConnections, h.outgoing_eq]
  by_cases hlt : module < graph.modules.length
  · have hrow : ((List.range graph.modules.length).map fun module =>
        (graph.connections.filter fun connection => connection.originModule = some module).map
          (·.handle)).getD module [] =
        (graph.connections.filter fun connection => connection.originModule = some module).map
          (·.handle) := by
      simp [List.getD_eq_getElem?_getD, hlt]
    rw [hrow, List.filterMap_map]
    refine (List.filterMap_congr fun connection hconnection => ?_).trans List.filterMap_some
    exact h.getElem_handle (List.mem_of_mem_filter hconnection)
  · have hrow : ((List.range graph.modules.length).map fun module =>
        (graph.connections.filter fun connection => connection.originModule = some module).map
          (·.handle)).getD module [] = [] := by
      simp [List.getD_eq_getElem?_getD, hlt]
    rw [hrow, List.filterMap_nil, eq_comm, List.filter_eq_nil_iff]
    intro connection hconnection horigin
    refine hlt (h.origin_lt connection hconnection module ?_)
    simpa using horigin

theorem mem_outgoingConnections (h : graph.Indexed) {module : ModuleHandle}
    {connection : ModuleGraphConnection} :
    connection ∈ graph.outgoingConnections module ↔
      connection ∈ graph.connections ∧ connection.originModule = some module := by
  rw [h.outgoingConnections_eq, List.mem_filter, decide_eq_true_eq]

theorem mem_incomingConnections (h : graph.Indexed) {module : ModuleHandle}
    {connection : ModuleGraphConnection} :
    connection ∈ graph.incomingConnections module ↔
      connection ∈ graph.connections ∧ connection.module = module := by
  rw [incomingConnections, List.mem_filterMap]
  constructor
  · rintro ⟨handle, hhandle, hget⟩
    have hlt : module < graph.modules.length := by
      rw [← h.incoming_length]
      by_contra hge
      rw [List.getD_eq_default _ _ (Nat.le_of_not_lt hge)] at hhandle
      exact List.not_mem_nil hhandle
    obtain ⟨found, hfound, hfoundHandle, hmodule⟩ := h.incoming_sound module hlt handle hhandle
    rw [← hfoundHandle, h.getElem_handle hfound] at hget
    rw [← Option.some.inj hget]
    exact ⟨hfound, hmodule⟩
  · rintro ⟨hconnection, hmodule⟩
    exact ⟨connection.handle, hmodule ▸ h.incoming_complete connection hconnection,
      h.getElem_handle hconnection⟩

/-- One connection for each location. -/
theorem at_injective (h : graph.Indexed) {left right : ModuleGraphConnection}
    {module : ModuleHandle} {location : DependencyLocation} (hleft : left ∈ graph.connections)
    (hright : right ∈ graph.connections) (hleftAt : left.At module location)
    (hrightAt : right.At module location) : left = right := by
  obtain ⟨hlo, hlb, hli⟩ := hleftAt
  obtain ⟨hro, hrb, hri⟩ := hrightAt
  have hl := h.location_complete left hleft module (by simp [hlo]) location.dependencyIndex
    (by simp [hli])
  have hr := h.location_complete right hright module (by simp [hro]) location.dependencyIndex
    (by simp [hri])
  rw [hlb] at hl
  rw [hrb] at hr
  exact h.handle_injective hleft hright (Option.some.inj (hl.symm.trans hr))

theorem moduleForDependency_eq_some_iff (h : graph.Indexed) {origin : ModuleHandle}
    {block : Option AsyncDependenciesBlockIndex} {index : DependencyIndex} {target : ModuleHandle} :
    graph.moduleForDependency origin block index = some target ↔
      ∃ connection ∈ graph.connections, connection.At origin ⟨block, index⟩ ∧
        connection.module = target := by
  simp only [moduleForDependency, Option.map_eq_some_iff, Option.bind_eq_some_iff]
  constructor
  · rintro ⟨connection, ⟨table, htable, handle, hlookup, hget⟩, rfl⟩
    have hlt : origin < graph.modules.length := by
      rw [← h.locations_length]
      exact (List.getElem?_eq_some_iff.mp htable).choose
    have hrow : graph.outgoingByLocation.getD origin ∅ = table := by
      rw [List.getD_eq_getElem?_getD, htable]
      rfl
    obtain ⟨found, hfound, hfoundHandle, hat⟩ := h.location_sound origin hlt
      ⟨⟨block, index⟩, handle⟩ (by rw [hrow]; exact AList.mem_lookup_iff.mp hlookup)
    have hget' := h.getElem_handle hfound
    rw [hfoundHandle] at hget'
    rw [hget] at hget'
    rw [Option.some.inj hget']
    exact ⟨found, hfound, hat, rfl⟩
  · rintro ⟨connection, hconnection, ⟨horigin, hblock, hindex⟩, rfl⟩
    have hlt : origin < graph.outgoingByLocation.length := by
      rw [h.locations_length]
      exact h.origin_lt connection hconnection origin (by simp [horigin])
    have hlookup := h.location_complete connection hconnection origin (by simp [horigin]) index
      (by simp [hindex])
    rw [hblock, List.getD_eq_getElem _ _ hlt] at hlookup
    exact ⟨connection, ⟨graph.outgoingByLocation[origin], List.getElem?_eq_getElem hlt,
      connection.handle, hlookup, h.getElem_handle hconnection⟩, rfl⟩

end ModuleGraph.Indexed

end Unpack
