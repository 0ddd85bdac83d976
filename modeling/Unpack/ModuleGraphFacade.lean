import Unpack.Lib.Run
import Unpack.ChunkGraph
import Mathlib.Logic.Function.Basic

/-! The module graph that plugins see. It is bound to the graph of a native compilation and makes an object of a
connection when the connection is first read, from either end. A module is its handle, since there is one
object for each; so is a connection, whose fields are kept apart because its target may change. What other
queries than those for connections and issuers read is left out, as is a facade that is not bound. -/

namespace Unpack.Facade

abbrev Handle := Nat

/-- What a connection is made from besides its target. -/
structure Dependency where
  dependencyType : String
  request : Option String
  weak : Bool
  parentBlockIndex : Int
  deriving DecidableEq

structure NativeModuleGraphConnection where
  handle : Handle
  originModuleHandle : Option Handle
  dependency : Dependency
  moduleHandle : Handle
  resolvedModuleHandle : Handle
  weak : Bool
  deriving DecidableEq

/-- The graph of a native compilation. It lists the connections of a module from both ends. -/
structure NativeCompilation where
  modules : List Handle
  connections : List NativeModuleGraphConnection
  incomingConnections : Handle → List NativeModuleGraphConnection
  outgoingConnections : Handle → List NativeModuleGraphConnection
  handles : ∀ (index : Nat) connection, connections[index]? = some connection → connection.handle = index
  modulesExist : ∀ connection ∈ connections, connection.moduleHandle ∈ modules ∧
    connection.resolvedModuleHandle ∈ modules ∧ ∀ origin ∈ connection.originModuleHandle, origin ∈ modules
  incoming : ∀ module connection, connection ∈ incomingConnections module ↔
    connection ∈ connections ∧ connection.moduleHandle = module
  outgoing : ∀ module connection, connection ∈ outgoingConnections module ↔
    connection ∈ connections ∧ connection.originModuleHandle = some module
  nodupIncoming : ∀ module, (incomingConnections module).Nodup
  nodupOutgoing : ∀ module, (outgoingConnections module).Nodup

/-- Handles of connections that are not there are passed over. -/
def NativeCompilation.connectionsByHandle (compilation : NativeCompilation) (handles : List Handle) :
    List NativeModuleGraphConnection := handles.filterMap fun handle => compilation.connections[handle]?

structure ModuleGraphConnection where
  originModule : Option Handle
  dependency : Dependency
  resolvedModule : Handle
  weak : Bool
  module : Handle
  deriving DecidableEq

def ModuleGraphConnection.updateModule (connection : ModuleGraphConnection) (module : Handle) :
    ModuleGraphConnection := { connection with module }

/-- In the order in which the keys were first met. -/
def groupConnections {κ : Type} [DecidableEq κ] (getKey : Handle → κ) (connections : List Handle) :
    List (κ × List Handle) :=
  connections.foldl (fun groups connection =>
    if groups.any (·.1 = getKey connection) then
      groups.map fun group =>
        if group.1 = getKey connection then (group.1, group.2 ++ [connection]) else group
    else groups ++ [(getKey connection, [connection])]) []

/-- Maps from handles are functions; of the connections the keys are kept in order too. -/
structure ModuleGraphFacade where
  compilation : NativeCompilation
  modulesByHandle : List Handle
  connectionByHandle : Handle → Option ModuleGraphConnection := fun _ => none
  materializedHandles : List Handle := []
  incoming : Handle → List Handle := fun _ => []
  outgoing : Handle → List Handle := fun _ => []
  incomingByOrigin : Handle → Option (List (Option Handle × List Handle)) := fun _ => none
  outgoingByModule : Handle → Option (List (Handle × List Handle)) := fun _ => none
  issuers : Handle → Option (Option Handle) := fun _ => none
  loadedIncoming : Handle → Bool := fun _ => false
  loadedOutgoing : Handle → Bool := fun _ => false

/-- A set that has become empty is no longer in the map, which reads the same. -/
def removeFromSetMap (map : Handle → List Handle) (key value : Handle) : Handle → List Handle :=
  Function.update map key ((map key).filter (· ≠ value))

def addToSetMap (map : Handle → List Handle) (key value : Handle) : Handle → List Handle :=
  Function.update map key (pushNew (map key) value)

namespace ModuleGraphFacade

def materializeConnection (facade : ModuleGraphFacade) (native : NativeModuleGraphConnection) : ModuleGraphFacade :=
  if native.moduleHandle ∉ facade.modulesByHandle then facade
  else
    match facade.connectionByHandle native.handle with
    | some existing =>
        if existing.module = native.moduleHandle then facade
        else
          { facade with
            incoming := addToSetMap (removeFromSetMap facade.incoming existing.module native.handle)
              native.moduleHandle native.handle
            connectionByHandle := Function.update facade.connectionByHandle native.handle
              (some (existing.updateModule native.moduleHandle)) }
    | none =>
        let origin := native.originModuleHandle.filter (· ∈ facade.modulesByHandle)
        if native.resolvedModuleHandle ∉ facade.modulesByHandle then facade
        else
          let connection : ModuleGraphConnection :=
            { originModule := origin, dependency := native.dependency,
              resolvedModule := native.resolvedModuleHandle, weak := native.weak,
              module := native.resolvedModuleHandle }
          { facade with
            connectionByHandle := Function.update facade.connectionByHandle native.handle
              (some (connection.updateModule native.moduleHandle))
            materializedHandles := facade.materializedHandles ++ [native.handle]
            incoming := addToSetMap facade.incoming native.moduleHandle native.handle
            outgoing := match origin with
              | some origin => addToSetMap facade.outgoing origin native.handle
              | none => facade.outgoing }

def clearGroups (facade : ModuleGraphFacade) : ModuleGraphFacade :=
  { facade with incomingByOrigin := fun _ => none, outgoingByModule := fun _ => none, issuers := fun _ => none }

def synchronizeConnections (facade : ModuleGraphFacade) (natives : List NativeModuleGraphConnection) :
    ModuleGraphFacade := (natives.foldl materializeConnection facade).clearGroups

/-- After the modules of the compilation have been registered. -/
def updateNativeCompilation (facade : ModuleGraphFacade) (compilation : NativeCompilation) : ModuleGraphFacade :=
  let facade := { facade with compilation }
  let facade :=
    if facade.materializedHandles = [] then facade
    else facade.synchronizeConnections (compilation.connectionsByHandle facade.materializedHandles)
  { facade with loadedIncoming := fun _ => false, loadedOutgoing := fun _ => false }

def registerModules (facade : ModuleGraphFacade) (modules : List Handle) : ModuleGraphFacade :=
  { facade with modulesByHandle := modules.foldl pushNew facade.modulesByHandle }

def getIncomingConnections (facade : ModuleGraphFacade) (module : Handle) : ModuleGraphFacade × List Handle :=
  let facade :=
    if facade.loadedIncoming module then facade
    else
      let facade := facade.synchronizeConnections (facade.compilation.incomingConnections module)
      { facade with loadedIncoming := Function.update facade.loadedIncoming module true }
  (facade, facade.incoming module)

def getOutgoingConnections (facade : ModuleGraphFacade) (module : Handle) : ModuleGraphFacade × List Handle :=
  let facade :=
    if facade.loadedOutgoing module then facade
    else
      let facade := facade.synchronizeConnections (facade.compilation.outgoingConnections module)
      { facade with loadedOutgoing := Function.update facade.loadedOutgoing module true }
  (facade, facade.outgoing module)

def originOf (facade : ModuleGraphFacade) (connection : Handle) : Option Handle :=
  (facade.connectionByHandle connection).bind (·.originModule)

def targetOf (facade : ModuleGraphFacade) (connection : Handle) : Handle :=
  ((facade.connectionByHandle connection).map (·.module)).getD 0

def getIncomingConnectionsByOriginModule (facade : ModuleGraphFacade) (module : Handle) :
    ModuleGraphFacade × List (Option Handle × List Handle) :=
  match facade.incomingByOrigin module with
  | some groups => (facade, groups)
  | none =>
      let (facade, connections) := facade.getIncomingConnections module
      let groups := groupConnections facade.originOf connections
      ({ facade with incomingByOrigin := Function.update facade.incomingByOrigin module (some groups) }, groups)

def getOutgoingConnectionsByModule (facade : ModuleGraphFacade) (module : Handle) :
    ModuleGraphFacade × Option (List (Handle × List Handle)) :=
  let (facade, outgoing) := facade.getOutgoingConnections module
  if outgoing = [] then (facade, none)
  else
    match facade.outgoingByModule module with
    | some groups => (facade, some groups)
    | none =>
        let groups := groupConnections facade.targetOf outgoing
        ({ facade with outgoingByModule := Function.update facade.outgoingByModule module (some groups) },
          some groups)

/-- The origin of the first connection that has one. -/
def firstOrigin (facade : ModuleGraphFacade) (connections : List Handle) : Option Handle :=
  (connections.find? fun connection => (facade.originOf connection).isSome).bind facade.originOf

def getIssuer (facade : ModuleGraphFacade) (module : Handle) : ModuleGraphFacade × Option (Option Handle) :=
  match facade.issuers module with
  | some issuer => (facade, some issuer)
  | none =>
      let (facade, incoming) := facade.getIncomingConnections module
      if incoming = [] then (facade, none)
      else
        let issuer := facade.firstOrigin incoming
        ({ facade with issuers := Function.update facade.issuers module (some issuer) }, some issuer)

inductive Query where
  | incomingConnections (module : Handle)
  | outgoingConnections (module : Handle)
  | incomingConnectionsByOriginModule (module : Handle)
  | outgoingConnectionsByModule (module : Handle)
  | issuer (module : Handle)
  deriving DecidableEq

/-- A connection as it is seen when it is returned. -/
abbrev View := Handle × Option ModuleGraphConnection

inductive Answer where
  | connections (connections : List View)
  | byOrigin (groups : List (Option Handle × List View))
  | byModule (groups : Option (List (Handle × List View)))
  | issuer (issuer : Option (Option Handle))
  deriving DecidableEq

def view (facade : ModuleGraphFacade) (connections : List Handle) : List View :=
  connections.map fun connection => (connection, facade.connectionByHandle connection)

def viewGroups {κ : Type} (facade : ModuleGraphFacade) (groups : List (κ × List Handle)) : List (κ × List View) :=
  groups.map fun group => (group.1, facade.view group.2)

def ask (facade : ModuleGraphFacade) : Query → ModuleGraphFacade × Answer
  | .incomingConnections module =>
      let (facade, connections) := facade.getIncomingConnections module
      (facade, .connections (facade.view connections))
  | .outgoingConnections module =>
      let (facade, connections) := facade.getOutgoingConnections module
      (facade, .connections (facade.view connections))
  | .incomingConnectionsByOriginModule module =>
      let (facade, groups) := facade.getIncomingConnectionsByOriginModule module
      (facade, .byOrigin (facade.viewGroups groups))
  | .outgoingConnectionsByModule module =>
      let (facade, groups) := facade.getOutgoingConnectionsByModule module
      (facade, .byModule (groups.map facade.viewGroups))
  | .issuer module =>
      let (facade, issuer) := facade.getIssuer module
      (facade, .issuer issuer)

/-- A facade that has been bound to the same graph and asked nothing. -/
def fresh (facade : ModuleGraphFacade) : ModuleGraphFacade :=
  { compilation := facade.compilation, modulesByHandle := facade.compilation.modules }

inductive FacadeEvent where
  | read (query : Query)
  | rebind (compilation : NativeCompilation)

/-- Connections are added or change their targets. -/
structure Succeeds (before after : NativeCompilation) : Prop where
  modules : ∀ module ∈ before.modules, module ∈ after.modules
  connections : ∀ connection ∈ before.connections, ∃ module,
    { connection with moduleHandle := module } ∈ after.connections

inductive FacadeStep (facade : ModuleGraphFacade) : FacadeEvent → ModuleGraphFacade → Prop where
  | read (query : Query) : FacadeStep facade (.read query) (facade.ask query).1
  | rebind (compilation : NativeCompilation) (hsucceeds : Succeeds facade.compilation compilation) :
      FacadeStep facade (.rebind compilation)
        ((facade.registerModules compilation.modules).updateNativeCompilation compilation)

/-- Bound to a first graph. -/
def FacadeStart (facade : ModuleGraphFacade) : Prop :=
  ∃ compilation, facade = { compilation, modulesByHandle := compilation.modules }

abbrev FacadeRun : List (ModuleGraphFacade × FacadeEvent) → ModuleGraphFacade → Prop :=
  Interleaving.Run FacadeStart FacadeStep

end ModuleGraphFacade

end Unpack.Facade
