import Unpack.StaticAvailability
import Unpack.Lib.PathSearch
import Mathlib.Algebra.GroupWithZero.Nat

/-! The side effects phase: imports and re-exports that pass through side-effect-free modules are moved
to the module they resolve to, then every connection's state is computed on the moved graph. -/

namespace Unpack

namespace ModuleGraph

/-- The modules a module imports for their side effects. -/
def sideEffectTargets (graph : ModuleGraph) (module : ModuleHandle) : List ModuleHandle :=
  ((graph.outgoingConnections module).filter (·.dependency.isHarmonyImportSideEffect)).map (·.module)

def isFlaggedSideEffectFree (graph : ModuleGraph) (handle : ModuleHandle) : Bool :=
  (graph.module handle).any (·.isSideEffectFree)

/-- `visit` from an empty path; a path is never longer than the modules there are. -/
def moduleIsSideEffectFree (graph : ModuleGraph) (handle : ModuleHandle) : Bool :=
  PathSearch.allGood graph.sideEffectTargets graph.isFlaggedSideEffectFree
    (graph.modules.length + 1) handle []

def moduleHasSideEffects (graph : ModuleGraph) (handle : ModuleHandle) : Bool :=
  !graph.moduleIsSideEffectFree handle

/-- The only re-export of this name, otherwise the only star re-export, with the name to go on with. -/
def nextReexport (graph : ModuleGraph) (module : ModuleHandle) (exportName : String) :
    Option (ModuleGraphConnection × Option String) :=
  let outgoing := (graph.outgoingConnections module).filterMap fun connection =>
    match connection.dependency with
    | .harmonyExportImportedSpecifier dependency =>
        if dependency.name = some exportName then some (connection, dependency.ids.head?) else none
    | _ => none
  if outgoing.length = 1 then outgoing.head?
  else if exportName ≠ "default" then
    let stars := (graph.outgoingConnections module).filterMap fun connection =>
      match connection.dependency with
      | .harmonyExportImportedSpecifier dependency =>
          if dependency.isStar then some (connection, some exportName) else none
      | _ => none
    if stars.length = 1 then stars.head? else none
  else none

/-- The loop of `resolve_reexport_target`; every turn visits a new module. -/
def resolveReexport (graph : ModuleGraph) :
    Nat → ModuleHandle → String → Bool → List ModuleHandle → Option (ModuleHandle × String)
  | 0, _, _, _, _ => none
  | fuel + 1, module, exportName, moved, visited =>
      let result := if moved then some (module, exportName) else none
      if module ∈ visited ∨ graph.moduleIsSideEffectFree module = false then result
      else
        match graph.nextReexport module exportName with
        | none => result
        | some (connection, nextExport) =>
            if connection.module ∈ module :: visited then none
            else
              graph.resolveReexport fuel connection.module (nextExport.getD exportName) true
                (module :: visited)

def resolveReexportTarget (graph : ModuleGraph) (module : ModuleHandle) (exportName : String) :
    Option (ModuleHandle × String) :=
  graph.resolveReexport (graph.modules.length + 1) module exportName false []

/-- The named imports that share a module with this connection. -/
def specifiersBeside (graph : ModuleGraph) (origin : ModuleHandle)
    (connection : ModuleGraphConnection) : List ModuleGraphConnection :=
  (graph.outgoingConnections origin).filter fun candidate =>
    candidate.module = connection.module && candidate.dependency.isHarmonyImportSpecifier

def specifierName (connection : ModuleGraphConnection) : Option String :=
  match connection.dependency with
  | .harmonyImportSpecifier dependency => dependency.ids.head?
  | _ => none

def connectionRewrite (graph : ModuleGraph) (connection : ModuleGraphConnection) :
    Option (ModuleGraphConnectionHandle × ModuleHandle × String) :=
  match connection.dependency with
  | .harmonyImportSideEffect _ => do
      let origin ← connection.originModule
      let imports := graph.specifiersBeside origin connection
      let targets := imports.filterMap fun candidate =>
        (specifierName candidate).bind fun name => graph.resolveReexportTarget candidate.module name
      if targets.length ≠ imports.length then none
      else
        let first ← targets.head?
        if targets.any fun target => target.1 ≠ first.1 then none
        else some (connection.handle, first.1, first.2)
  | .harmonyImportSpecifier dependency => do
      let origin ← connection.originModule
      let importedNames := ((graph.specifiersBeside origin connection).filterMap specifierName).dedup
      if importedNames.length ≠ 1 then none
      else
        let exportName ← dependency.ids.head?
        let (module, exportName) ← graph.resolveReexportTarget connection.module exportName
        some (connection.handle, module, exportName)
  | .harmonyExportImportedSpecifier dependency =>
      if dependency.isStar then none
      else do
        let exportName ← dependency.ids.head?
        let (module, exportName) ← graph.resolveReexportTarget connection.module exportName
        some (connection.handle, module, exportName)
  | _ => none

def moduleExportsAreUsed (graph : ModuleGraph) (handle : ModuleHandle) : Bool :=
  let info := graph.exportsInfo handle
  info.allExportsUsed || info.usedExports.any fun used => decide (used ≠ ∅)

def connectionIsActive (graph : ModuleGraph) (connection : ModuleGraphConnection) : Bool :=
  match connection.dependency with
  | .harmonyImportSideEffect _ =>
      graph.moduleHasSideEffects connection.module ||
        connection.originModule.any fun origin => !(graph.specifiersBeside origin connection).isEmpty
  | .harmonyExportImportedSpecifier dependency =>
      (dependency.name.any fun name => connection.originModule.any fun origin =>
        ((graph.exportsInfo origin).getUsedName name).isSome) ||
        (dependency.isStar && graph.moduleExportsAreUsed connection.module)
  | _ => true

def applyRewrite (graph : ModuleGraph) :
    ModuleGraphConnectionHandle × ModuleHandle × String → ModuleGraph
  | (handle, module, exportName) =>
      let graph := graph.updateConnectionModule handle module
      { graph with connections := graph.connections.modify handle fun connection =>
          { connection with dependency := connection.dependency.setFirstId exportName } }

def rewriteConnections (graph : ModuleGraph) : ModuleGraph :=
  (graph.connections.filterMap graph.connectionRewrite).foldl applyRewrite graph

def updateStates (graph : ModuleGraph) : ModuleGraph :=
  { graph with connections := graph.connections.map fun connection =>
      { connection with
        state := if graph.connectionIsActive connection then .active else .inactive } }

def optimizeDependencies (graph : ModuleGraph) : ModuleGraph :=
  graph.rewriteConnections.updateStates

end ModuleGraph

end Unpack
