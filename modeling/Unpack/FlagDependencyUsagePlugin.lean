import Unpack.StaticAvailability
import Unpack.Lib.Saturation

/-! The used-exports analysis: entries and dynamic imports ask for everything, named imports for a name,
and re-exports pass on what is asked of the module that makes them. -/

namespace Unpack

/-- What is used of a module: everything, or the names. -/
structure ExportsUsage where
  all : Bool := false
  names : Finset String := ∅
  deriving DecidableEq

namespace ExportsUsage

def markAll (usage : ExportsUsage) : ExportsUsage := { usage with all := true }

def insertNames (usage : ExportsUsage) (names : Finset String) : ExportsUsage :=
  { usage with names := usage.names ∪ names }

def Uses (usage : ExportsUsage) (name : String) : Prop := usage.all = true ∨ name ∈ usage.names

instance (usage : ExportsUsage) (name : String) : Decidable (usage.Uses name) :=
  inferInstanceAs (Decidable (_ ∨ _))

end ExportsUsage

/-- The usage of each module, by its handle. -/
abbrev UsedExports := List ExportsUsage

def UsedExports.usage (used : UsedExports) (module : ModuleHandle) : ExportsUsage :=
  used.getD module {}

namespace ModuleGraph

variable (graph : ModuleGraph)

/-- `flag_dependency_exports`, which runs before: each module's info is what it provides. -/
def flagDependencyExports : ModuleGraph :=
  { graph with exportsInfos := graph.modules.map (·.providedExports) }

/-- An export name of the module, as far as its provided exports are known. -/
def mayExport (module : ModuleHandle) (name : String) : Bool :=
  (graph.exportsInfo module).providedExports.all fun provided => decide (name ∈ provided)

def flagEntry (used : UsedExports) (entry : ModuleHandle) : UsedExports :=
  match (graph.exportsInfo entry).providedExports with
  | some provided => used.modify entry (·.insertNames provided)
  | none => used.modify entry (·.markAll)

/-- The name that a connection asks of its target, if it names one. -/
def requestedName (used : UsedExports) (connection : ModuleGraphConnection) : Option String :=
  match connection.dependency with
  | .harmonyImportSpecifier dependency => dependency.ids.head?
  | .harmonyExportImportedSpecifier dependency =>
      if dependency.name.any fun name => connection.originModule.any fun origin =>
        decide ((used.usage origin).Uses name) then dependency.ids.head? else none
  | _ => none

/-- A star re-export passes on everything, or the names its target may export. -/
def flagStar (used : UsedExports) (connection : ModuleGraphConnection) : UsedExports :=
  let origin := connection.originModule.elim {} used.usage
  if origin.all then used.modify connection.module (·.markAll)
  else
    used.modify connection.module (·.insertNames (origin.names.filter fun name =>
      name ≠ "default" ∧ graph.mayExport connection.module name = true))

def flagConnection (used : UsedExports) (connection : ModuleGraphConnection) : UsedExports :=
  match connection.dependency, requestedName used connection with
  | .import _, _ => used.modify connection.module (·.markAll)
  | _, some name => used.modify connection.module (·.insertNames {name})
  | .harmonyExportImportedSpecifier dependency, none =>
      if dependency.isStar then graph.flagStar used connection else used
  | _, none => used

/-- The first id of a named import or re-export. -/
def firstId (connection : ModuleGraphConnection) : Option String :=
  match connection.dependency with
  | .harmonyImportSpecifier dependency => dependency.ids.head?
  | .harmonyExportImportedSpecifier dependency => dependency.ids.head?
  | _ => none

/-- Every name that the analysis can ever ask for. -/
def requestableNames (entries : List ModuleHandle) : Finset String :=
  (graph.connections.filterMap firstId).toFinset ∪
    entries.foldr (fun entry names => (graph.exportsInfo entry).providedExports.getD ∅ ∪ names) ∅

/-- Every pass but the last marks a module wholly or marks a name of it. -/
def usageFuel (entries : List ModuleHandle) : Nat :=
  graph.modules.length * ((graph.requestableNames entries).card + 1)

def usedExports (entries : List ModuleHandle) : UsedExports :=
  Saturation.saturate graph.flagConnection graph.connections (graph.usageFuel entries)
    (entries.foldl graph.flagEntry (graph.modules.map fun _ => {}))

def setUsage (used : UsedExports) (module : ModuleHandle) (info : ExportsInfo) : ExportsInfo :=
  if (used.usage module).all then info.setAllExportsUsed
  else info.setUsedExports (some (used.usage module).names)

def flagDependencyUsage (entries : List ModuleHandle) : ModuleGraph :=
  { graph with
    exportsInfos := graph.exportsInfos.mapIdx (setUsage (graph.usedExports entries)) }

end ModuleGraph

end Unpack
