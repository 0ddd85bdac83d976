import Unpack.Dependency
import Mathlib.Data.Finset.Basic

/-! Built modules, their exports info and what the parser left in them. The parser itself is not
modelled here: a module holds whatever `ParsedModule` its build stored. -/

namespace Unpack

/-- `serde_json::Value` as the later phases see it: the keys when it is an object, and its text. -/
structure JsonValue where
  objectKeys : Option (List String)
  serialized : String
  deriving DecidableEq

inductive ParsedModuleData where
  | javaScript
  | json (value : JsonValue)
  | asset (moduleType : ModuleType)
  deriving DecidableEq

structure AsyncDependenciesBlock where
  dependencies : List Dependency
  deriving DecidableEq

structure JavascriptBuildMeta where
  sideEffectFree : Option Bool := none
  usesDirectEval : Bool := false
  deriving DecidableEq

structure ParsedModule where
  dependencies : List Dependency := []
  blocks : List AsyncDependenciesBlock := []
  presentationalDependencies : List Dependency := []
  identifiers : List String := []
  data : ParsedModuleData := .javaScript
  buildMeta : JavascriptBuildMeta := {}
  deriving DecidableEq

structure BuiltModuleContent where
  parsed : ParsedModule := {}
  source : String := ""
  binarySource : Option (List UInt8) := none
  sourceHash : UInt64 := 0
  codeGenerationLocalInputDigest : UInt64 := 0
  deriving DecidableEq

structure ExportsInfo where
  providedExports : Option (Finset String) := none
  usedExports : Option (Finset String) := none
  allExportsUsed : Bool := false
  deriving DecidableEq

namespace ExportsInfo

def fromNames (names : List String) : ExportsInfo :=
  { providedExports := some names.toFinset }

def addProvidedExport (info : ExportsInfo) (name : String) : ExportsInfo :=
  { info with providedExports := info.providedExports.map (insert name) }

def addDependency (info : ExportsInfo) : Dependency → ExportsInfo
  | .harmonyExportSpecifier dep => info.addProvidedExport dep.name
  | .harmonyExportExpression _ => info.addProvidedExport "default"
  | .harmonyExportImportedSpecifier dep =>
      if dep.isStar then { info with providedExports := none }
      else
        match dep.name with
        | some name => info.addProvidedExport name
        | none => info
  | _ => info

def fromDependencies (dependencies : List Dependency) : ExportsInfo :=
  dependencies.foldl addDependency { providedExports := some ∅ }

/-- Exports are used by their own names; no mangling. -/
def getUsedName (info : ExportsInfo) (name : String) : Option String :=
  if info.allExportsUsed then some name
  else
    match info.usedExports with
    | none => some name
    | some exports => if name ∈ exports then some name else none

def setUsedExports (info : ExportsInfo) (exports : Option (Finset String)) : ExportsInfo :=
  { info with usedExports := exports, allExportsUsed := false }

def setAllExportsUsed (info : ExportsInfo) : ExportsInfo :=
  { info with usedExports := some ∅, allExportsUsed := true }

end ExportsInfo

/-- A build error is kept as its printed text, which is all that is read of it. -/
structure Module where
  handle : ModuleHandle
  identity : ModuleIdentity
  builtContent : BuiltModuleContent := {}
  buildError : Option String := none
  harmony : Bool := false
  factorySideEffectFree : Option Bool := none
  buildSideEffectFree : Option Bool := none
  deriving DecidableEq

namespace Module

def dependencies (module : Module) : List Dependency := module.builtContent.parsed.dependencies

def blocks (module : Module) : List AsyncDependenciesBlock := module.builtContent.parsed.blocks

def presentationalDependencies (module : Module) : List Dependency :=
  module.builtContent.parsed.presentationalDependencies

def source (module : Module) : String := module.builtContent.source

def sourceLen (module : Module) : Nat := module.source.utf8ByteSize

def sourceHash (module : Module) : UInt64 := module.builtContent.sourceHash

/-- The binary source when there is one, otherwise the bytes of the text. -/
def sourceBytes (module : Module) : List UInt8 :=
  module.builtContent.binarySource.getD module.source.toUTF8.toList

def codeGenerationLocalInputDigest (module : Module) : UInt64 :=
  module.builtContent.codeGenerationLocalInputDigest

def parsedData (module : Module) : ParsedModuleData := module.builtContent.parsed.data

def identifiers (module : Module) : List String := module.builtContent.parsed.identifiers

def usesDirectEval (module : Module) : Bool := module.builtContent.parsed.buildMeta.usesDirectEval

def isHarmony (module : Module) : Bool := module.harmony

/-- The factory's flag, read from the package, wins over the parser's. -/
def isSideEffectFree (module : Module) : Bool :=
  (module.factorySideEffectFree.or module.buildSideEffectFree).getD false

def providedExports (module : Module) : ExportsInfo :=
  match module.parsedData with
  | .json value => .fromNames ("default" :: value.objectKeys.getD [])
  | .asset _ => .fromNames ["default"]
  | .javaScript => .fromDependencies module.dependencies

def finishBuildContent (module : Module) (content : BuiltModuleContent) : Module :=
  { module with
    buildSideEffectFree := content.parsed.buildMeta.sideEffectFree
    harmony := (content.parsed.dependencies ++ content.parsed.presentationalDependencies).any
      Dependency.isHarmonyDependency
    builtContent := content
    buildError := none }

end Module

end Unpack
