import Unpack.BuiltSnapshot

/-! The items of the cache in memory, with all their fields: what a build keeps of a resolution, of a built
module and of generated code. -/

namespace Unpack.CacheItem

structure ModuleIdentity where
  moduleType : ModuleType
  resource : PathBuf
  query : Option String
  fragment : Option String
  layer : Option String
  loaders : List String
  deriving DecidableEq

structure ResolveRecord where
  identity : ModuleIdentity
  resource : PathBuf
  fileDependencies : PathSet
  contextDependencies : PathSet
  missingDependencies : PathSet
  snapshot : Snapshot

structure SourceRange where
  start : UInt32
  stop : UInt32
  deriving DecidableEq

/-- A source order is a 64-bit `usize`. -/
structure ModuleDependency where
  request : String
  userRequest : String
  sourceOrder : Option UInt64
  range : Option SourceRange
  weak : Bool
  deriving DecidableEq

inductive Dependency where
  | entry (module : ModuleDependency)
  | harmonyImportSideEffect (module : ModuleDependency) (importVar : Option String)
  | harmonyImportSpecifier (module : ModuleDependency) (ids : List String) (name : String)
      (usageRange : SourceRange) (shorthand : Bool)
  | harmonyExportHeader (declarationRange : Option SourceRange) (statementRange : SourceRange)
  | harmonyExportSpecifier (id name : String)
  | harmonyExportExpression (range statementRange : SourceRange) (declarationId : Option String)
  | harmonyExportImportedSpecifier (module : ModuleDependency) (ids : List String)
      (name : Option String) (isStar : Bool)
  | null
  | const (expression : String) (range : SourceRange)
  | import (module : ModuleDependency)
  | loader (module : ModuleDependency)
  | loaderImport (module : ModuleDependency)
  deriving DecidableEq

inductive ParsedModuleData (Json : Type) where
  | javaScript
  | json (value : Json)
  | asset (moduleType : ModuleType)

structure AsyncDependenciesBlock where
  dependencies : List Dependency
  deriving DecidableEq

structure ParsedModule (Json : Type) where
  dependencies : List Dependency
  blocks : List AsyncDependenciesBlock
  presentationalDependencies : List Dependency
  identifiers : List String
  data : ParsedModuleData Json
  buildMeta : JavascriptBuildMeta

structure BuiltModuleContent (Json : Type) where
  parsed : ParsedModule Json
  source : String
  binarySource : Option (List UInt8)
  sourceHash : UInt64
  codeGenerationLocalInputDigest : UInt64

/-- The text of a JSON value, a value of a text, and the hash of what a module's code is generated from:
dependencies, presentational dependencies and parser data. -/
structure ParsedModuleLibrary (Json : Type) where
  toString : Json → Except IoError String
  fromString : String → Except IoError Json
  localInputHash : List Dependency × List AsyncDependenciesBlock → List Dependency → ParsedModuleData Json →
    UInt64

/-- A JSON value is read from its text. -/
def ParsedModuleLibrary.Lossless {Json : Type} (library : ParsedModuleLibrary Json) : Prop :=
  ∀ value, Fallible.RoundTrips library.toString library.fromString value

namespace BuiltModuleContent

variable {Json : Type} (library : ParsedModuleLibrary Json)

def fromPersistentParts (parsed : ParsedModule Json) (source : String) (binarySource : Option (List UInt8))
    (sourceHash : UInt64) : BuiltModuleContent Json where
  parsed := parsed
  source := source
  binarySource := binarySource
  sourceHash := sourceHash
  codeGenerationLocalInputDigest := library.localInputHash (parsed.dependencies, parsed.blocks)
    parsed.presentationalDependencies parsed.data

def new (parsed : ParsedModule Json) (source : String) : BuiltModuleContent Json :=
  fromPersistentParts library parsed source none (stableHashString source)

def newBinary (parsed : ParsedModule Json) (source : String) (binarySource : List UInt8) :
    BuiltModuleContent Json :=
  fromPersistentParts library parsed source (some binarySource) (stableHashByteVec binarySource)

/-- The contents that a module build makes. -/
inductive Built : BuiltModuleContent Json → Prop
  | new (parsed : ParsedModule Json) (source : String) : Built (new library parsed source)
  | newBinary (parsed : ParsedModule Json) (source : String) (binarySource : List UInt8) :
      Built (newBinary library parsed source binarySource)

end BuiltModuleContent

structure ModuleBuildRecord (Json : Type) where
  builtContent : BuiltModuleContent Json
  snapshot : Snapshot

/-- A mask of known requirements. -/
structure RuntimeRequirements where
  bits : UInt16
  known : bits &&& ~~~runtimeRequirementsMask = 0

def RuntimeRequirements.fromMask (mask : UInt16) : Option RuntimeRequirements :=
  if h : mask &&& ~~~runtimeRequirementsMask = 0 then some ⟨mask, h⟩ else none

inductive ReplacementEnforce where
  | pre
  | normal
  | post
  deriving DecidableEq

structure CodeGenerationReplacement where
  start : UInt32
  stop : UInt32
  content : String
  name : Option String
  enforce : ReplacementEnforce
  deriving DecidableEq

inductive CodeGenerationSource where
  | raw (source : String)
  | originalWithReplacements (prefixText : String) (originalSourceLen : UInt32) (originalName : String)
      (replacements : List CodeGenerationReplacement) (suffix : String)
  deriving DecidableEq

structure CodeGenerationRecord where
  source : CodeGenerationSource
  runtimeRequirements : RuntimeRequirements

namespace SourceRange

/-- From one character boundary of the source to another. -/
structure Within (source : String) (range : SourceRange) : Prop where
  ordered : range.start ≤ range.stop
  bounded : range.stop.toNat ≤ (utf8Bytes source).length
  start_boundary : isCharBoundary source range.start.toNat = true
  stop_boundary : isCharBoundary source range.stop.toNat = true

end SourceRange

structure ModuleDependency.Within (source : String) (module : ModuleDependency) : Prop where
  sourceOrder_le : ∀ sourceOrder ∈ module.sourceOrder, sourceOrder.toNat ≤ maxCollectionEntries
  range_within : ∀ range ∈ module.range, range.Within source

def Dependency.Within (source : String) : Dependency → Prop
  | entry module | loader module | loaderImport module | harmonyImportSideEffect module _
  | harmonyExportImportedSpecifier module _ _ _ => module.Within source
  | .import module => module.range.isSome = true ∧ module.Within source
  | harmonyImportSpecifier module _ _ usageRange _ => module.Within source ∧ usageRange.Within source
  | harmonyExportHeader declarationRange statementRange =>
      (∀ range ∈ declarationRange, range.Within source) ∧ statementRange.Within source
  | harmonyExportExpression range statementRange _ => range.Within source ∧ statementRange.Within source
  | const _ range => range.Within source
  | harmonyExportSpecifier _ _ | null => True

/-- The dependencies of a parsed module, everywhere they are, lie in its source. -/
structure ParsedModule.RangesWithin {Json : Type} (source : String) (parsed : ParsedModule Json) : Prop where
  dependencies : ∀ dependency ∈ parsed.dependencies, dependency.Within source
  blocks : ∀ block ∈ parsed.blocks, ∀ dependency ∈ block.dependencies, dependency.Within source
  presentational : ∀ dependency ∈ parsed.presentationalDependencies, dependency.Within source

/-- An asset parser left an asset type. -/
def ParsedModuleData.AssetTyped {Json : Type} (data : ParsedModuleData Json) : Prop :=
  ∀ moduleType, data = .asset moduleType → moduleType ≠ .javaScriptAuto ∧ moduleType ≠ .json

/-- Each replacement lies in the original source. -/
def CodeGenerationSource.Within : CodeGenerationSource → Prop
  | raw _ => True
  | originalWithReplacements _ originalSourceLen _ replacements _ =>
      ∀ replacement ∈ replacements,
        replacement.start ≤ replacement.stop ∧ replacement.stop ≤ originalSourceLen

/-- The first time there is, whose distance to the epoch does not fit a signed number of seconds. -/
def SystemTime.IsFirst (time : SystemTime) : Prop := time.seconds = Int64.minValue ∧ time.nanoseconds = 0

instance (time : SystemTime) : Decidable time.IsFirst := by
  unfold SystemTime.IsFirst
  infer_instance

def SnapshotEntry.modified : SnapshotEntry → Option SystemTime
  | file _ snapshot => snapshot.modified
  | context _ _ | missingExistence _ | immutablePath _ | managedPath _ => none

/-- The snapshots that survive: no path twice, and no file modified at the first time there is. -/
structure Snapshot.Persistable (snapshot : Snapshot) : Prop where
  pathsDistinct : snapshot.PathsDistinct
  modified : ∀ entry ∈ snapshot.entries, ∀ time ∈ entry.modified, ¬ time.IsFirst

end Unpack.CacheItem
