import Unpack.CodeGeneration
import Unpack.RuntimeRequirements

/-! The records of the persistent cache as they are written: resolve, module build, code generation and
asset render records, with the checks that a written record has to pass. -/

namespace Unpack

inductive IoErrorKind where
  | invalidData
  | invalidInput
  | wouldBlock
  | notFound
  | other
  deriving DecidableEq

structure IoError where
  kind : IoErrorKind
  message : String
  deriving DecidableEq

def invalidData (message : String) : IoError := ⟨.invalidData, message⟩

abbrev PathBytes := List UInt8

def maxCollectionEntries : Nat := 100000

def maxFieldBytes : Nat := 1024 * 1024

def maxRecordBytes : Nat := 16 * 1024 * 1024

structure TimestampDto where
  seconds : Int64
  nanoseconds : UInt32
  deriving DecidableEq

inductive ManagedItemStateDto where
  | nodeModules
  | groupingFolder
  | package (name version : String)
  deriving DecidableEq

inductive SnapshotEntryDto where
  | file (path : PathBytes) (pathExists : Bool) (modified : Option TimestampDto)
      (sourceHash : Option UInt64)
  | context (path : PathBytes) (pathExists : Bool) (timestampHash contentHash : Option UInt64)
  | missingExistence (path : PathBytes)
  | immutablePath (path : PathBytes)
  | managedPath (path root : PathBytes) (state : ManagedItemStateDto)
  deriving DecidableEq

structure SnapshotDto where
  entries : List SnapshotEntryDto
  deriving DecidableEq

inductive ModuleTypeDto where
  | javaScriptAuto
  | json
  | asset
  | assetResource
  | assetInline
  | assetSource
  deriving DecidableEq

structure ModuleIdentityDto where
  moduleType : ModuleTypeDto
  resource : PathBytes
  query : Option String
  fragment : Option String
  layer : Option String
  loaders : List String
  deriving DecidableEq

structure ResolveRecordDto where
  identity : ModuleIdentityDto
  resource : PathBytes
  fileDependencies : List PathBytes
  contextDependencies : List PathBytes
  missingDependencies : List PathBytes
  snapshot : SnapshotDto
  deriving DecidableEq

structure SourceRangeDto where
  start : UInt32
  stop : UInt32
  deriving DecidableEq

structure ModuleDependencyDto where
  request : String
  userRequest : String
  sourceOrder : Option UInt64
  range : Option SourceRangeDto
  weak : Bool
  deriving DecidableEq

inductive DependencyDto where
  | entry (module : ModuleDependencyDto)
  | harmonyImportSideEffect (module : ModuleDependencyDto) (importVar : Option String)
  | harmonyImportSpecifier (module : ModuleDependencyDto) (ids : List String) (name : String)
      (usageRange : SourceRangeDto) (shorthand : Bool)
  | harmonyExportHeader (declarationRange : Option SourceRangeDto) (statementRange : SourceRangeDto)
  | harmonyExportSpecifier (id name : String)
  | harmonyExportExpression (range statementRange : SourceRangeDto) (declarationId : Option String)
  | harmonyExportImportedSpecifier (module : ModuleDependencyDto) (ids : List String)
      (name : Option String) (isStar : Bool)
  | null
  | const (expression : String) (range : SourceRangeDto)
  | «import» (module : ModuleDependencyDto)
  | loader (module : ModuleDependencyDto)
  | loaderImport (module : ModuleDependencyDto)
  deriving DecidableEq

inductive ParsedModuleDataDto where
  | javaScript
  | json (value : String)
  | asset (moduleType : ModuleTypeDto)
  deriving DecidableEq

structure AsyncDependenciesBlockDto where
  dependencies : List DependencyDto
  deriving DecidableEq

structure ParsedModuleDto where
  dependencies : List DependencyDto
  blocks : List AsyncDependenciesBlockDto
  presentationalDependencies : List DependencyDto
  identifiers : List String
  data : ParsedModuleDataDto
  buildSideEffectFree : Option Bool
  usesDirectEval : Bool
  deriving DecidableEq

structure ModuleBuildRecordDto where
  parsed : ParsedModuleDto
  source : String
  binarySource : Option (List UInt8)
  sourceHash : UInt64
  snapshot : SnapshotDto
  deriving DecidableEq

def utf8Bytes (text : String) : List UInt8 := text.toByteArray.data.toList

/-- `str::is_char_boundary` -/
def isCharBoundary (text : String) (index : Nat) : Bool :=
  index == 0 ||
    match (utf8Bytes text)[index]? with
    | none => index == (utf8Bytes text).length
    | some byte => byte < 0x80 || 0xC0 ≤ byte

def sourceRangeIsValid (range : SourceRangeDto) (source : String) : Bool :=
  range.start ≤ range.stop && range.stop.toNat ≤ (utf8Bytes source).length &&
    isCharBoundary source range.start.toNat && isCharBoundary source range.stop.toNat

def moduleRangeIsValid (module : ModuleDependencyDto) (source : String) : Bool :=
  module.sourceOrder.all (fun sourceOrder => sourceOrder.toNat ≤ maxCollectionEntries) &&
    module.range.all (sourceRangeIsValid · source)

def dependencyRangesAreValid (dependency : DependencyDto) (source : String) : Bool :=
  match dependency with
  | .entry module | .loader module | .loaderImport module | .harmonyImportSideEffect module _
  | .harmonyExportImportedSpecifier module _ _ _ => moduleRangeIsValid module source
  | .import module => module.range.isSome && moduleRangeIsValid module source
  | .harmonyImportSpecifier module _ _ usageRange _ =>
      moduleRangeIsValid module source && sourceRangeIsValid usageRange source
  | .harmonyExportHeader declarationRange statementRange =>
      declarationRange.all (sourceRangeIsValid · source) && sourceRangeIsValid statementRange source
  | .harmonyExportExpression range statementRange _ =>
      sourceRangeIsValid range source && sourceRangeIsValid statementRange source
  | .const _ range => sourceRangeIsValid range source
  | .harmonyExportSpecifier _ _ | .null => true

def parsedModuleRangesAreValid (parsed : ParsedModuleDto) (source : String) : Bool :=
  (parsed.dependencies ++ parsed.blocks.flatMap (·.dependencies) ++
    parsed.presentationalDependencies).all (dependencyRangesAreValid · source)

/-- `stable_hash` of a string: its bytes and the byte that ends it. -/
def stableHashString (text : String) : UInt64 := stableHashBytes (utf8Bytes text ++ [0xFF])

/-- `stable_hash` of a byte vector: its length and its bytes. -/
def stableHashByteVec (bytes : List UInt8) : UInt64 :=
  stableHashBytes (littleEndian bytes.length.toUInt64 ++ bytes)

def validateModuleBuildRecord (record : ModuleBuildRecordDto) : Except IoError Unit :=
  let sourceHash := (record.binarySource.map stableHashByteVec).getD (stableHashString record.source)
  if record.sourceHash ≠ sourceHash then
    .error (invalidData "Module Build Record source hash does not match its source")
  else if parsedModuleRangesAreValid record.parsed record.source then .ok ()
  else .error (invalidData "Module Build Record contains an invalid source range")

inductive ReplacementEnforceDto where
  | pre
  | normal
  | post
  deriving DecidableEq

structure CodeGenerationReplacementDto where
  start : UInt32
  stop : UInt32
  content : String
  name : Option String
  enforce : ReplacementEnforceDto
  deriving DecidableEq

inductive CodeGenerationSourceDto where
  | raw (source : String)
  | originalWithReplacements (prefixText : String) (originalSourceLen : UInt32) (originalName : String)
      (replacements : List CodeGenerationReplacementDto) (suffix : String)
  deriving DecidableEq

structure CodeGenerationRecordDto where
  source : CodeGenerationSourceDto
  runtimeRequirements : UInt16
  deriving DecidableEq

structure AssetRenderRecordDto where
  source : String
  sourceMap : Option String
  deriving DecidableEq

namespace RuntimeRequirement

def bit : RuntimeRequirement → UInt16
  | moduleFactories => 0
  | moduleCache => 1
  | require => 2
  | definePropertyGetters => 3
  | hasOwnProperty => 4
  | makeNamespaceObject => 5
  | ensureChunk => 6
  | getChunkFilename => 7
  | returnExportsFromRuntime => 8
  | ensureChunkHandlers => 9
  | moduleFactoriesAddOnly => 10

def mask (requirement : RuntimeRequirement) : UInt16 := 1 <<< requirement.bit

end RuntimeRequirement

/-- The bits of all requirements. -/
def runtimeRequirementsMask : UInt16 :=
  RuntimeRequirement.all.foldl (fun mask requirement => mask ||| requirement.mask) 0

def replacementIsValid (originalSourceLen : UInt32) (replacement : CodeGenerationReplacementDto) : Bool :=
  replacement.start ≤ replacement.stop && replacement.stop ≤ originalSourceLen

def validateCodeGenerationRecord (record : CodeGenerationRecordDto) : Except IoError Unit :=
  if record.runtimeRequirements &&& ~~~runtimeRequirementsMask ≠ 0 then
    .error (invalidData "Code Generation Record contains unknown Runtime Requirements")
  else
    match record.source with
    | .raw _ => .ok ()
    | .originalWithReplacements _ originalSourceLen _ replacements _ =>
        if replacements.all (replacementIsValid originalSourceLen) then .ok ()
        else .error (invalidData "Code Generation Record contains an invalid replacement range")

end Unpack
