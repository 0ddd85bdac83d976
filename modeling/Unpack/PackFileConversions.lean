import Unpack.CacheItems

/-! From the items of the cache to the records of a pack file and back. -/

namespace Unpack.CacheItem

open Fallible

def PathBuf.toBytes (path : PathBuf) : PathBytes := path.bytes

/-- `into_path_buf` of Unix, where any bytes are a path. -/
def intoPathBuf (path : PathBytes) : Option PathBuf := some ⟨path⟩

def pathFromBytes (path : PathBytes) : Except IoError PathBuf :=
  match intoPathBuf path with
  | some path => .ok path
  | none => .error (invalidData "PackFile path bytes are invalid on this platform")

def pathsFromBytes (paths : List PathBytes) : Except IoError PathSet :=
  PathSet.collect <$> paths.mapM pathFromBytes

@[simp]
theorem pathFromBytes_toBytes (path : PathBuf) : pathFromBytes path.toBytes = .ok path := rfl

@[simp]
theorem pathsFromBytes_toBytes (set : PathSet) :
    pathsFromBytes (set.paths.map PathBuf.toBytes) = .ok set := by
  have hpaths : ∀ paths : List PathBuf, (paths.map PathBuf.toBytes).mapM pathFromBytes = .ok paths := by
    intro paths
    induction paths with
    | nil => rfl
    | cons path rest ih =>
      rw [List.map_cons, List.mapM_cons, ih]
      rfl
  rw [pathsFromBytes, hpaths]
  exact congrArg Except.ok set.collect_paths

/-- `i64::try_from` of a number that is not negative. -/
def i64TryFrom (value : Nat) : Option Int64 :=
  if value < 2 ^ 63 then some (Int64.ofInt value) else none

def checkedNeg (value : Int64) : Option Int64 :=
  if value = Int64.minValue then none else some (Int64.ofInt (-value.toInt))

/-- `checked_sub(1)` -/
def checkedPred (value : Int64) : Option Int64 :=
  if value = Int64.minValue then none else some (Int64.ofInt (value.toInt - 1))

def orInvalid {α : Type} (message : String) : Option α → Except IoError α
  | some value => .ok value
  | none => .error (invalidData message)

def timestampFromSystemTime (time : SystemTime) : Except IoError TimestampDto :=
  match time.durationSinceEpoch with
  | .ok duration => do
      let seconds ← orInvalid "Snapshot timestamp is too large" (i64TryFrom duration.seconds)
      return ⟨seconds, UInt32.ofNat duration.nanoseconds⟩
  | .error duration => do
      let seconds ← orInvalid "Snapshot timestamp is too small" (i64TryFrom duration.seconds)
      if duration.nanoseconds = 0 then
        let seconds ← orInvalid "Snapshot timestamp is too small" (checkedNeg seconds)
        return ⟨seconds, 0⟩
      else
        let seconds ← orInvalid "Snapshot timestamp is too small" ((checkedNeg seconds).bind checkedPred)
        return ⟨seconds, UInt32.ofNat (1000000000 - duration.nanoseconds)⟩

def systemTimeFromTimestamp (timestamp : TimestampDto) : Except IoError SystemTime :=
  if 1000000000 ≤ timestamp.nanoseconds.toNat then
    .error (invalidData "Snapshot timestamp nanoseconds are out of range")
  else if 0 ≤ timestamp.seconds.toInt then
    orInvalid "Snapshot timestamp is too large"
      (SystemTime.afterEpoch ⟨timestamp.seconds.toInt.natAbs, timestamp.nanoseconds.toNat⟩)
  else do
    let duration : Duration ←
      if timestamp.nanoseconds = 0 then .ok ⟨timestamp.seconds.toInt.natAbs, 0⟩
      else if timestamp.seconds.toInt.natAbs = 0 then .error (invalidData "Snapshot timestamp is invalid")
      else .ok ⟨timestamp.seconds.toInt.natAbs - 1, 1000000000 - timestamp.nanoseconds.toNat⟩
    orInvalid "Snapshot timestamp is too small" (SystemTime.beforeEpoch duration)

def managedItemStateToDto : PersistentManagedItemState → ManagedItemStateDto
  | .nodeModules => .nodeModules
  | .groupingFolder => .groupingFolder
  | .package name version => .package name version

def managedItemStateFromDto : ManagedItemStateDto → PersistentManagedItemState
  | .nodeModules => .nodeModules
  | .groupingFolder => .groupingFolder
  | .package name version => .package name version

def snapshotEntryToDto : PersistentSnapshotEntry → Except IoError SnapshotEntryDto
  | .file path pathExists modified sourceHash => do
      let modified ← modified.mapM timestampFromSystemTime
      return .file path.toBytes pathExists modified sourceHash
  | .context path pathExists timestampHash contentHash =>
      .ok (.context path.toBytes pathExists timestampHash contentHash)
  | .missingExistence path => .ok (.missingExistence path.toBytes)
  | .immutablePath path => .ok (.immutablePath path.toBytes)
  | .managedPath path root state =>
      .ok (.managedPath path.toBytes root.toBytes (managedItemStateToDto state))

def snapshotEntryFromDto : SnapshotEntryDto → Except IoError PersistentSnapshotEntry
  | .file path pathExists modified sourceHash => do
      let path ← pathFromBytes path
      let modified ← modified.mapM systemTimeFromTimestamp
      return .file path pathExists modified sourceHash
  | .context path pathExists timestampHash contentHash => do
      let path ← pathFromBytes path
      return .context path pathExists timestampHash contentHash
  | .missingExistence path => do
      let path ← pathFromBytes path
      return .missingExistence path
  | .immutablePath path => do
      let path ← pathFromBytes path
      return .immutablePath path
  | .managedPath path root state => do
      let path ← pathFromBytes path
      let root ← pathFromBytes root
      return .managedPath path root (managedItemStateFromDto state)

def snapshotToDto (snapshot : Snapshot) : Except IoError SnapshotDto := do
  let entries ← snapshot.persistentEntries.mapM snapshotEntryToDto
  return ⟨entries⟩

def snapshotFromDto (snapshot : SnapshotDto) : Except IoError Snapshot := do
  let entries ← snapshot.entries.mapM snapshotEntryFromDto
  orInvalid "PackFile Snapshot contains inconsistent or duplicate entries"
    (Snapshot.fromPersistentEntries entries)

def moduleTypeToDto : ModuleType → ModuleTypeDto
  | .javaScriptAuto => .javaScriptAuto
  | .json => .json
  | .asset => .asset
  | .assetResource => .assetResource
  | .assetInline => .assetInline
  | .assetSource => .assetSource

def moduleTypeFromDto : ModuleTypeDto → ModuleType
  | .javaScriptAuto => .javaScriptAuto
  | .json => .json
  | .asset => .asset
  | .assetResource => .assetResource
  | .assetInline => .assetInline
  | .assetSource => .assetSource

def moduleIdentityToDto (identity : ModuleIdentity) : ModuleIdentityDto where
  moduleType := moduleTypeToDto identity.moduleType
  resource := identity.resource.toBytes
  query := identity.query
  fragment := identity.fragment
  layer := identity.layer
  loaders := identity.loaders

def moduleIdentityFromDto (identity : ModuleIdentityDto) : Except IoError ModuleIdentity := do
  let resource ← pathFromBytes identity.resource
  return {
    moduleType := moduleTypeFromDto identity.moduleType
    resource
    query := identity.query
    fragment := identity.fragment
    layer := identity.layer
    loaders := identity.loaders }

def resolveRecordToDto (record : ResolveRecord) : Except IoError ResolveRecordDto := do
  let snapshot ← snapshotToDto record.snapshot
  return {
    identity := moduleIdentityToDto record.identity
    resource := record.resource.toBytes
    fileDependencies := record.fileDependencies.paths.map PathBuf.toBytes
    contextDependencies := record.contextDependencies.paths.map PathBuf.toBytes
    missingDependencies := record.missingDependencies.paths.map PathBuf.toBytes
    snapshot }

def resolveRecordFromDto (record : ResolveRecordDto) : Except IoError ResolveRecord := do
  let identity ← moduleIdentityFromDto record.identity
  let resource ← pathFromBytes record.resource
  let fileDependencies ← pathsFromBytes record.fileDependencies
  let contextDependencies ← pathsFromBytes record.contextDependencies
  let missingDependencies ← pathsFromBytes record.missingDependencies
  let snapshot ← snapshotFromDto record.snapshot
  return { identity, resource, fileDependencies, contextDependencies, missingDependencies, snapshot }

def sourceRangeToDto (range : SourceRange) : SourceRangeDto := ⟨range.start, range.stop⟩

def sourceRangeFromDto (range : SourceRangeDto) : SourceRange := ⟨range.start, range.stop⟩

def moduleDependencyToDto (dependency : ModuleDependency) : ModuleDependencyDto where
  request := dependency.request
  userRequest := dependency.userRequest
  sourceOrder := dependency.sourceOrder
  range := dependency.range.map sourceRangeToDto
  weak := dependency.weak

def moduleDependencyFromDto (dependency : ModuleDependencyDto) : ModuleDependency where
  request := dependency.request
  userRequest := dependency.userRequest
  sourceOrder := dependency.sourceOrder
  range := dependency.range.map sourceRangeFromDto
  weak := dependency.weak

def dependencyToDto : Dependency → DependencyDto
  | .entry module => .entry (moduleDependencyToDto module)
  | .harmonyImportSideEffect module importVar =>
      .harmonyImportSideEffect (moduleDependencyToDto module) importVar
  | .harmonyImportSpecifier module ids name usageRange shorthand =>
      .harmonyImportSpecifier (moduleDependencyToDto module) ids name (sourceRangeToDto usageRange) shorthand
  | .harmonyExportHeader declarationRange statementRange =>
      .harmonyExportHeader (declarationRange.map sourceRangeToDto) (sourceRangeToDto statementRange)
  | .harmonyExportSpecifier id name => .harmonyExportSpecifier id name
  | .harmonyExportExpression range statementRange declarationId =>
      .harmonyExportExpression (sourceRangeToDto range) (sourceRangeToDto statementRange) declarationId
  | .harmonyExportImportedSpecifier module ids name isStar =>
      .harmonyExportImportedSpecifier (moduleDependencyToDto module) ids name isStar
  | .null => .null
  | .const expression range => .const expression (sourceRangeToDto range)
  | .import module => .import (moduleDependencyToDto module)
  | .loader module => .loader (moduleDependencyToDto module)
  | .loaderImport module => .loaderImport (moduleDependencyToDto module)

def dependencyFromDto : DependencyDto → Dependency
  | .entry module => .entry (moduleDependencyFromDto module)
  | .harmonyImportSideEffect module importVar =>
      .harmonyImportSideEffect (moduleDependencyFromDto module) importVar
  | .harmonyImportSpecifier module ids name usageRange shorthand =>
      .harmonyImportSpecifier (moduleDependencyFromDto module) ids name (sourceRangeFromDto usageRange)
        shorthand
  | .harmonyExportHeader declarationRange statementRange =>
      .harmonyExportHeader (declarationRange.map sourceRangeFromDto) (sourceRangeFromDto statementRange)
  | .harmonyExportSpecifier id name => .harmonyExportSpecifier id name
  | .harmonyExportExpression range statementRange declarationId =>
      .harmonyExportExpression (sourceRangeFromDto range) (sourceRangeFromDto statementRange) declarationId
  | .harmonyExportImportedSpecifier module ids name isStar =>
      .harmonyExportImportedSpecifier (moduleDependencyFromDto module) ids name isStar
  | .null => .null
  | .const expression range => .const expression (sourceRangeFromDto range)
  | .import module => .import (moduleDependencyFromDto module)
  | .loader module => .loader (moduleDependencyFromDto module)
  | .loaderImport module => .loaderImport (moduleDependencyFromDto module)

section ModuleBuild

variable {Json : Type} (library : ParsedModuleLibrary Json)

def parsedModuleDataToDto : ParsedModuleData Json → Except IoError ParsedModuleDataDto
  | .javaScript => .ok .javaScript
  | .json value => .json <$> library.toString value
  | .asset moduleType => .ok (.asset (moduleTypeToDto moduleType))

def parsedModuleDataFromDto : ParsedModuleDataDto → Except IoError (ParsedModuleData Json)
  | .javaScript => .ok .javaScript
  | .json value => .json <$> library.fromString value
  | .asset .javaScriptAuto | .asset .json =>
      .error (invalidData "Asset Parser data contains a non-asset module type")
  | .asset moduleType => .ok (.asset (moduleTypeFromDto moduleType))

def parsedModuleToDto (parsed : ParsedModule Json) : Except IoError ParsedModuleDto := do
  let data ← parsedModuleDataToDto library parsed.data
  return {
    dependencies := parsed.dependencies.map dependencyToDto
    blocks := parsed.blocks.map fun block => ⟨block.dependencies.map dependencyToDto⟩
    presentationalDependencies := parsed.presentationalDependencies.map dependencyToDto
    identifiers := parsed.identifiers
    data
    buildSideEffectFree := parsed.buildMeta.sideEffectFree
    usesDirectEval := parsed.buildMeta.usesDirectEval }

def parsedModuleFromDto (parsed : ParsedModuleDto) : Except IoError (ParsedModule Json) := do
  let data ← parsedModuleDataFromDto library parsed.data
  return {
    dependencies := parsed.dependencies.map dependencyFromDto
    blocks := parsed.blocks.map fun block => ⟨block.dependencies.map dependencyFromDto⟩
    presentationalDependencies := parsed.presentationalDependencies.map dependencyFromDto
    identifiers := parsed.identifiers
    data
    buildMeta := ⟨parsed.buildSideEffectFree, parsed.usesDirectEval⟩ }

def moduleBuildRecordToDto (record : ModuleBuildRecord Json) : Except IoError ModuleBuildRecordDto := do
  let parsed ← parsedModuleToDto library record.builtContent.parsed
  let snapshot ← snapshotToDto record.snapshot
  let dto : ModuleBuildRecordDto := {
    parsed
    source := record.builtContent.source
    binarySource := record.builtContent.binarySource
    sourceHash := record.builtContent.sourceHash
    snapshot }
  validateModuleBuildRecord dto
  return dto

def moduleBuildRecordFromDto (record : ModuleBuildRecordDto) : Except IoError (ModuleBuildRecord Json) := do
  let parsed ← parsedModuleFromDto library record.parsed
  let snapshot ← snapshotFromDto record.snapshot
  return {
    builtContent := .fromPersistentParts library parsed record.source record.binarySource record.sourceHash
    snapshot }

end ModuleBuild

def replacementEnforceToDto : ReplacementEnforce → ReplacementEnforceDto
  | .pre => .pre
  | .normal => .normal
  | .post => .post

def replacementEnforceFromDto : ReplacementEnforceDto → ReplacementEnforce
  | .pre => .pre
  | .normal => .normal
  | .post => .post

def replacementToDto (replacement : CodeGenerationReplacement) : CodeGenerationReplacementDto where
  start := replacement.start
  stop := replacement.stop
  content := replacement.content
  name := replacement.name
  enforce := replacementEnforceToDto replacement.enforce

def replacementFromDto (replacement : CodeGenerationReplacementDto) : CodeGenerationReplacement where
  start := replacement.start
  stop := replacement.stop
  content := replacement.content
  name := replacement.name
  enforce := replacementEnforceFromDto replacement.enforce

def codeGenerationSourceToDto : CodeGenerationSource → CodeGenerationSourceDto
  | .raw source => .raw source
  | .originalWithReplacements prefixText originalSourceLen originalName replacements suffix =>
      .originalWithReplacements prefixText originalSourceLen originalName (replacements.map replacementToDto)
        suffix

def codeGenerationSourceFromDto : CodeGenerationSourceDto → CodeGenerationSource
  | .raw source => .raw source
  | .originalWithReplacements prefixText originalSourceLen originalName replacements suffix =>
      .originalWithReplacements prefixText originalSourceLen originalName
        (replacements.map replacementFromDto) suffix

def codeGenerationRecordToDto (record : CodeGenerationRecord) : CodeGenerationRecordDto where
  source := codeGenerationSourceToDto record.source
  runtimeRequirements := record.runtimeRequirements.bits

/-- Unknown requirements were refused before the mask is read. -/
def codeGenerationRecordFromDto (record : CodeGenerationRecordDto) : Except IoError CodeGenerationRecord := do
  validateCodeGenerationRecord record
  let runtimeRequirements ← orInvalid "Code Generation codec must reject unknown Runtime Requirements"
    (RuntimeRequirements.fromMask record.runtimeRequirements)
  return { source := codeGenerationSourceFromDto record.source, runtimeRequirements }

end Unpack.CacheItem
