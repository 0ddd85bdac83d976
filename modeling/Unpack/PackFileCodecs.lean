import Unpack.PackFileEncoder

/-! The record codecs of the pack file: the bytes that each kind of record is written as, and how they are
read. -/

namespace Unpack

open Codec Encoder Decoder

def encodeManagedItemState : ManagedItemStateDto → Encoder Unit
  | .nodeModules => writeU8 0
  | .groupingFolder => writeU8 1
  | .package name version => do
      writeU8 2
      writeString name
      writeString version

def encodeSnapshotEntry : SnapshotEntryDto → Encoder Unit
  | .file path pathExists modified sourceHash => do
      writeU8 0
      writePath path
      writeBool pathExists
      writeOptionalTimestamp modified
      writeOptionalU64 sourceHash
  | .context path pathExists timestampHash contentHash => do
      writeU8 1
      writePath path
      writeBool pathExists
      writeOptionalU64 timestampHash
      writeOptionalU64 contentHash
  | .missingExistence path => do
      writeU8 2
      writePath path
  | .immutablePath path => do
      writeU8 3
      writePath path
  | .managedPath path root state => do
      writeU8 4
      writePath path
      writePath root
      encodeManagedItemState state

def encodeSnapshot (snapshot : SnapshotDto) : Encoder Unit :=
  writeMany encodeSnapshotEntry snapshot.entries

def decodeManagedItemState : Decoder ManagedItemStateDto := do
  match ← readU8 with
  | 0 => pure .nodeModules
  | 1 => pure .groupingFolder
  | 2 => do
      let name ← readString
      let version ← readString
      pure (.package name version)
  | _ => failure

def decodeSnapshotEntry : Decoder SnapshotEntryDto := do
  match ← readU8 with
  | 0 => do
      let path ← readPath
      let pathExists ← readBool
      let modified ← readOptionalTimestamp
      let sourceHash ← readOptionalU64
      pure (.file path pathExists modified sourceHash)
  | 1 => do
      let path ← readPath
      let pathExists ← readBool
      let timestampHash ← readOptionalU64
      let contentHash ← readOptionalU64
      pure (.context path pathExists timestampHash contentHash)
  | 2 => do
      let path ← readPath
      pure (.missingExistence path)
  | 3 => do
      let path ← readPath
      pure (.immutablePath path)
  | 4 => do
      let path ← readPath
      let root ← readPath
      let state ← decodeManagedItemState
      pure (.managedPath path root state)
  | _ => failure

def decodeSnapshot : Decoder SnapshotDto := do
  let entries ← readMany decodeSnapshotEntry
  pure ⟨entries⟩

/-- The tag of a module type. -/
def ModuleTypeDto.tag : ModuleTypeDto → UInt8
  | javaScriptAuto => 0
  | json => 1
  | asset => 2
  | assetResource => 3
  | assetInline => 4
  | assetSource => 5

def encodeResolveFields (record : ResolveRecordDto) : Encoder Unit := do
  writeU8 record.identity.moduleType.tag
  writePath record.identity.resource
  writeOptionalString record.identity.query
  writeOptionalString record.identity.fragment
  writeOptionalString record.identity.layer
  writeStrings record.identity.loaders
  writePath record.resource
  writePaths record.fileDependencies
  writePaths record.contextDependencies
  writePaths record.missingDependencies
  encodeSnapshot record.snapshot

def encodeResolveRecord (record : ResolveRecordDto) : Except IoError (List UInt8) :=
  encodeWhole (encodeResolveFields record)

def decodeModuleType : Decoder ModuleTypeDto := do
  match ← readU8 with
  | 0 => pure .javaScriptAuto
  | 1 => pure .json
  | 2 => pure .asset
  | 3 => pure .assetResource
  | 4 => pure .assetInline
  | 5 => pure .assetSource
  | _ => failure

def decodeResolveFields : Decoder ResolveRecordDto := do
  let moduleType ← decodeModuleType
  let identityResource ← readPath
  let query ← readOptionalString
  let fragment ← readOptionalString
  let layer ← readOptionalString
  let loaders ← readStrings
  let resource ← readPath
  let fileDependencies ← readPaths
  let contextDependencies ← readPaths
  let missingDependencies ← readPaths
  let snapshot ← decodeSnapshot
  pure ⟨⟨moduleType, identityResource, query, fragment, layer, loaders⟩, resource, fileDependencies,
    contextDependencies, missingDependencies, snapshot⟩

def decodeResolveRecord : List UInt8 → Option ResolveRecordDto := decodeWhole decodeResolveFields

def encodeSourceRange (range : SourceRangeDto) : Encoder Unit := do
  writeU32 range.start
  writeU32 range.stop

def encodeOptionalSourceRange : Option SourceRangeDto → Encoder Unit := writeOptional encodeSourceRange

def encodeModuleDependency (dependency : ModuleDependencyDto) : Encoder Unit := do
  writeString dependency.request
  writeString dependency.userRequest
  writeOptionalU64 dependency.sourceOrder
  encodeOptionalSourceRange dependency.range
  writeBool dependency.weak

def encodeDependency : DependencyDto → Encoder Unit
  | .entry module => do
      writeU8 0
      encodeModuleDependency module
  | .harmonyImportSideEffect module importVar => do
      writeU8 1
      encodeModuleDependency module
      writeOptionalString importVar
  | .harmonyImportSpecifier module ids name usageRange shorthand => do
      writeU8 2
      encodeModuleDependency module
      writeStrings ids
      writeString name
      encodeSourceRange usageRange
      writeBool shorthand
  | .harmonyExportHeader declarationRange statementRange => do
      writeU8 3
      encodeOptionalSourceRange declarationRange
      encodeSourceRange statementRange
  | .harmonyExportSpecifier id name => do
      writeU8 4
      writeString id
      writeString name
  | .harmonyExportExpression range statementRange declarationId => do
      writeU8 5
      encodeSourceRange range
      encodeSourceRange statementRange
      writeOptionalString declarationId
  | .harmonyExportImportedSpecifier module ids name isStar => do
      writeU8 6
      encodeModuleDependency module
      writeStrings ids
      writeOptionalString name
      writeBool isStar
  | .null => writeU8 7
  | .const expression range => do
      writeU8 8
      writeString expression
      encodeSourceRange range
  | .import module => do
      writeU8 9
      encodeModuleDependency module
  | .loader module => do
      writeU8 10
      encodeModuleDependency module
  | .loaderImport module => do
      writeU8 11
      encodeModuleDependency module

def encodeDependencies : List DependencyDto → Encoder Unit := writeMany encodeDependency

def encodeParsedModuleData : ParsedModuleDataDto → Encoder Unit
  | .javaScript => writeU8 0
  | .json value => do
      writeU8 1
      writeRecordString value
  | .asset moduleType => do
      writeU8 2
      writeU8 moduleType.tag

def encodeParsedModule (parsed : ParsedModuleDto) : Encoder Unit := do
  encodeDependencies parsed.dependencies
  writeMany (fun block => encodeDependencies block.dependencies) parsed.blocks
  encodeDependencies parsed.presentationalDependencies
  writeMany writeRecordString parsed.identifiers
  encodeParsedModuleData parsed.data

def encodeSideEffectFree : Option Bool → Encoder Unit
  | none => writeU8 0
  | some false => writeU8 1
  | some true => writeU8 2

def encodeModuleBuildFields (record : ModuleBuildRecordDto) : Encoder Unit := do
  writeString record.source
  writeOptionalBytes record.binarySource
  writeU64 record.sourceHash
  encodeParsedModule record.parsed
  encodeSnapshot record.snapshot
  encodeSideEffectFree record.parsed.buildSideEffectFree
  writeBool record.parsed.usesDirectEval

def encodeModuleBuildRecord (record : ModuleBuildRecordDto) : Except IoError (List UInt8) := do
  validateModuleBuildRecord record
  encodeWhole (encodeModuleBuildFields record)

def decodeSourceRange : Decoder SourceRangeDto := do
  let start ← readU32
  let stop ← readU32
  pure ⟨start, stop⟩

def decodeOptionalSourceRange : Decoder (Option SourceRangeDto) := readOptional decodeSourceRange

def decodeModuleDependency : Decoder ModuleDependencyDto := do
  let request ← readString
  let userRequest ← readString
  let sourceOrder ← readOptionalU64
  let range ← decodeOptionalSourceRange
  let weak ← readBool
  pure ⟨request, userRequest, sourceOrder, range, weak⟩

def decodeDependency : Decoder DependencyDto := do
  match ← readU8 with
  | 0 => do
      let module ← decodeModuleDependency
      pure (.entry module)
  | 1 => do
      let module ← decodeModuleDependency
      let importVar ← readOptionalString
      pure (.harmonyImportSideEffect module importVar)
  | 2 => do
      let module ← decodeModuleDependency
      let ids ← readStrings
      let name ← readString
      let usageRange ← decodeSourceRange
      let shorthand ← readBool
      pure (.harmonyImportSpecifier module ids name usageRange shorthand)
  | 3 => do
      let declarationRange ← decodeOptionalSourceRange
      let statementRange ← decodeSourceRange
      pure (.harmonyExportHeader declarationRange statementRange)
  | 4 => do
      let id ← readString
      let name ← readString
      pure (.harmonyExportSpecifier id name)
  | 5 => do
      let range ← decodeSourceRange
      let statementRange ← decodeSourceRange
      let declarationId ← readOptionalString
      pure (.harmonyExportExpression range statementRange declarationId)
  | 6 => do
      let module ← decodeModuleDependency
      let ids ← readStrings
      let name ← readOptionalString
      let isStar ← readBool
      pure (.harmonyExportImportedSpecifier module ids name isStar)
  | 7 => pure .null
  | 8 => do
      let expression ← readString
      let range ← decodeSourceRange
      pure (.const expression range)
  | 9 => do
      let module ← decodeModuleDependency
      pure (.import module)
  | 10 => do
      let module ← decodeModuleDependency
      pure (.loader module)
  | 11 => do
      let module ← decodeModuleDependency
      pure (.loaderImport module)
  | _ => failure

def decodeDependencies : Decoder (List DependencyDto) := readMany decodeDependency

def decodeAssetModuleType : Decoder ModuleTypeDto := do
  match ← readU8 with
  | 2 => pure .asset
  | 3 => pure .assetResource
  | 4 => pure .assetInline
  | 5 => pure .assetSource
  | _ => failure

def decodeParsedModuleData : Decoder ParsedModuleDataDto := do
  match ← readU8 with
  | 0 => pure .javaScript
  | 1 => do
      let value ← readRecordString
      pure (.json value)
  | 2 => do
      let moduleType ← decodeAssetModuleType
      pure (.asset moduleType)
  | _ => failure

/-- The two flags are read after the snapshot. -/
def decodeParsedModule : Decoder ParsedModuleDto := do
  let dependencies ← decodeDependencies
  let blocks ← readMany (do
    let dependencies ← decodeDependencies
    pure (AsyncDependenciesBlockDto.mk dependencies))
  let presentationalDependencies ← decodeDependencies
  let identifiers ← readMany readRecordString
  let data ← decodeParsedModuleData
  pure ⟨dependencies, blocks, presentationalDependencies, identifiers, data, none, false⟩

def decodeSideEffectFree : Decoder (Option Bool) := do
  match ← readU8 with
  | 0 => pure none
  | 1 => pure (some false)
  | 2 => pure (some true)
  | _ => failure

def decodeModuleBuildFields : Decoder ModuleBuildRecordDto := do
  let source ← readString
  let binarySource ← readOptionalBytes
  let sourceHash ← readU64
  let parsed ← decodeParsedModule
  let snapshot ← decodeSnapshot
  let buildSideEffectFree ← decodeSideEffectFree
  let usesDirectEval ← readBool
  pure ⟨{ parsed with buildSideEffectFree, usesDirectEval }, source, binarySource, sourceHash, snapshot⟩

def decodeModuleBuildRecord (bytes : List UInt8) : Option ModuleBuildRecordDto := do
  let record ← decodeWhole decodeModuleBuildFields bytes
  if (validateModuleBuildRecord record).isOk then some record else none

def encodeReplacementEnforce : ReplacementEnforceDto → Encoder Unit
  | .pre => writeU8 0
  | .normal => writeU8 1
  | .post => writeU8 2

def encodeReplacement (replacement : CodeGenerationReplacementDto) : Encoder Unit := do
  writeU32 replacement.start
  writeU32 replacement.stop
  writeRecordString replacement.content
  writeOptionalRecordString replacement.name
  encodeReplacementEnforce replacement.enforce

def encodeCodeGenerationSource : CodeGenerationSourceDto → Encoder Unit
  | .raw source => do
      writeU8 0
      writeRecordString source
  | .originalWithReplacements prefixText originalSourceLen originalName replacements suffix => do
      writeU8 1
      writeRecordString prefixText
      writeU32 originalSourceLen
      writeRecordString originalName
      writeMany encodeReplacement replacements
      writeRecordString suffix

def encodeCodeGenerationFields (record : CodeGenerationRecordDto) : Encoder Unit := do
  writeU32 record.runtimeRequirements.toUInt32
  encodeCodeGenerationSource record.source

def encodeCodeGenerationRecord (record : CodeGenerationRecordDto) : Except IoError (List UInt8) := do
  validateCodeGenerationRecord record
  encodeWhole (encodeCodeGenerationFields record)

def encodeAssetRenderFields (record : AssetRenderRecordDto) : Encoder Unit := do
  writeRecordString record.source
  writeOptionalRecordString record.sourceMap

def encodeAssetRenderRecord (record : AssetRenderRecordDto) : Except IoError (List UInt8) :=
  encodeWhole (encodeAssetRenderFields record)

def decodeReplacementEnforce : Decoder ReplacementEnforceDto := do
  match ← readU8 with
  | 0 => pure .pre
  | 1 => pure .normal
  | 2 => pure .post
  | _ => failure

def decodeReplacement : Decoder CodeGenerationReplacementDto := do
  let start ← readU32
  let stop ← readU32
  let content ← readRecordString
  let name ← readOptionalRecordString
  let enforce ← decodeReplacementEnforce
  pure ⟨start, stop, content, name, enforce⟩

def decodeCodeGenerationSource : Decoder CodeGenerationSourceDto := do
  match ← readU8 with
  | 0 => do
      let source ← readRecordString
      pure (.raw source)
  | 1 => do
      let prefixText ← readRecordString
      let originalSourceLen ← readU32
      let originalName ← readRecordString
      let replacements ← readMany decodeReplacement
      let suffix ← readRecordString
      pure (.originalWithReplacements prefixText originalSourceLen originalName replacements suffix)
  | _ => failure

/-- `u16::try_from` -/
def readRuntimeRequirements : Decoder UInt16 := do
  let requirements ← readU32
  if requirements.toNat < 2 ^ 16 then pure requirements.toUInt16 else failure

def decodeCodeGenerationFields : Decoder CodeGenerationRecordDto := do
  let runtimeRequirements ← readRuntimeRequirements
  let source ← decodeCodeGenerationSource
  pure ⟨source, runtimeRequirements⟩

def decodeCodeGenerationRecord (bytes : List UInt8) : Option CodeGenerationRecordDto := do
  let record ← decodeWhole decodeCodeGenerationFields bytes
  if (validateCodeGenerationRecord record).isOk then some record else none

def decodeAssetRenderFields : Decoder AssetRenderRecordDto := do
  let source ← readRecordString
  let sourceMap ← readOptionalRecordString
  pure ⟨source, sourceMap⟩

def decodeAssetRenderRecord : List UInt8 → Option AssetRenderRecordDto :=
  decodeWhole decodeAssetRenderFields

end Unpack
