import Unpack.PackFileCodecs

/-! The record codecs read back exactly what they write, reject a longer input, and accept only the bytes
that they write themselves. -/

namespace Unpack

open Codec Encoder Decoder

theorem reads_managedItemState (state : ManagedItemStateDto) :
    Reads (encodeManagedItemState state) decodeManagedItemState state := by
  cases state with
  | nodeModules => exact (reads_u8 0).last rfl
  | groupingFolder => exact (reads_u8 1).last rfl
  | package name version => exact (reads_u8 2).bind ((reads_string name).bind ((reads_string version).map _))

theorem reads_snapshotEntry (entry : SnapshotEntryDto) :
    Reads (encodeSnapshotEntry entry) decodeSnapshotEntry entry := by
  cases entry with
  | file path pathExists modified sourceHash =>
    refine (reads_u8 0).bind ((reads_path path).bind ((reads_bool pathExists).bind ?_))
    exact (reads_optionalTimestamp modified).bind ((reads_optional reads_u64 sourceHash).map _)
  | context path pathExists timestampHash contentHash =>
    refine (reads_u8 1).bind ((reads_path path).bind ((reads_bool pathExists).bind ?_))
    exact (reads_optional reads_u64 timestampHash).bind ((reads_optional reads_u64 contentHash).map _)
  | missingExistence path => exact (reads_u8 2).bind ((reads_path path).map _)
  | immutablePath path => exact (reads_u8 3).bind ((reads_path path).map _)
  | managedPath path root state =>
    exact (reads_u8 4).bind
      ((reads_path path).bind ((reads_path root).bind ((reads_managedItemState state).map _)))

theorem reads_snapshot (snapshot : SnapshotDto) :
    Reads (encodeSnapshot snapshot) decodeSnapshot snapshot :=
  (reads_many fun entry _ => reads_snapshotEntry entry).map _

theorem reads_moduleType (moduleType : ModuleTypeDto) :
    Reads (writeU8 moduleType.tag) decodeModuleType moduleType := by
  cases moduleType <;> exact (reads_u8 _).last rfl

theorem reads_resolveFields (record : ResolveRecordDto) :
    Reads (encodeResolveFields record) decodeResolveFields record := by
  refine (reads_moduleType _).bind ((reads_path _).bind ?_)
  refine (reads_optional reads_string _).bind ((reads_optional reads_string _).bind ?_)
  refine (reads_optional reads_string _).bind ((reads_strings _).bind ((reads_path _).bind ?_))
  exact (reads_paths _).bind ((reads_paths _).bind ((reads_paths _).bind ((reads_snapshot _).map _)))

theorem reads_sourceRange (range : SourceRangeDto) :
    Reads (encodeSourceRange range) decodeSourceRange range :=
  (reads_u32 range.start).bind ((reads_u32 range.stop).map _)

theorem reads_optionalSourceRange (range : Option SourceRangeDto) :
    Reads (encodeOptionalSourceRange range) decodeOptionalSourceRange range :=
  reads_optional reads_sourceRange range

theorem reads_moduleDependency (dependency : ModuleDependencyDto) :
    Reads (encodeModuleDependency dependency) decodeModuleDependency dependency := by
  refine (reads_string _).bind ((reads_string _).bind ((reads_optional reads_u64 _).bind ?_))
  exact (reads_optionalSourceRange _).bind ((reads_bool _).map _)

theorem reads_dependency (dependency : DependencyDto) :
    Reads (encodeDependency dependency) decodeDependency dependency := by
  cases dependency with
  | entry module => exact (reads_u8 0).bind ((reads_moduleDependency module).map _)
  | harmonyImportSideEffect module importVar =>
    exact (reads_u8 1).bind
      ((reads_moduleDependency module).bind ((reads_optional reads_string importVar).map _))
  | harmonyImportSpecifier module ids name usageRange shorthand =>
    refine (reads_u8 2).bind ((reads_moduleDependency module).bind ((reads_strings ids).bind ?_))
    exact (reads_string name).bind ((reads_sourceRange usageRange).bind ((reads_bool shorthand).map _))
  | harmonyExportHeader declarationRange statementRange =>
    exact (reads_u8 3).bind
      ((reads_optionalSourceRange declarationRange).bind ((reads_sourceRange statementRange).map _))
  | harmonyExportSpecifier id name =>
    exact (reads_u8 4).bind ((reads_string id).bind ((reads_string name).map _))
  | harmonyExportExpression range statementRange declarationId =>
    refine (reads_u8 5).bind ((reads_sourceRange range).bind ((reads_sourceRange statementRange).bind ?_))
    exact (reads_optional reads_string declarationId).map _
  | harmonyExportImportedSpecifier module ids name isStar =>
    refine (reads_u8 6).bind ((reads_moduleDependency module).bind ((reads_strings ids).bind ?_))
    exact (reads_optional reads_string name).bind ((reads_bool isStar).map _)
  | null => exact (reads_u8 7).last rfl
  | const expression range =>
    exact (reads_u8 8).bind ((reads_string expression).bind ((reads_sourceRange range).map _))
  | «import» module => exact (reads_u8 9).bind ((reads_moduleDependency module).map _)
  | loader module => exact (reads_u8 10).bind ((reads_moduleDependency module).map _)
  | loaderImport module => exact (reads_u8 11).bind ((reads_moduleDependency module).map _)

theorem reads_dependencies (dependencies : List DependencyDto) :
    Reads (encodeDependencies dependencies) decodeDependencies dependencies :=
  reads_many fun dependency _ => reads_dependency dependency

/-- Asset parser data goes with an asset module type. -/
def ParsedModuleDataDto.AssetTyped : ParsedModuleDataDto → Prop
  | asset moduleType => moduleType ≠ .javaScriptAuto ∧ moduleType ≠ .json
  | _ => True

theorem reads_assetModuleType {moduleType : ModuleTypeDto}
    (h : ParsedModuleDataDto.AssetTyped (.asset moduleType)) :
    Reads (writeU8 moduleType.tag) decodeAssetModuleType moduleType := by
  cases moduleType with
  | javaScriptAuto => exact absurd rfl h.1
  | json => exact absurd rfl h.2
  | _ => exact (reads_u8 _).last rfl

theorem reads_parsedModuleData {data : ParsedModuleDataDto} (h : data.AssetTyped) :
    Reads (encodeParsedModuleData data) decodeParsedModuleData data := by
  cases data with
  | javaScript => exact (reads_u8 0).last rfl
  | json value => exact (reads_u8 1).bind ((reads_recordString value).map _)
  | asset moduleType => exact (reads_u8 2).bind ((reads_assetModuleType h).map _)

theorem reads_parsedModule {parsed : ParsedModuleDto} (h : parsed.data.AssetTyped) :
    Reads (encodeParsedModule parsed) decodeParsedModule
      { parsed with buildSideEffectFree := none, usesDirectEval := false } := by
  have hblocks : ∀ block ∈ parsed.blocks, Reads (encodeDependencies block.dependencies) (do
      let dependencies ← decodeDependencies
      pure (AsyncDependenciesBlockDto.mk dependencies)) block :=
    fun block _ => (reads_dependencies block.dependencies).map _
  refine (reads_dependencies _).bind ((reads_many hblocks).bind ((reads_dependencies _).bind ?_))
  exact (reads_many fun identifier _ => reads_recordString identifier).bind
    ((reads_parsedModuleData h).map _)

theorem reads_sideEffectFree (value : Option Bool) :
    Reads (encodeSideEffectFree value) decodeSideEffectFree value := by
  match value with
  | none => exact (reads_u8 0).last rfl
  | some false => exact (reads_u8 1).last rfl
  | some true => exact (reads_u8 2).last rfl

theorem reads_moduleBuildFields {record : ModuleBuildRecordDto} (h : record.parsed.data.AssetTyped) :
    Reads (encodeModuleBuildFields record) decodeModuleBuildFields record := by
  have hbinary := reads_optional (fun value => reads_bytesWithLimit value maxFieldBytes) record.binarySource
  refine (reads_string _).bind (hbinary.bind ((reads_u64 _).bind ((reads_parsedModule h).bind ?_)))
  exact (reads_snapshot _).bind ((reads_sideEffectFree _).bind ((reads_bool _).map _))

theorem reads_replacementEnforce (enforce : ReplacementEnforceDto) :
    Reads (encodeReplacementEnforce enforce) decodeReplacementEnforce enforce := by
  cases enforce <;> exact (reads_u8 _).last rfl

theorem reads_replacement (replacement : CodeGenerationReplacementDto) :
    Reads (encodeReplacement replacement) decodeReplacement replacement := by
  refine (reads_u32 _).bind ((reads_u32 _).bind ((reads_recordString _).bind ?_))
  exact (reads_optional reads_recordString _).bind ((reads_replacementEnforce _).map _)

theorem reads_codeGenerationSource (source : CodeGenerationSourceDto) :
    Reads (encodeCodeGenerationSource source) decodeCodeGenerationSource source := by
  cases source with
  | raw source => exact (reads_u8 0).bind ((reads_recordString source).map _)
  | originalWithReplacements prefixText originalSourceLen originalName replacements suffix =>
    refine (reads_u8 1).bind ((reads_recordString prefixText).bind ((reads_u32 originalSourceLen).bind ?_))
    refine (reads_recordString originalName).bind ((reads_many fun replacement _ => ?_).bind ?_)
    · exact reads_replacement replacement
    · exact (reads_recordString suffix).map _

theorem reads_runtimeRequirements (requirements : UInt16) :
    Reads (writeU32 requirements.toUInt32) readRuntimeRequirements requirements := by
  have hlt : requirements.toUInt32.toNat < 2 ^ 16 := by
    rw [UInt16.toNat_toUInt32]
    exact requirements.toNat_lt
  refine (reads_u32 _).last ?_
  rw [if_pos hlt]
  simp

theorem reads_codeGenerationFields (record : CodeGenerationRecordDto) :
    Reads (encodeCodeGenerationFields record) decodeCodeGenerationFields record :=
  (reads_runtimeRequirements _).bind ((reads_codeGenerationSource _).map _)

theorem reads_assetRenderFields (record : AssetRenderRecordDto) :
    Reads (encodeAssetRenderFields record) decodeAssetRenderFields record :=
  (reads_recordString _).bind ((reads_optional reads_recordString _).map _)

theorem canonical_managedItemState : Canonical decodeManagedItemState encodeManagedItemState := by
  refine accepts_tag fun tag => ?_
  split
  · exact Accepts.pure bind_pure_unit
  · exact Accepts.pure bind_pure_unit
  · exact Accepts.bind canonical_string fun name => Accepts.map _ canonical_string fun _ => rfl
  · exact Accepts.failure

theorem canonical_snapshotEntry : Canonical decodeSnapshotEntry encodeSnapshotEntry := by
  refine accepts_tag fun tag => ?_
  split
  · refine Accepts.bind canonical_path fun path => Accepts.bind canonical_bool fun pathExists => ?_
    exact Accepts.bind canonical_optionalTimestamp fun modified =>
      Accepts.map _ (canonical_optional canonical_u64) fun _ => rfl
  · refine Accepts.bind canonical_path fun path => Accepts.bind canonical_bool fun pathExists => ?_
    exact Accepts.bind (canonical_optional canonical_u64) fun timestampHash =>
      Accepts.map _ (canonical_optional canonical_u64) fun _ => rfl
  · exact Accepts.map _ canonical_path fun _ => rfl
  · exact Accepts.map _ canonical_path fun _ => rfl
  · exact Accepts.bind canonical_path fun path => Accepts.bind canonical_path fun root =>
      Accepts.map _ canonical_managedItemState fun _ => rfl
  · exact Accepts.failure

theorem canonical_snapshot : Canonical decodeSnapshot encodeSnapshot :=
  Accepts.map _ (canonical_many canonical_snapshotEntry) fun _ => rfl

theorem canonical_moduleType : Canonical decodeModuleType fun moduleType => writeU8 moduleType.tag := by
  refine accepts_tag fun tag => ?_
  split
  all_goals first
    | exact Accepts.pure bind_pure_unit
    | exact Accepts.failure

theorem canonical_resolveFields : Canonical decodeResolveFields encodeResolveFields := by
  refine Accepts.bind canonical_moduleType fun moduleType => Accepts.bind canonical_path fun identity => ?_
  refine Accepts.bind (canonical_optional canonical_string) fun query => ?_
  refine Accepts.bind (canonical_optional canonical_string) fun fragment => ?_
  refine Accepts.bind (canonical_optional canonical_string) fun layer => ?_
  refine Accepts.bind canonical_strings fun loaders => Accepts.bind canonical_path fun resource => ?_
  refine Accepts.bind canonical_paths fun files => Accepts.bind canonical_paths fun contexts => ?_
  exact Accepts.bind canonical_paths fun missing => Accepts.map _ canonical_snapshot fun _ => rfl

theorem canonical_sourceRange : Canonical decodeSourceRange encodeSourceRange :=
  Accepts.bind canonical_u32 fun _ => Accepts.map _ canonical_u32 fun _ => rfl

theorem canonical_optionalSourceRange :
    Canonical decodeOptionalSourceRange encodeOptionalSourceRange :=
  canonical_optional canonical_sourceRange

theorem canonical_moduleDependency : Canonical decodeModuleDependency encodeModuleDependency := by
  refine Accepts.bind canonical_string fun request => Accepts.bind canonical_string fun userRequest => ?_
  refine Accepts.bind (canonical_optional canonical_u64) fun sourceOrder => ?_
  exact Accepts.bind canonical_optionalSourceRange fun range =>
    Accepts.map _ canonical_bool fun _ => rfl

theorem canonical_dependency : Canonical decodeDependency encodeDependency := by
  refine accepts_tag fun tag => ?_
  split
  · exact Accepts.map _ canonical_moduleDependency fun _ => rfl
  · exact Accepts.bind canonical_moduleDependency fun module =>
      Accepts.map _ (canonical_optional canonical_string) fun _ => rfl
  · refine Accepts.bind canonical_moduleDependency fun module => Accepts.bind canonical_strings fun ids => ?_
    exact Accepts.bind canonical_string fun name => Accepts.bind canonical_sourceRange fun usageRange =>
      Accepts.map _ canonical_bool fun _ => rfl
  · exact Accepts.bind canonical_optionalSourceRange fun declarationRange =>
      Accepts.map _ canonical_sourceRange fun _ => rfl
  · exact Accepts.bind canonical_string fun id => Accepts.map _ canonical_string fun _ => rfl
  · exact Accepts.bind canonical_sourceRange fun range => Accepts.bind canonical_sourceRange fun statement =>
      Accepts.map _ (canonical_optional canonical_string) fun _ => rfl
  · refine Accepts.bind canonical_moduleDependency fun module => Accepts.bind canonical_strings fun ids => ?_
    exact Accepts.bind (canonical_optional canonical_string) fun name =>
      Accepts.map _ canonical_bool fun _ => rfl
  · exact Accepts.pure bind_pure_unit
  · exact Accepts.bind canonical_string fun expression =>
      Accepts.map _ canonical_sourceRange fun _ => rfl
  · exact Accepts.map _ canonical_moduleDependency fun _ => rfl
  · exact Accepts.map _ canonical_moduleDependency fun _ => rfl
  · exact Accepts.map _ canonical_moduleDependency fun _ => rfl
  · exact Accepts.failure

theorem canonical_dependencies : Canonical decodeDependencies encodeDependencies :=
  canonical_many canonical_dependency

theorem canonical_assetModuleType :
    Canonical decodeAssetModuleType fun moduleType => writeU8 moduleType.tag := by
  refine accepts_tag fun tag => ?_
  split
  all_goals first
    | exact Accepts.pure bind_pure_unit
    | exact Accepts.failure

theorem canonical_parsedModuleData : Canonical decodeParsedModuleData encodeParsedModuleData := by
  refine accepts_tag fun tag => ?_
  split
  · exact Accepts.pure bind_pure_unit
  · exact Accepts.map _ canonical_recordString fun _ => rfl
  · exact Accepts.map _ canonical_assetModuleType fun _ => rfl
  · exact Accepts.failure

theorem canonical_parsedModule : Canonical decodeParsedModule encodeParsedModule := by
  have hblocks : Canonical (do
      let dependencies ← decodeDependencies
      pure (AsyncDependenciesBlockDto.mk dependencies)) fun block => encodeDependencies block.dependencies :=
    Accepts.map _ canonical_dependencies fun _ => rfl
  refine Accepts.bind canonical_dependencies fun dependencies =>
    Accepts.bind (canonical_many hblocks) fun blocks => ?_
  refine Accepts.bind canonical_dependencies fun presentational => ?_
  exact Accepts.bind (canonical_many canonical_recordString) fun identifiers =>
    Accepts.map _ canonical_parsedModuleData fun _ => rfl

theorem canonical_sideEffectFree : Canonical decodeSideEffectFree encodeSideEffectFree := by
  refine accepts_tag fun tag => ?_
  split
  · exact Accepts.pure bind_pure_unit
  · exact Accepts.pure bind_pure_unit
  · exact Accepts.pure bind_pure_unit
  · exact Accepts.failure

theorem canonical_moduleBuildFields : Canonical decodeModuleBuildFields encodeModuleBuildFields := by
  refine Accepts.bind canonical_string fun source => ?_
  refine Accepts.bind (canonical_optional (canonical_bytesWithLimit maxFieldBytes)) fun binarySource => ?_
  refine Accepts.bind canonical_u64 fun hash => Accepts.bind canonical_parsedModule fun parsed => ?_
  exact Accepts.bind canonical_snapshot fun snapshot => Accepts.bind canonical_sideEffectFree fun free =>
    Accepts.map _ canonical_bool fun _ => rfl

theorem canonical_replacementEnforce :
    Canonical decodeReplacementEnforce encodeReplacementEnforce := by
  refine accepts_tag fun tag => ?_
  split
  · exact Accepts.pure bind_pure_unit
  · exact Accepts.pure bind_pure_unit
  · exact Accepts.pure bind_pure_unit
  · exact Accepts.failure

theorem canonical_replacement : Canonical decodeReplacement encodeReplacement := by
  refine Accepts.bind canonical_u32 fun start => Accepts.bind canonical_u32 fun stop => ?_
  refine Accepts.bind canonical_recordString fun content => ?_
  exact Accepts.bind (canonical_optional canonical_recordString) fun name =>
    Accepts.map _ canonical_replacementEnforce fun _ => rfl

theorem canonical_codeGenerationSource :
    Canonical decodeCodeGenerationSource encodeCodeGenerationSource := by
  refine accepts_tag fun tag => ?_
  split
  · exact Accepts.map _ canonical_recordString fun _ => rfl
  · refine Accepts.bind canonical_recordString fun prefixText => Accepts.bind canonical_u32 fun length => ?_
    refine Accepts.bind canonical_recordString fun originalName => ?_
    exact Accepts.bind (canonical_many canonical_replacement) fun replacements =>
      Accepts.map _ canonical_recordString fun _ => rfl
  · exact Accepts.failure

theorem canonical_runtimeRequirements :
    Canonical readRuntimeRequirements fun requirements => writeU32 requirements.toUInt32 := by
  refine Accepts.bind canonical_u32 fun requirements => ?_
  split_ifs with hbound
  · have hvalue : requirements.toUInt16.toUInt32 = requirements := by
      apply UInt32.toNat.inj
      rw [UInt16.toNat_toUInt32, UInt32.toNat_toUInt16]
      exact Nat.mod_eq_of_lt hbound
    refine Accepts.pure ?_
    dsimp only
    rw [hvalue]
    exact bind_pure_unit
  · exact Accepts.failure

theorem canonical_codeGenerationFields :
    Canonical decodeCodeGenerationFields encodeCodeGenerationFields :=
  Accepts.bind canonical_runtimeRequirements fun _ =>
    Accepts.map _ canonical_codeGenerationSource fun _ => rfl

theorem canonical_assetRenderFields : Canonical decodeAssetRenderFields encodeAssetRenderFields :=
  Accepts.bind canonical_recordString fun _ =>
    Accepts.map _ (canonical_optional canonical_recordString) fun _ => rfl

/-- A codec reads back exactly what it writes, rejects a longer input, and accepts only what it writes. -/
structure RoundTrip {α : Type} (encode : α → Except IoError (List UInt8))
    (decode : List UInt8 → Option α) (valid : α → Prop) : Prop where
  decode_encode : ∀ value bytes, valid value → encode value = .ok bytes → decode bytes = some value
  rejects : ∀ value bytes extra, valid value → encode value = .ok bytes → extra ≠ [] →
    decode (bytes ++ extra) = none
  canonical : ∀ value bytes, decode bytes = some value → encode value = .ok bytes

theorem roundTrip_whole {α : Type} {fields : α → Encoder Unit} {read : Decoder α} {valid : α → Prop}
    (hreads : ∀ value, valid value → Reads (fields value) read value) (hcanonical : Canonical read fields) :
    RoundTrip (fun value => encodeWhole (fields value)) (decodeWhole read) valid where
  decode_encode value _ hvalid hencode := ((hreads value hvalid).whole hencode).1
  rejects value _ extra hvalid hencode hextra :=
    ((hreads value hvalid).whole hencode).2 extra hextra
  canonical _ _ hdecode := hcanonical.whole hdecode

/-- The same check on both sides keeps the laws. -/
theorem roundTrip_validated {α : Type} {encode : α → Except IoError (List UInt8)}
    {decode : List UInt8 → Option α} {valid : α → Prop} (validate : α → Except IoError Unit)
    (h : RoundTrip encode decode valid) :
    RoundTrip (fun value => do
        validate value
        encode value)
      (fun bytes => do
        let value ← decode bytes
        if (validate value).isOk then some value else none) valid := by
  have hchecked : ∀ value bytes, (do
      validate value
      encode value) = .ok bytes → (validate value).isOk ∧ encode value = .ok bytes := by
    intro value bytes hencode
    cases hvalidate : validate value with
    | error error => simp [hvalidate, bind, Except.bind] at hencode
    | ok checked => exact ⟨rfl, by simpa [hvalidate, bind, Except.bind] using hencode⟩
  refine ⟨fun value bytes hvalid hencode => ?_, fun value bytes extra hvalid hencode hextra => ?_,
    fun value bytes hdecode => ?_⟩
  · obtain ⟨hok, hencode⟩ := hchecked value bytes hencode
    rw [h.decode_encode value bytes hvalid hencode]
    exact if_pos hok
  · obtain ⟨-, hencode⟩ := hchecked value bytes hencode
    rw [h.rejects value bytes extra hvalid hencode hextra]
    rfl
  · obtain ⟨decoded, hread, hcheck⟩ := Option.bind_eq_some_iff.mp hdecode
    split_ifs at hcheck with hok
    cases hcheck
    cases hvalidate : validate value with
    | error error => simp [hvalidate, Except.isOk, Except.toBool] at hok
    | ok checked => exact h.canonical value bytes hread

theorem roundTrip_resolveRecord :
    RoundTrip encodeResolveRecord decodeResolveRecord fun _ => True :=
  roundTrip_whole (fun record _ => reads_resolveFields record) canonical_resolveFields

theorem roundTrip_moduleBuildRecord : RoundTrip encodeModuleBuildRecord decodeModuleBuildRecord
    fun record => record.parsed.data.AssetTyped :=
  roundTrip_validated validateModuleBuildRecord
    (roundTrip_whole (fun _ h => reads_moduleBuildFields h) canonical_moduleBuildFields)

theorem roundTrip_codeGenerationRecord :
    RoundTrip encodeCodeGenerationRecord decodeCodeGenerationRecord fun _ => True :=
  roundTrip_validated validateCodeGenerationRecord
    (roundTrip_whole (fun record _ => reads_codeGenerationFields record) canonical_codeGenerationFields)

theorem roundTrip_assetRenderRecord :
    RoundTrip encodeAssetRenderRecord decodeAssetRenderRecord fun _ => True :=
  roundTrip_whole (fun record _ => reads_assetRenderFields record) canonical_assetRenderFields

end Unpack
