import Unpack.PackFileConversions

/-! Which items of the cache survive: a built record is converted and comes back as it was exactly when its
snapshot has no path twice and no first time, and its own ranges are those that the persistent side checks. -/

namespace Unpack.CacheItem

open Fallible

theorem toInt_minValue : Int64.minValue.toInt = -2 ^ 63 := by decide

theorem SystemTime.isFirst_iff {time : SystemTime} :
    time.IsFirst ↔ time.seconds.toInt = -2 ^ 63 ∧ time.nanoseconds = 0 := by
  rw [IsFirst, ← Int64.toInt_inj, toInt_minValue]

/-- The seconds of a time from their distance to the epoch. -/
theorem i64TryFrom_eq {value : Nat} (h : value < 2 ^ 63) :
    i64TryFrom value = some (Int64.ofInt value) ∧ (Int64.ofInt value).toInt = value := by
  refine ⟨if_pos h, Int64.toInt_ofInt_of_le ?_ ?_⟩ <;> omega

theorem checkedNeg_eq {value : Int64} (h : -2 ^ 63 < value.toInt) :
    checkedNeg value = some (Int64.ofInt (-value.toInt)) := by
  rw [checkedNeg, if_neg]
  rintro rfl
  rw [toInt_minValue] at h
  omega

theorem checkedPred_eq {value : Int64} (h : -2 ^ 63 < value.toInt) :
    checkedPred value = some (Int64.ofInt (value.toInt - 1)) := by
  rw [checkedPred, if_neg]
  rintro rfl
  rw [toInt_minValue] at h
  omega

theorem timestampFromSystemTime_eq (time : SystemTime) :
    timestampFromSystemTime time =
      if time.IsFirst then .error (invalidData "Snapshot timestamp is too small")
      else .ok ⟨time.seconds, time.nanoseconds⟩ := by
  have hlow : -2 ^ 63 ≤ time.seconds.toInt := time.seconds.le_toInt
  have hhigh : time.seconds.toInt < 2 ^ 63 := time.seconds.toInt_lt
  have hnanoseconds := time.nanoseconds_lt
  rw [timestampFromSystemTime, SystemTime.durationSinceEpoch]
  by_cases hpositive : 0 ≤ time.seconds.toInt
  · have hcast : ((time.seconds.toInt.toNat : Nat) : Int) = time.seconds.toInt := Int.toNat_of_nonneg hpositive
    have hfits : time.seconds.toInt.toNat < 2 ^ 63 := by omega
    have hfirst : ¬ time.IsFirst := by
      rw [SystemTime.isFirst_iff]
      omega
    rw [if_pos hpositive, if_neg hfirst]
    dsimp only
    rw [(i64TryFrom_eq hfits).1, hcast, Int64.ofInt_toInt, UInt32.ofNat_toNat]
    rfl
  · rw [if_neg hpositive]
    by_cases hzero : time.nanoseconds = 0
    · rw [if_pos hzero]
      dsimp only
      by_cases hmin : time.seconds.toInt = -2 ^ 63
      · rw [if_pos (SystemTime.isFirst_iff.mpr ⟨hmin, hzero⟩), i64TryFrom, if_neg (by omega)]
        rfl
      · have hcast : (((-time.seconds.toInt).toNat : Nat) : Int) = -time.seconds.toInt :=
          Int.toNat_of_nonneg (by omega)
        have hfits : (-time.seconds.toInt).toNat < 2 ^ 63 := by omega
        have hvalue := (i64TryFrom_eq hfits).2
        rw [hcast] at hvalue
        rw [if_neg fun hfirst => hmin (SystemTime.isFirst_iff.mp hfirst).1, (i64TryFrom_eq hfits).1, hcast]
        change (do
          let seconds ← orInvalid "Snapshot timestamp is too small"
            (checkedNeg (Int64.ofInt (-time.seconds.toInt)))
          return TimestampDto.mk seconds 0) = _
        rw [checkedNeg_eq (by omega), hvalue, neg_neg, Int64.ofInt_toInt, hzero]
        rfl
    · have hsome : time.nanoseconds.toNat ≠ 0 := fun h => hzero (UInt32.toNat_inj.mp h)
      have hcast : (((-time.seconds.toInt).toNat - 1 : Nat) : Int) = -time.seconds.toInt - 1 := by omega
      have hfits : (-time.seconds.toInt).toNat - 1 < 2 ^ 63 := by omega
      have hvalue := (i64TryFrom_eq hfits).2
      rw [hcast] at hvalue
      have hnegated : (Int64.ofInt (time.seconds.toInt + 1)).toInt = time.seconds.toInt + 1 :=
        Int64.toInt_ofInt_of_le (by omega) (by omega)
      rw [if_neg hzero, if_neg fun hfirst => hzero (SystemTime.isFirst_iff.mp hfirst).2]
      dsimp only
      rw [(i64TryFrom_eq hfits).1, hcast]
      change (if 1000000000 - time.nanoseconds.toNat = 0 then _ else do
          let seconds ← orInvalid "Snapshot timestamp is too small"
            ((checkedNeg (Int64.ofInt (-time.seconds.toInt - 1))).bind checkedPred)
          return TimestampDto.mk seconds
            (UInt32.ofNat (1000000000 - (1000000000 - time.nanoseconds.toNat)))) = _
      rw [if_neg (by omega), checkedNeg_eq (by omega), hvalue, Option.bind_some,
        show -(-time.seconds.toInt - 1) = time.seconds.toInt + 1 by omega, checkedPred_eq (by omega), hnegated,
        show time.seconds.toInt + 1 - 1 = time.seconds.toInt by omega, Int64.ofInt_toInt,
        show 1000000000 - (1000000000 - time.nanoseconds.toNat) = time.nanoseconds.toNat by omega,
        UInt32.ofNat_toNat]
      rfl

theorem SystemTime.checked_eq (time : SystemTime) :
    checked time.seconds.toInt time.nanoseconds.toNat = some time := by
  have hbounds : -2 ^ 63 ≤ time.seconds.toInt ∧ time.seconds.toInt < 2 ^ 63 ∧
      time.nanoseconds.toNat < 1000000000 :=
    ⟨time.seconds.le_toInt, time.seconds.toInt_lt, time.nanoseconds_lt⟩
  rw [checked, dif_pos hbounds]
  congr 1
  ext1
  · exact Int64.ofInt_toInt time.seconds
  · exact UInt32.ofNat_toNat

theorem systemTimeFromTimestamp_eq (time : SystemTime) :
    systemTimeFromTimestamp ⟨time.seconds, time.nanoseconds⟩ = .ok time := by
  have hnanoseconds := time.nanoseconds_lt
  rw [systemTimeFromTimestamp, if_neg (not_le.mpr hnanoseconds)]
  by_cases hpositive : 0 ≤ time.seconds.toInt
  · have hcast : ((time.seconds.toInt.natAbs : Nat) : Int) = time.seconds.toInt := by omega
    rw [if_pos hpositive, SystemTime.afterEpoch]
    dsimp only
    rw [hcast, time.checked_eq]
    rfl
  · rw [if_neg hpositive]
    by_cases hzero : time.nanoseconds = 0
    · have hcast : -((time.seconds.toInt.natAbs : Nat) : Int) = time.seconds.toInt := by omega
      have hchecked := time.checked_eq
      rw [if_pos hzero]
      change orInvalid _ (SystemTime.beforeEpoch ⟨time.seconds.toInt.natAbs, 0⟩) = _
      rw [SystemTime.beforeEpoch, if_pos rfl, hcast]
      rw [hzero] at hchecked
      exact congrArg (orInvalid _) hchecked
    · have hsome : time.nanoseconds.toNat ≠ 0 := fun h => hzero (UInt32.toNat_inj.mp h)
      have hcast : -((time.seconds.toInt.natAbs - 1 : Nat) : Int) - 1 = time.seconds.toInt := by omega
      rw [if_neg hzero, if_neg (show time.seconds.toInt.natAbs ≠ 0 by omega)]
      change orInvalid _ (SystemTime.beforeEpoch
        ⟨time.seconds.toInt.natAbs - 1, 1000000000 - time.nanoseconds.toNat⟩) = _
      rw [SystemTime.beforeEpoch, if_neg (by dsimp only; omega), hcast,
        show 1000000000 - (1000000000 - time.nanoseconds.toNat) = time.nanoseconds.toNat by omega,
        time.checked_eq]
      rfl

theorem inverts_time : Inverts timestampFromSystemTime systemTimeFromTimestamp := by
  intro time timestamp h
  rw [timestampFromSystemTime_eq] at h
  split_ifs at h
  cases h
  exact systemTimeFromTimestamp_eq time

theorem exists_timestamp_iff {time : SystemTime} :
    (∃ timestamp, timestampFromSystemTime time = .ok timestamp) ↔ ¬ time.IsFirst := by
  rw [timestampFromSystemTime_eq]
  split_ifs with hfirst
  · exact iff_of_false (fun ⟨_, h⟩ => by cases h) (not_not.mpr hfirst)
  · exact iff_of_true ⟨_, rfl⟩ hfirst

theorem inverts_snapshotEntry : Inverts snapshotEntryToDto snapshotEntryFromDto := by
  intro entry dto h
  cases entry with
  | file path pathExists modified sourceHash =>
    obtain ⟨timestamp, htimestamp, h⟩ := of_bind_ok h
    cases h
    cases modified with
    | none =>
      cases htimestamp
      rfl
    | some time =>
      obtain ⟨value, hvalue, rfl⟩ := of_map_ok htimestamp
      rw [snapshotEntryFromDto, pathFromBytes_toBytes]
      change (do
        let modified ← some <$> systemTimeFromTimestamp value
        return PersistentSnapshotEntry.file path pathExists modified sourceHash) = _
      rw [inverts_time time value hvalue]
      rfl
  | context path pathExists timestampHash contentHash =>
    cases h
    rfl
  | missingExistence path =>
    cases h
    rfl
  | immutablePath path =>
    cases h
    rfl
  | managedPath path root state =>
    cases h
    cases state <;> rfl

theorem exists_snapshotEntryDto_iff {entry : SnapshotEntry} :
    (∃ dto, snapshotEntryToDto entry.toPersistent = .ok dto) ↔ ∀ time ∈ entry.modified, ¬ time.IsFirst := by
  cases entry with
  | file path snapshot =>
    obtain ⟨fileExists, modified, sourceHash⟩ := snapshot
    cases modified with
    | none => exact iff_of_true ⟨_, rfl⟩ fun time htime => by cases htime
    | some time =>
      have hmodified : (∀ other ∈ some time, ¬ other.IsFirst) ↔ ¬ time.IsFirst := by simp
      change _ ↔ ∀ other ∈ some time, ¬ other.IsFirst
      rw [hmodified, ← exists_timestamp_iff]
      constructor
      · rintro ⟨dto, h⟩
        obtain ⟨timestamp, htimestamp, -⟩ := of_bind_ok h
        obtain ⟨value, hvalue, -⟩ := of_map_ok htimestamp
        exact ⟨value, hvalue⟩
      · rintro ⟨timestamp, htimestamp⟩
        refine ⟨.file path.toBytes fileExists (some timestamp) sourceHash, ?_⟩
        change (do
          let modified ← some <$> timestampFromSystemTime time
          return SnapshotEntryDto.file path.toBytes fileExists modified sourceHash) = _
        rw [htimestamp]
        rfl
  | context path snapshot => exact iff_of_true ⟨_, rfl⟩ fun time htime => by cases htime
  | missingExistence path => exact iff_of_true ⟨_, rfl⟩ fun time htime => by cases htime
  | immutablePath path => exact iff_of_true ⟨_, rfl⟩ fun time htime => by cases htime
  | managedPath snapshot => exact iff_of_true ⟨_, rfl⟩ fun time htime => by cases htime

theorem exists_snapshotDto_iff {snapshot : Snapshot} :
    (∃ dto, snapshotToDto snapshot = .ok dto) ↔
      ∀ entry ∈ snapshot.entries, ∀ time ∈ entry.modified, ¬ time.IsFirst := by
  have hentries : (∃ dto, snapshotToDto snapshot = .ok dto) ↔
      ∃ entries, snapshot.persistentEntries.mapM snapshotEntryToDto = .ok entries := by
    constructor
    · rintro ⟨dto, h⟩
      obtain ⟨entries, hentries, -⟩ := of_bind_ok h
      exact ⟨entries, hentries⟩
    · rintro ⟨entries, hentries⟩
      refine ⟨⟨entries⟩, ?_⟩
      rw [snapshotToDto, hentries]
      rfl
  rw [hentries, exists_mapM_ok, Snapshot.persistentEntries, List.forall_mem_map]
  simp only [exists_snapshotEntryDto_iff]

/-- What comes back of a consistent snapshot. -/
theorem snapshotFromDto_toDto {snapshot : Snapshot} {dto : SnapshotDto}
    (hconsistent : ∀ entry ∈ snapshot.entries, entry.Consistent) (h : snapshotToDto snapshot = .ok dto) :
    snapshotFromDto dto =
      if snapshot.PathsDistinct then .ok snapshot
      else .error (invalidData "PackFile Snapshot contains inconsistent or duplicate entries") := by
  obtain ⟨entries, hentries, h⟩ := of_bind_ok h
  cases h
  have hback : entries.mapM snapshotEntryFromDto = .ok snapshot.persistentEntries :=
    inverts_snapshotEntry.mapM _ _ hentries
  rw [snapshotFromDto, hback]
  change orInvalid _ (Snapshot.fromPersistentEntries snapshot.persistentEntries) = _
  rw [Snapshot.fromPersistentEntries_persistentEntries hconsistent]
  split_ifs <;> rfl

/-- A built snapshot is converted, and back, exactly when it is persistable. -/
theorem roundTrips_snapshot {snapshot : Snapshot} (h : snapshot.Built) :
    RoundTrips snapshotToDto snapshotFromDto snapshot ↔ snapshot.Persistable := by
  rw [roundTrips_iff]
  constructor
  · rintro ⟨dto, hdto, hback⟩
    rw [snapshotFromDto_toDto h.consistent hdto] at hback
    split_ifs at hback with hdistinct
    exact ⟨hdistinct, exists_snapshotDto_iff.mp ⟨dto, hdto⟩⟩
  · intro hpersistable
    obtain ⟨dto, hdto⟩ := exists_snapshotDto_iff.mpr hpersistable.modified
    refine ⟨dto, hdto, ?_⟩
    rw [snapshotFromDto_toDto h.consistent hdto, if_pos hpersistable.pathsDistinct]

@[simp]
theorem moduleTypeFromDto_toDto (moduleType : ModuleType) :
    moduleTypeFromDto (moduleTypeToDto moduleType) = moduleType := by
  cases moduleType <;> rfl

@[simp]
theorem moduleIdentityFromDto_toDto (identity : ModuleIdentity) :
    moduleIdentityFromDto (moduleIdentityToDto identity) = .ok identity := by
  simp only [moduleIdentityFromDto, moduleIdentityToDto, pathFromBytes_toBytes, moduleTypeFromDto_toDto]
  rfl

/-- A resolve record is as good as its snapshot. -/
theorem roundTrips_resolveRecord {record : ResolveRecord} :
    RoundTrips resolveRecordToDto resolveRecordFromDto record ↔
      RoundTrips snapshotToDto snapshotFromDto record.snapshot := by
  have hback : ∀ dto, resolveRecordFromDto
      { identity := moduleIdentityToDto record.identity
        resource := record.resource.toBytes
        fileDependencies := record.fileDependencies.paths.map PathBuf.toBytes
        contextDependencies := record.contextDependencies.paths.map PathBuf.toBytes
        missingDependencies := record.missingDependencies.paths.map PathBuf.toBytes
        snapshot := dto } = (fun snapshot => { record with snapshot }) <$> snapshotFromDto dto := by
    intro dto
    simp only [resolveRecordFromDto, moduleIdentityFromDto_toDto, pathFromBytes_toBytes,
      pathsFromBytes_toBytes]
    cases snapshotFromDto dto <;> rfl
  rw [roundTrips_iff, roundTrips_iff]
  constructor
  · rintro ⟨dto, hdto, hrecord⟩
    obtain ⟨snapshot, hsnapshot, hdto⟩ := of_bind_ok hdto
    cases hdto
    rw [hback] at hrecord
    obtain ⟨restored, hrestored, heq⟩ := of_map_ok hrecord
    have hsame : restored = record.snapshot := congrArg ResolveRecord.snapshot heq
    exact ⟨snapshot, hsnapshot, by rw [hrestored, hsame]⟩
  · rintro ⟨dto, hdto, hsnapshot⟩
    refine ⟨_, by rw [resolveRecordToDto, hdto]; rfl, ?_⟩
    rw [hback, hsnapshot]
    rfl

@[simp]
theorem moduleDependencyFromDto_toDto (dependency : ModuleDependency) :
    moduleDependencyFromDto (moduleDependencyToDto dependency) = dependency := by
  obtain ⟨request, userRequest, sourceOrder, range, weak⟩ := dependency
  cases range <;> rfl

@[simp]
theorem dependencyFromDto_toDto (dependency : Dependency) :
    dependencyFromDto (dependencyToDto dependency) = dependency := by
  cases dependency with
  | harmonyExportHeader declarationRange statementRange => cases declarationRange <;> rfl
  | _ => simp [dependencyToDto, dependencyFromDto, sourceRangeToDto, sourceRangeFromDto]

theorem map_dependencyFromDto_toDto (dependencies : List Dependency) :
    (dependencies.map dependencyToDto).map dependencyFromDto = dependencies := by
  rw [List.map_map]
  conv_rhs => rw [← List.map_id dependencies]
  exact List.map_congr_left fun dependency _ => dependencyFromDto_toDto dependency

theorem sourceRangeIsValid_iff {source : String} {range : SourceRange} :
    sourceRangeIsValid (sourceRangeToDto range) source = true ↔ range.Within source := by
  simp only [sourceRangeIsValid, sourceRangeToDto, Bool.and_eq_true]
  constructor
  · rintro ⟨⟨⟨hordered, hbounded⟩, hstart⟩, hstop⟩
    exact ⟨of_decide_eq_true hordered, of_decide_eq_true hbounded, hstart, hstop⟩
  · rintro ⟨hordered, hbounded, hstart, hstop⟩
    exact ⟨⟨⟨decide_eq_true hordered, decide_eq_true hbounded⟩, hstart⟩, hstop⟩

theorem all_sourceRangeIsValid_iff {source : String} {range : Option SourceRange} :
    (range.map sourceRangeToDto).all (sourceRangeIsValid · source) = true ↔
      ∀ given ∈ range, given.Within source := by
  cases range with
  | none => simp
  | some range => simp [sourceRangeIsValid_iff]

theorem moduleRangeIsValid_iff {source : String} {module : ModuleDependency} :
    moduleRangeIsValid (moduleDependencyToDto module) source = true ↔ module.Within source := by
  have horder : module.sourceOrder.all (fun order => decide (order.toNat ≤ maxCollectionEntries)) = true ↔
      ∀ order ∈ module.sourceOrder, order.toNat ≤ maxCollectionEntries := by
    cases module.sourceOrder <;> simp
  rw [moduleRangeIsValid, Bool.and_eq_true]
  exact ⟨fun h => ⟨horder.mp h.1, all_sourceRangeIsValid_iff.mp h.2⟩,
    fun h => ⟨horder.mpr h.sourceOrder_le, all_sourceRangeIsValid_iff.mpr h.range_within⟩⟩

theorem dependencyRangesAreValid_iff {source : String} {dependency : Dependency} :
    dependencyRangesAreValid (dependencyToDto dependency) source = true ↔ dependency.Within source := by
  cases dependency with
  | «import» module =>
    rw [dependencyToDto, dependencyRangesAreValid, Bool.and_eq_true, moduleRangeIsValid_iff, Dependency.Within,
      moduleDependencyToDto, Option.isSome_map]
  | _ =>
    simp only [dependencyToDto, dependencyRangesAreValid, Dependency.Within, Bool.and_eq_true,
      moduleRangeIsValid_iff, sourceRangeIsValid_iff, all_sourceRangeIsValid_iff]

section

variable {Json : Type} {library : ParsedModuleLibrary Json} {parsed : ParsedModule Json}

theorem parsedModuleToDto_fields {dto : ParsedModuleDto} (h : parsedModuleToDto library parsed = .ok dto) :
    parsedModuleDataToDto library parsed.data = .ok dto.data ∧ dto =
      { dependencies := parsed.dependencies.map dependencyToDto
        blocks := parsed.blocks.map fun block => ⟨block.dependencies.map dependencyToDto⟩
        presentationalDependencies := parsed.presentationalDependencies.map dependencyToDto
        identifiers := parsed.identifiers
        data := dto.data
        buildSideEffectFree := parsed.buildMeta.sideEffectFree
        usesDirectEval := parsed.buildMeta.usesDirectEval } := by
  obtain ⟨data, hdata, h⟩ := of_bind_ok h
  cases h
  exact ⟨hdata, rfl⟩

theorem parsedModuleRangesAreValid_iff {source : String} {dto : ParsedModuleDto}
    (h : parsedModuleToDto library parsed = .ok dto) :
    parsedModuleRangesAreValid dto source = true ↔ parsed.RangesWithin source := by
  rw [(parsedModuleToDto_fields h).2, parsedModuleRangesAreValid]
  simp only [List.all_append, Bool.and_eq_true, List.all_map, List.flatMap_map, List.all_flatMap, List.all_eq_true,
    Function.comp_apply, dependencyRangesAreValid_iff]
  constructor
  · rintro ⟨⟨hdependencies, hblocks⟩, hpresentational⟩
    exact ⟨hdependencies, hblocks, hpresentational⟩
  · intro h
    exact ⟨⟨h.dependencies, h.blocks⟩, h.presentational⟩

/-- Every parser datum is converted; it comes back when it is no asset of another type. -/
theorem roundTrips_parsedModuleData (hlossless : library.Lossless) {data : ParsedModuleData Json} :
    ∃ dto, parsedModuleDataToDto library data = .ok dto ∧
      (data.AssetTyped → parsedModuleDataFromDto library dto = .ok data) ∧
        (¬ data.AssetTyped → ∀ restored, parsedModuleDataFromDto library dto ≠ .ok restored) := by
  cases data with
  | javaScript => exact ⟨.javaScript, rfl, fun _ => rfl, fun h => absurd (fun _ h => by cases h) h⟩
  | json value =>
    obtain ⟨text, htext, hback⟩ := roundTrips_iff.mp (hlossless value)
    refine ⟨.json text, by rw [parsedModuleDataToDto, htext]; rfl, fun _ => ?_, fun h => ?_⟩
    · rw [parsedModuleDataFromDto, hback]
      rfl
    · exact absurd (fun _ h => by cases h) h
  | asset moduleType =>
    refine ⟨.asset (moduleTypeToDto moduleType), rfl, fun h => ?_, fun h => ?_⟩
    · obtain ⟨hscript, hjson⟩ := h moduleType rfl
      cases moduleType with
      | javaScriptAuto => exact absurd rfl hscript
      | json => exact absurd rfl hjson
      | _ => rfl
    · intro restored hrestored
      apply h
      intro other hother
      cases hother
      cases moduleType with
      | javaScriptAuto => cases hrestored
      | json => cases hrestored
      | _ => exact ⟨by decide, by decide⟩

theorem parsedModuleFromDto_eq {dto : ParsedModuleDto} (h : parsedModuleToDto library parsed = .ok dto) :
    parsedModuleFromDto library dto =
      (fun data => { parsed with data }) <$> parsedModuleDataFromDto library dto.data := by
  rw [(parsedModuleToDto_fields h).2]
  have hblocks : (parsed.blocks.map fun block =>
        AsyncDependenciesBlockDto.mk (block.dependencies.map dependencyToDto)).map
          (fun block => AsyncDependenciesBlock.mk (block.dependencies.map dependencyFromDto)) =
      parsed.blocks := by
    rw [List.map_map]
    conv_rhs => rw [← List.map_id parsed.blocks]
    apply List.map_congr_left
    intro block _
    exact congrArg AsyncDependenciesBlock.mk (map_dependencyFromDto_toDto block.dependencies)
  simp only [parsedModuleFromDto, map_dependencyFromDto_toDto, hblocks]
  cases parsedModuleDataFromDto library dto.data <;> rfl

theorem roundTrips_parsedModule (hlossless : library.Lossless) :
    RoundTrips (parsedModuleToDto library) (parsedModuleFromDto library) parsed ↔ parsed.data.AssetTyped := by
  obtain ⟨data, hdata, hback, hfail⟩ := @roundTrips_parsedModuleData Json library hlossless parsed.data
  rw [roundTrips_iff]
  constructor
  · rintro ⟨dto, hdto, hparsed⟩
    have hsame : dto.data = data := by
      have hfields := (parsedModuleToDto_fields hdto).1
      rw [hdata] at hfields
      cases hfields
      rfl
    rw [parsedModuleFromDto_eq hdto, hsame] at hparsed
    obtain ⟨restored, hrestored, -⟩ := of_map_ok hparsed
    by_contra hasset
    exact hfail hasset restored hrestored
  · intro hasset
    obtain ⟨dto, hdto⟩ : ∃ dto, parsedModuleToDto library parsed = .ok dto :=
      ⟨_, by rw [parsedModuleToDto, hdata]; rfl⟩
    refine ⟨dto, hdto, ?_⟩
    have hfields := (parsedModuleToDto_fields hdto).1
    rw [hdata] at hfields
    have hsame : dto.data = data := by
      cases hfields
      rfl
    rw [parsedModuleFromDto_eq hdto, hsame, hback hasset]
    rfl

theorem BuiltModuleContent.Built.sourceHash_eq {content : BuiltModuleContent Json}
    (h : content.Built library) :
    content.sourceHash = (content.binarySource.map stableHashByteVec).getD
      (stableHashString content.source) := by
  cases h with
  | new parsed source => simp [BuiltModuleContent.new, fromPersistentParts]
  | newBinary parsed source binarySource => simp [BuiltModuleContent.newBinary, fromPersistentParts]

theorem BuiltModuleContent.Built.fromPersistentParts_eq {content : BuiltModuleContent Json}
    (h : content.Built library) :
    fromPersistentParts library content.parsed content.source content.binarySource content.sourceHash =
      content := by
  cases h with
  | new parsed source => simp [BuiltModuleContent.new, fromPersistentParts]
  | newBinary parsed source binarySource => simp [BuiltModuleContent.newBinary, fromPersistentParts]

/-- The hash of a built content is the one the check computes. -/
theorem validate_built_iff {content : BuiltModuleContent Json} (h : content.Built library)
    {dto : ParsedModuleDto} {snapshot : SnapshotDto} :
    validateModuleBuildRecord ⟨dto, content.source, content.binarySource, content.sourceHash, snapshot⟩ =
        .ok () ↔
      parsedModuleRangesAreValid dto content.source = true := by
  unfold validateModuleBuildRecord
  dsimp only
  rw [if_neg (not_not.mpr h.sourceHash_eq)]
  split_ifs with hvalid
  · exact iff_of_true rfl hvalid
  · exact iff_of_false (fun h => by cases h) hvalid

/-- A built module survives when its snapshot does and what its parser left is within its source. -/
theorem roundTrips_moduleBuildRecord (hlossless : library.Lossless) {record : ModuleBuildRecord Json}
    (h : record.builtContent.Built library) :
    RoundTrips (moduleBuildRecordToDto library) (moduleBuildRecordFromDto library) record ↔
      RoundTrips snapshotToDto snapshotFromDto record.snapshot ∧
        record.builtContent.parsed.RangesWithin record.builtContent.source ∧
          record.builtContent.parsed.data.AssetTyped := by
  rw [← @roundTrips_parsedModule Json library record.builtContent.parsed hlossless]
  simp only [roundTrips_iff]
  constructor
  · rintro ⟨dto, hdto, hrecord⟩
    obtain ⟨parsed, hparsed, hdto⟩ := of_bind_ok hdto
    obtain ⟨snapshot, hsnapshot, hdto⟩ := of_bind_ok hdto
    obtain ⟨_, hvalid, hdto⟩ := of_bind_ok hdto
    cases hdto
    obtain ⟨restored, hrestored, hrecord⟩ := of_bind_ok hrecord
    obtain ⟨taken, htaken, hrecord⟩ := of_bind_ok hrecord
    have hrecord := Except.ok.inj hrecord
    have htaken_eq : taken = record.snapshot := congrArg ModuleBuildRecord.snapshot hrecord
    have hrestored_eq : restored = record.builtContent.parsed :=
      congrArg (fun record : ModuleBuildRecord Json => record.builtContent.parsed) hrecord
    exact ⟨⟨snapshot, hsnapshot, htaken_eq ▸ htaken⟩,
      (parsedModuleRangesAreValid_iff hparsed).mp ((validate_built_iff h).mp hvalid),
      parsed, hparsed, hrestored_eq ▸ hrestored⟩
  · rintro ⟨⟨snapshot, hsnapshot, htaken⟩, hranges, parsed, hparsed, hrestored⟩
    have hvalid := (@validate_built_iff Json library _ h parsed snapshot).mpr
      ((parsedModuleRangesAreValid_iff hparsed).mpr hranges)
    refine ⟨⟨parsed, record.builtContent.source, record.builtContent.binarySource,
      record.builtContent.sourceHash, snapshot⟩, ?_, ?_⟩
    · rw [moduleBuildRecordToDto, hparsed, hsnapshot]
      change (do
        validateModuleBuildRecord _
        return _) = _
      rw [hvalid]
      rfl
    · rw [moduleBuildRecordFromDto, hrestored, htaken]
      change Except.ok (ModuleBuildRecord.mk _ _) = _
      rw [h.fromPersistentParts_eq]

end

@[simp]
theorem replacementFromDto_toDto (replacement : CodeGenerationReplacement) :
    replacementFromDto (replacementToDto replacement) = replacement := by
  obtain ⟨start, stop, content, name, enforce⟩ := replacement
  cases enforce <;> rfl

@[simp]
theorem codeGenerationSourceFromDto_toDto (source : CodeGenerationSource) :
    codeGenerationSourceFromDto (codeGenerationSourceToDto source) = source := by
  cases source with
  | raw source => rfl
  | originalWithReplacements prefixText originalSourceLen originalName replacements suffix =>
    have hreplacements : (replacements.map replacementToDto).map replacementFromDto = replacements := by
      rw [List.map_map]
      conv_rhs => rw [← List.map_id replacements]
      exact List.map_congr_left fun replacement _ => replacementFromDto_toDto replacement
    rw [codeGenerationSourceToDto, codeGenerationSourceFromDto, hreplacements]

@[simp]
theorem RuntimeRequirements.fromMask_bits (requirements : RuntimeRequirements) :
    fromMask requirements.bits = some requirements :=
  dif_pos requirements.known

theorem validate_codeGenerationRecord_iff {record : CodeGenerationRecord} :
    validateCodeGenerationRecord (codeGenerationRecordToDto record) = .ok () ↔ record.source.Within := by
  have hknown : ¬ (codeGenerationRecordToDto record).runtimeRequirements &&& ~~~runtimeRequirementsMask ≠ 0 :=
    not_not.mpr record.runtimeRequirements.known
  rw [validateCodeGenerationRecord, if_neg hknown]
  cases hsource : record.source with
  | raw source => exact iff_of_true (by rw [codeGenerationRecordToDto, hsource]; rfl) trivial
  | originalWithReplacements prefixText originalSourceLen originalName replacements suffix =>
    rw [codeGenerationRecordToDto, hsource]
    dsimp only [codeGenerationSourceToDto, CodeGenerationSource.Within]
    have hall : (replacements.map replacementToDto).all (replacementIsValid originalSourceLen) = true ↔
        ∀ replacement ∈ replacements,
          replacement.start ≤ replacement.stop ∧ replacement.stop ≤ originalSourceLen := by
      simp only [List.all_map, List.all_eq_true, Function.comp_apply, replacementIsValid, replacementToDto,
        Bool.and_eq_true]
      constructor
      · intro h replacement hmem
        exact ⟨of_decide_eq_true (h replacement hmem).1, of_decide_eq_true (h replacement hmem).2⟩
      · intro h replacement hmem
        exact ⟨decide_eq_true (h replacement hmem).1, decide_eq_true (h replacement hmem).2⟩
    split_ifs with hvalid
    · exact iff_of_true rfl (hall.mp hvalid)
    · exact iff_of_false (fun h => by cases h) fun h => hvalid (hall.mpr h)

/-- Generated code survives when its replacements lie in the original source. -/
theorem codeGenerationRecordFromDto_toDto_iff {record : CodeGenerationRecord} :
    codeGenerationRecordFromDto (codeGenerationRecordToDto record) = .ok record ↔ record.source.Within := by
  rw [← validate_codeGenerationRecord_iff]
  constructor
  · intro h
    obtain ⟨_, hvalid, -⟩ := of_bind_ok h
    exact hvalid
  · intro hvalid
    rw [codeGenerationRecordFromDto, hvalid]
    simp only [codeGenerationRecordToDto, RuntimeRequirements.fromMask_bits, codeGenerationSourceFromDto_toDto]
    rfl

/-- **Which records survive persistence.** A record that the program built is converted and comes back as it
was exactly when its snapshot has no path twice and no first time, and what the persistent side checks of a
parsed module, or of replacements, holds of it. -/
theorem records_survive_iff {Json : Type} {library : ParsedModuleLibrary Json} (hlossless : library.Lossless) :
    (∀ record : ResolveRecord, record.snapshot.Built →
      (RoundTrips resolveRecordToDto resolveRecordFromDto record ↔ record.snapshot.Persistable)) ∧
    (∀ record : ModuleBuildRecord Json, record.snapshot.Built → record.builtContent.Built library →
      (RoundTrips (moduleBuildRecordToDto library) (moduleBuildRecordFromDto library) record ↔
        record.snapshot.Persistable ∧
          record.builtContent.parsed.RangesWithin record.builtContent.source ∧
            record.builtContent.parsed.data.AssetTyped)) ∧
    ∀ record : CodeGenerationRecord,
      codeGenerationRecordFromDto (codeGenerationRecordToDto record) = .ok record ↔ record.source.Within := by
  refine ⟨fun record hsnapshot => ?_, fun record hsnapshot hcontent => ?_, fun record => ?_⟩
  · rw [roundTrips_resolveRecord, roundTrips_snapshot hsnapshot]
  · rw [roundTrips_moduleBuildRecord hlossless hcontent, roundTrips_snapshot hsnapshot]
  · exact codeGenerationRecordFromDto_toDto_iff

/-- The JSON texts of the two truth values. -/
def truthLibrary : ParsedModuleLibrary Bool where
  toString value := .ok (if value then "true" else "false")
  fromString text :=
    if text = "true" then .ok true
    else if text = "false" then .ok false
    else .error ⟨.other, "expected value"⟩
  localInputHash _ _ _ := 0

theorem truthLibrary_lossless : truthLibrary.Lossless := by
  intro value
  cases value <;> rfl

def indexPath : PathBuf := ⟨utf8Bytes "/src/index.js"⟩

/-- The identity of a script, and a record that depends on it as the lists say. -/
def indexRecord (files missing : List PathBuf) (snapshot : Snapshot) : ResolveRecord where
  identity := ⟨.javaScriptAuto, indexPath, none, none, none, []⟩
  resource := indexPath
  fileDependencies := .collect files
  contextDependencies := .collect []
  missingDependencies := .collect missing
  snapshot := snapshot

/-- No paths are managed, and what there is was modified at one time. -/
def unmanagedInfo : FileSystemInfo := ⟨[], [], []⟩

def fileSystemAt (modified : Except IoError SystemTime) : FileSystem where
  metadata _ := modified.map fun time => ⟨false, .ok time⟩
  read _ := .ok []
  directoryTimestampHash _ := .ok 0
  directoryContentHash _ := .ok 0
  managedItem _ _ := none

/-- One and a half seconds before the epoch. -/
def olderTime : SystemTime := ⟨-2, 500000000, by decide⟩

def olderSnapshot : Snapshot := ⟨[.file indexPath ⟨true, some olderTime, none⟩]⟩

theorem olderSnapshot_built : olderSnapshot.Built :=
  @Snapshot.Built.createResolve (fileSystemAt (.ok olderTime)) ⟨true, false⟩ unmanagedInfo [indexPath] [] []
    olderSnapshot rfl

theorem records_survive_older :
    RoundTrips resolveRecordToDto resolveRecordFromDto (indexRecord [indexPath] [] olderSnapshot) := by
  refine ((records_survive_iff truthLibrary_lossless).1 _ olderSnapshot_built).mpr ⟨?_, ?_⟩
  · exact List.nodup_singleton _
  · intro entry hentry time htime
    cases List.mem_singleton.mp hentry
    cases htime
    decide

/-- A path that is not there, probed as a file and as a missing path. -/
def probedSnapshot : Snapshot :=
  ⟨[.file indexPath ⟨false, none, none⟩, .missingExistence indexPath]⟩

/-- The lists of a resolve record may share a path. What the program builds then is written, and refused when
it is read. -/
theorem probedRecord_not_restored :
    probedSnapshot.Built ∧
      (resolveRecordToDto (indexRecord [indexPath] [indexPath] probedSnapshot) >>= resolveRecordFromDto) =
        .error (invalidData "PackFile Snapshot contains inconsistent or duplicate entries") :=
  ⟨@Snapshot.Built.createResolve (fileSystemAt (.error ⟨.notFound, "entity not found"⟩)) ⟨true, false⟩
      unmanagedInfo [indexPath] [] [indexPath] probedSnapshot rfl,
    rfl⟩

end Unpack.CacheItem
