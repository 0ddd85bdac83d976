import Unpack.BuildTask

/-! When a module build record can be trusted. A record is taken with bytes that were read at one moment and
metadata that was read at a later one, and the files of a loader are read again after the loader has used
them, so a write in between can make a record valid for contents that the module was not built from. -/

namespace Unpack.CacheItem

open EffectProgram Fallible

section

variable {contents : Set (List UInt8)}

/-- Nothing has been written, or the file is newer. -/
def FileState.SameOrNewer (old new : FileState) : Prop :=
  old = new ∨ old.modified.nanos < new.modified.nanos

theorem FileState.SameOrNewer.trans {first second third : FileState} (h : first.SameOrNewer second)
    (h' : second.SameOrNewer third) : first.SameOrNewer third := by
  rcases h with rfl | hnewer
  · exact h'
  · rcases h' with rfl | hnewer'
    · exact .inr hnewer
    · exact .inr (hnewer.trans hnewer')

theorem FileState.SameOrNewer.eq_of_modified {old new : FileState} (h : old.SameOrNewer new)
    (hmodified : old.modified = new.modified) : old = new := by
  rcases h with rfl | hnewer
  · rfl
  · rw [hmodified] at hnewer
    exact absurd hnewer (lt_irrefl _)

/-- A file is there at both moments or at neither. -/
def Files.AlwaysAfter (before after : Files) (key : List (List Nat)) : Prop :=
  before key = none ∧ after key = none ∨
    ∃ old new, before key = some old ∧ after key = some new ∧ old.SameOrNewer new

theorem Files.Write.alwaysAfter {before after : Files} (h : Write contents before after)
    (key : List (List Nat)) : AlwaysAfter before after key := by
  obtain ⟨path, hold, hwrite⟩ := h
  by_cases hkey : key = path.key
  · subst hkey
    exact .inr ⟨_, _, hold, Function.update_self .., .inr hwrite.newer⟩
  · cases hbefore : before key with
    | none => exact .inl ⟨hbefore, by rw [Function.update_of_ne hkey, hbefore]⟩
    | some state => exact .inr ⟨state, state, hbefore, by rw [Function.update_of_ne hkey, hbefore], .inl rfl⟩

theorem Files.Later.alwaysAfter {before after : Files} (h : Later contents before after)
    (key : List (List Nat)) : AlwaysAfter before after key := by
  induction h with
  | refl =>
    cases hbefore : before key with
    | none => exact .inl ⟨hbefore, hbefore⟩
    | some state => exact .inr ⟨state, state, hbefore, hbefore, .inl rfl⟩
  | tail _ hwrite ih =>
    rcases ih with ⟨hbefore, hmiddle⟩ | ⟨old, middle, hbefore, hmiddle, hnewer⟩
    · rcases hwrite.alwaysAfter key with ⟨-, hafter⟩ | ⟨state, -, hstate, -, -⟩
      · exact .inl ⟨hbefore, hafter⟩
      · rw [hmiddle] at hstate
        cases hstate
    · rcases hwrite.alwaysAfter key with ⟨hnone, -⟩ | ⟨state, new, hstate, hafter, hlast⟩
      · rw [hmiddle] at hnone
        cases hnone
      · rw [hmiddle] at hstate
        cases hstate
        exact .inr ⟨old, new, hbefore, hafter, hnewer.trans hlast⟩

theorem Files.Later.within {before after : Files} (h : Later contents before after)
    (hwithin : before.Within contents) : after.Within contents := by
  induction h with
  | refl => exact hwithin
  | tail _ hwrite ih =>
    obtain ⟨path, -, hwrite⟩ := hwrite
    intro key state hstate
    by_cases hkey : key = path.key
    · subst hkey
      rw [Function.update_self] at hstate
      cases hstate
      exact hwrite.content_mem
    · rw [Function.update_of_ne hkey] at hstate
      exact ih key state hstate

variable {files : Files} {path : PathBuf}

theorem Files.state_eq_ok {state : FileState} : files.state path = .ok state ↔ files path.key = some state := by
  rw [Files.state]
  cases files path.key with
  | none => simp
  | some found => simp

theorem Files.read_eq_ok {content : List UInt8} :
    files.read path = .ok content ↔ ∃ state, files path.key = some state ∧ state.content = content := by
  rw [Files.read]
  constructor
  · intro h
    obtain ⟨state, hstate, hcontent⟩ := of_map_ok h
    exact ⟨state, Files.state_eq_ok.mp hstate, hcontent⟩
  · rintro ⟨state, hstate, rfl⟩
    rw [Files.state_eq_ok.mpr hstate]
    rfl

theorem Files.read_congr {other : Files} {path' : PathBuf} (hkey : path.key = path'.key)
    (h : files path.key = other path.key) : files.read path = other.read path' := by
  rw [Files.read, Files.read, Files.state, Files.state, ← hkey, h]

variable {others : FileSystem} {strategy : SnapshotStrategy} {info : FileSystemInfo}

/-- Neither immutable nor managed. -/
def FileSystemInfo.IsOrdinary (info : FileSystemInfo) (path : PathBuf) : Prop :=
  info.classifyPath path = .unmanaged ∨ info.classifyPath path = .unclassified

theorem classifiedPathEntry_of_isOrdinary {fileSystem : FileSystem} (h : info.IsOrdinary path) :
    SnapshotEntry.classifiedPathEntry fileSystem info path = none := by
  rw [SnapshotEntry.classifiedPathEntry]
  rcases h with h | h <;> rw [h]

theorem ordinarySnapshotApplies_of_isOrdinary {fileSystem : FileSystem} (h : info.IsOrdinary path) :
    info.ordinarySnapshotApplies fileSystem path = true := by
  rw [FileSystemInfo.ordinarySnapshotApplies]
  rcases h with h | h <;> rw [h]

/-- The snapshot of a file with these metadata and this content. -/
def FileSnapshot.ofState (strategy : SnapshotStrategy) (modified : SystemTime) (source : List UInt8) :
    FileSnapshot where
  fileExists := true
  modified := if strategy.timestamp then some modified else none
  sourceHash := if strategy.hash then some (stableHashBytes source) else none

theorem whenSome_ok {α : Type} (condition : Bool) (value : α) :
    whenSome condition (.ok value) = .ok (if condition then some value else none) := by
  cases condition <;> rfl

theorem createFromPath_of_state {state : FileState} (h : files path.key = some state) :
    FileSnapshot.createFromPath (files.toFileSystem others) strategy path =
      .ok (.ofState strategy state.modified state.content) := by
  have hstate := Files.state_eq_ok.mpr h
  have hmetadata : (files.toFileSystem others).metadata path = .ok ⟨false, .ok state.modified⟩ := by
    change (fun state : FileState => (⟨false, .ok state.modified⟩ : Metadata)) <$> files.state path = _
    rw [hstate]
    rfl
  have hread : (files.toFileSystem others).read path = .ok state.content :=
    Files.read_eq_ok.mpr ⟨state, h, rfl⟩
  rw [FileSnapshot.createFromPath, hmetadata]
  dsimp only
  rw [hread]
  change (do
    let modified ← whenSome strategy.timestamp (.ok state.modified)
    let sourceHash ← whenSome strategy.hash (Except.ok (stableHashBytes state.content))
    return (⟨true, modified, sourceHash⟩ : FileSnapshot)) = _
  rw [whenSome_ok, whenSome_ok]
  rfl

/-- The entry of a file is valid when the file has the time and the hash of the entry. -/
theorem isValid_ofState {itemState : PathBuf → Option ManagedItemState} {modified : SystemTime}
    {source : List UInt8} {state : FileState} (hordinary : info.IsOrdinary path)
    (h : files path.key = some state) :
    SnapshotEntry.isValid (files.toFileSystem others) strategy info itemState
        (.file path (.ofState strategy modified source)) = true ↔
      (strategy.timestamp = true → state.modified = modified) ∧
        (strategy.hash = true → stableHashBytes state.content = stableHashBytes source) := by
  rw [SnapshotEntry.isValid, SnapshotEntry.isValidWith, ordinarySnapshotApplies_of_isOrdinary hordinary,
    Bool.true_and, FileSnapshot.isValid, createFromPath_of_state h, decide_eq_true_eq,
    FileSnapshot.ofState, FileSnapshot.ofState, FileSnapshot.mk.injEq]
  cases strategy.timestamp <;> cases strategy.hash <;> simp

end

section

variable {Json : Type} {task : BuildTask Json} {moments : List Files}

/-- The bytes of the snapshot were read at one of these moments, its metadata at another. -/
structure TakenSnapshot.From (task : BuildTask Json) (moments : List Files) (taken : TakenSnapshot) :
    Prop where
  files_mem : taken.files ∈ moments
  source_read : ∃ files ∈ moments, files.read taken.path = .ok taken.source
  created : Snapshot.createFileBytes (taken.files.toFileSystem task.others) task.strategy task.info
    taken.path taken.source = .ok taken.snapshot

theorem TakenSnapshot.From.mono {moments' : List Files} {taken : TakenSnapshot}
    (h : taken.From task moments) (hsub : moments ⊆ moments') : taken.From task moments' where
  files_mem := hsub h.files_mem
  source_read := h.source_read.imp fun _ hread => ⟨hsub hread.1, hread.2⟩
  created := h.created

theorem mapError_eq_ok {α ε ε' : Type} {error : ε → ε'} {outcome : Except ε α} {value : α} :
    outcome.mapError error = .ok value ↔ outcome = .ok value := by
  cases outcome <;> simp [Except.mapError]

theorem observes_orFail {α : Type} {error : IoError → BuildError} {outcome : Except IoError α} {value : α}
    (h : Observes (BuildTask.orFail error outcome).run moments (.ok value)) :
    moments = [] ∧ outcome = .ok value := by
  obtain ⟨hmoments, houtcome⟩ := Observes.liftM_iff.mp h
  exact ⟨hmoments, mapError_eq_ok.mp houtcome⟩

theorem observes_readFile {path : PathBuf} {content : Except IoError (List UInt8)}
    (h : Observes (readFile path).run moments (.ok content)) :
    ∃ files : Files, moments = [files] ∧ files.read path = content :=
  Observes.observed_iff.mp h

namespace BuildTask

theorem observes_takeSnapshot {path : PathBuf} {source : List UInt8} {taken : TakenSnapshot}
    (h : Observes (task.takeSnapshot path source).run moments (.ok taken)) :
    moments = [taken.files] ∧ taken.path = path ∧ taken.source = source ∧
      Snapshot.createFileBytes (taken.files.toFileSystem task.others) task.strategy task.info path
        source = .ok taken.snapshot := by
  rw [takeSnapshot] at h
  obtain ⟨_, _, files, rfl, hfiles, h₁⟩ := Observes.andThen_iff.mp h
  obtain ⟨_, _, snapshot, rfl, hsnapshot, h₂⟩ := Observes.andThen_iff.mp h₁
  obtain ⟨_, rfl, rfl⟩ := Observes.observed_iff.mp hfiles
  obtain ⟨rfl, hcreated⟩ := observes_orFail hsnapshot
  obtain ⟨rfl, rfl⟩ := Observes.pure_iff.mp h₂
  exact ⟨rfl, rfl, rfl, hcreated⟩

theorem observes_snapshotLoader {taken : List TakenSnapshot}
    (h : Observes task.snapshotLoader.run moments (.ok taken)) :
    ∀ snapshot ∈ taken, snapshot.From task moments := by
  rw [snapshotLoader] at h
  cases hloader : task.loader with
  | none =>
    rw [hloader] at h
    obtain ⟨-, rfl⟩ := Observes.pure_iff.mp h
    exact fun snapshot hsnapshot => absurd hsnapshot List.not_mem_nil
  | some loader =>
    rw [hloader] at h
    obtain ⟨_, _, content, rfl, hread, h₁⟩ := Observes.andThen_iff.mp h
    obtain ⟨_, _, bytes, rfl, hbytes, h₂⟩ := Observes.andThen_iff.mp h₁
    obtain ⟨_, _, source, rfl, hsource, h₃⟩ := Observes.andThen_iff.mp h₂
    obtain ⟨_, _, files, rfl, hfiles, h₄⟩ := Observes.andThen_iff.mp h₃
    obtain ⟨_, _, snapshot, rfl, hsnapshot, h₅⟩ := Observes.andThen_iff.mp h₄
    obtain ⟨before, rfl, rfl⟩ := observes_readFile hread
    obtain ⟨rfl, hcontent⟩ := observes_orFail hbytes
    obtain ⟨rfl, htext⟩ := Observes.liftM_iff.mp hsource
    obtain ⟨_, rfl, rfl⟩ := Observes.observed_iff.mp hfiles
    obtain ⟨rfl, hcreated⟩ := observes_orFail hsnapshot
    obtain ⟨rfl, rfl⟩ := Observes.pure_iff.mp h₅
    have hutf8 : utf8Bytes source = bytes := by
      cases hfrom : Decoder.fromUtf8 bytes with
      | none =>
        rw [hfrom] at htext
        cases htext
      | some text =>
        rw [hfrom] at htext
        cases htext
        exact utf8Bytes_of_fromUtf8 hfrom
    intro taken htaken
    rw [List.mem_singleton] at htaken
    subst htaken
    exact ⟨by simp, ⟨before, by simp, hutf8 ▸ hcontent⟩, hcreated⟩

theorem observes_snapshotDependencies {dependencies : List PathBuf} {taken : List TakenSnapshot}
    (h : Observes (task.snapshotDependencies dependencies).run moments (.ok taken)) :
    ∀ snapshot ∈ taken, snapshot.From task moments := by
  induction dependencies generalizing moments taken with
  | nil =>
    obtain ⟨-, rfl⟩ := Observes.pure_iff.mp h
    exact fun snapshot hsnapshot => absurd hsnapshot List.not_mem_nil
  | cons dependency dependencies ih =>
    rw [snapshotDependencies] at h
    obtain ⟨_, _, content, rfl, hread, h₁⟩ := Observes.andThen_iff.mp h
    obtain ⟨_, _, source, rfl, hsource, h₂⟩ := Observes.andThen_iff.mp h₁
    obtain ⟨_, _, first, rfl, hfirst, h₃⟩ := Observes.andThen_iff.mp h₂
    obtain ⟨_, _, rest, rfl, hrest, h₄⟩ := Observes.andThen_iff.mp h₃
    obtain ⟨before, rfl, rfl⟩ := observes_readFile hread
    obtain ⟨rfl, hcontent⟩ := observes_orFail hsource
    obtain ⟨rfl, rfl, rfl, hcreated⟩ := observes_takeSnapshot hfirst
    obtain ⟨rfl, rfl⟩ := Observes.pure_iff.mp h₄
    intro snapshot hsnapshot
    rcases List.mem_cons.mp hsnapshot with rfl | hsnapshot
    · exact ⟨by simp, ⟨before, by simp, hcontent⟩, hcreated⟩
    · exact (ih hrest snapshot hsnapshot).mono fun files hfiles => by simp [hfiles]

/-- The snapshot of the record is the merge of snapshots taken at moments of the run, and the record is
stored at the last moment. -/
theorem observes_run {built : BuiltRecord Json} (h : Observes task.run.run moments (.ok built)) :
    (∃ front, moments = front ++ [built.stored]) ∧
      (∀ taken ∈ built.taken, taken.From task moments) ∧
        built.record.snapshot = Snapshot.merge (built.taken.map (·.snapshot)) := by
  rw [run] at h
  obtain ⟨_, _, content, rfl, hread, h₁⟩ := Observes.andThen_iff.mp h
  obtain ⟨_, _, rawBytes, rfl, hraw, h₂⟩ := Observes.andThen_iff.mp h₁
  obtain ⟨_, _, rawSource, rfl, hdecode, h₃⟩ := Observes.andThen_iff.mp h₂
  obtain ⟨loading, _, ⟨result, uses⟩, rfl, hload, h₄⟩ := Observes.andThen_iff.mp h₃
  obtain ⟨_, _, parsed, rfl, hparsed, h₅⟩ := Observes.andThen_iff.mp h₄
  obtain ⟨_, _, resource, rfl, hresource, h₆⟩ := Observes.andThen_iff.mp h₅
  obtain ⟨loaderMoments, _, loader, rfl, hloader, h₇⟩ := Observes.andThen_iff.mp h₆
  obtain ⟨dependencyMoments, _, dependencies, rfl, hdependencies, h₈⟩ := Observes.andThen_iff.mp h₇
  obtain ⟨_, _, stored, rfl, hstored, h₉⟩ := Observes.andThen_iff.mp h₈
  obtain ⟨before, rfl, rfl⟩ := observes_readFile hread
  obtain ⟨rfl, hcontent⟩ := observes_orFail hraw
  obtain ⟨rfl, -⟩ := Observes.liftM_iff.mp hdecode
  obtain ⟨rfl, -⟩ := Observes.liftM_iff.mp hparsed
  obtain ⟨rfl, hpath, hsource, hcreated⟩ := observes_takeSnapshot hresource
  obtain ⟨_, rfl, rfl⟩ := Observes.observed_iff.mp hstored
  obtain ⟨rfl, rfl⟩ := Observes.pure_iff.mp h₉
  refine ⟨⟨before :: (loading ++ resource.files :: (loaderMoments ++ dependencyMoments)), by simp⟩,
    ?_, rfl⟩
  intro taken htaken
  rcases List.mem_cons.mp htaken with rfl | htaken
  · exact ⟨by simp, ⟨before, by simp, by rw [hpath, hsource, hcontent]⟩, by rw [hpath, hsource, hcreated]⟩
  · rcases List.mem_append.mp htaken with htaken | htaken
    · exact (observes_snapshotLoader hloader taken htaken).mono fun files hfiles => by simp [hfiles]
    · exact (observes_snapshotDependencies hdependencies taken htaken).mono fun files hfiles => by
        simp [hfiles]

end BuildTask

variable {contents : Set (List UInt8)} {built : BuiltRecord Json}

namespace BuiltRecord

/-- The snapshot that the merge keeps for its path. -/
def Keeps (built : BuiltRecord Json) (taken : TakenSnapshot) : Prop :=
  KeyedList.IsLast (fun taken : TakenSnapshot => taken.path.key) built.taken taken

/-- Whenever the record is valid later on, the files that it is about have the contents that the module was
built from. -/
def Trusted (task : BuildTask Json) (contents : Set (List UInt8)) (built : BuiltRecord Json) : Prop :=
  ∀ later itemState, Files.Later contents built.stored later →
    built.record.snapshot.isValid (later.toFileSystem task.others) task.strategy task.info itemState = true →
      ∀ use ∈ built.uses, (∃ taken ∈ built.taken, taken.path.key = use.path.key) →
        later.read use.path = use.content

/-- A file has been written since its metadata were read, or it had other contents then than those for the
hash. -/
def Outdated (task : BuildTask Json) (built : BuiltRecord Json) : Prop :=
  ∃ taken, built.Keeps taken ∧ (built.stored taken.path.key ≠ taken.files taken.path.key ∨
    task.strategy.hash = true ∧ taken.files.read taken.path ≠ .ok taken.source)

/-- The contents that the snapshot of the path is about: those for the hash, or those at the moment of the
metadata. -/
def pinned (task : BuildTask Json) (taken : TakenSnapshot) : Except IoError (List UInt8) :=
  if task.strategy.hash then .ok taken.source else taken.files.read taken.path

/-- Every read of the build saw the contents that the snapshot of the path is about. -/
def PinsUses (task : BuildTask Json) (built : BuiltRecord Json) : Prop :=
  ∀ use ∈ built.uses, ∀ taken, built.Keeps taken → taken.path.key = use.path.key →
    use.content = pinned task taken

end BuiltRecord

/-- Where the file of a snapshot was at the moment of its metadata and when the record was stored. -/
structure TakenSnapshot.Placed (task : BuildTask Json) (contents : Set (List UInt8)) (stored : Files)
    (taken : TakenSnapshot) (atMetadata atStore : FileState) : Prop where
  metadata_eq : taken.files taken.path.key = some atMetadata
  stored_eq : stored taken.path.key = some atStore
  sameOrNewer : atMetadata.SameOrNewer atStore
  source_mem : taken.source ∈ contents
  ordinary : task.info.IsOrdinary taken.path
  entries_eq : taken.snapshot.entries =
    [.file taken.path (.ofState task.strategy atMetadata.modified taken.source)]

/-- A file that is now as it was at its metadata has not been written in between. -/
theorem TakenSnapshot.Placed.stored_of_unchanged {stored later : Files} {taken : TakenSnapshot}
    {atMetadata atStore state : FileState} (h : taken.Placed task contents stored atMetadata atStore)
    (hlater : Files.Later contents stored later) (hmetadata : taken.files taken.path.key = some state)
    (hstate : later taken.path.key = some state) :
    stored taken.path.key = taken.files taken.path.key := by
  have hsame := h.metadata_eq
  rw [hmetadata] at hsame
  cases hsame
  rcases hlater.alwaysAfter taken.path.key with ⟨hnone, -⟩ | ⟨old, new, hold, hnew, hnewer⟩
  · rw [h.stored_eq] at hnone
    cases hnone
  · rw [h.stored_eq] at hold
    rw [hstate] at hnew
    cases hold
    cases hnew
    rcases h.sameOrNewer with rfl | hfirst
    · rw [h.stored_eq, hmetadata]
    · rcases hnewer with rfl | hsecond
      · rw [h.stored_eq, hmetadata]
      · exact absurd (hfirst.trans hsecond) (lt_irrefl _)

theorem BuiltRecord.exists_keeps {path : PathBuf}
    (h : ∃ taken ∈ built.taken, taken.path.key = path.key) :
    ∃ taken, built.Keeps taken ∧ taken.path.key = path.key := by
  obtain ⟨taken, htaken, hkey⟩ := h
  obtain ⟨last, hlast, hsame⟩ := KeyedList.exists_isLast
    (fun taken : TakenSnapshot => taken.path.key) htaken
  exact ⟨last, hlast, hsame.trans hkey⟩

theorem modifiedTime_of_state {files : Files} {others : FileSystem} {path : PathBuf} {state : FileState}
    (h : files path.key = some state) :
    FileSnapshot.modifiedTime (files.toFileSystem others) path = .ok state.modified := by
  have hfound := Files.state_eq_ok.mpr h
  change (do
    let metadata ← (fun state : FileState => (⟨false, .ok state.modified⟩ : Metadata)) <$> files.state path
    metadata.modified) = _
  rw [hfound]
  rfl

theorem createFileBytes_of_state {files : Files} {path : PathBuf} {source : List UInt8} {state : FileState}
    (hordinary : task.info.IsOrdinary path) (hstate : files path.key = some state) :
    Snapshot.createFileBytes (files.toFileSystem task.others) task.strategy task.info path source =
      .ok ⟨[.file path (.ofState task.strategy state.modified source)]⟩ := by
  rw [Snapshot.createFileBytes, SnapshotEntry.createFileBytes, classifiedPathEntry_of_isOrdinary hordinary]
  dsimp only
  rw [FileSnapshot.createBytes, modifiedTime_of_state hstate, whenSome_ok]
  rfl

/-- The run of the task at its moments. -/
theorem placed_of_ends {start : Files} (hends : task.Ends contents start built)
    (hstart : start.Within contents) (hordinary : ∀ taken ∈ built.taken, task.info.IsOrdinary taken.path) :
    (∀ taken ∈ built.taken, ∃ atMetadata atStore,
        taken.Placed task contents built.stored atMetadata atStore) ∧
      built.stored.Within contents ∧
        built.record.snapshot = Snapshot.merge (built.taken.map (·.snapshot)) := by
  obtain ⟨final, hinterleaved⟩ := hends
  obtain ⟨moments, hobserves, hchain⟩ := observes_of_interleaved task.run.run.observing hinterleaved
  obtain ⟨⟨front, hfront⟩, hfrom, hmerge⟩ := BuildTask.observes_run hobserves
  have horder : List.Pairwise (Files.Later contents) (start :: (moments ++ [final])) :=
    hchain.pairwise
  obtain ⟨hlater, hmoments⟩ := List.pairwise_cons.mp horder
  have hwithin : ∀ files ∈ moments, files.Within contents := fun files hfiles =>
    (hlater files (List.mem_append_left _ hfiles)).within hstart
  have hstored : ∀ files ∈ moments, Files.Later contents files built.stored := by
    intro files hfiles
    rw [hfront, List.append_assoc] at hmoments
    obtain ⟨-, -, hlast⟩ := List.pairwise_append.mp hmoments
    rw [hfront] at hfiles
    rcases List.mem_append.mp hfiles with hfiles | hfiles
    · exact hlast files hfiles _ (by simp)
    · rw [List.mem_singleton.mp hfiles]
      exact .refl
  refine ⟨fun taken htaken => ?_, hwithin _ (by simp [hfront]), hmerge⟩
  obtain ⟨hmem, ⟨before, hbefore, hread⟩, hcreated⟩ := hfrom taken htaken
  obtain ⟨read, hstate, hcontent⟩ := Files.read_eq_ok.mp hread
  have hsource : taken.source ∈ contents := hcontent ▸ hwithin before hbefore _ read hstate
  rcases (hstored before hbefore).alwaysAfter taken.path.key with ⟨hnone, -⟩ | ⟨_, atStore, -, hatStore, -⟩
  · rw [hstate] at hnone
    cases hnone
  · rcases (hstored _ hmem).alwaysAfter taken.path.key with
      ⟨-, hnone⟩ | ⟨atMetadata, _, hatMetadata, hstored', hnewer⟩
    · rw [hatStore] at hnone
      cases hnone
    · rw [hatStore] at hstored'
      cases hstored'
      rw [createFileBytes_of_state (hordinary taken htaken) hatMetadata] at hcreated
      have hentries := congrArg Snapshot.entries (Except.ok.inj hcreated).symm
      exact ⟨atMetadata, atStore, hatMetadata, hatStore, hnewer, hsource, hordinary taken htaken,
        hentries⟩

section

variable (hplaced : ∀ taken ∈ built.taken, ∃ atMetadata atStore,
    taken.Placed task contents built.stored atMetadata atStore)
  (hmerge : built.record.snapshot = Snapshot.merge (built.taken.map (·.snapshot)))

include hplaced hmerge in
/-- The entries of the record are those of the snapshots that the merge keeps. -/
theorem mem_entries_iff {entry : SnapshotEntry} :
    entry ∈ built.record.snapshot.entries ↔
      ∃ taken, built.Keeps taken ∧ taken.snapshot.entries = [entry] := by
  have hpath : ∀ taken ∈ built.taken, ∃ entry : SnapshotEntry, taken.snapshot.entries = [entry] ∧
      entry.path = taken.path := by
    intro taken htaken
    obtain ⟨atMetadata, atStore, h⟩ := hplaced taken htaken
    exact ⟨_, h.entries_eq, rfl⟩
  let first : TakenSnapshot → SnapshotEntry := fun taken =>
    taken.snapshot.entries.headD (.missingExistence taken.path)
  have hfirst : ∀ taken ∈ built.taken, taken.snapshot.entries = [first taken] ∧
      (first taken).path = taken.path := by
    intro taken htaken
    obtain ⟨entry, hentry, hsame⟩ := hpath taken htaken
    simp only [first, hentry, List.headD_cons]
    exact ⟨trivial, hsame⟩
  have hflat : (built.taken.map (·.snapshot)).flatMap (·.entries) = built.taken.map first := by
    rw [List.flatMap_map, List.map_eq_flatMap]
    exact List.flatMap_congr fun taken htaken => (hfirst taken htaken).1
  rw [hmerge, Snapshot.merge, hflat, KeyedList.mem_collect_iff, KeyedList.isLast_map]
  have hlast : ∀ taken, KeyedList.IsLast ((fun entry : SnapshotEntry => entry.path.key) ∘ first)
      built.taken taken ↔ built.Keeps taken := by
    intro taken
    have hkey : ∀ other ∈ built.taken, (first other).path.key = other.path.key := fun other hother => by
      rw [(hfirst other hother).2]
    constructor
    · rintro ⟨before, after, heq, hafter⟩
      refine ⟨before, after, heq, fun other hother => ?_⟩
      have hne := hafter other hother
      rw [Function.comp_apply, Function.comp_apply, hkey other (by simp [heq, hother]),
        hkey taken (by simp [heq])] at hne
      exact hne
    · rintro ⟨before, after, heq, hafter⟩
      refine ⟨before, after, heq, fun other hother => ?_⟩
      rw [Function.comp_apply, Function.comp_apply, hkey other (by simp [heq, hother]),
        hkey taken (by simp [heq])]
      exact hafter other hother
  constructor
  · rintro ⟨taken, htaken, rfl⟩
    exact ⟨taken, (hlast taken).mp htaken,
      (hfirst taken (KeyedList.IsLast.mem _ htaken)).1⟩
  · rintro ⟨taken, hkeeps, hentries⟩
    refine ⟨taken, (hlast taken).mpr hkeeps, ?_⟩
    rw [(hfirst taken (KeyedList.IsLast.mem _ hkeeps)).1] at hentries
    exact List.singleton_inj.mp hentries

include hplaced hmerge in
/-- The record is valid when each file has the time and the hash of the snapshot that the merge keeps. -/
theorem isValid_record_iff {later : Files} {itemState : PathBuf → Option ManagedItemState}
    (hlater : Files.Later contents built.stored later) :
    built.record.snapshot.isValid (later.toFileSystem task.others) task.strategy task.info itemState = true ↔
      ∀ taken, built.Keeps taken → ∃ atMetadata state, taken.files taken.path.key = some atMetadata ∧
        later taken.path.key = some state ∧ atMetadata.SameOrNewer state ∧
          (task.strategy.timestamp = true → state.modified = atMetadata.modified) ∧
            (task.strategy.hash = true → stableHashBytes state.content = stableHashBytes taken.source) := by
  have hnow : ∀ taken, built.Keeps taken → ∃ atMetadata state,
      taken.files taken.path.key = some atMetadata ∧ later taken.path.key = some state ∧
        atMetadata.SameOrNewer state ∧ task.info.IsOrdinary taken.path ∧ taken.snapshot.entries =
          [.file taken.path (.ofState task.strategy atMetadata.modified taken.source)] := by
    intro taken hkeeps
    obtain ⟨atMetadata, atStore, h⟩ := hplaced taken (KeyedList.IsLast.mem _ hkeeps)
    rcases hlater.alwaysAfter taken.path.key with ⟨hnone, -⟩ | ⟨old, state, hold, hstate, hnewer⟩
    · rw [h.stored_eq] at hnone
      cases hnone
    · rw [h.stored_eq] at hold
      cases hold
      exact ⟨atMetadata, state, h.metadata_eq, hstate, h.sameOrNewer.trans hnewer, h.ordinary,
        h.entries_eq⟩
  rw [Snapshot.isValid, List.all_eq_true]
  constructor
  · intro hvalid taken hkeeps
    obtain ⟨atMetadata, state, hmetadata, hstate, hnewer, hordinary, hentries⟩ := hnow taken hkeeps
    have hentry := hvalid _ ((mem_entries_iff hplaced hmerge).mpr ⟨taken, hkeeps, hentries⟩)
    exact ⟨atMetadata, state, hmetadata, hstate, hnewer, (isValid_ofState hordinary hstate).mp hentry⟩
  · intro hall entry hentry
    obtain ⟨taken, hkeeps, hentries⟩ := (mem_entries_iff hplaced hmerge).mp hentry
    obtain ⟨atMetadata, state, hmetadata, hstate, -, hordinary, hsame⟩ := hnow taken hkeeps
    obtain ⟨atMetadata', state', hmetadata', hstate', -, hmatches⟩ := hall taken hkeeps
    rw [hmetadata] at hmetadata'
    rw [hstate] at hstate'
    cases hmetadata'
    cases hstate'
    rw [hsame] at hentries
    rw [← List.singleton_inj.mp hentries]
    exact (isValid_ofState hordinary hstate).mpr hmatches

end

/-- Files can be given back the contents that their snapshots were hashed from. -/
theorem exists_restored {stored : Files} (snapshots : List TakenSnapshot)
    (hnodup : (snapshots.map (·.path.key)).Nodup)
    (hfiles : ∀ taken ∈ snapshots, ∃ state time, stored taken.path.key = some state ∧
      taken.source ∈ contents ∧ state.modified.nanos < SystemTime.nanos time) :
    ∃ later, Files.Later contents stored later ∧
      (∀ taken ∈ snapshots, later.read taken.path = .ok taken.source) ∧
        ∀ key ∉ snapshots.map (·.path.key), later key = stored key := by
  induction snapshots with
  | nil => exact ⟨stored, .refl, fun taken htaken => absurd htaken List.not_mem_nil, fun _ _ => rfl⟩
  | cons taken snapshots ih =>
    rw [List.map_cons, List.nodup_cons] at hnodup
    obtain ⟨hfresh, hnodup⟩ := hnodup
    obtain ⟨later, hlater, hread, hsame⟩ := ih hnodup fun other hother =>
      hfiles other (List.mem_cons_of_mem taken hother)
    obtain ⟨state, time, hstate, hsource, htime⟩ := hfiles taken List.mem_cons_self
    have hnow : later taken.path.key = some state := by rw [hsame _ hfresh, hstate]
    by_cases hcontent : taken.source = state.content
    · refine ⟨later, hlater, fun other hother => ?_, fun key hkey => ?_⟩
      · rcases List.mem_cons.mp hother with rfl | hother
        · exact Files.read_eq_ok.mpr ⟨state, hnow, hcontent.symm⟩
        · exact hread other hother
      · exact hsame key fun hmem => hkey (List.mem_cons_of_mem _ hmem)
    · have hwrite : Files.Write contents later
          (Function.update later taken.path.key (some ⟨taken.source, time⟩)) :=
        .file taken.path hnow ⟨hsource, hcontent, htime⟩
      refine ⟨_, hlater.tail hwrite, fun other hother => ?_, fun key hkey => ?_⟩
      · rcases List.mem_cons.mp hother with rfl | hother
        · exact Files.read_eq_ok.mpr ⟨_, Function.update_self .., rfl⟩
        · have hne : other.path.key ≠ taken.path.key := fun heq =>
            hfresh (heq ▸ List.mem_map_of_mem hother)
          rw [← hread other hother]
          exact Files.read_congr rfl (Function.update_of_ne hne ..)
      · rw [List.map_cons, List.mem_cons, not_or] at hkey
        rw [Function.update_of_ne hkey.1]
        exact hsame key hkey.2

/-- **Trust in a record.** However writes from outside are interleaved with the task, its record is only ever
valid for the contents that the module was built from exactly when the record is outdated already, by
timestamps, or every read of the build saw the contents that the snapshots are about. -/
theorem trusted_iff {start : Files} (hinjective : Set.InjOn stableHashBytes contents)
    (hmethod : task.strategy.timestamp = true ∨ task.strategy.hash = true)
    (hends : task.Ends contents start built) (hstart : start.Within contents)
    (hordinary : ∀ taken ∈ built.taken, task.info.IsOrdinary taken.path)
    (hclock : ∀ key state, built.stored key = some state →
      ∃ time, state.modified.nanos < SystemTime.nanos time) :
    built.Trusted task contents ↔
      task.strategy.timestamp = true ∧ built.Outdated task ∨ built.PinsUses task := by
  obtain ⟨hplaced, hwithin, hmerge⟩ := placed_of_ends hends hstart hordinary
  have hcollides : ∀ {later : Files}, Files.Later contents built.stored later → ∀ taken, built.Keeps taken →
      ∀ state, later taken.path.key = some state →
        stableHashBytes state.content = stableHashBytes taken.source → state.content = taken.source := by
    intro later hlater taken hkeeps state hstate hhash
    obtain ⟨_, _, h⟩ := hplaced taken (KeyedList.IsLast.mem _ hkeeps)
    exact hinjective (hlater.within hwithin _ state hstate) h.source_mem hhash
  constructor
  · intro htrusted
    by_cases htimestamp : task.strategy.timestamp = true
    · refine or_iff_not_imp_left.mpr fun houtdated use huse taken hkeeps hkey => ?_
      have hcurrent : ∀ other, built.Keeps other →
          built.stored other.path.key = other.files other.path.key ∧
            (task.strategy.hash = true → other.files.read other.path = .ok other.source) := by
        intro other hother
        constructor
        · by_contra hwritten
          exact houtdated ⟨htimestamp, other, hother, .inl hwritten⟩
        · intro hstrategy
          by_contra hread
          exact houtdated ⟨htimestamp, other, hother, .inr ⟨hstrategy, hread⟩⟩
      have hvalid : built.record.snapshot.isValid (built.stored.toFileSystem task.others) task.strategy
          task.info (fun _ => none) = true :=
        (isValid_record_iff hplaced hmerge .refl).mpr fun other hother => by
          obtain ⟨atMetadata, _, h⟩ := hplaced other (KeyedList.IsLast.mem _ hother)
          obtain ⟨hsame, hread⟩ := hcurrent other hother
          refine ⟨atMetadata, atMetadata, h.metadata_eq, by rw [hsame, h.metadata_eq], .inl rfl,
            fun _ => rfl, fun hstrategy => ?_⟩
          obtain ⟨state, hstate, hcontent⟩ := Files.read_eq_ok.mp (hread hstrategy)
          rw [h.metadata_eq] at hstate
          cases hstate
          rw [hcontent]
      have huse := htrusted built.stored _ .refl hvalid use huse
        ⟨taken, KeyedList.IsLast.mem _ hkeeps, hkey⟩
      obtain ⟨hsame, hread⟩ := hcurrent taken hkeeps
      rw [← huse, ← Files.read_congr hkey hsame.symm, BuiltRecord.pinned]
      split_ifs with hstrategy
      · exact hread hstrategy
      · rfl
    · have hstrategy := hmethod.resolve_left htimestamp
      refine .inr fun use huse taken hkeeps hkey => ?_
      obtain ⟨later, hlater, hrestored, -⟩ := exists_restored
        (KeyedList.collect (fun taken : TakenSnapshot => taken.path.key) built.taken)
        (KeyedList.Increasing.nodup_keys _ (KeyedList.increasing_collect _ _)) fun other hother => by
          obtain ⟨_, atStore, h⟩ := hplaced other (KeyedList.mem_of_mem_collect _ hother)
          obtain ⟨time, htime⟩ := hclock _ _ h.stored_eq
          exact ⟨atStore, time, h.stored_eq, h.source_mem, htime⟩
      have hread : ∀ other, built.Keeps other → later.read other.path = .ok other.source :=
        fun other hother => hrestored other ((KeyedList.mem_collect_iff _).mpr hother)
      have hvalid : built.record.snapshot.isValid (later.toFileSystem task.others) task.strategy
          task.info (fun _ => none) = true :=
        (isValid_record_iff hplaced hmerge hlater).mpr fun other hother => by
          obtain ⟨atMetadata, atStore, h⟩ := hplaced other (KeyedList.IsLast.mem _ hother)
          obtain ⟨state, hstate, hcontent⟩ := Files.read_eq_ok.mp (hread other hother)
          refine ⟨atMetadata, state, h.metadata_eq, hstate, ?_,
            fun hmodified => absurd hmodified htimestamp, fun _ => by rw [hcontent]⟩
          rcases hlater.alwaysAfter other.path.key with ⟨hnone, -⟩ | ⟨old, new, hold, hnew, hnewer⟩
          · rw [h.stored_eq] at hnone
            cases hnone
          · rw [h.stored_eq] at hold
            rw [hstate] at hnew
            cases hold
            cases hnew
            exact h.sameOrNewer.trans hnewer
      have huse := htrusted later _ hlater hvalid use huse ⟨taken, KeyedList.IsLast.mem _ hkeeps, hkey⟩
      rw [← huse, ← Files.read_congr hkey rfl, hread taken hkeeps, BuiltRecord.pinned, if_pos hstrategy]
  · rintro (⟨htimestamp, taken, hkeeps, houtdated⟩ | hpins)
    · intro later itemState hlater hvalid
      exfalso
      obtain ⟨atMetadata, state, hmetadata, hstate, hnewer, hmodified, hhash⟩ :=
        (isValid_record_iff hplaced hmerge hlater).mp hvalid taken hkeeps
      have hsame := hnewer.eq_of_modified (hmodified htimestamp).symm
      subst hsame
      rcases houtdated with hwritten | ⟨hstrategy, hother⟩
      · obtain ⟨_, atStore, h⟩ := hplaced taken (KeyedList.IsLast.mem _ hkeeps)
        exact hwritten (h.stored_of_unchanged hlater hmetadata hstate)
      · exact hother (Files.read_eq_ok.mpr ⟨_, hmetadata,
          hcollides hlater taken hkeeps _ hstate (hhash hstrategy)⟩)
    · intro later itemState hlater hvalid use huse htracked
      obtain ⟨taken, hkeeps, hkey⟩ := BuiltRecord.exists_keeps htracked
      obtain ⟨atMetadata, state, hmetadata, hstate, hnewer, hmodified, hhash⟩ :=
        (isValid_record_iff hplaced hmerge hlater).mp hvalid taken hkeeps
      rw [hpins use huse taken hkeeps hkey, ← Files.read_congr hkey rfl, BuiltRecord.pinned]
      split_ifs with hstrategy
      · exact Files.read_eq_ok.mpr ⟨state, hstate,
          hcollides hlater taken hkeeps _ hstate (hhash hstrategy)⟩
      · have hsame := hnewer.eq_of_modified (hmodified (hmethod.resolve_right hstrategy)).symm
        subst hsame
        rw [Files.read_congr rfl (hstate.trans hmetadata.symm)]

/-- A module without a loader is built at three moments: its file is read, the metadata of its file are read,
and the record is stored. -/
theorem BuildTask.observes_run_plain {atRead atMetadata stored : Files} {bytes : List UInt8} {source : String}
    {parsed : ParsedModule Json} {snapshot : Snapshot} (hloader : task.loader = none)
    (hread : atRead.read task.resource = .ok bytes) (hdecode : task.decode bytes = .ok source)
    (hparse : task.parse source bytes = .ok parsed)
    (hsnapshot : Snapshot.createFileBytes (atMetadata.toFileSystem task.others) task.strategy task.info
      task.resource bytes = .ok snapshot) :
    Observes task.run.run [atRead, atMetadata, stored]
      (.ok ⟨⟨task.builtContent source bytes [] parsed, Snapshot.merge [snapshot]⟩,
        [⟨task.resource, .ok bytes⟩], [⟨task.resource, bytes, atMetadata, snapshot⟩], stored⟩) := by
  have horFail : ∀ {α : Type} {error : IoError → BuildError} {value : α},
      Observes (orFail error (.ok value)).run ([] : List Files) (.ok value) :=
    Observes.liftM_iff.mpr ⟨rfl, rfl⟩
  have htake : Observes (task.takeSnapshot task.resource bytes).run [atMetadata]
      (.ok ⟨task.resource, bytes, atMetadata, snapshot⟩) := by
    refine Observes.andThen_iff.mpr
      ⟨[atMetadata], [], atMetadata, rfl, Observes.observed_iff.mpr ⟨_, rfl, rfl⟩, ?_⟩
    refine Observes.andThen_iff.mpr ⟨[], [], snapshot, rfl, ?_, Observes.pure_iff.mpr ⟨rfl, rfl⟩⟩
    rw [hsnapshot]
    exact horFail
  rw [run]
  refine Observes.andThen_iff.mpr ⟨[atRead], _, _, rfl, Observes.observed_iff.mpr ⟨_, rfl, hread⟩, ?_⟩
  refine Observes.andThen_iff.mpr ⟨[], _, _, rfl, horFail, ?_⟩
  refine Observes.andThen_iff.mpr ⟨[], _, _, rfl, Observes.liftM_iff.mpr ⟨rfl, hdecode⟩, ?_⟩
  refine Observes.andThen_iff.mpr ⟨[], _, (⟨source, [], []⟩, []), rfl, ?_, ?_⟩
  · rw [load, hloader]
    exact Observes.pure_iff.mpr ⟨rfl, rfl⟩
  dsimp only
  rw [hloader]
  refine Observes.andThen_iff.mpr ⟨[], _, _, rfl, Observes.liftM_iff.mpr ⟨rfl, hparse⟩, ?_⟩
  refine Observes.andThen_iff.mpr ⟨[atMetadata], _, _, rfl, htake, ?_⟩
  refine Observes.andThen_iff.mpr ⟨[], _, [], rfl, ?_, ?_⟩
  · rw [snapshotLoader, hloader]
    exact Observes.pure_iff.mpr ⟨rfl, rfl⟩
  refine Observes.andThen_iff.mpr ⟨[], _, [], rfl, Observes.pure_iff.mpr ⟨rfl, rfl⟩, ?_⟩
  refine Observes.andThen_iff.mpr ⟨[stored], [], _, rfl, Observes.observed_iff.mpr ⟨_, rfl, rfl⟩, ?_⟩
  exact Observes.pure_iff.mpr ⟨rfl, rfl⟩

end

/-- `/a.js`, by its timestamp. -/
def timestampTask : BuildTask Unit where
  resource := ⟨utf8Bytes "/a.js"⟩
  loader := none
  runLoader := none
  isBinary := false
  fromUtf8Lossy := fun _ => ""
  utf8Error := fun _ => "invalid utf-8 sequence"
  parse := fun _ _ => .ok ⟨[], [], [], [], .javaScript, ⟨none, false⟩⟩
  library := { toString := fun _ => .ok "null", fromString := fun _ => .ok (), localInputHash := fun _ _ _ => 0 }
  strategy := ⟨true, false⟩
  info := ⟨[], [], []⟩
  others :=
    { metadata := fun _ => .error Files.missing
      read := fun _ => .error Files.missing
      directoryTimestampHash := fun _ => .error Files.missing
      directoryContentHash := fun _ => .error Files.missing
      managedItem := fun _ _ => none }

def oldState : FileState := ⟨utf8Bytes "old", ⟨1, 0, by decide⟩⟩

def newState : FileState := ⟨utf8Bytes "new", ⟨2, 0, by decide⟩⟩

def onlyFile (state : FileState) : Files :=
  Function.update (fun _ => none) timestampTask.resource.key (some state)

def twoContents : Set (List UInt8) := {utf8Bytes "old", utf8Bytes "new"}

/-- Built from the old content, with the time of the new one. -/
def poisonedRecord : BuiltRecord Unit where
  record :=
    ⟨timestampTask.builtContent "old" oldState.content [] ⟨[], [], [], [], .javaScript, ⟨none, false⟩⟩,
      Snapshot.merge
        [⟨[.file timestampTask.resource (.ofState timestampTask.strategy newState.modified oldState.content)]⟩]⟩
  uses := [⟨timestampTask.resource, .ok oldState.content⟩]
  taken := [⟨timestampTask.resource, oldState.content, onlyFile newState,
    ⟨[.file timestampTask.resource (.ofState timestampTask.strategy newState.modified oldState.content)]⟩⟩]
  stored := onlyFile newState

theorem onlyFile_self (state : FileState) : onlyFile state timestampTask.resource.key = some state :=
  Function.update_self ..

theorem write_onlyFile : Files.Write twoContents (onlyFile oldState) (onlyFile newState) := by
  have hwrite : oldState.Write twoContents newState :=
    ⟨.inr rfl, by decide +kernel, by decide +kernel⟩
  have h := Files.Write.file timestampTask.resource (onlyFile_self oldState) hwrite
  rw [onlyFile, Function.update_idem] at h
  exact h

theorem eq_of_onlyFile {state found : FileState} {key : List (List Nat)}
    (h : onlyFile state key = some found) : found = state := by
  rw [onlyFile] at h
  by_cases hkey : key = timestampTask.resource.key
  · rw [hkey, Function.update_self] at h
    exact (Option.some.inj h).symm
  · rw [Function.update_of_ne hkey] at h
    cases h

theorem within_onlyFile : (onlyFile oldState).Within twoContents := by
  intro key state hstate
  obtain rfl := eq_of_onlyFile hstate
  exact .inl rfl

theorem timestampTask_isOrdinary (path : PathBuf) : timestampTask.info.IsOrdinary path := .inr rfl

/-- The file is written after it has been read and before its metadata are read. -/
theorem ends_poisonedRecord : timestampTask.Ends twoContents (onlyFile oldState) poisonedRecord := by
  have hread : (onlyFile oldState).read timestampTask.resource = .ok oldState.content :=
    Files.read_eq_ok.mpr ⟨oldState, onlyFile_self _, rfl⟩
  have hdecode : timestampTask.decode oldState.content = .ok "old" := by
    rw [BuildTask.decode, oldState, fromUtf8_utf8Bytes]
  have hwrite : Files.Later twoContents (onlyFile oldState) (onlyFile newState) := .single write_onlyFile
  exact ⟨onlyFile newState, interleaved_of_observes
    (BuildTask.observes_run_plain rfl hread hdecode rfl
      (createFileBytes_of_state (timestampTask_isOrdinary _) (onlyFile_self _)))
    (.cons_cons .refl (.cons_cons hwrite (.cons_cons .refl (.cons_cons .refl (.singleton _)))))⟩

theorem stableHashBytes_injOn_twoContents : Set.InjOn stableHashBytes twoContents := by
  have hne : stableHashBytes (utf8Bytes "old") ≠ stableHashBytes (utf8Bytes "new") := by decide +kernel
  rintro _ (rfl | rfl) _ (rfl | rfl) h
  · rfl
  · exact absurd h hne
  · exact absurd h.symm hne
  · rfl

/-- The record is valid at once, for a content that the module was not built from. -/
theorem poisonedRecord_valid_and_stale :
    timestampTask.Ends twoContents (onlyFile oldState) poisonedRecord ∧
      (onlyFile oldState).Within twoContents ∧
        (∀ path, timestampTask.info.IsOrdinary path) ∧
          ¬poisonedRecord.Trusted timestampTask twoContents := by
  refine ⟨ends_poisonedRecord, within_onlyFile, timestampTask_isOrdinary, fun htrusted => ?_⟩
  obtain ⟨hplaced, -, hmerge⟩ := placed_of_ends ends_poisonedRecord within_onlyFile
    fun _ _ => timestampTask_isOrdinary _
  have hvalid : poisonedRecord.record.snapshot.isValid
      ((onlyFile newState).toFileSystem timestampTask.others) timestampTask.strategy timestampTask.info
      (fun _ => none) = true := by
    refine (isValid_record_iff hplaced hmerge .refl).mpr fun taken hkeeps => ?_
    have htaken := List.mem_singleton.mp (KeyedList.IsLast.mem _ hkeeps)
    subst htaken
    exact ⟨newState, newState, onlyFile_self _, onlyFile_self _, .inl rfl, fun _ => rfl,
      fun hhash => absurd hhash Bool.false_ne_true⟩
  have hsame := htrusted (onlyFile newState) (fun _ => none) .refl hvalid _ (List.mem_singleton_self _)
    ⟨_, List.mem_singleton_self _, rfl⟩
  rw [Files.read_eq_ok.mpr ⟨newState, onlyFile_self _, rfl⟩] at hsame
  have hcontent : newState.content = oldState.content := Except.ok.inj hsame
  exact absurd hcontent (by decide +kernel)

theorem trusted_iff_poisonedRecord :
    timestampTask.Ends twoContents (onlyFile oldState) poisonedRecord ∧
      (poisonedRecord.Trusted timestampTask twoContents ↔
        timestampTask.strategy.timestamp = true ∧ poisonedRecord.Outdated timestampTask ∨
          poisonedRecord.PinsUses timestampTask) := by
  refine ⟨ends_poisonedRecord, trusted_iff stableHashBytes_injOn_twoContents (.inl rfl)
    ends_poisonedRecord within_onlyFile (fun _ _ => timestampTask_isOrdinary _) ?_⟩
  intro key state hstate
  obtain rfl := eq_of_onlyFile hstate
  exact ⟨⟨3, 0, by decide⟩, by decide +kernel⟩

end Unpack.CacheItem
