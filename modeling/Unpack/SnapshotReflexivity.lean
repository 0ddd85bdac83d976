import Unpack.SnapshotVariants
import Mathlib.Tactic.Tauto

/-! A snapshot in the state it was made in, and one snapshot checked in different ways. It stays valid but for
contexts that are no directories and missing paths that fail otherwise than missing ones do; and the ways agree
but for files whose snapshot has more than is asked for. -/

namespace Unpack.CacheItem

open Fallible

section

variable {fileSystem : FileSystem} {strategy : SnapshotStrategy} {info : FileSystemInfo}
  {itemState : PathBuf → Option ManagedItemState} {path : PathBuf}

variable (fileSystem strategy) in
/-- The snapshot has what the strategy asks for and no more, and it says whether there is anything at the path. -/
def FileSnapshot.Recorded (path : PathBuf) (snapshot : FileSnapshot) : Prop :=
  if snapshot.fileExists then
    (∃ metadata, fileSystem.metadata path = .ok metadata) ∧
      (strategy.timestamp = false → snapshot.modified = none) ∧
        (strategy.hash = false → snapshot.sourceHash = none)
  else fileSystem.isMissing path = true ∧ snapshot.modified = none ∧ snapshot.sourceHash = none

theorem whenSome_eq_ok {α : Type} {condition : Bool} {value : Except IoError α} {result : Option α} :
    whenSome condition value = .ok result ↔
      (condition = true → ∃ found, value = .ok found ∧ some found = result) ∧ (condition = false → result = none) := by
  cases condition with
  | false =>
      rw [whenSome, if_neg Bool.false_ne_true]
      exact Iff.intro (fun h => ⟨nofun, fun _ => (Except.ok.inj h).symm⟩) fun h => congrArg _ (h.2 rfl).symm
  | true =>
      rw [whenSome, if_pos rfl]
      constructor
      · intro h
        exact ⟨fun _ => of_map_ok h, nofun⟩
      · rintro ⟨h, _⟩
        obtain ⟨found, rfl, rfl⟩ := h rfl
        rfl

namespace FileSnapshot

theorem isValid_eq_true {snapshot : FileSnapshot} :
    isValid fileSystem strategy path snapshot = true ↔ createFromPath fileSystem strategy path = .ok snapshot := by
  rw [isValid]
  cases createFromPath fileSystem strategy path with
  | error error => constructor <;> intro h <;> cases h
  | ok current => rw [decide_eq_true_eq, Except.ok.injEq]

theorem createFromPath_eq_absent {modified : Option SystemTime} {sourceHash : Option UInt64} :
    createFromPath fileSystem strategy path = .ok ⟨false, modified, sourceHash⟩ ↔
      fileSystem.isMissing path = true ∧ modified = none ∧ sourceHash = none := by
  rw [createFromPath, FileSystem.isMissing]
  cases fileSystem.metadata path with
  | error error =>
      dsimp only
      rw [decide_eq_true_eq]
      split_ifs with hmissing
      · simp [hmissing, eq_comm]
      · simp [hmissing]
  | ok metadata =>
      refine Iff.intro (fun h => ?_) (fun h => absurd h.1 Bool.false_ne_true)
      obtain ⟨_, _, h⟩ := of_bind_ok h
      obtain ⟨_, _, h⟩ := of_bind_ok h
      cases h

theorem createFromPath_eq_present {modified : Option SystemTime} {sourceHash : Option UInt64} :
    createFromPath fileSystem strategy path = .ok ⟨true, modified, sourceHash⟩ ↔
      (∃ metadata, fileSystem.metadata path = .ok metadata) ∧
        whenSome strategy.timestamp (modifiedTime fileSystem path) = .ok modified ∧
          whenSome strategy.hash (stableHashBytes <$> fileSystem.read path) = .ok sourceHash := by
  rw [createFromPath]
  cases hmetadata : fileSystem.metadata path with
  | error error =>
      dsimp only
      split_ifs <;> simp
  | ok metadata =>
      have htime : modifiedTime fileSystem path = metadata.modified := by
        rw [modifiedTime, hmetadata]
        rfl
      rw [htime]
      dsimp only
      constructor
      · intro h
        obtain ⟨_, hmodified, h⟩ := of_bind_ok h
        obtain ⟨_, hhash, h⟩ := of_bind_ok h
        cases h
        exact ⟨⟨metadata, rfl⟩, hmodified, hhash⟩
      · rintro ⟨_, hmodified, hhash⟩
        rw [hmodified, hhash]
        rfl

theorem isValidSync_present {modified : Option SystemTime} {sourceHash : Option UInt64} :
    isValidSync fileSystem strategy path ⟨true, modified, sourceHash⟩ = true ↔
      (strategy.timestamp = true → ∃ found, modifiedTime fileSystem path = .ok found ∧ some found = modified) ∧
        (strategy.hash = true →
          ∃ found, stableHashBytes <$> fileSystem.read path = .ok found ∧ some found = sourceHash) := by
  rw [isValidSync]
  simp only [Bool.not_true, Bool.false_eq_true, if_false, Bool.and_eq_true, Bool.or_eq_true, Bool.not_eq_true']
  refine and_congr ?_ ?_
  · cases strategy.timestamp with
    | false => exact Iff.intro (fun _ => nofun) fun _ => Or.inl rfl
    | true =>
        cases modifiedTime fileSystem path with
        | error error => simp
        | ok found => simp
  · cases strategy.hash with
    | false => exact Iff.intro (fun _ => nofun) fun _ => Or.inl rfl
    | true =>
        cases fileSystem.read path with
        | error error => simp
        | ok source => simp

/-- Asynchronously a file is checked for more. -/
theorem isValid_iff (snapshot : FileSnapshot) : isValid fileSystem strategy path snapshot = true ↔
    isValidSync fileSystem strategy path snapshot = true ∧ snapshot.Recorded fileSystem strategy path := by
  obtain ⟨fileExists, modified, sourceHash⟩ := snapshot
  rw [isValid_eq_true]
  cases fileExists with
  | false =>
      rw [createFromPath_eq_absent, Recorded, if_neg Bool.false_ne_true, iff_and_self]
      rintro ⟨hmissing, _⟩
      simp [isValidSync, hmissing]
  | true =>
      rw [createFromPath_eq_present, isValidSync_present, whenSome_eq_ok, whenSome_eq_ok, Recorded, if_pos rfl]
      tauto

end FileSnapshot

/-- A context that is not there is valid as long as it is missing. -/
theorem ContextSnapshot.isValidSync_of_create {snapshot : ContextSnapshot}
    (h : create fileSystem strategy path = .ok snapshot) : isValidSync fileSystem strategy path snapshot = true ↔
      ∀ metadata, fileSystem.metadata path = .ok metadata → metadata.isDir = true := by
  rw [create] at h
  cases hmetadata : fileSystem.metadata path with
  | error error =>
      rw [hmetadata] at h
      dsimp only at h
      split_ifs at h with hmissing
      cases h
      refine iff_of_true ?_ fun metadata hfound => ?_
      · simp [isValidSync, FileSystem.isMissing, hmetadata, hmissing]
      · cases hfound
  | ok metadata =>
      rw [hmetadata] at h
      dsimp only at h
      cases hdir : metadata.isDir with
      | false =>
          rw [hdir] at h
          cases h
          refine iff_of_false ?_ fun hall => ?_
          · simp [isValidSync, FileSystem.isMissing, hmetadata]
          · have hno := hall metadata rfl
            rw [hdir] at hno
            cases hno
      | true =>
          rw [hdir, if_pos rfl] at h
          obtain ⟨timestampHash, htimestamp, h⟩ := of_bind_ok h
          obtain ⟨contentHash, hcontent, h⟩ := of_bind_ok h
          cases h
          refine iff_of_true ?_ fun other hother => ?_
          · obtain ⟨htimestamp, _⟩ := whenSome_eq_ok.mp htimestamp
            obtain ⟨hcontent, _⟩ := whenSome_eq_ok.mp hcontent
            rw [isValidSync, hmetadata]
            cases htimes : strategy.timestamp with
            | true =>
                obtain ⟨found, hfound, rfl⟩ := htimestamp htimes
                simp [hdir, hfound]
            | false =>
                cases hhash : strategy.hash with
                | true =>
                    obtain ⟨found, hfound, rfl⟩ := hcontent hhash
                    simp [hdir, hfound, Except.toOption]
                | false => simp [hdir]
          · cases hother
            exact hdir

theorem SnapshotEntry.isValid_iff (entry : SnapshotEntry) :
    entry.isValid fileSystem strategy info itemState = true ↔
      entry.isValidSync fileSystem strategy info itemState = true ∧
        ∀ path snapshot, entry = .file path snapshot → snapshot.Recorded fileSystem strategy path := by
  cases entry with
  | file path snapshot =>
      rw [isValid, isValidSync, isValidWith, isValidWith, Bool.and_eq_true, Bool.and_eq_true, snapshot.isValid_iff,
        and_assoc]
      refine and_congr_right fun _ => and_congr_right fun _ => Iff.intro (fun h _ _ heq => ?_) fun h => h _ _ rfl
      cases heq
      exact h
  | context path snapshot =>
      refine (and_iff_left fun _ _ heq => ?_).symm
      cases heq
  | missingExistence path =>
      refine (and_iff_left fun _ _ heq => ?_).symm
      cases heq
  | immutablePath path =>
      refine (and_iff_left fun _ _ heq => ?_).symm
      cases heq
  | managedPath snapshot =>
      refine (and_iff_left fun _ _ heq => ?_).symm
      cases heq

end

section

variable {trees : FileTrees} {strategy : SnapshotStrategy} {info : FileSystemInfo} {path : PathBuf}
  {entry : SnapshotEntry}

theorem ordinarySnapshotApplies_of_classified
    (h : SnapshotEntry.classifiedPathEntry (trees.toFileSystem info) info path = none) :
    info.ordinarySnapshotApplies (trees.toFileSystem info) path = true := by
  rw [SnapshotEntry.classifiedPathEntry] at h
  rw [FileSystemInfo.ordinarySnapshotApplies]
  cases hclass : info.classifyPath path with
  | managed boundary =>
      rw [hclass] at h
      exact Option.isNone_iff_eq_none.mpr (Option.map_eq_none_iff.mp h)
  | immutable =>
      rw [hclass] at h
      cases h
  | unmanaged => rfl
  | unclassified => rfl

namespace SnapshotEntry

theorem isValid_classified (h : classifiedPathEntry (trees.toFileSystem info) info path = some entry) :
    entry.isValid (trees.toFileSystem info) strategy info trees.itemState = true := by
  rw [classifiedPathEntry] at h
  cases hclass : info.classifyPath path with
  | managed boundary =>
      rw [hclass] at h
      obtain ⟨snapshot, hsnapshot, rfl⟩ := Option.map_eq_some_iff.mp h
      obtain ⟨⟨root, state⟩, hitem, rfl⟩ := Option.map_eq_some_iff.mp hsnapshot
      have hstate : trees.itemState root = some state := by
        obtain ⟨found, _, hfound⟩ := Option.bind_eq_some_iff.mp hitem
        obtain ⟨foundState, hfoundState, hpair⟩ := Option.bind_eq_some_iff.mp hfound
        cases hpair
        exact hfoundState
      simp [isValid, isValidWith, hclass, ManagedPathSnapshot.isValid, hstate]
  | immutable =>
      rw [hclass] at h
      cases h
      simp [isValid, isValidWith, hclass]
  | unmanaged =>
      rw [hclass] at h
      cases h
  | unclassified =>
      rw [hclass] at h
      cases h

/-- An entry that is not told by the classification of its path. -/
theorem isValid_file (h : classifiedPathEntry (trees.toFileSystem info) info path = none) (snapshot : FileSnapshot) :
    (file path snapshot).isValid (trees.toFileSystem info) strategy info trees.itemState = true ↔
      FileSnapshot.createFromPath (trees.toFileSystem info) strategy path = .ok snapshot := by
  rw [isValid, isValidWith, ordinarySnapshotApplies_of_classified h, Bool.true_and, FileSnapshot.isValid_eq_true]

theorem isValid_createFile_none
    (h : createFile (trees.toFileSystem info) strategy info path none = .ok entry) :
    entry.isValid (trees.toFileSystem info) strategy info trees.itemState = true := by
  rw [createFile] at h
  cases hclass : classifiedPathEntry (trees.toFileSystem info) info path with
  | some classified =>
      rw [hclass] at h
      cases h
      exact isValid_classified hclass
  | none =>
      rw [hclass] at h
      obtain ⟨snapshot, hsnapshot, rfl⟩ := of_map_ok h
      exact (isValid_file hclass snapshot).mpr hsnapshot

/-- The file that is read has a snapshot that is valid. -/
theorem createFromPath_of_createBytes {source : List UInt8} {snapshot : FileSnapshot}
    (h : FileSnapshot.createBytes (trees.toFileSystem info) strategy path source = .ok snapshot) :
    FileSnapshot.createFromPath (trees.toFileSystem info) strategy path = .ok snapshot ↔
      (∃ metadata, trees.metadata path = .ok metadata) ∧ (strategy.hash = true →
        ∃ read, trees.read path = .ok read ∧ stableHashBytes read = stableHashBytes source) := by
  obtain ⟨modified, hmodified, h⟩ := of_bind_ok h
  cases h
  rw [FileSnapshot.createFromPath_eq_present, hmodified, eq_self, true_and, whenSome_eq_ok]
  refine and_congr_right fun _ => ?_
  cases strategy.hash with
  | false => simp
  | true =>
      have hread : (trees.toFileSystem info).read path = trees.read path := rfl
      rw [hread]
      cases trees.read path with
      | error error => simp
      | ok read => simp

theorem isValid_createFile_some {source : String}
    (h : createFile (trees.toFileSystem info) strategy info path (some source) = .ok entry) :
    entry.isValid (trees.toFileSystem info) strategy info trees.itemState = true ↔
      (classifiedPathEntry (trees.toFileSystem info) info path = none →
        (∃ metadata, trees.metadata path = .ok metadata) ∧ (strategy.hash = true →
          ∃ read, trees.read path = .ok read ∧ stableHashBytes read = stableHashBytes (utf8Bytes source))) := by
  rw [createFile] at h
  cases hclass : classifiedPathEntry (trees.toFileSystem info) info path with
  | some classified =>
      rw [hclass] at h
      cases h
      exact iff_of_true (isValid_classified hclass) nofun
  | none =>
      rw [hclass] at h
      obtain ⟨snapshot, hsnapshot, rfl⟩ := of_map_ok h
      rw [isValid_file hclass, createFromPath_of_createBytes hsnapshot]
      exact Iff.intro (fun h _ => h) fun h => h rfl

theorem isValid_createFileSync (h : createFileSync (trees.toFileSystem info) strategy info path = .ok entry) :
    entry.isValid (trees.toFileSystem info) strategy info trees.itemState = true := by
  rw [createFileSync] at h
  cases hclass : classifiedPathEntry (trees.toFileSystem info) info path with
  | some classified =>
      rw [hclass] at h
      cases h
      exact isValid_classified hclass
  | none =>
      rw [hclass] at h
      obtain ⟨snapshot, hsnapshot, rfl⟩ := of_map_ok h
      obtain ⟨source, hread, hbytes⟩ := of_bind_ok hsnapshot
      rw [isValid_file hclass, createFromPath_of_createBytes hbytes]
      exact ⟨trees.metadata_of_read path source hread, fun _ => ⟨source, hread, rfl⟩⟩

theorem isValid_createContext (h : createContext (trees.toFileSystem info) strategy info path = .ok entry) :
    entry.isValid (trees.toFileSystem info) strategy info trees.itemState = true ↔
      (classifiedPathEntry (trees.toFileSystem info) info path = none →
        ∀ metadata, trees.metadata path = .ok metadata → metadata.isDir = true) := by
  rw [createContext] at h
  cases hclass : classifiedPathEntry (trees.toFileSystem info) info path with
  | some classified =>
      rw [hclass] at h
      cases h
      refine iff_of_true (isValid_classified hclass) fun hnone => ?_
      cases hnone
  | none =>
      rw [hclass] at h
      obtain ⟨snapshot, hsnapshot, rfl⟩ := of_map_ok h
      rw [isValid, isValidWith, ordinarySnapshotApplies_of_classified hclass, Bool.true_and,
        forall_prop_of_true rfl]
      exact ContextSnapshot.isValidSync_of_create hsnapshot

theorem isValid_createMissing :
    (createMissing (trees.toFileSystem info) info path).isValid (trees.toFileSystem info) strategy info
        trees.itemState = true ↔
      (classifiedPathEntry (trees.toFileSystem info) info path = none →
        (trees.toFileSystem info).isMissing path = true) := by
  rw [createMissing]
  cases hclass : classifiedPathEntry (trees.toFileSystem info) info path with
  | some classified => exact iff_of_true (isValid_classified hclass) nofun
  | none =>
      rw [Option.getD_none, isValid, isValidWith, ordinarySnapshotApplies_of_classified hclass, Bool.true_and,
        forall_prop_of_true rfl]

end SnapshotEntry

end

section

variable (trees : FileTrees) (strategy : SnapshotStrategy) (info : FileSystemInfo)

/-- Every way to check the snapshot accepts it. -/
def Snapshot.Validates (snapshot : Snapshot) : Prop :=
  snapshot.isValidIn trees strategy info none = true ∧ snapshot.isValidSyncIn trees strategy info none = true ∧
    snapshot.isValidIn trees strategy info (some {}) = true ∧
      snapshot.isValidSyncIn trees strategy info (some {}) = true

/-- All ways to check the snapshot say the same. -/
def Snapshot.WaysAgree (snapshot : Snapshot) : Prop :=
  snapshot.isValidSyncIn trees strategy info none = snapshot.isValidIn trees strategy info none ∧
    snapshot.isValidIn trees strategy info (some {}) = snapshot.isValidIn trees strategy info none ∧
      snapshot.isValidSyncIn trees strategy info (some {}) = snapshot.isValidIn trees strategy info none

variable {trees strategy info} {snapshot : Snapshot} (halike : trees.AnswersAlike info)

include halike

theorem Snapshot.validates_iff : snapshot.Validates trees strategy info ↔
    ∀ entry ∈ snapshot.entries, entry.isValid (trees.toFileSystem info) strategy info trees.itemState = true := by
  rw [Validates, isValidIn_none, isValidSyncIn_none, isValidSyncIn_some, isValidIn_fresh halike, Snapshot.isValid,
    Snapshot.isValidSync, List.all_eq_true, List.all_eq_true]
  refine Iff.intro And.left fun hall => ⟨hall, fun entry hentry => ?_, hall, hall⟩
  exact (entry.isValid_iff.mp (hall entry hentry)).1

theorem Snapshot.waysAgree_iff : snapshot.WaysAgree trees strategy info ↔
    (∃ entry ∈ snapshot.entries,
        entry.isValidSync (trees.toFileSystem info) strategy info trees.itemState = false) ∨
      ∀ path file, .file path file ∈ snapshot.entries →
        file.Recorded (trees.toFileSystem info) strategy path := by
  rw [WaysAgree, isValidIn_none, isValidSyncIn_none, isValidSyncIn_some, isValidIn_fresh halike, eq_self, and_self,
    and_true, Bool.eq_iff_iff, Snapshot.isValid, Snapshot.isValidSync, List.all_eq_true, List.all_eq_true]
  have hvalid : (∀ entry ∈ snapshot.entries,
        entry.isValid (trees.toFileSystem info) strategy info trees.itemState = true) ↔
      (∀ entry ∈ snapshot.entries,
        entry.isValidSync (trees.toFileSystem info) strategy info trees.itemState = true) ∧
        ∀ path file, .file path file ∈ snapshot.entries →
          file.Recorded (trees.toFileSystem info) strategy path := by
    constructor
    · intro hall
      refine ⟨fun entry hentry => (entry.isValid_iff.mp (hall entry hentry)).1, fun path file hfile => ?_⟩
      exact ((SnapshotEntry.file path file).isValid_iff.mp (hall _ hfile)).2 path file rfl
    · rintro ⟨hall, hrecorded⟩ entry hentry
      refine entry.isValid_iff.mpr ⟨hall entry hentry, fun path file heq => hrecorded path file ?_⟩
      exact heq ▸ hentry
  have houtdated : (∃ entry ∈ snapshot.entries,
        entry.isValidSync (trees.toFileSystem info) strategy info trees.itemState = false) ↔
      ¬ ∀ entry ∈ snapshot.entries,
        entry.isValidSync (trees.toFileSystem info) strategy info trees.itemState = true := by
    simp only [not_forall, Bool.not_eq_true, exists_prop]
  rw [hvalid, houtdated]
  tauto

end

theorem zero_lt_second : 0 < 1000000000 := by decide

/-- The same empty file at every path. -/
def emptyFiles : FileTrees where
  metadata _ := .ok ⟨false, .ok ⟨0, 0, zero_lt_second⟩⟩
  read _ := .ok []
  node _ := .file (.ok ⟨0, 0, zero_lt_second⟩) (.ok [])
  managedItemRoot _ _ := none
  itemState _ := none
  toStringLossy _ := ""
  child _ _ h := nomatch h
  metadata_of_read _ _ _ := ⟨_, rfl⟩

def emptyFileSystemInfo : FileSystemInfo := ⟨[], [], []⟩

theorem emptyFiles_answersAlike : emptyFiles.AnswersAlike emptyFileSystemInfo :=
  ⟨fun _ => rfl, fun _ => rfl, fun _ => rfl, fun _ => rfl, fun _ => rfl, fun _ => rfl⟩

def emptyFilePath : PathBuf := ⟨utf8Bytes "/a"⟩

end Unpack.CacheItem
