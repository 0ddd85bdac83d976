import Unpack.Snapshot

/-! What every built snapshot is like, and when the persistent side takes one back: it refuses a path that is
there twice, which a resolve snapshot has when two of its lists share one. -/

namespace Unpack.CacheItem

open Fallible

/-- What does not exist has no time and no hash. -/
def SnapshotEntry.Consistent : SnapshotEntry → Prop
  | file _ snapshot => snapshot.fileExists = false → snapshot.modified = none ∧ snapshot.sourceHash = none
  | context _ snapshot =>
      snapshot.directoryExists = false → snapshot.timestampHash = none ∧ snapshot.contentHash = none
  | missingExistence _ | immutablePath _ | managedPath _ => True

/-- No path twice, however it is spelled. -/
def Snapshot.PathsDistinct (snapshot : Snapshot) : Prop :=
  (snapshot.entries.map (·.path.key)).Nodup

instance (snapshot : Snapshot) : Decidable snapshot.PathsDistinct := by
  unfold Snapshot.PathsDistinct
  infer_instance

@[simp]
theorem SnapshotEntry.toPersistent_path (entry : SnapshotEntry) : entry.toPersistent.path = entry.path := by
  cases entry <;> rfl

theorem SnapshotEntry.fromPersistent_toPersistent {entry : SnapshotEntry} (h : entry.Consistent) :
    fromPersistent entry.toPersistent = some entry := by
  cases entry with
  | file path snapshot =>
    obtain ⟨fileExists, modified, sourceHash⟩ := snapshot
    cases fileExists with
    | true => rfl
    | false =>
      obtain ⟨rfl, rfl⟩ : modified = none ∧ sourceHash = none := h rfl
      rfl
  | context path snapshot =>
    obtain ⟨directoryExists, timestampHash, contentHash⟩ := snapshot
    cases directoryExists with
    | true => rfl
    | false =>
      obtain ⟨rfl, rfl⟩ : timestampHash = none ∧ contentHash = none := h rfl
      rfl
  | missingExistence path => rfl
  | immutablePath path => rfl
  | managedPath snapshot =>
    obtain ⟨path, root, state⟩ := snapshot
    cases state <;> rfl

theorem Snapshot.entriesFromPersistent_eq {entries : List SnapshotEntry} (seenPaths : List (List (List Nat)))
    (h : ∀ entry ∈ entries, entry.Consistent) :
    entriesFromPersistent seenPaths (entries.map SnapshotEntry.toPersistent) =
      if (entries.map (·.path.key)).Nodup ∧ ∀ entry ∈ entries, entry.path.key ∉ seenPaths then some entries
      else none := by
  induction entries generalizing seenPaths with
  | nil => rfl
  | cons entry rest ih =>
    rw [List.map_cons, entriesFromPersistent, SnapshotEntry.toPersistent_path]
    by_cases hseen : entry.path.key ∈ seenPaths
    · rw [if_pos hseen, if_neg fun hall => hall.2 entry List.mem_cons_self hseen]
    · rw [if_neg hseen, SnapshotEntry.fromPersistent_toPersistent (h entry List.mem_cons_self),
        Option.bind_eq_bind, Option.bind_some, ih _ fun item hitem => h item (List.mem_cons_of_mem entry hitem)]
      have hiff : ((rest.map (·.path.key)).Nodup ∧
            ∀ item ∈ rest, item.path.key ∉ entry.path.key :: seenPaths) ↔
          ((entry :: rest).map (·.path.key)).Nodup ∧
            ∀ item ∈ entry :: rest, item.path.key ∉ seenPaths := by
        simp only [List.map_cons, List.nodup_cons, List.mem_cons, List.mem_map, not_or, forall_eq_or_imp]
        constructor
        · rintro ⟨hnodup, hfresh⟩
          refine ⟨⟨?_, hnodup⟩, hseen, fun item hitem => (hfresh item hitem).2⟩
          rintro ⟨item, hitem, heq⟩
          exact (hfresh item hitem).1 heq
        · rintro ⟨⟨hentry, hnodup⟩, -, hfresh⟩
          exact ⟨hnodup, fun item hitem => ⟨fun heq => hentry ⟨item, hitem, heq⟩, hfresh item hitem⟩⟩
      rw [if_congr hiff rfl rfl]
      split_ifs <;> rfl

/-- The persistent side takes a consistent snapshot back exactly when it has no path twice. -/
theorem Snapshot.fromPersistentEntries_persistentEntries {snapshot : Snapshot}
    (h : ∀ entry ∈ snapshot.entries, entry.Consistent) :
    fromPersistentEntries snapshot.persistentEntries =
      if snapshot.PathsDistinct then some snapshot else none := by
  rw [fromPersistentEntries, persistentEntries, entriesFromPersistent_eq [] h]
  have hiff : ((snapshot.entries.map (·.path.key)).Nodup ∧
      ∀ entry ∈ snapshot.entries, entry.path.key ∉ ([] : List (List (List Nat)))) ↔
        snapshot.PathsDistinct :=
    ⟨And.left, fun hnodup => ⟨hnodup, fun _ _ => List.not_mem_nil⟩⟩
  rw [if_congr hiff rfl rfl]
  split_ifs <;> rfl

/-- What each way to make an entry of a path gives. -/
structure SnapshotEntry.Of (path : PathBuf) (entry : SnapshotEntry) : Prop where
  path_eq : entry.path = path
  consistent : entry.Consistent

section Created

variable {fileSystem : FileSystem} {strategy : SnapshotStrategy} {info : FileSystemInfo} {path : PathBuf}

theorem FileSnapshot.fileExists_createBytes {source : List UInt8} {snapshot : FileSnapshot}
    (h : createBytes fileSystem strategy path source = .ok snapshot) : snapshot.fileExists = true := by
  rw [createBytes] at h
  obtain ⟨modified, -, h⟩ := of_bind_ok h
  cases h
  rfl

theorem FileSnapshot.consistent_createFromPath {snapshot : FileSnapshot}
    (h : createFromPath fileSystem strategy path = .ok snapshot) (hmissing : snapshot.fileExists = false) :
    snapshot.modified = none ∧ snapshot.sourceHash = none := by
  rw [createFromPath] at h
  cases hmetadata : fileSystem.metadata path with
  | error error =>
    rw [hmetadata] at h
    dsimp only at h
    split_ifs at h
    cases h
    exact ⟨rfl, rfl⟩
  | ok metadata =>
    rw [hmetadata] at h
    obtain ⟨modified, -, h⟩ := of_bind_ok h
    obtain ⟨sourceHash, -, h⟩ := of_bind_ok h
    cases h
    cases hmissing

theorem ContextSnapshot.consistent_create {snapshot : ContextSnapshot}
    (h : create fileSystem strategy path = .ok snapshot) (hmissing : snapshot.directoryExists = false) :
    snapshot.timestampHash = none ∧ snapshot.contentHash = none := by
  rw [create] at h
  cases hmetadata : fileSystem.metadata path with
  | error error =>
    rw [hmetadata] at h
    dsimp only at h
    split_ifs at h
    cases h
    exact ⟨rfl, rfl⟩
  | ok metadata =>
    rw [hmetadata] at h
    dsimp only at h
    split_ifs at h with hdir
    · obtain ⟨timestampHash, -, h⟩ := of_bind_ok h
      obtain ⟨contentHash, -, h⟩ := of_bind_ok h
      cases h
      cases hmissing
    · cases h
      exact ⟨rfl, rfl⟩

namespace SnapshotEntry

theorem of_classifiedPathEntry {entry : SnapshotEntry}
    (h : classifiedPathEntry fileSystem info path = some entry) : Of path entry := by
  rw [classifiedPathEntry] at h
  split at h
  · obtain ⟨snapshot, hsnapshot, rfl⟩ := Option.map_eq_some_iff.mp h
    obtain ⟨item, -, rfl⟩ := Option.map_eq_some_iff.mp hsnapshot
    exact ⟨rfl, trivial⟩
  · cases h
    exact ⟨rfl, trivial⟩
  · cases h
  · cases h

/-- A path that is not classified gets what the file system says about it. -/
theorem of_classified_or {create : Except IoError SnapshotEntry} {entry : SnapshotEntry}
    (h : (match classifiedPathEntry fileSystem info path with
      | some entry => Except.ok entry
      | none => create) = .ok entry)
    (hcreate : create = .ok entry → Of path entry) : Of path entry := by
  cases hclassified : classifiedPathEntry fileSystem info path with
  | none =>
    rw [hclassified] at h
    exact hcreate h
  | some classified =>
    rw [hclassified] at h
    cases h
    exact of_classifiedPathEntry hclassified

theorem of_createBytes {source : List UInt8} {entry : SnapshotEntry}
    (h : file path <$> FileSnapshot.createBytes fileSystem strategy path source = .ok entry) :
    Of path entry := by
  obtain ⟨snapshot, hsnapshot, rfl⟩ := of_map_ok h
  refine ⟨rfl, fun hmissing => ?_⟩
  rw [FileSnapshot.fileExists_createBytes hsnapshot] at hmissing
  cases hmissing

theorem of_createFile {source : Option String} {entry : SnapshotEntry}
    (h : createFile fileSystem strategy info path source = .ok entry) : Of path entry := by
  refine of_classified_or h fun h => ?_
  cases source with
  | some source => exact of_createBytes h
  | none =>
    obtain ⟨snapshot, hsnapshot, rfl⟩ := of_map_ok h
    exact ⟨rfl, FileSnapshot.consistent_createFromPath hsnapshot⟩

theorem of_createFileBytes {source : List UInt8} {entry : SnapshotEntry}
    (h : createFileBytes fileSystem strategy info path source = .ok entry) : Of path entry :=
  of_classified_or h of_createBytes

theorem of_createFileSync {entry : SnapshotEntry}
    (h : createFileSync fileSystem strategy info path = .ok entry) : Of path entry := by
  refine of_classified_or h fun h => ?_
  obtain ⟨snapshot, hsnapshot, rfl⟩ := of_map_ok h
  obtain ⟨source, -, hsnapshot⟩ := of_bind_ok hsnapshot
  exact of_createBytes (by rw [hsnapshot]; rfl)

theorem of_createContext {entry : SnapshotEntry}
    (h : createContext fileSystem strategy info path = .ok entry) : Of path entry := by
  refine of_classified_or h fun h => ?_
  obtain ⟨snapshot, hsnapshot, rfl⟩ := of_map_ok h
  exact ⟨rfl, ContextSnapshot.consistent_create hsnapshot⟩

theorem of_createMissing : Of path (createMissing fileSystem info path) := by
  rw [createMissing]
  cases hclassified : classifiedPathEntry fileSystem info path with
  | none => exact ⟨rfl, trivial⟩
  | some entry => exact of_classifiedPathEntry hclassified

end SnapshotEntry

end Created

/-- The entries made for paths, in the order of the paths. -/
def SnapshotEntry.ListOf (paths : List PathBuf) (entries : List SnapshotEntry) : Prop :=
  List.Forall₂ SnapshotEntry.Of paths entries

namespace SnapshotEntry.ListOf

variable {paths : List PathBuf} {entries : List SnapshotEntry}

theorem of_create {create : PathBuf → Except IoError SnapshotEntry} (h : paths.mapM create = .ok entries)
    (hcreate : ∀ path entry, create path = .ok entry → Of path entry) : ListOf paths entries :=
  (forall₂_of_mapM h).imp hcreate

theorem of_map {create : PathBuf → SnapshotEntry} (hcreate : ∀ path, Of path (create path)) :
    ListOf paths (paths.map create) := by
  induction paths with
  | nil => exact .nil
  | cons path rest ih => exact .cons (hcreate path) ih

theorem consistent (h : ListOf paths entries) : ∀ entry ∈ entries, entry.Consistent := by
  induction h with
  | nil => exact fun _ hmem => absurd hmem List.not_mem_nil
  | cons hentry _ ih =>
    intro entry hmem
    rcases List.mem_cons.mp hmem with rfl | hmem
    · exact hentry.consistent
    · exact ih entry hmem

theorem keys (h : ListOf paths entries) : entries.map (·.path.key) = paths.map PathBuf.key := by
  induction h with
  | nil => rfl
  | cons hentry _ ih => rw [List.map_cons, List.map_cons, ih, hentry.path_eq]

end SnapshotEntry.ListOf

/-- The entries of a resolve snapshot: those of the files, of the contexts and of the missing paths. -/
theorem Snapshot.listOf_createResolve {fileSystem : FileSystem} {strategy : SnapshotStrategy}
    {info : FileSystemInfo} {files contexts missing : List PathBuf} {snapshot : Snapshot}
    (h : createResolve fileSystem strategy info files contexts missing = .ok snapshot) :
    SnapshotEntry.ListOf (normalizePaths files ++ normalizePaths contexts ++ normalizePaths missing)
      snapshot.entries := by
  rw [createResolve] at h
  obtain ⟨fileEntries, hfiles, h⟩ := of_bind_ok h
  obtain ⟨contextEntries, hcontexts, h⟩ := of_bind_ok h
  cases h
  exact List.rel_append (List.rel_append
    (SnapshotEntry.ListOf.of_create hfiles fun _ _ => SnapshotEntry.of_createFile)
    (SnapshotEntry.ListOf.of_create hcontexts fun _ _ => SnapshotEntry.of_createContext))
    (SnapshotEntry.ListOf.of_map fun _ => SnapshotEntry.of_createMissing)

theorem Snapshot.listOf_createSync {fileSystem : FileSystem} {strategy : SnapshotStrategy}
    {info : FileSystemInfo} {paths : List PathBuf} {snapshot : Snapshot}
    (h : createSync fileSystem strategy info paths = .ok snapshot) :
    SnapshotEntry.ListOf (normalizePaths paths) snapshot.entries := by
  rw [createSync] at h
  obtain ⟨entries, hentries, h⟩ := of_bind_ok h
  cases h
  exact SnapshotEntry.ListOf.of_create hentries fun _ _ => SnapshotEntry.of_createFileSync

theorem Snapshot.Built.consistent {snapshot : Snapshot} (h : snapshot.Built) :
    ∀ entry ∈ snapshot.entries, entry.Consistent := by
  induction h with
  | createFile h =>
    obtain ⟨entry, hentry, h⟩ := of_bind_ok h
    cases h
    simpa using (SnapshotEntry.of_createFile hentry).consistent
  | createFileBytes h =>
    obtain ⟨entry, hentry, h⟩ := of_bind_ok h
    cases h
    simpa using (SnapshotEntry.of_createFileBytes hentry).consistent
  | createResolve h => exact (Snapshot.listOf_createResolve h).consistent
  | createSync h => exact (Snapshot.listOf_createSync h).consistent
  | merge _ ih =>
    intro entry hentry
    obtain ⟨snapshot, hsnapshot, hentry⟩ :=
      List.mem_flatMap.mp (KeyedList.mem_of_mem_collect _ hentry)
    exact ih snapshot hsnapshot entry hentry

theorem nodup_keys_normalizePaths (paths : List PathBuf) :
    ((normalizePaths paths).map PathBuf.key).Nodup :=
  KeyedList.Increasing.nodup_keys PathBuf.key (KeyedList.increasing_sortDedup PathBuf.key paths)

theorem Snapshot.pathsDistinct_createSync {fileSystem : FileSystem} {strategy : SnapshotStrategy}
    {info : FileSystemInfo} {paths : List PathBuf} {snapshot : Snapshot}
    (h : createSync fileSystem strategy info paths = .ok snapshot) : snapshot.PathsDistinct := by
  rw [PathsDistinct, (listOf_createSync h).keys]
  exact nodup_keys_normalizePaths paths

/-- A resolve snapshot has no path twice when no path is in two of its lists. -/
theorem Snapshot.pathsDistinct_createResolve_iff {fileSystem : FileSystem} {strategy : SnapshotStrategy}
    {info : FileSystemInfo} {files contexts missing : List PathBuf} {snapshot : Snapshot}
    (h : createResolve fileSystem strategy info files contexts missing = .ok snapshot) :
    snapshot.PathsDistinct ↔
      List.Disjoint (files.map PathBuf.key) (contexts.map PathBuf.key) ∧
        List.Disjoint (files.map PathBuf.key) (missing.map PathBuf.key) ∧
          List.Disjoint (contexts.map PathBuf.key) (missing.map PathBuf.key) := by
  have hmem : ∀ (paths : List PathBuf) key,
      key ∈ (normalizePaths paths).map PathBuf.key ↔ key ∈ paths.map PathBuf.key := fun paths key =>
    KeyedList.mem_keys_sortDedup PathBuf.key paths
  rw [PathsDistinct, (listOf_createResolve h).keys, List.map_append, List.map_append, List.nodup_append',
    List.nodup_append']
  simp only [List.disjoint_append_left, nodup_keys_normalizePaths, true_and]
  simp only [List.Disjoint, hmem]

end Unpack.CacheItem
