import Unpack.PackFileRecords
import Unpack.Lib.Fallible
import Unpack.Lib.KeyedList

/-! Paths and snapshots in memory, and how file system info takes a snapshot of files, contexts and missing
paths. A path is the bytes of its text, as it is on Unix. -/

namespace Unpack.CacheItem

open Fallible

structure PathBuf where
  bytes : List UInt8
  deriving DecidableEq

inductive PathComponent where
  | rootDir
  | curDir
  | parentDir
  | normal (name : List UInt8)
  deriving DecidableEq

/-- The derived order compares these. -/
def PathComponent.key : PathComponent → List Nat
  | rootDir => [0]
  | curDir => [1]
  | parentDir => [2]
  | normal name => 3 :: name.map UInt8.toNat

namespace PathBuf

/-- A repeated separator and a dot after the first component are no components. -/
def components (path : PathBuf) : List PathComponent :=
  let pieces := path.bytes.splitOn 0x2F
  let first :=
    if path.bytes.head? = some 0x2F then [.rootDir]
    else if pieces.head? = some [0x2E] then [.curDir]
    else []
  first ++ pieces.filterMap fun piece =>
    if piece = [] ∨ piece = [0x2E] then none
    else if piece = [0x2E, 0x2E] then some .parentDir
    else some (.normal piece)

/-- Paths are equal, and ordered, as their components are. -/
def key (path : PathBuf) : List (List Nat) := path.components.map PathComponent.key

end PathBuf

/-- `BTreeSet<PathBuf>` -/
structure PathSet where
  paths : List PathBuf
  increasing : KeyedList.Increasing PathBuf.key paths

namespace PathSet

@[ext]
theorem ext {left right : PathSet} (h : left.paths = right.paths) : left = right := by
  cases left
  cases right
  cases h
  rfl

def collect (paths : List PathBuf) : PathSet where
  paths := KeyedList.collect PathBuf.key paths
  increasing := KeyedList.increasing_collect PathBuf.key paths

@[simp]
theorem collect_paths (set : PathSet) : collect set.paths = set :=
  ext (KeyedList.collect_of_increasing PathBuf.key set.increasing)

end PathSet

def normalizePaths (paths : List PathBuf) : List PathBuf := KeyedList.sortDedup PathBuf.key paths

/-- Seconds from the epoch, rounded down, and the nanoseconds after them. -/
structure SystemTime where
  seconds : Int64
  nanoseconds : UInt32
  nanoseconds_lt : nanoseconds.toNat < 1000000000

@[ext]
theorem SystemTime.ext {left right : SystemTime} (hseconds : left.seconds = right.seconds)
    (hnanoseconds : left.nanoseconds = right.nanoseconds) : left = right := by
  cases left
  cases right
  cases hseconds
  cases hnanoseconds
  rfl

structure Duration where
  seconds : Nat
  nanoseconds : Nat

/-- `duration_since(UNIX_EPOCH)`: how long after the epoch, or else how long before it. -/
def SystemTime.durationSinceEpoch (time : SystemTime) : Except Duration Duration :=
  if 0 ≤ time.seconds.toInt then .ok ⟨time.seconds.toInt.toNat, time.nanoseconds.toNat⟩
  else if time.nanoseconds = 0 then .error ⟨(-time.seconds.toInt).toNat, 0⟩
  else .error ⟨(-time.seconds.toInt).toNat - 1, 1000000000 - time.nanoseconds.toNat⟩

/-- A time of so many seconds from the epoch, when they fit. -/
def SystemTime.checked (seconds : Int) (nanoseconds : Nat) : Option SystemTime :=
  if h : -2 ^ 63 ≤ seconds ∧ seconds < 2 ^ 63 ∧ nanoseconds < 1000000000 then
    some ⟨Int64.ofInt seconds, UInt32.ofNat nanoseconds, by
      rw [UInt32.toNat_ofNat', Nat.mod_eq_of_lt (by omega)]
      exact h.2.2⟩
  else none

/-- `UNIX_EPOCH.checked_add` -/
def SystemTime.afterEpoch (duration : Duration) : Option SystemTime :=
  checked duration.seconds duration.nanoseconds

/-- `UNIX_EPOCH.checked_sub` -/
def SystemTime.beforeEpoch (duration : Duration) : Option SystemTime :=
  if duration.nanoseconds = 0 then checked (-duration.seconds) 0
  else checked (-duration.seconds - 1) (1000000000 - duration.nanoseconds)

structure SnapshotStrategy where
  timestamp : Bool
  hash : Bool

structure FileSnapshot where
  fileExists : Bool
  modified : Option SystemTime
  sourceHash : Option UInt64

structure ContextSnapshot where
  directoryExists : Bool
  timestampHash : Option UInt64
  contentHash : Option UInt64

inductive ManagedItemState where
  | nodeModules
  | groupingFolder
  | package (name version : String)

structure ManagedPathSnapshot where
  path : PathBuf
  root : PathBuf
  state : ManagedItemState

inductive SnapshotEntry where
  | file (path : PathBuf) (snapshot : FileSnapshot)
  | context (path : PathBuf) (snapshot : ContextSnapshot)
  | missingExistence (path : PathBuf)
  | immutablePath (path : PathBuf)
  | managedPath (snapshot : ManagedPathSnapshot)

def SnapshotEntry.path : SnapshotEntry → PathBuf
  | file path _ | context path _ | missingExistence path | immutablePath path => path
  | managedPath snapshot => snapshot.path

structure Snapshot where
  entries : List SnapshotEntry

inductive ManagedPathBoundary where
  | nodeModules
  | path (boundary : PathBuf)

/-- A pattern is known by the paths it matches and by the boundary it finds in them. -/
structure SnapshotPathPattern where
  isMatch : PathBuf → Bool
  managedBoundary : PathBuf → Option ManagedPathBoundary

structure FileSystemInfo where
  managedPaths : List SnapshotPathPattern
  immutablePaths : List SnapshotPathPattern
  unmanagedPaths : List SnapshotPathPattern

inductive SnapshotPathClassification where
  | unmanaged
  | immutable
  | managed (boundary : ManagedPathBoundary)
  | unclassified

def FileSystemInfo.classifyPath (info : FileSystemInfo) (path : PathBuf) : SnapshotPathClassification :=
  if info.unmanagedPaths.any (·.isMatch path) then .unmanaged
  else if info.immutablePaths.any (·.isMatch path) then .immutable
  else (info.managedPaths.findSome? (·.managedBoundary path)).elim .unclassified .managed

structure Metadata where
  isDir : Bool
  modified : Except IoError SystemTime

/-- What the file system answers while a snapshot is taken: metadata, contents, the hashes of a directory
tree, and the item that a managed path belongs to. -/
structure FileSystem where
  metadata : PathBuf → Except IoError Metadata
  read : PathBuf → Except IoError (List UInt8)
  directoryTimestampHash : PathBuf → Except IoError UInt64
  directoryContentHash : PathBuf → Except IoError UInt64
  managedItem : PathBuf → ManagedPathBoundary → Option (PathBuf × ManagedItemState)

/-- `condition.then(|| value).transpose()` -/
def whenSome {α : Type} (condition : Bool) (value : Except IoError α) : Except IoError (Option α) :=
  if condition then some <$> value else .ok none

section Create

variable (fileSystem : FileSystem) (strategy : SnapshotStrategy) (info : FileSystemInfo)

def FileSnapshot.modifiedTime (path : PathBuf) : Except IoError SystemTime := do
  let metadata ← fileSystem.metadata path
  metadata.modified

def FileSnapshot.createBytes (path : PathBuf) (source : List UInt8) : Except IoError FileSnapshot := do
  let modified ← whenSome strategy.timestamp (modifiedTime fileSystem path)
  return ⟨true, modified, if strategy.hash then some (stableHashBytes source) else none⟩

def FileSnapshot.createFromPath (path : PathBuf) : Except IoError FileSnapshot :=
  match fileSystem.metadata path with
  | .error error => if error.kind = .notFound then .ok ⟨false, none, none⟩ else .error error
  | .ok metadata => do
      let modified ← whenSome strategy.timestamp metadata.modified
      let sourceHash ← whenSome strategy.hash (stableHashBytes <$> fileSystem.read path)
      return ⟨true, modified, sourceHash⟩

def FileSnapshot.createFromFileSync (path : PathBuf) : Except IoError FileSnapshot := do
  let source ← fileSystem.read path
  createBytes fileSystem strategy path source

def ContextSnapshot.create (path : PathBuf) : Except IoError ContextSnapshot :=
  match fileSystem.metadata path with
  | .error error => if error.kind = .notFound then .ok ⟨false, none, none⟩ else .error error
  | .ok metadata =>
      if metadata.isDir then do
        let timestampHash ← whenSome strategy.timestamp (fileSystem.directoryTimestampHash path)
        let contentHash ← whenSome strategy.hash (fileSystem.directoryContentHash path)
        return ⟨true, timestampHash, contentHash⟩
      else .ok ⟨false, none, none⟩

def ManagedPathSnapshot.create (path : PathBuf) (boundary : ManagedPathBoundary) :
    Option ManagedPathSnapshot :=
  (fileSystem.managedItem path boundary).map fun (root, state) => ⟨path, root, state⟩

namespace SnapshotEntry

def classifiedPathEntry (path : PathBuf) : Option SnapshotEntry :=
  match info.classifyPath path with
  | .managed boundary => (ManagedPathSnapshot.create fileSystem path boundary).map managedPath
  | .immutable => some (immutablePath path)
  | .unmanaged | .unclassified => none

def createFile (path : PathBuf) (source : Option String) : Except IoError SnapshotEntry :=
  match classifiedPathEntry fileSystem info path with
  | some entry => .ok entry
  | none => file path <$>
      match source with
      | some source => FileSnapshot.createBytes fileSystem strategy path (utf8Bytes source)
      | none => FileSnapshot.createFromPath fileSystem strategy path

def createFileBytes (path : PathBuf) (source : List UInt8) : Except IoError SnapshotEntry :=
  match classifiedPathEntry fileSystem info path with
  | some entry => .ok entry
  | none => file path <$> FileSnapshot.createBytes fileSystem strategy path source

def createFileSync (path : PathBuf) : Except IoError SnapshotEntry :=
  match classifiedPathEntry fileSystem info path with
  | some entry => .ok entry
  | none => file path <$> FileSnapshot.createFromFileSync fileSystem strategy path

def createContext (path : PathBuf) : Except IoError SnapshotEntry :=
  match classifiedPathEntry fileSystem info path with
  | some entry => .ok entry
  | none => context path <$> ContextSnapshot.create fileSystem strategy path

def createMissing (path : PathBuf) : SnapshotEntry :=
  (classifiedPathEntry fileSystem info path).getD (missingExistence path)

end SnapshotEntry

namespace Snapshot

def createFile (path : PathBuf) (source : String) : Except IoError Snapshot := do
  let entry ← SnapshotEntry.createFile fileSystem strategy info path (some source)
  return ⟨[entry]⟩

def createFileBytes (path : PathBuf) (source : List UInt8) : Except IoError Snapshot := do
  let entry ← SnapshotEntry.createFileBytes fileSystem strategy info path source
  return ⟨[entry]⟩

def createResolve (files contexts missing : List PathBuf) : Except IoError Snapshot := do
  let fileEntries ← (normalizePaths files).mapM
    (SnapshotEntry.createFile fileSystem strategy info · none)
  let contextEntries ← (normalizePaths contexts).mapM
    (SnapshotEntry.createContext fileSystem strategy info)
  let missingEntries := (normalizePaths missing).map (SnapshotEntry.createMissing fileSystem info)
  return ⟨fileEntries ++ contextEntries ++ missingEntries⟩

def createSync (paths : List PathBuf) : Except IoError Snapshot := do
  let entries ← (normalizePaths paths).mapM (SnapshotEntry.createFileSync fileSystem strategy info)
  return ⟨entries⟩

end Snapshot

end Create

/-- Entries by path, a later snapshot before an earlier one. -/
def Snapshot.merge (snapshots : List Snapshot) : Snapshot :=
  ⟨KeyedList.collect (fun entry : SnapshotEntry => entry.path.key) (snapshots.flatMap (·.entries))⟩

/-- The snapshots that file system info makes. -/
inductive Snapshot.Built : Snapshot → Prop
  | createFile {fileSystem strategy info path source snapshot}
      (h : createFile fileSystem strategy info path source = .ok snapshot) : Built snapshot
  | createFileBytes {fileSystem strategy info path source snapshot}
      (h : createFileBytes fileSystem strategy info path source = .ok snapshot) : Built snapshot
  | createResolve {fileSystem strategy info files contexts missing snapshot}
      (h : createResolve fileSystem strategy info files contexts missing = .ok snapshot) : Built snapshot
  | createSync {fileSystem strategy info paths snapshot}
      (h : createSync fileSystem strategy info paths = .ok snapshot) : Built snapshot
  | merge {snapshots : List Snapshot} (h : ∀ snapshot ∈ snapshots, Built snapshot) :
      Built (merge snapshots)

inductive PersistentManagedItemState where
  | nodeModules
  | groupingFolder
  | package (name version : String)

inductive PersistentSnapshotEntry where
  | file (path : PathBuf) (pathExists : Bool) (modified : Option SystemTime) (sourceHash : Option UInt64)
  | context (path : PathBuf) (pathExists : Bool) (timestampHash contentHash : Option UInt64)
  | missingExistence (path : PathBuf)
  | immutablePath (path : PathBuf)
  | managedPath (path root : PathBuf) (state : PersistentManagedItemState)

def PersistentSnapshotEntry.path : PersistentSnapshotEntry → PathBuf
  | file path _ _ _ | context path _ _ _ | missingExistence path | immutablePath path
  | managedPath path _ _ => path

def ManagedItemState.toPersistent : ManagedItemState → PersistentManagedItemState
  | nodeModules => .nodeModules
  | groupingFolder => .groupingFolder
  | package name version => .package name version

def ManagedItemState.fromPersistent : PersistentManagedItemState → ManagedItemState
  | .nodeModules => nodeModules
  | .groupingFolder => groupingFolder
  | .package name version => package name version

namespace SnapshotEntry

def toPersistent : SnapshotEntry → PersistentSnapshotEntry
  | file path snapshot => .file path snapshot.fileExists snapshot.modified snapshot.sourceHash
  | context path snapshot =>
      .context path snapshot.directoryExists snapshot.timestampHash snapshot.contentHash
  | missingExistence path => .missingExistence path
  | immutablePath path => .immutablePath path
  | managedPath snapshot => .managedPath snapshot.path snapshot.root snapshot.state.toPersistent

def fromPersistent : PersistentSnapshotEntry → Option SnapshotEntry
  | .file path pathExists modified sourceHash =>
      if !pathExists && (modified.isSome || sourceHash.isSome) then none
      else some (file path ⟨pathExists, modified, sourceHash⟩)
  | .context path pathExists timestampHash contentHash =>
      if !pathExists && (timestampHash.isSome || contentHash.isSome) then none
      else some (context path ⟨pathExists, timestampHash, contentHash⟩)
  | .missingExistence path => some (missingExistence path)
  | .immutablePath path => some (immutablePath path)
  | .managedPath path root state => some (managedPath ⟨path, root, .fromPersistent state⟩)

end SnapshotEntry

namespace Snapshot

def persistentEntries (snapshot : Snapshot) : List PersistentSnapshotEntry :=
  snapshot.entries.map SnapshotEntry.toPersistent

/-- The loop of `from_persistent_entries` with the keys of the paths it has seen. -/
def entriesFromPersistent (seenPaths : List (List (List Nat))) :
    List PersistentSnapshotEntry → Option (List SnapshotEntry)
  | [] => some []
  | entry :: rest =>
      if entry.path.key ∈ seenPaths then none
      else do
        let snapshot ← SnapshotEntry.fromPersistent entry
        let snapshots ← entriesFromPersistent (entry.path.key :: seenPaths) rest
        return snapshot :: snapshots

def fromPersistentEntries (entries : List PersistentSnapshotEntry) : Option Snapshot :=
  Snapshot.mk <$> entriesFromPersistent [] entries

end Snapshot

end Unpack.CacheItem
