import Unpack.Snapshot

/-! When a snapshot is valid: what the file system says now is what the snapshot says. The state of a managed
item is found from its root. Whether the answers are taken from the cache of a compilation or afresh is not
told apart: a cached answer is the file system at an earlier moment of the compilation. -/

namespace Unpack.CacheItem

deriving instance DecidableEq for SystemTime
deriving instance DecidableEq for SnapshotStrategy
deriving instance DecidableEq for FileSnapshot
deriving instance DecidableEq for ContextSnapshot
deriving instance DecidableEq for ManagedItemState

/-- The error says that there is nothing at the path. -/
def FileSystem.isMissing (fileSystem : FileSystem) (path : PathBuf) : Bool :=
  match fileSystem.metadata path with
  | .error error => error.kind = .notFound
  | .ok _ => false

section

variable (fileSystem : FileSystem) (strategy : SnapshotStrategy) (info : FileSystemInfo)

def FileSystemInfo.ordinarySnapshotApplies (path : PathBuf) : Bool :=
  match info.classifyPath path with
  | .unmanaged | .unclassified => true
  | .immutable => false
  | .managed boundary => (ManagedPathSnapshot.create fileSystem path boundary).isNone

/-- The snapshot that would be made now is this one. -/
def FileSnapshot.isValid (path : PathBuf) (snapshot : FileSnapshot) : Bool :=
  match createFromPath fileSystem strategy path with
  | .ok current => current = snapshot
  | .error _ => false

/-- `is_valid_sync`, without a cache. -/
def FileSnapshot.isValidSync (path : PathBuf) (snapshot : FileSnapshot) : Bool :=
  if !snapshot.fileExists then
    (!strategy.timestamp && !strategy.hash) || fileSystem.isMissing path
  else
    (!strategy.timestamp ||
      match modifiedTime fileSystem path with
      | .ok modified => some modified = snapshot.modified
      | .error _ => false) &&
    (!strategy.hash ||
      match fileSystem.read path with
      | .ok source => some (stableHashBytes source) = snapshot.sourceHash
      | .error _ => false)

/-- Equal timestamps are enough, unless there are none; else the contents decide. -/
def ContextSnapshot.isValidSync (path : PathBuf) (snapshot : ContextSnapshot) : Bool :=
  if !snapshot.directoryExists then fileSystem.isMissing path
  else
    match fileSystem.metadata path with
    | .error _ => false
    | .ok metadata =>
        let contents := !strategy.hash ||
          (fileSystem.directoryContentHash path).toOption = snapshot.contentHash
        metadata.isDir &&
          if strategy.timestamp then
            match fileSystem.directoryTimestampHash path with
            | .ok current => some current = snapshot.timestampHash || (strategy.hash && contents)
            | .error _ => false
          else contents

variable (itemState : PathBuf → Option ManagedItemState)

def ManagedPathSnapshot.isValid (snapshot : ManagedPathSnapshot) : Bool :=
  itemState snapshot.root = some snapshot.state

namespace SnapshotEntry

/-- Every entry but that of a file is checked in one way. -/
def isValidWith (fileIsValid : PathBuf → FileSnapshot → Bool) : SnapshotEntry → Bool
  | file path snapshot => info.ordinarySnapshotApplies fileSystem path && fileIsValid path snapshot
  | context path snapshot =>
      info.ordinarySnapshotApplies fileSystem path &&
        ContextSnapshot.isValidSync fileSystem strategy path snapshot
  | missingExistence path =>
      info.ordinarySnapshotApplies fileSystem path && fileSystem.isMissing path
  | immutablePath path =>
      match info.classifyPath path with
      | .immutable => true
      | _ => false
  | managedPath snapshot =>
      (match info.classifyPath snapshot.path with
        | .managed _ => true
        | _ => false) && snapshot.isValid itemState

/-- With a cache of snapshots, or asynchronously. -/
def isValid : SnapshotEntry → Bool :=
  isValidWith fileSystem strategy info itemState (FileSnapshot.isValid fileSystem strategy)

def isValidSync : SnapshotEntry → Bool :=
  isValidWith fileSystem strategy info itemState (FileSnapshot.isValidSync fileSystem strategy)

end SnapshotEntry

namespace Snapshot

def isValid (snapshot : Snapshot) : Bool :=
  snapshot.entries.all (SnapshotEntry.isValid fileSystem strategy info itemState)

def isValidSync (snapshot : Snapshot) : Bool :=
  snapshot.entries.all (SnapshotEntry.isValidSync fileSystem strategy info itemState)

end Snapshot

end

end Unpack.CacheItem
