import Unpack.CacheIdentifiers
import Unpack.Lib.TurnCache
import Unpack.MemoryCache
import Unpack.SnapshotReflexivity

/-! The cache of a watching compiler, which trusts the watcher: what no change affects is taken over from the
compilation before without a look at the file system. A snapshot is affected by changes at the paths of its entries,
and for contexts below and above them; what it says of managed items is found elsewhere. -/

namespace Unpack.CacheItem

open Cache (CacheETag)
open TurnCache

/-- Its components begin with those of the other path. -/
def PathBuf.startsWith (path base : PathBuf) : Bool := base.key.isPrefixOf path.key

structure WatchChangeSet where
  modifiedFiles : List PathBuf
  removedFiles : List PathBuf
  changedContexts : List PathBuf

def WatchChangeSet.affectsPath (changes : WatchChangeSet) (path : PathBuf) (pathIsContext : Bool) : Bool :=
  changes.modifiedFiles.any (·.key = path.key) ||
    changes.removedFiles.any (·.key = path.key) ||
    changes.changedContexts.any (fun context => path.startsWith context || context.startsWith path) ||
    pathIsContext && (changes.modifiedFiles ++ changes.removedFiles).any (·.startsWith path)

def SnapshotEntry.isContext : SnapshotEntry → Bool
  | context _ _ => true
  | file _ _ | missingExistence _ | immutablePath _ | managedPath _ => false

def Snapshot.isAffectedBy (snapshot : Snapshot) (changes : WatchChangeSet) : Bool :=
  snapshot.entries.any fun entry => changes.affectsPath entry.path entry.isContext

/-- What requests are equal by. -/
def ResolveRequest.hashKey (request : ResolveRequest) : PathKey × String := (request.context.key, request.request)

structure ModuleIdentityKey where
  moduleType : ModuleType
  resource : PathKey
  query : Option String
  fragment : Option String
  layer : Option String
  loaders : List String
  deriving DecidableEq

/-- What identities are equal by. -/
def ModuleIdentity.hashKey (identity : ModuleIdentity) : ModuleIdentityKey :=
  ⟨identity.moduleType, identity.resource.key, identity.query, identity.fragment, identity.layer, identity.loaders⟩

structure UnsafeModuleBuildRecord (Json : Type) where
  etag : CacheETag
  record : ModuleBuildRecord Json

/-- `resolves` and `previous_resolves`, `module_builds` and `previous_module_builds` -/
structure UnsafeWatchCache (Json : Type) where
  resolves : Generations (PathKey × String) ResolveRecord := {}
  moduleBuilds : Generations ModuleIdentityKey (UnsafeModuleBuildRecord Json) := {}

namespace UnsafeWatchCache

variable {Json : Type} (cache : UnsafeWatchCache Json)

def beginCompilation (canReusePrevious : Bool) : UnsafeWatchCache Json where
  resolves := cache.resolves.beginTurn canReusePrevious
  moduleBuilds := cache.moduleBuilds.beginTurn canReusePrevious

def getResolve (request : ResolveRequest) (changes : WatchChangeSet) :
    Lookup ResolveRecord × UnsafeWatchCache Json :=
  let (found, resolves) :=
    cache.resolves.take (fun record => record.snapshot.isAffectedBy changes) (fun _ => true) request.hashKey
  (found, { cache with resolves })

def rememberResolve (request : ResolveRequest) (record : ResolveRecord) : UnsafeWatchCache Json :=
  { cache with resolves := cache.resolves.remember request.hashKey record }

/-- The record that is taken over is kept under the ETag of the request, which is its own. -/
def getModuleBuild (identity : ModuleIdentity) (etag : CacheETag) (changes : WatchChangeSet) :
    Lookup (UnsafeModuleBuildRecord Json) × UnsafeWatchCache Json :=
  let (found, moduleBuilds) :=
    cache.moduleBuilds.take (fun cached => cached.record.snapshot.isAffectedBy changes)
      (fun cached => cached.etag = etag) identity.hashKey
  (found, { cache with moduleBuilds })

def rememberModuleBuild (identity : ModuleIdentity) (etag : CacheETag) (record : ModuleBuildRecord Json) :
    UnsafeWatchCache Json :=
  { cache with moduleBuilds := cache.moduleBuilds.remember identity.hashKey ⟨etag, record⟩ }

end UnsafeWatchCache

/-- The changes name the path, or a context around it. -/
def WatchChangeSet.Names (changes : WatchChangeSet) (path : PathBuf) : Prop :=
  (∃ named ∈ changes.modifiedFiles ++ changes.removedFiles, named.key = path.key) ∨
    ∃ context ∈ changes.changedContexts, context.key <+: path.key

/-- The snapshot of the entry is made from what is at the path. -/
def SnapshotEntry.Reads (entry : SnapshotEntry) (path : PathBuf) : Prop :=
  path.key = entry.path.key ∨ entry.isContext = true ∧ entry.path.key <+: path.key

/-- A named path that is read affects the entry. -/
theorem WatchChangeSet.affectsPath_of_names {changes : WatchChangeSet} {entry : SnapshotEntry} {path : PathBuf}
    (hnames : changes.Names path) (hreads : entry.Reads path) :
    changes.affectsPath entry.path entry.isContext = true := by
  simp only [affectsPath, Bool.or_eq_true, Bool.and_eq_true, List.any_eq_true, decide_eq_true_eq,
    PathBuf.startsWith, List.isPrefixOf_iff_prefix]
  rcases hnames with ⟨named, hnamed, hkey⟩ | ⟨context, hcontext, hprefix⟩
  · rcases hreads with hsame | ⟨hisContext, hbelow⟩
    · rcases List.mem_append.mp hnamed with hmodified | hremoved
      · exact Or.inl (Or.inl (Or.inl ⟨named, hmodified, hkey.trans hsame⟩))
      · exact Or.inl (Or.inl (Or.inr ⟨named, hremoved, hkey.trans hsame⟩))
    · exact Or.inr ⟨hisContext, named, hnamed, hkey ▸ hbelow⟩
  · refine Or.inl (Or.inr ⟨context, hcontext, ?_⟩)
    rcases hreads with hsame | ⟨-, hbelow⟩
    · exact Or.inl (hsame ▸ hprefix)
    · exact List.prefix_or_prefix_of_prefix hprefix hbelow

namespace FileTrees

/-- Outside of the paths that are touched the file systems are the same. -/
structure AgreeOutside (touched : PathBuf → Prop) (before after : FileTrees) : Prop where
  metadata : ∀ path, ¬ touched path → before.metadata path = after.metadata path
  read : ∀ path, ¬ touched path → before.read path = after.read path
  node : ∀ path, (∀ other, path.key <+: other.key → ¬ touched other) → before.node path = after.node path
  toStringLossy : before.toStringLossy = after.toStringLossy

end FileTrees

section

variable (info : FileSystemInfo)

def FileSystemInfo.isManaged (path : PathBuf) : Bool :=
  match info.classifyPath path with
  | .managed _ => true
  | .unmanaged | .immutable | .unclassified => false

mutual

/-- Whether a managed path stands in the tree where its hash is taken. -/
def TreeNode.asksManaged (path : PathBuf) : TreeNode → Bool
  | .directory entries => entriesAskManaged path entries
  | .unreadable _ | .lockedDirectory _ | .file _ _ | .symlink _ _ | .other _ => false

def entriesAskManaged (path : PathBuf) : List (List UInt8 × TreeNode) → Bool
  | [] => false
  | (name, node) :: entries =>
      (match info.classifyPath (path.join name) with
      | .immutable => false
      | .managed _ => true
      | .unmanaged | .unclassified => node.asksManaged (path.join name)) || entriesAskManaged path entries

end

/-- The state of a managed item is asked for when the entry is checked. -/
def SnapshotEntry.asksManaged (trees : FileTrees) (entry : SnapshotEntry) : Bool :=
  info.isManaged entry.path || entry.isContext && (trees.node entry.path).asksManaged info entry.path

end

namespace FileTrees

variable {info : FileSystemInfo} {before after : FileTrees}

section

variable {α : Type} (hash : TreeHash α)

mutual

/-- A tree without managed paths has its hash whatever the state of managed items is. -/
theorem treeHashUncached_eq : ∀ (node : TreeNode) {path : PathBuf}, node.asksManaged info path = false →
    before.treeHashUncached info hash path node = after.treeHashUncached info hash path node
  | .directory entries, path, h => by
      rw [TreeNode.asksManaged] at h
      rw [treeHashUncached, treeHashUncached, writeTree_eq entries _ h]
  | .unreadable error, path, h => by rw [treeHashUncached, treeHashUncached]
  | .lockedDirectory error, path, h => by rw [treeHashUncached, treeHashUncached]
  | .file modified content, path, h => by rw [treeHashUncached, treeHashUncached]
  | .symlink modified target, path, h => by rw [treeHashUncached, treeHashUncached]
  | .other modified, path, h => by rw [treeHashUncached, treeHashUncached]

theorem writeTree_eq : ∀ (entries : List (List UInt8 × TreeNode)) (hasher : StableHasher) {path : PathBuf},
    entriesAskManaged info path entries = false →
      before.writeTree info hash path entries hasher = after.writeTree info hash path entries hasher
  | [], hasher, path, h => by rw [writeTree, writeTree]
  | (name, node) :: entries, hasher, path, h => by
      rw [entriesAskManaged, Bool.or_eq_false_iff] at h
      obtain ⟨hnode, hentries⟩ := h
      rw [writeTree, writeTree]
      cases hclass : info.classifyPath (path.join name) with
      | managed boundary =>
          rw [hclass] at hnode
          cases hnode
      | immutable => exact writeTree_eq entries hasher hentries
      | unmanaged =>
          rw [hclass] at hnode
          dsimp only
          rw [treeHashUncached_eq node hnode]
          simp only [fun hasher => writeTree_eq entries hasher hentries]
      | unclassified =>
          rw [hclass] at hnode
          dsimp only
          rw [treeHashUncached_eq node hnode]
          simp only [fun hasher => writeTree_eq entries hasher hentries]

end

theorem treeHash_eq {path : PathBuf} (hnode : before.node path = after.node path)
    (hasks : (after.node path).asksManaged info path = false) :
    before.treeHash info hash path = after.treeHash info hash path := by
  rw [treeHash, treeHash, hnode, treeHashUncached_eq hash (after.node path) hasks]

end

end FileTrees

section

variable {strategy : SnapshotStrategy} {info : FileSystemInfo} {before after : FileTrees} {touched : PathBuf → Prop}
  {entry : SnapshotEntry}

theorem ordinarySnapshotApplies_of_not_isManaged {path : PathBuf} (h : info.isManaged path = false) :
    info.ordinarySnapshotApplies (before.toFileSystem info) path =
      info.ordinarySnapshotApplies (after.toFileSystem info) path := by
  rw [FileSystemInfo.isManaged] at h
  rw [FileSystemInfo.ordinarySnapshotApplies, FileSystemInfo.ordinarySnapshotApplies]
  cases hclass : info.classifyPath path with
  | managed boundary =>
      rw [hclass] at h
      cases h
  | immutable => rfl
  | unmanaged => rfl
  | unclassified => rfl

theorem FileTrees.AgreeOutside.asksManaged (h : AgreeOutside touched before after)
    (hreads : ∀ path, touched path → ¬ entry.Reads path) :
    entry.asksManaged info before = entry.asksManaged info after := by
  rw [SnapshotEntry.asksManaged, SnapshotEntry.asksManaged]
  cases hcontext : entry.isContext with
  | false => rfl
  | true =>
      rw [h.node entry.path fun other hbelow htouched => hreads other htouched (Or.inr ⟨hcontext, hbelow⟩)]

/-- An entry that asks for no managed item is as valid as it was before paths that it does not read were touched. -/
theorem FileTrees.AgreeOutside.isValid (h : AgreeOutside touched before after)
    (hreads : ∀ path, touched path → ¬ entry.Reads path) (hasks : entry.asksManaged info after = false) :
    entry.isValid (before.toFileSystem info) strategy info before.itemState =
      entry.isValid (after.toFileSystem info) strategy info after.itemState := by
  rw [SnapshotEntry.asksManaged, Bool.or_eq_false_iff] at hasks
  obtain ⟨hmanaged, htree⟩ := hasks
  have hhere : ¬ touched entry.path := fun htouched => hreads _ htouched (Or.inl rfl)
  have hmetadata : before.metadata entry.path = after.metadata entry.path := h.metadata _ hhere
  have hread : before.read entry.path = after.read entry.path := h.read _ hhere
  have happlies := @ordinarySnapshotApplies_of_not_isManaged info before after _ hmanaged
  cases entry with
  | file path snapshot =>
      have hcreate : FileSnapshot.createFromPath (before.toFileSystem info) strategy path =
          FileSnapshot.createFromPath (after.toFileSystem info) strategy path := by
        rw [FileSnapshot.createFromPath, FileSnapshot.createFromPath, toFileSystem, toFileSystem]
        dsimp only
        rw [show before.metadata path = after.metadata path from hmetadata,
          show before.read path = after.read path from hread]
      rw [SnapshotEntry.isValid, SnapshotEntry.isValid, SnapshotEntry.isValidWith, SnapshotEntry.isValidWith,
        FileSnapshot.isValid, FileSnapshot.isValid, hcreate]
      exact congrArg (· && _) happlies
  | context path snapshot =>
      have hnode : before.node path = after.node path :=
        h.node path fun other hbelow htouched => hreads other htouched (Or.inr ⟨rfl, hbelow⟩)
      have hcontent : (before.toFileSystem info).directoryContentHash path =
          (after.toFileSystem info).directoryContentHash path := by
        rw [toFileSystem, toFileSystem]
        dsimp only
        rw [directoryContentHash, directoryContentHash, treeHash_eq contentHash hnode htree]
      have htimes : (before.toFileSystem info).directoryTimestampHash path =
          (after.toFileSystem info).directoryTimestampHash path := by
        have hsame : before.timestampHash = after.timestampHash := by
          rw [timestampHash, timestampHash, h.toStringLossy]
        rw [toFileSystem, toFileSystem]
        dsimp only
        rw [directoryTimestampHash, directoryTimestampHash, hsame, treeHash_eq _ hnode htree]
      have hmetadata' : (before.toFileSystem info).metadata path = (after.toFileSystem info).metadata path := hmetadata
      rw [SnapshotEntry.isValid, SnapshotEntry.isValid, SnapshotEntry.isValidWith, SnapshotEntry.isValidWith,
        ContextSnapshot.isValidSync, ContextSnapshot.isValidSync, FileSystem.isMissing, FileSystem.isMissing,
        hmetadata', hcontent, htimes]
      exact congrArg (· && _) happlies
  | missingExistence path =>
      have hmetadata' : (before.toFileSystem info).metadata path = (after.toFileSystem info).metadata path := hmetadata
      rw [SnapshotEntry.isValid, SnapshotEntry.isValid, SnapshotEntry.isValidWith, SnapshotEntry.isValidWith,
        FileSystem.isMissing, FileSystem.isMissing, hmetadata']
      exact congrArg (· && _) happlies
  | immutablePath path => rfl
  | managedPath snapshot =>
      rw [SnapshotEntry.isValid, SnapshotEntry.isValid, SnapshotEntry.isValidWith, SnapshotEntry.isValidWith]
      rw [FileSystemInfo.isManaged] at hmanaged
      cases hclass : info.classifyPath snapshot.path with
      | managed boundary =>
          have hpath : info.classifyPath (SnapshotEntry.managedPath snapshot).path = .managed boundary := hclass
          rw [hpath] at hmanaged
          cases hmanaged
      | unmanaged => rfl
      | immutable => rfl
      | unclassified => rfl

end

end Unpack.CacheItem
