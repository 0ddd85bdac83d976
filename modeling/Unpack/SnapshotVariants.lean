import Unpack.SnapshotCache

/-! The ways to check a snapshot: asynchronously or not, with the cache of a compilation or without. Without a
cache the two ways differ in what they ask of a file; with one they are the same. -/

namespace Unpack.CacheItem

open Memo

variable (trees : FileTrees) (strategy : SnapshotStrategy) (info : FileSystemInfo)

/-- The snapshot that is made now, or was made for an equal path. -/
def FileSnapshot.currentWithCache (path : PathBuf) : TryWithCache FileSnapshot :=
  remembered (·.fileSnapshots.lookup (path.key, strategy))
    (fun snapshot cache => { cache with fileSnapshots := cache.fileSnapshots.insert (path.key, strategy) snapshot })
    (known (createFromPath (trees.toFileSystem info) strategy path))

def FileSnapshot.isValidWithCache (path : PathBuf) (snapshot : FileSnapshot) : WithCache Bool := do
  match ← (currentWithCache trees strategy info path).run with
  | .ok current => return current = snapshot
  | .error _ => return false

/-- The current snapshot is made in the same way without waiting. -/
def FileSnapshot.isValidSyncWithCache (path : PathBuf) (snapshot : FileSnapshot) : WithCache Bool :=
  isValidWithCache trees strategy info path snapshot

/-- The check of the contents of a directory. -/
def ContextSnapshot.contentsAreValid (path : PathBuf) (snapshot : ContextSnapshot) : WithCache Bool := do
  if strategy.hash then
    let current ← (trees.directoryContentHash info path).run
    return current.toOption = snapshot.contentHash
  else return true

def ContextSnapshot.isValidWithCache (path : PathBuf) (snapshot : ContextSnapshot) : WithCache Bool := do
  if !snapshot.directoryExists then return (trees.toFileSystem info).isMissing path
  else
    match trees.metadata path with
    | .error _ => return false
    | .ok metadata =>
        if !metadata.isDir then return false
        else if strategy.timestamp then
          match ← (trees.directoryTimestampHash info path).run with
          | .ok current =>
              if some current.hash = snapshot.timestampHash then return true
              else if strategy.hash then contentsAreValid trees strategy info path snapshot
              else return false
          | .error _ => return false
        else contentsAreValid trees strategy info path snapshot

def ManagedPathSnapshot.isValidWithCache (snapshot : ManagedPathSnapshot) : WithCache Bool := do
  let state ← (remembered (·.managedItemStates.lookup snapshot.root.key)
    (fun state cache => { cache with managedItemStates := cache.managedItemStates.insert snapshot.root.key state })
    (known (.ok (trees.itemState snapshot.root)))).run
  match state with
  | .ok state => return state = some snapshot.state
  | .error _ => return false

/-- Files are checked in one of two ways. -/
def SnapshotEntry.isValidIn (fileIsValid : PathBuf → FileSnapshot → WithCache Bool) :
    SnapshotEntry → WithCache Bool
  | file path snapshot =>
      if info.ordinarySnapshotApplies (trees.toFileSystem info) path then fileIsValid path snapshot else return false
  | context path snapshot =>
      if info.ordinarySnapshotApplies (trees.toFileSystem info) path then
        ContextSnapshot.isValidWithCache trees strategy info path snapshot
      else return false
  | missingExistence path =>
      return info.ordinarySnapshotApplies (trees.toFileSystem info) path && (trees.toFileSystem info).isMissing path
  | immutablePath path =>
      return match info.classifyPath path with
        | .immutable => true
        | _ => false
  | managedPath snapshot =>
      match info.classifyPath snapshot.path with
      | .managed _ => snapshot.isValidWithCache trees
      | _ => return false

/-- `is_valid`, with the cache if there is one -/
def Snapshot.isValidIn (cache : Option SnapshotCache) (snapshot : Snapshot) : Bool :=
  ((snapshot.entries.allM (SnapshotEntry.isValidIn trees strategy info
    (FileSnapshot.isValidWithCache trees strategy info))).run cache).1

/-- `whenSome`, where the value may come from the cache -/
def whenSomeWithCache {α : Type} (condition : Bool) (value : TryWithCache α) : TryWithCache (Option α) :=
  if condition then some <$> value else pure none

/-- `ContextSnapshot::create_sync`, with the cache if there is one -/
def ContextSnapshot.createWithCache (path : PathBuf) : TryWithCache ContextSnapshot :=
  match trees.metadata path with
  | .error error => known (if error.kind = .notFound then .ok ⟨false, none, none⟩ else .error error)
  | .ok metadata =>
      if metadata.isDir then do
        let timestampHash ← whenSomeWithCache strategy.timestamp
          (DirectoryTimestampHash.hash <$> trees.directoryTimestampHash info path)
        let contentHash ← whenSomeWithCache strategy.hash (trees.directoryContentHash info path)
        return ⟨true, timestampHash, contentHash⟩
      else return ⟨false, none, none⟩

def SnapshotEntry.createContextWithCache (path : PathBuf) : TryWithCache SnapshotEntry :=
  match classifiedPathEntry (trees.toFileSystem info) info path with
  | some entry => return entry
  | none => context path <$> ContextSnapshot.createWithCache trees strategy info path

/-- `create_resolve`, with the cache if there is one -/
def Snapshot.createResolveIn (cache : Option SnapshotCache) (files contexts missing : List PathBuf) :
    Except IoError Snapshot := do
  let fileEntries ← (normalizePaths files).mapM
    (SnapshotEntry.createFile (trees.toFileSystem info) strategy info · none)
  let contextEntries ←
    (((normalizePaths contexts).mapM (SnapshotEntry.createContextWithCache trees strategy info)).run.run cache).1
  let missingEntries := (normalizePaths missing).map (SnapshotEntry.createMissing (trees.toFileSystem info) info)
  return ⟨fileEntries ++ contextEntries ++ missingEntries⟩

/-- A file is checked without a cache in a way of its own. -/
def FileSnapshot.syncCheck (cache : Option SnapshotCache) (path : PathBuf) (snapshot : FileSnapshot) :
    WithCache Bool :=
  match cache with
  | none => return isValidSync (trees.toFileSystem info) strategy path snapshot
  | some _ => isValidSyncWithCache trees strategy info path snapshot

/-- `is_valid_sync_with_cache`, with the cache if there is one -/
def Snapshot.isValidSyncIn (cache : Option SnapshotCache) (snapshot : Snapshot) : Bool :=
  ((snapshot.entries.allM (SnapshotEntry.isValidIn trees strategy info
    (FileSnapshot.syncCheck trees strategy info cache))).run cache).1

section

variable {trees strategy info} {path : PathBuf} {cache : SnapshotCache} {sound : Option SnapshotCache → Prop}

/-- With a cache there is one way to check a snapshot. -/
theorem Snapshot.isValidSyncIn_some (snapshot : Snapshot) :
    snapshot.isValidSyncIn trees strategy info (some cache) = snapshot.isValidIn trees strategy info (some cache) :=
  rfl

variable (trees strategy info sound) in
/-- What the checks ask for is answered as without a cache. -/
structure Answered : Prop where
  file : ∀ path, Yields sound (FileSnapshot.currentWithCache trees strategy info path).run
    (FileSnapshot.createFromPath (trees.toFileSystem info) strategy path)
  timestamps : ∀ path, Yields sound (trees.directoryTimestampHash info path).run
    ((trees.directoryTimestampHash info path).run none).1
  contents : ∀ path, Yields sound (trees.directoryContentHash info path).run
    ((trees.directoryContentHash info path).run none).1
  managedItem : ∀ snapshot : ManagedPathSnapshot, Yields sound (snapshot.isValidWithCache trees)
    (snapshot.isValid trees.itemState)

variable (path) in
theorem FileSnapshot.yields_isValidWithCache (h : Answered trees strategy info sound) (snapshot : FileSnapshot) :
    Yields sound (isValidWithCache trees strategy info path snapshot)
      (isValid (trees.toFileSystem info) strategy path snapshot) := by
  refine (h.file path).bind ?_
  rw [isValid]
  cases createFromPath (trees.toFileSystem info) strategy path with
  | ok current => exact Yields.pure _
  | error error => exact Yields.pure _

variable (path) in
theorem ContextSnapshot.yields_contentsAreValid (h : Answered trees strategy info sound)
    (snapshot : ContextSnapshot) : Yields sound (contentsAreValid trees strategy info path snapshot)
      (!strategy.hash || ((trees.toFileSystem info).directoryContentHash path).toOption = snapshot.contentHash) := by
  rw [contentsAreValid]
  cases strategy.hash with
  | true => exact (h.contents path).bind (Yields.pure _)
  | false => exact Yields.pure _

theorem ContextSnapshot.yields_isValidWithCache (h : Answered trees strategy info sound)
    (snapshot : ContextSnapshot) : Yields sound (isValidWithCache trees strategy info path snapshot)
      (isValidSync (trees.toFileSystem info) strategy path snapshot) := by
  have hcontents := yields_contentsAreValid path h snapshot
  rw [isValidWithCache, isValidSync]
  cases snapshot.directoryExists with
  | false => exact Yields.pure _
  | true =>
      have hmetadata : (trees.toFileSystem info).metadata path = trees.metadata path := rfl
      rw [hmetadata]
      cases trees.metadata path with
      | error error => exact Yields.pure _
      | ok metadata =>
          dsimp only
          cases metadata.isDir with
          | false => exact Yields.pure _
          | true =>
              cases strategy.timestamp with
              | false => exact hcontents
              | true =>
                  have htimes : (trees.toFileSystem info).directoryTimestampHash path =
                      (·.hash) <$> ((trees.directoryTimestampHash info path).run none).1 := rfl
                  rw [htimes]
                  refine (h.timestamps path).bind ?_
                  cases ((trees.directoryTimestampHash info path).run none).1 with
                  | error error => exact Yields.pure _
                  | ok current =>
                      have hmap : (·.hash) <$> (.ok current : Except IoError DirectoryTimestampHash) =
                          .ok current.hash := rfl
                      rw [hmap]
                      by_cases hsame : some current.hash = snapshot.timestampHash
                      · simp only [hsame, decide_true, Bool.true_or, Bool.true_and, Bool.not_true, if_true,
                          Bool.false_eq_true, if_false]
                        exact Yields.pure true
                      · cases hhash : strategy.hash with
                        | true =>
                            rw [hhash] at hcontents
                            simp only [hsame, decide_false, Bool.false_or, Bool.true_and, Bool.not_true, if_true,
                              Bool.false_eq_true, if_false] at hcontents ⊢
                            exact hcontents
                        | false =>
                            simp only [hsame, decide_false, Bool.false_or, Bool.true_and, Bool.not_true, if_true,
                              Bool.false_eq_true, if_false, Bool.false_and]
                            exact Yields.pure false

/-- An entry is checked as without a cache when its file is. -/
theorem SnapshotEntry.yields_isValidIn (h : Answered trees strategy info sound)
    {check : PathBuf → FileSnapshot → WithCache Bool} {valid : PathBuf → FileSnapshot → Bool}
    (hfile : ∀ path snapshot, Yields sound (check path snapshot) (valid path snapshot)) (entry : SnapshotEntry) :
    Yields sound (entry.isValidIn trees strategy info check)
      (entry.isValidWith (trees.toFileSystem info) strategy info trees.itemState valid) := by
  cases entry with
  | file path snapshot =>
      rw [isValidIn, isValidWith]
      cases info.ordinarySnapshotApplies (trees.toFileSystem info) path with
      | true => exact hfile path snapshot
      | false => exact Yields.pure _
  | context path snapshot =>
      rw [isValidIn, isValidWith]
      cases info.ordinarySnapshotApplies (trees.toFileSystem info) path with
      | true => exact ContextSnapshot.yields_isValidWithCache h snapshot
      | false => exact Yields.pure _
  | missingExistence path => exact Yields.pure _
  | immutablePath path => exact Yields.pure _
  | managedPath snapshot =>
      rw [isValidIn, isValidWith]
      cases info.classifyPath snapshot.path with
      | managed boundary => exact h.managedItem snapshot
      | immutable => exact Yields.pure _
      | unmanaged => exact Yields.pure _
      | unclassified => exact Yields.pure _

variable (trees strategy info) in
theorem answered_none : Answered trees strategy info (· = none) where
  file _ := FileTrees.yields_remembered_none (Yields.known _)
  timestamps _ := FileTrees.yields_treeHash_none _ _
  contents _ := FileTrees.yields_treeHash_none _ _
  managedItem _ := (FileTrees.yields_remembered_none (Yields.known _)).bind (Yields.pure _)

/-- A cache that is sound answers as the file system does, when equal paths are answered alike. -/
theorem answered_sound (halike : trees.AnswersAlike info) :
    Answered trees strategy info (trees.Sound info) where
  file path := by
    refine FileTrees.yields_remembered (fun cache answer hcache hfound => ?_) (fun cache answer hcache hanswer => ?_)
      (Yields.known _)
    · exact hcache.fileSnapshots path strategy answer hfound
    · refine { hcache with fileSnapshots := fun other otherStrategy snapshot hfound => ?_ }
      rcases FileTrees.lookup_insert_cases hfound with ⟨hkey, rfl⟩ | hfound
      · obtain ⟨hsame, rfl⟩ := Prod.mk.inj hkey
        rw [← hanswer, FileSnapshot.createFromPath, FileSnapshot.createFromPath]
        have hmetadata : (trees.toFileSystem info).metadata other = (trees.toFileSystem info).metadata path :=
          halike.metadata hsame
        have hread : (trees.toFileSystem info).read other = (trees.toFileSystem info).read path := halike.read hsame
        rw [hmetadata, hread]
      · exact hcache.fileSnapshots other otherStrategy snapshot hfound
  timestamps _ := FileTrees.yields_treeHash halike FileTrees.kept_timestampHash _
  contents _ := FileTrees.yields_treeHash halike FileTrees.kept_contentHash _
  managedItem snapshot := by
    refine Yields.bind (FileTrees.yields_remembered (fun cache answer hcache hfound => ?_)
      (fun cache answer hcache hanswer => ?_) (Yields.known (.ok (trees.itemState snapshot.root)))) (Yields.pure _)
    · rw [hcache.managedItemStates snapshot.root answer hfound]
    · refine { hcache with managedItemStates := fun other state hfound => ?_ }
      rcases FileTrees.lookup_insert_cases hfound with ⟨hkey, rfl⟩ | hfound
      · rw [halike.itemState hkey]
        exact Except.ok.inj hanswer
      · exact hcache.managedItemStates other state hfound

theorem Snapshot.yields_isValidIn (h : Answered trees strategy info sound)
    {check : PathBuf → FileSnapshot → WithCache Bool} {valid : PathBuf → FileSnapshot → Bool}
    (hfile : ∀ path snapshot, Yields sound (check path snapshot) (valid path snapshot)) (snapshot : Snapshot) :
    Yields sound (snapshot.entries.allM (SnapshotEntry.isValidIn trees strategy info check))
      (snapshot.entries.all
        (SnapshotEntry.isValidWith (trees.toFileSystem info) strategy info trees.itemState valid)) :=
  Yields.allM fun entry _ => entry.yields_isValidIn h hfile

theorem Snapshot.isValidIn_none (snapshot : Snapshot) : snapshot.isValidIn trees strategy info none =
    snapshot.isValid (trees.toFileSystem info) strategy info trees.itemState :=
  (snapshot.yields_isValidIn (answered_none trees strategy info)
    fun path file => file.yields_isValidWithCache path (answered_none trees strategy info)).eq rfl

theorem Snapshot.isValidSyncIn_none (snapshot : Snapshot) : snapshot.isValidSyncIn trees strategy info none =
    snapshot.isValidSync (trees.toFileSystem info) strategy info trees.itemState :=
  (snapshot.yields_isValidIn (answered_none trees strategy info) fun path file =>
    (Yields.pure _ : Yields (· = none) (FileSnapshot.syncCheck trees strategy info none path file) _)).eq rfl

theorem Snapshot.isValidIn_fresh (halike : trees.AnswersAlike info) (snapshot : Snapshot) :
    snapshot.isValidIn trees strategy info (some {}) =
      snapshot.isValid (trees.toFileSystem info) strategy info trees.itemState :=
  (snapshot.yields_isValidIn (answered_sound halike)
    fun path file => file.yields_isValidWithCache path (answered_sound halike)).eq FileTrees.sound_fresh

theorem yields_whenSome {α : Type} (condition : Bool) {computation : TryWithCache α} {value : Except IoError α}
    (h : Yields sound computation.run value) :
    Yields sound (whenSomeWithCache condition computation).run (whenSome condition value) := by
  cases condition with
  | false => exact Yields.pure _
  | true => exact h.mapExcept some

theorem ContextSnapshot.yields_createWithCache (h : Answered trees strategy info sound) (path : PathBuf) :
    Yields sound (createWithCache trees strategy info path).run
      (create (trees.toFileSystem info) strategy path) := by
  have hmetadata : (trees.toFileSystem info).metadata path = trees.metadata path := rfl
  rw [createWithCache, create, hmetadata]
  cases trees.metadata path with
  | error error => exact Yields.known _
  | ok metadata =>
      have htimestamp : Yields sound (whenSomeWithCache strategy.timestamp
            (DirectoryTimestampHash.hash <$> trees.directoryTimestampHash info path)).run
          (whenSome strategy.timestamp ((trees.toFileSystem info).directoryTimestampHash path)) :=
        yields_whenSome _ ((h.timestamps path).mapExcept _)
      dsimp only
      cases metadata.isDir with
      | false => exact Yields.pure _
      | true =>
          refine htimestamp.bindExcept fun timestampHash _ => ?_
          exact (yields_whenSome _ (h.contents path)).bindExcept fun contentHash _ => Yields.pure _

theorem SnapshotEntry.yields_createContextWithCache (h : Answered trees strategy info sound) (path : PathBuf) :
    Yields sound (createContextWithCache trees strategy info path).run
      (createContext (trees.toFileSystem info) strategy info path) := by
  rw [createContextWithCache, createContext]
  cases classifiedPathEntry (trees.toFileSystem info) info path with
  | some entry => exact Yields.pure _
  | none => exact (ContextSnapshot.yields_createWithCache h path).mapExcept _

theorem Snapshot.createResolveIn_eq {cache : Option SnapshotCache} (h : Answered trees strategy info sound)
    (hcache : sound cache) (files contexts missing : List PathBuf) :
    createResolveIn trees strategy info cache files contexts missing =
      createResolve (trees.toFileSystem info) strategy info files contexts missing := by
  have hcontexts := Yields.mapM fun path (_ : path ∈ normalizePaths contexts) =>
    SnapshotEntry.yields_createContextWithCache h path
  rw [createResolveIn, createResolve]
  exact congrArg _ (funext fun fileEntries => congrArg (· >>= _) (hcontexts.eq hcache))

end

end Unpack.CacheItem
