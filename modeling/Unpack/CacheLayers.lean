import Unpack.MemoryCache

/-! The layers of the cache in their order: memory first, and then the pack files with the items that wait
for publication. A lookup in a pack file is planned under the lock of the cache, done outside of it, and
finished under the lock again, when the layers may have changed. -/

namespace Unpack.Cache

variable {Json : Type}

inductive CacheKind where
  | disabled
  | memory
  | filesystem
  deriving DecidableEq

/-- The maximum age is in nanoseconds. Of the location it matters whether there is one. -/
structure CacheOptions where
  kind : CacheKind
  cacheLocation : Bool
  version : Option String := none
  maxAge : Nat
  maxMemoryGenerations : Option UInt64 := none
  compression : PackFileCompression := .none
  allowCollectingMemory : Bool := false
  readonly : Bool := false

def CacheOptions.isWritableFilesystemCache (options : CacheOptions) : Bool :=
  options.kind = .filesystem && !options.readonly

def CacheOptions.cacheVersion (options : CacheOptions) : List UInt8 :=
  utf8Bytes (options.version.getD "")

/-- What an `Arc` of an opened pack file is compared by. -/
abbrev PackFileId := Nat

structure PersistentRestore where
  packFile : PackFileId
  readerGeneration : UInt64
  address : PackFileAddress
  etag : Option PackFileETag
  cacheNamespace : String

namespace PersistentRestore

/-- Reads, decodes and converts the record, under the lock of the pack file. -/
def restoreFrom (compressors : Compressors) (library : RecordLibrary Json) (plan : PersistentRestore)
    (disk : Disk) (packFile : PackFile) : Option (CacheEntry Json) × PackFile :=
  match recordKindOf plan.cacheNamespace with
  | none => (none, packFile)
  | some kind =>
      let (record, packFile) := packFile.get compressors disk kind plan.address plan.etag
      (record.bind (CacheEntry.fromRecord library plan.etag), packFile)

def readsFrom (plan other : PersistentRestore) : Bool :=
  plan.readerGeneration = other.readerGeneration && plan.packFile = other.packFile

end PersistentRestore

structure PackFileCacheLayer (Json : Type) where
  root : Bool
  packFile : Option PackFileId
  readerGeneration : UInt64 := 0
  publicationBase : PublicationBase
  active : Bool := true
  pending : FxHashMap CacheAddress (CacheEntry Json) := ∅

inductive CacheLayerLookup (Json : Type) where
  | hit (entry : CacheEntry Json)
  | deferred (plan : PersistentRestore)
  | miss

/-- What the guard of a compilation is, and what its file system makes of the snapshots of other guards. -/
structure PersistentCachePreparation where
  guard : PackFileGuardDto
  buildDependenciesAreValid : SnapshotDto → Bool
  resolveBuildDependenciesAreValid : SnapshotDto → Bool

namespace PackFileCacheLayer

/-- A guard without dependencies needs no validation before the first compilation. -/
def hasStandaloneGuard (packFile : PackFile) : Bool :=
  packFile.index.guard.any fun guard =>
    guard.buildDependencies.entries.isEmpty && guard.resolveBuildDependencies.entries.isEmpty

def openLayer (options : CacheOptions) (disk : Disk) : PackFileCacheLayer Json × List PackFile :=
  let packFile := PackFile.openWithOptions disk options.allowCollectingMemory
  let publicationBase :=
    if options.cacheLocation && hasStandaloneGuard packFile then .preserveEntries packFile.index.revision
    else .replaceAll
  if options.cacheLocation then ({ root := true, packFile := some 0, publicationBase }, [packFile])
  else ({ root := false, packFile := none, publicationBase }, [])

def lookup (layer : PackFileCacheLayer Json) (address : CacheAddress) (etag : Option CacheETag) :
    CacheLayerLookup Json :=
  match (layer.pending.lookup address).filter fun entry => entry.etag = etag with
  | some entry => .hit entry
  | none =>
      if !layer.active then .miss
      else
        match layer.packFile with
        | none => .miss
        | some packFile => .deferred {
            packFile
            readerGeneration := layer.readerGeneration
            address := address.toPackFileAddress
            etag
            cacheNamespace := address.cacheNamespace }

def store (layer : PackFileCacheLayer Json) (address : CacheAddress) (entry : CacheEntry Json) :
    PackFileCacheLayer Json :=
  { layer with pending := layer.pending.insert address entry }

/-- The generation wraps. -/
def clear (layer : PackFileCacheLayer Json) : PackFileCacheLayer Json :=
  { layer with
    pending := ∅
    active := false
    readerGeneration := layer.readerGeneration + 1
    publicationBase := .replaceAll }

/-- The guard of the pack file admits its entries to the compilation. -/
def admits (preparation : PersistentCachePreparation) (packFile : PackFile) : Bool :=
  packFile.index.guard.any fun candidate =>
    candidate.version = preparation.guard.version &&
      preparation.buildDependenciesAreValid candidate.buildDependencies &&
        preparation.resolveBuildDependenciesAreValid candidate.resolveBuildDependencies

/-- The layer for a compilation, and whether the guard is another one. -/
def preparePersistent (layer : PackFileCacheLayer Json) (packFiles : List PackFile)
    (preparation : PersistentCachePreparation) : Bool × PackFileCacheLayer Json :=
  let packFile := layer.packFile.bind (packFiles[·]?)
  let active := packFile.any (admits preparation)
  (packFile.bind (·.index.guard) ≠ some preparation.guard, { layer with
    readerGeneration := layer.readerGeneration + 1
    active
    publicationBase :=
      match packFile.filter (admits preparation) with
      | some packFile => .preserveEntries packFile.index.revision
      | none => .replaceAll })

/-- The batch of a publication: the accesses to the pack file, and all pending items. -/
def writeBatch (library : RecordLibrary Json) (layer : PackFileCacheLayer Json) (packFiles : List PackFile) :
    Except IoError PackFileWriteBatch :=
  let accesses : PackFileWriteBatch :=
    match layer.packFile.bind (packFiles[·]?) with
    | some packFile =>
        packFile.accessUpdates.toList.foldl (fun batch access => batch.recordAccess access.1 access.2) {}
    | none => {}
  layer.pending.entries.foldlM (fun batch item => do
    let record ← item.2.toRecord library
    batch.insert item.1.toPackFileAddress item.2.etag record) accesses

/-- After a successful publication a new pack file is open, and nothing is pending. -/
def published (layer : PackFileCacheLayer Json) (packFile : PackFileId) (revision : UInt64) :
    PackFileCacheLayer Json :=
  { layer with
    pending := ∅
    publicationBase := .preserveEntries revision
    packFile := some packFile
    readerGeneration := layer.readerGeneration + 1
    active := true }

end PackFileCacheLayer

structure PersistentSlot (Json : Type) where
  writable : Bool
  layer : PackFileCacheLayer Json

/-- At most one layer in memory, and behind it at most one with pack files. The list has every pack file
that was opened; the mutex of the cache guards the layers, and each pack file has its own. -/
structure CacheLayers (Json : Type) where
  memory : Option (MemorySlot Json)
  persistent : Option (PersistentSlot Json)
  packFiles : List PackFile

inductive CacheGet (Json : Type) where
  | ready (value : Option (CacheValue Json)) (persistentAccessChanged : Bool)
  | deferred (plan : PersistentRestore)

namespace CacheLayers

def fromOptions (options : CacheOptions) (disk : Disk) : CacheLayers Json :=
  let memory :=
    if options.kind = .disabled then none
    else
      match options.maxMemoryGenerations with
      | none => some (.memory {})
      | some generations =>
          if generations = 0 then none else some (.memoryWithGc { maxUnusedGenerations := generations })
  if options.kind = .filesystem then
    let (layer, packFiles) := PackFileCacheLayer.openLayer options disk
    ⟨memory, some ⟨!options.readonly, layer⟩, packFiles⟩
  else ⟨memory, none, []⟩

def lookupMemory (layers : CacheLayers Json) (request : CacheRequest) :
    Option (CacheEntry Json) × CacheLayers Json :=
  match layers.memory with
  | none => (none, layers)
  | some slot =>
      let (entry, slot) := slot.lookup request.address request.etag
      (entry, { layers with memory := some slot })

def lookupPersistent (layers : CacheLayers Json) (request : CacheRequest) : CacheLayerLookup Json :=
  match layers.persistent with
  | none => .miss
  | some slot => slot.layer.lookup request.address request.etag

/-- `plan_touch` and `apply`: a writable layer notes the access to its active pack file. -/
def touch (layers : CacheLayers Json) (request : CacheRequest) : Bool × CacheLayers Json :=
  match layers.persistent with
  | none => (false, layers)
  | some slot =>
      if !slot.writable || !slot.layer.active then (false, layers)
      else
        match slot.layer.packFile with
        | none => (false, layers)
        | some id =>
            match layers.packFiles[id]? with
            | none => (false, layers)
            | some packFile =>
                let (changed, packFile) :=
                  packFile.touch request.address.toPackFileAddress request.etag request.stamp
                (changed, { layers with packFiles := layers.packFiles.set id packFile })

/-- The entry is stored in the layer in memory. -/
def promote (layers : CacheLayers Json) (address : CacheAddress) (entry : CacheEntry Json) :
    CacheLayers Json :=
  { layers with memory := layers.memory.map fun slot => slot.store address entry }

/-- An entry of another type is not used. -/
def useEntry (layers : CacheLayers Json) (request : CacheRequest) (fromPersistent : Bool)
    (entry : CacheEntry Json) : Option (CacheValue Json × Bool) × CacheLayers Json :=
  match entry.valueAs request.valueType with
  | none => (none, layers)
  | some value =>
      let layers := if fromPersistent then layers.promote request.address entry else layers
      let (changed, layers) := layers.touch request
      (some (value, changed), layers)

/-- The answer with an entry of the layer with pack files, which is the last one. -/
def usePersistent (layers : CacheLayers Json) (request : CacheRequest) (entry : CacheEntry Json) :
    CacheGet Json × CacheLayers Json :=
  match layers.useEntry request true entry with
  | (some (value, changed), layers) => (.ready (some value) changed, layers)
  | (none, layers) => (.ready none false, layers)

/-- What `begin_get` and `finish_restore` have in common: they differ in what they make of a lookup that has
to be deferred. -/
def lookupThen (layers : CacheLayers Json) (request : CacheRequest)
    (whenDeferred : PersistentRestore → CacheLayers Json → CacheGet Json × CacheLayers Json) :
    CacheGet Json × CacheLayers Json :=
  let persistent (layers : CacheLayers Json) :=
    match layers.lookupPersistent request with
    | .hit entry => layers.usePersistent request entry
    | .deferred plan => whenDeferred plan layers
    | .miss => (.ready none false, layers)
  match layers.lookupMemory request with
  | (none, layers) => persistent layers
  | (some entry, layers) =>
      match layers.useEntry request false entry with
      | (some (value, changed), layers) => (.ready (some value) changed, layers)
      | (none, layers) => persistent layers

def beginGet (layers : CacheLayers Json) (request : CacheRequest) : CacheGet Json × CacheLayers Json :=
  layers.lookupThen request fun plan layers => (.deferred plan, layers)

/-- What was restored counts when it was read from the pack file that is still the one to read from. -/
def useRestored (request : CacheRequest) (plan : PersistentRestore) (restored : Option (CacheEntry Json))
    (current : PersistentRestore) (layers : CacheLayers Json) : CacheGet Json × CacheLayers Json :=
  if current.readsFrom plan then
    match restored with
    | some entry => layers.usePersistent request entry
    | none => (.ready none false, layers)
  else (.deferred current, layers)

/-- The layers are searched once more. -/
def finishRestore (layers : CacheLayers Json) (request : CacheRequest) (plan : PersistentRestore)
    (restored : Option (CacheEntry Json)) : CacheGet Json × CacheLayers Json :=
  layers.lookupThen request (useRestored request plan restored)

/-- The restore of a plan, outside of the lock of the cache. -/
def restore (compressors : Compressors) (library : RecordLibrary Json) (layers : CacheLayers Json)
    (disk : Disk) (plan : PersistentRestore) : Option (CacheEntry Json) × CacheLayers Json :=
  match layers.packFiles[plan.packFile]? with
  | none => (none, layers)
  | some packFile =>
      let (entry, packFile) := plan.restoreFrom compressors library disk packFile
      (entry, { layers with packFiles := layers.packFiles.set plan.packFile packFile })

/-- Whether the entry waits for publication now. -/
def store (layers : CacheLayers Json) (address : CacheAddress) (entry : CacheEntry Json) :
    Bool × CacheLayers Json :=
  (layers.persistent.any (·.writable), { layers with
    memory := layers.memory.map fun slot => slot.store address entry
    persistent := layers.persistent.map fun slot =>
      if slot.writable then { slot with layer := slot.layer.store address entry } else slot })

def clear (layers : CacheLayers Json) : CacheLayers Json :=
  { layers with
    memory := layers.memory.map MemorySlot.clear
    persistent := layers.persistent.map fun slot => { slot with layer := slot.layer.clear } }

def preparePersistent (layers : CacheLayers Json) (preparation : PersistentCachePreparation) :
    Bool × CacheLayers Json :=
  match layers.persistent with
  | none => (false, layers)
  | some slot =>
      let (changed, layer) := slot.layer.preparePersistent layers.packFiles preparation
      (changed, { layers with persistent := some { slot with layer } })

def onCompilationCompleted (layers : CacheLayers Json) : CacheLayers Json :=
  { layers with memory := layers.memory.map MemorySlot.onCompilationCompleted }

/-- The pack file is opened again after a successful publication. -/
def published (layers : CacheLayers Json) (options : CacheOptions) (disk : Disk) : CacheLayers Json :=
  let packFile := PackFile.openWithOptions disk options.allowCollectingMemory
  { layers with
    persistent := layers.persistent.map fun slot =>
      { slot with layer := slot.layer.published layers.packFiles.length packFile.index.revision }
    packFiles := layers.packFiles ++ [packFile] }

end CacheLayers

end Unpack.Cache
