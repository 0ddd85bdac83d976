import Unpack.PackFileRefinement
import Unpack.PackFileConversions

/-! The entries of the cache, the records that they are published as, and the layer that keeps them in
memory, with or without collection of what was not used for some generations. -/

namespace Unpack.Cache

abbrev CacheETag := List UInt8

/-- A namespace is one of the names below. -/
structure CacheAddress where
  cacheNamespace : String
  identifier : List UInt8
  deriving DecidableEq

def resolveCacheNamespace : String := "unpack/resolve"

def moduleBuildCacheNamespace : String := "unpack/module-build"

def codeGenerationCacheNamespace : String := "unpack/code-generation"

def assetRenderCacheNamespace : String := "unpack/asset-render"

def CacheAddress.toPackFileAddress (address : CacheAddress) : PackFileAddress :=
  ⟨utf8Bytes address.cacheNamespace, address.identifier⟩

/-- The kind of record that is restored for a namespace. -/
def recordKindOf (cacheNamespace : String) : Option RecordKind :=
  if cacheNamespace = resolveCacheNamespace then some .resolve
  else if cacheNamespace = moduleBuildCacheNamespace then some .moduleBuild
  else if cacheNamespace = codeGenerationCacheNamespace then some .codeGeneration
  else if cacheNamespace = assetRenderCacheNamespace then some .assetRender
  else none

inductive CacheItemFamily where
  | resolve
  | moduleBuild
  | codeGeneration
  | assetRender
  deriving DecidableEq

structure RenderedSource where
  source : String
  sourceMap : Option String
  deriving DecidableEq

/-- A value of one of the types that the facades of the cache store. -/
inductive CacheValue (Json : Type) where
  | resolve (record : CacheItem.ResolveRecord)
  | moduleBuild (record : CacheItem.ModuleBuildRecord Json)
  | codeGeneration (record : CacheItem.CodeGenerationRecord)
  | assetRender (source : RenderedSource)

/-- The family that a type is stored in tells the types apart. -/
def CacheValue.valueType {Json : Type} : CacheValue Json → CacheItemFamily
  | resolve _ => .resolve
  | moduleBuild _ => .moduleBuild
  | codeGeneration _ => .codeGeneration
  | assetRender _ => .assetRender

structure CacheEntry (Json : Type) where
  family : CacheItemFamily
  etag : Option CacheETag
  value : CacheValue Json

/-- The value, when it has the type. -/
def CacheEntry.valueAs {Json : Type} (entry : CacheEntry Json) (valueType : CacheItemFamily) :
    Option (CacheValue Json) :=
  if entry.value.valueType = valueType then some entry.value else none

/-- What a facade asks for, and the time of the request. -/
structure CacheRequest where
  address : CacheAddress
  etag : Option CacheETag
  valueType : CacheItemFamily
  stamp : UInt64

/-- JSON values, and whether the library for source maps reads a text. -/
structure RecordLibrary (Json : Type) where
  parsedModules : CacheItem.ParsedModuleLibrary Json
  readsSourceMap : String → Bool

section

variable {Json : Type} (library : RecordLibrary Json)

def assetRenderRecordToDto (source : RenderedSource) : AssetRenderRecordDto where
  source := source.source
  sourceMap := source.sourceMap

def assetRenderRecordFromDto (record : AssetRenderRecordDto) : Except IoError RenderedSource :=
  if record.sourceMap.all library.readsSourceMap then .ok ⟨record.source, record.sourceMap⟩
  else .error (invalidData "Asset Render Record contains an invalid source map")

/-- The record that is published for an entry. -/
def CacheEntry.toRecord (entry : CacheEntry Json) : Except IoError CacheRecord :=
  match entry.family with
  | .resolve =>
      match entry.value with
      | .resolve record => .resolve <$> CacheItem.resolveRecordToDto record
      | _ => .error (invalidData "Resolve Cache Item contains an unexpected value")
  | .moduleBuild =>
      match entry.value with
      | .moduleBuild record => .moduleBuild <$> CacheItem.moduleBuildRecordToDto library.parsedModules record
      | _ => .error (invalidData "Module Build Cache Item contains an unexpected value")
  | .codeGeneration =>
      match entry.value with
      | .codeGeneration record => .ok (.codeGeneration (CacheItem.codeGenerationRecordToDto record))
      | _ => .error (invalidData "Code Generation Cache Item contains an unexpected value")
  | .assetRender =>
      match entry.value with
      | .assetRender source => .ok (.assetRender (assetRenderRecordToDto source))
      | _ => .error (invalidData "Asset Render Cache Item contains an unexpected value")

/-- The entry that a restored record becomes. -/
def CacheEntry.fromRecord (etag : Option CacheETag) : CacheRecord → Option (CacheEntry Json)
  | .resolve record =>
      (CacheItem.resolveRecordFromDto record).toOption.map fun record => ⟨.resolve, etag, .resolve record⟩
  | .moduleBuild record =>
      (CacheItem.moduleBuildRecordFromDto library.parsedModules record).toOption.map fun record =>
        ⟨.moduleBuild, etag, .moduleBuild record⟩
  | .codeGeneration record =>
      (CacheItem.codeGenerationRecordFromDto record).toOption.map fun record =>
        ⟨.codeGeneration, etag, .codeGeneration record⟩
  | .assetRender record =>
      (assetRenderRecordFromDto library record).toOption.map fun source =>
        ⟨.assetRender, etag, .assetRender source⟩

end

section

variable {Json : Type}

structure MemoryCacheLayer (Json : Type) where
  entries : FxHashMap CacheAddress (CacheEntry Json) := ∅

structure MemoryCacheEntry (Json : Type) where
  entry : CacheEntry Json
  lastUsedGeneration : UInt64

structure MemoryWithGcCacheLayer (Json : Type) where
  entries : FxHashMap CacheAddress (MemoryCacheEntry Json) := ∅
  maxUnusedGenerations : UInt64
  completedGeneration : UInt64 := 0

def saturatingSucc (value : UInt64) : UInt64 := if value.toNat + 1 < 2 ^ 64 then value + 1 else value

/-- `HashMap::retain` -/
def retain {α β : Type} (entries : FxHashMap α β) (keep : β → Bool) : FxHashMap α β :=
  ⟨entries.entries.filter fun item => keep item.2, entries.nodupKeys.sublist List.filter_sublist⟩

namespace MemoryCacheLayer

def lookup (layer : MemoryCacheLayer Json) (address : CacheAddress) (etag : Option CacheETag) :
    Option (CacheEntry Json) :=
  (layer.entries.lookup address).filter fun entry => entry.etag = etag

def store (layer : MemoryCacheLayer Json) (address : CacheAddress) (entry : CacheEntry Json) :
    MemoryCacheLayer Json :=
  { layer with entries := layer.entries.insert address entry }

end MemoryCacheLayer

namespace MemoryWithGcCacheLayer

def activeGeneration (layer : MemoryWithGcCacheLayer Json) : UInt64 :=
  saturatingSucc layer.completedGeneration

/-- An entry that is found is used in this generation. -/
def lookup (layer : MemoryWithGcCacheLayer Json) (address : CacheAddress) (etag : Option CacheETag) :
    Option (CacheEntry Json) × MemoryWithGcCacheLayer Json :=
  match (layer.entries.lookup address).filter fun entry => entry.entry.etag = etag with
  | none => (none, layer)
  | some entry =>
      (some entry.entry, { layer with
        entries := layer.entries.insert address { entry with lastUsedGeneration := layer.activeGeneration } })

def store (layer : MemoryWithGcCacheLayer Json) (address : CacheAddress) (entry : CacheEntry Json) :
    MemoryWithGcCacheLayer Json :=
  { layer with entries := layer.entries.insert address ⟨entry, layer.activeGeneration⟩ }

def onCompilationCompleted (layer : MemoryWithGcCacheLayer Json) : MemoryWithGcCacheLayer Json :=
  let completedGeneration := saturatingSucc layer.completedGeneration
  { layer with
    completedGeneration
    entries := retain layer.entries fun entry =>
      completedGeneration.toNat - entry.lastUsedGeneration.toNat < layer.maxUnusedGenerations.toNat }

end MemoryWithGcCacheLayer

inductive MemorySlot (Json : Type) where
  | memory (layer : MemoryCacheLayer Json)
  | memoryWithGc (layer : MemoryWithGcCacheLayer Json)

namespace MemorySlot

def lookup (slot : MemorySlot Json) (address : CacheAddress) (etag : Option CacheETag) :
    Option (CacheEntry Json) × MemorySlot Json :=
  match slot with
  | memory layer => (layer.lookup address etag, slot)
  | memoryWithGc layer =>
      let (entry, layer) := layer.lookup address etag
      (entry, memoryWithGc layer)

def store (slot : MemorySlot Json) (address : CacheAddress) (entry : CacheEntry Json) : MemorySlot Json :=
  match slot with
  | memory layer => memory (layer.store address entry)
  | memoryWithGc layer => memoryWithGc (layer.store address entry)

def clear (slot : MemorySlot Json) : MemorySlot Json :=
  match slot with
  | memory layer => memory { layer with entries := ∅ }
  | memoryWithGc layer => memoryWithGc { layer with entries := ∅ }

def onCompilationCompleted (slot : MemorySlot Json) : MemorySlot Json :=
  match slot with
  | memory layer => memory layer
  | memoryWithGc layer => memoryWithGc layer.onCompilationCompleted

/-- What is in memory for an address. -/
def entry (slot : MemorySlot Json) (address : CacheAddress) : Option (CacheEntry Json) :=
  match slot with
  | memory layer => layer.entries.lookup address
  | memoryWithGc layer => (layer.entries.lookup address).map (·.entry)

/-- Both layers find the entry of an address when its etag is the one asked for. -/
theorem lookup_fst (slot : MemorySlot Json) (address : CacheAddress) (etag : Option CacheETag) :
    (slot.lookup address etag).1 = (slot.entry address).filter fun entry => entry.etag = etag := by
  cases slot with
  | memory layer => rfl
  | memoryWithGc layer =>
    rw [lookup, entry, MemoryWithGcCacheLayer.lookup]
    cases layer.entries.lookup address with
    | none => rfl
    | some found =>
      by_cases hetag : found.entry.etag = etag
      · simp [Option.filter_some, hetag]
      · simp [Option.filter_some, hetag]

/-- A lookup leaves the entries, whatever it notes of their use. -/
theorem entry_lookup (slot : MemorySlot Json) (address : CacheAddress) (etag : Option CacheETag)
    (other : CacheAddress) : (slot.lookup address etag).2.entry other = slot.entry other := by
  cases slot with
  | memory layer => rfl
  | memoryWithGc layer =>
    change ((layer.lookup address etag).2.entries.lookup other).map _ = _
    rw [MemoryWithGcCacheLayer.lookup]
    cases hfound : (layer.entries.lookup address).filter fun entry => entry.entry.etag = etag with
    | none => rfl
    | some found =>
      obtain ⟨hentry, -⟩ := Option.filter_eq_some_iff.mp hfound
      dsimp only
      by_cases hother : other = address
      · rw [hother, AList.lookup_insert, entry, hentry]
        rfl
      · rw [AList.lookup_insert_ne hother]
        rfl

theorem entry_store (slot : MemorySlot Json) (address : CacheAddress) (stored : CacheEntry Json)
    (other : CacheAddress) :
    (slot.store address stored).entry other = if other = address then some stored else slot.entry other := by
  cases slot with
  | memory layer =>
    change (layer.entries.insert address stored).lookup other = _
    split
    next hother => rw [hother, AList.lookup_insert]
    next hother => exact AList.lookup_insert_ne hother
  | memoryWithGc layer =>
    change ((layer.entries.insert address ⟨stored, layer.activeGeneration⟩).lookup other).map (·.entry) = _
    split
    next hother =>
      rw [hother, AList.lookup_insert]
      rfl
    next hother =>
      rw [AList.lookup_insert_ne hother]
      rfl

end MemorySlot

end

end Unpack.Cache
