import Unpack.CacheLayers
import Unpack.Lib.Run

/-! The cache as its threads use it: each step is what a thread does under the lock of the cache, what it does
to a pack file between two such steps, or one effect of the publication that holds the lock. -/

namespace Unpack.Cache

open EffectProgram

/-- Where a thread stands with its `get`, or in `pending_generation`, which reads two counters. -/
inductive ThreadState (Json : Type) where
  | idle
  | called (request : CacheRequest)
  | planned (request : CacheRequest) (plan : PersistentRestore)
  | restored (request : CacheRequest) (plan : PersistentRestore) (entry : Option (CacheEntry Json))
  | readPublished (publishedGeneration : UInt64)

/-- A publication that holds the lock, with the effects that are left. -/
structure Publishing where
  targetGeneration : UInt64
  rest : Program Disk FileEffect IoError (Except IoError Unit)

structure CacheState (Thread Json : Type) where
  layers : CacheLayers Json
  disk : Disk
  dirtyGeneration : UInt64 := 0
  publishedGeneration : UInt64 := 0
  persistentGuard : Option PackFileGuardDto := none
  publishing : Option Publishing := none
  threads : Thread → ThreadState Json := fun _ => .idle

inductive Event (Thread Json : Type) where
  | call (thread : Thread) (request : CacheRequest)
  | plan (thread : Thread)
  | restore (thread : Thread)
  | answer (thread : Thread) (value : Option (CacheValue Json))
  | store (address : CacheAddress) (entry : CacheEntry Json)
  | clear
  | prepare (preparation : PersistentCachePreparation)
  | compilationCompleted
  | readPublished (thread : Thread)
  | pendingGeneration (thread : Thread) (generation : Option UInt64)
  | publishStart (targetGeneration stamp : UInt64)
  | publishEffect
  | publishEnd (targetGeneration : UInt64) (outcome : Except IoError Unit)

namespace CacheState

variable {Thread Json : Type}

def markDirty (state : CacheState Thread Json) (changed : Bool) : CacheState Thread Json :=
  if changed then { state with dirtyGeneration := saturatingSucc state.dirtyGeneration } else state

def pendingGeneration (options : CacheOptions) (state : CacheState Thread Json) : Option UInt64 :=
  if options.isWritableFilesystemCache && state.publishedGeneration < state.dirtyGeneration then
    some state.dirtyGeneration
  else none

def setThread [DecidableEq Thread] (state : CacheState Thread Json) (thread : Thread)
    (threadState : ThreadState Json) : CacheState Thread Json :=
  { state with threads := Function.update state.threads thread threadState }

/-- The layers for a compilation. They are cleared first when the dependencies of the last guard have
changed. -/
def prepareLayers (state : CacheState Thread Json) (preparation : PersistentCachePreparation) :
    Bool × CacheLayers Json :=
  let invalidated := state.persistentGuard.any fun guard =>
    !preparation.buildDependenciesAreValid guard.buildDependencies
  (if invalidated then state.layers.clear else state.layers).preparePersistent preparation

/-- The guard of the last compilation, or one without dependencies. -/
def publicationGuard (options : CacheOptions) (state : CacheState Thread Json) : PackFileGuardDto :=
  state.persistentGuard.getD ⟨options.cacheVersion, ⟨[]⟩, ⟨[]⟩⟩

end CacheState

def CacheOptions.publicationOptions (options : CacheOptions) (stamp : UInt64) : PackFilePublicationOptions :=
  ⟨⟨stamp, options.maxAge⟩, options.compression, .production⟩

section

variable {Thread Json : Type} [DecidableEq Thread] (compressors : Compressors) (library : RecordLibrary Json)
  (options : CacheOptions)

/-- The part of a `get` that is done under the lock: at first, or after a restore. -/
inductive Resumes (layers : CacheLayers Json) :
    ThreadState Json → CacheRequest → CacheGet Json → CacheLayers Json → Prop
  | start {request : CacheRequest} {result : CacheGet Json} {next : CacheLayers Json}
      (h : layers.beginGet request = (result, next)) : Resumes layers (.called request) request result next
  | finish {request : CacheRequest} {plan : PersistentRestore} {entry : Option (CacheEntry Json)}
      {result : CacheGet Json} {next : CacheLayers Json}
      (h : layers.finishRestore request plan entry = (result, next)) :
      Resumes layers (.restored request plan entry) request result next

/-- What a publication does under the lock before its first effect. The lock stays with it when there are
effects to be performed. -/
inductive Publishes (state : CacheState Thread Json) (targetGeneration stamp : UInt64) :
    Option (Program Disk FileEffect IoError (Except IoError Unit)) → CacheState Thread Json → Prop
  | done (h : targetGeneration ≤ state.publishedGeneration) :
      Publishes state targetGeneration stamp none state
  | nowhere {slot : PersistentSlot Json} (h : state.publishedGeneration < targetGeneration)
      (hslot : state.layers.persistent = some slot) (hroot : slot.layer.root = false) :
      Publishes state targetGeneration stamp none { state with
        publishedGeneration := max state.publishedGeneration targetGeneration
        layers := { state.layers with
          persistent := some { slot with layer := { slot.layer with pending := ∅ } } } }
  | refused {slot : PersistentSlot Json} {error : IoError} (h : state.publishedGeneration < targetGeneration)
      (hslot : state.layers.persistent = some slot) (hroot : slot.layer.root = true)
      (hbatch : slot.layer.writeBatch library state.layers.packFiles = .error error) :
      Publishes state targetGeneration stamp (some (.done (.error error))) state
  | started {slot : PersistentSlot Json} {batch : PackFileWriteBatch}
      (h : state.publishedGeneration < targetGeneration) (hslot : state.layers.persistent = some slot)
      (hroot : slot.layer.root = true)
      (hbatch : slot.layer.writeBatch library state.layers.packFiles = .ok batch) :
      Publishes state targetGeneration stamp
        (some (publishBatch compressors (some (state.publicationGuard options))
          slot.layer.publicationBase batch (options.publicationOptions stamp)).run) state

/-- The steps of all threads. No step that needs the lock is taken while a publication holds it. -/
inductive CacheStep : CacheState Thread Json → Event Thread Json → CacheState Thread Json → Prop
  | call {state : CacheState Thread Json} {thread : Thread} (request : CacheRequest)
      (hthread : state.threads thread = .idle) :
      CacheStep state (.call thread request) (state.setThread thread (.called request))
  | plan {state : CacheState Thread Json} {thread : Thread} {request : CacheRequest}
      {plan : PersistentRestore} {layers : CacheLayers Json} (hlock : state.publishing = none)
      (h : Resumes state.layers (state.threads thread) request (.deferred plan) layers) :
      CacheStep state (.plan thread) ({ state with layers }.setThread thread (.planned request plan))
  | restore {state : CacheState Thread Json} {thread : Thread} {request : CacheRequest}
      {plan : PersistentRestore} {entry : Option (CacheEntry Json)} {layers : CacheLayers Json}
      (hthread : state.threads thread = .planned request plan)
      (h : state.layers.restore compressors library state.disk plan = (entry, layers)) :
      CacheStep state (.restore thread) ({ state with layers }.setThread thread (.restored request plan entry))
  | answer {state : CacheState Thread Json} {thread : Thread} {request : CacheRequest}
      {value : Option (CacheValue Json)} {changed : Bool} {layers : CacheLayers Json}
      (hlock : state.publishing = none)
      (h : Resumes state.layers (state.threads thread) request (.ready value changed) layers) :
      CacheStep state (.answer thread value)
        (({ state with layers }.markDirty changed).setThread thread .idle)
  | store {state : CacheState Thread Json} (address : CacheAddress) (entry : CacheEntry Json)
      (hlock : state.publishing = none) :
      CacheStep state (.store address entry)
        ({ state with layers := (state.layers.store address entry).2 }.markDirty
          (state.layers.store address entry).1)
  | clear {state : CacheState Thread Json} (hlock : state.publishing = none) :
      CacheStep state .clear { state with layers := state.layers.clear }
  | prepare {state : CacheState Thread Json} (preparation : PersistentCachePreparation)
      (hkind : options.kind = .filesystem) (hlock : state.publishing = none) :
      CacheStep state (.prepare preparation)
        ({ state with
          layers := (state.prepareLayers preparation).2
          persistentGuard := some preparation.guard }.markDirty (state.prepareLayers preparation).1)
  | compilationCompleted {state : CacheState Thread Json} (hlock : state.publishing = none) :
      CacheStep state .compilationCompleted { state with layers := state.layers.onCompilationCompleted }
  | readPublished {state : CacheState Thread Json} {thread : Thread}
      (hthread : state.threads thread = .idle) (hwritable : options.isWritableFilesystemCache = true) :
      CacheStep state (.readPublished thread)
        (state.setThread thread (.readPublished state.publishedGeneration))
  | pendingGeneration {state : CacheState Thread Json} {thread : Thread} {publishedGeneration : UInt64}
      (hthread : state.threads thread = .readPublished publishedGeneration) :
      CacheStep state
        (.pendingGeneration thread
          (if publishedGeneration < state.dirtyGeneration then some state.dirtyGeneration else none))
        (state.setThread thread .idle)
  | publishStart {state next : CacheState Thread Json} {targetGeneration stamp : UInt64}
      {program : Option (Program Disk FileEffect IoError (Except IoError Unit))}
      (hwritable : options.isWritableFilesystemCache = true) (hlock : state.publishing = none)
      (h : Publishes compressors library options state targetGeneration stamp program next) :
      CacheStep state (.publishStart targetGeneration stamp)
        { next with publishing := program.map fun rest => ⟨targetGeneration, rest⟩ }
  | publishEffect {state : CacheState Thread Json} {publishing : Publishing}
      {rest : Program Disk FileEffect IoError (Except IoError Unit)} {disk : Disk}
      (hpublishing : state.publishing = some publishing)
      (h : Step FileEffect.apply publishing.rest state.disk rest disk) :
      CacheStep state .publishEffect { state with disk, publishing := some { publishing with rest } }
  | publishFailed {state : CacheState Thread Json} {publishing : Publishing} {error : IoError}
      (hpublishing : state.publishing = some publishing) (h : publishing.rest = .done (.error error)) :
      CacheStep state (.publishEnd publishing.targetGeneration (.error error))
        { state with publishing := none }
  | publishSucceeded {state : CacheState Thread Json} {publishing : Publishing}
      (hpublishing : state.publishing = some publishing) (h : publishing.rest = .done (.ok ())) :
      CacheStep state (.publishEnd publishing.targetGeneration (.ok ()))
        { state with
          publishing := none
          layers := state.layers.published options state.disk
          publishedGeneration := max state.publishedGeneration publishing.targetGeneration }

/-- A cache that was opened on a disk. -/
def openedCache (options : CacheOptions) (disk : Disk) : CacheState Thread Json where
  layers := CacheLayers.fromOptions options disk
  disk

end

end Unpack.Cache
