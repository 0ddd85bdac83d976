import Unpack.CacheSystem
import Unpack.PackFileSharing

/-! One atomic lookup through all layers, and what the two parts of a `get` make of it: whichever part answers
gives the answer of the atomic lookup, as long as what was restored in between is what the pack file still
holds. -/

namespace Unpack.Cache

variable {Json : Type}

def PackFileCacheLayer.activePackFile (layer : PackFileCacheLayer Json) : Option PackFileId :=
  if layer.active then layer.packFile else none

namespace CacheLayers

section

variable (compressors : Compressors) (library : RecordLibrary Json) (layers : CacheLayers Json)
  (disk : Disk) (request : CacheRequest)

def memoryValue : Option (CacheValue Json) := do
  let slot ← layers.memory
  let entry ← slot.entry request.address
  if entry.etag = request.etag then entry.valueAs request.valueType else none

/-- The entry that waits for publication under the address and the etag. -/
def pendingEntry : Option (CacheEntry Json) := do
  let slot ← layers.persistent
  let entry ← slot.layer.pending.lookup request.address
  if entry.etag = request.etag then some entry else none

def currentPackFile : Option PackFileId := do
  let slot ← layers.persistent
  slot.layer.packFile

def activePackFile : Option PackFile := do
  let slot ← layers.persistent
  let id ← slot.layer.activePackFile
  layers.packFiles[id]?

/-- What a pack file restores. A damaged record is not restored. -/
def restoredValue (packFile : PackFile) : Option (CacheValue Json) := do
  let kind ← recordKindOf request.address.cacheNamespace
  let record ← (packFile.get compressors disk kind request.address.toPackFileAddress request.etag).1
  let entry ← CacheEntry.fromRecord library request.etag record
  entry.valueAs request.valueType

/-- Memory, then the pending items, then the active pack file. -/
def atomicLookup : Option (CacheValue Json) :=
  match layers.memoryValue request with
  | some value => some value
  | none =>
      match layers.pendingEntry request with
      | some entry => entry.valueAs request.valueType
      | none => layers.activePackFile.bind (restoredValue compressors library disk request)

end

section

variable {compressors : Compressors} {library : RecordLibrary Json} {layers : CacheLayers Json}
  {disk : Disk} {request : CacheRequest}

/-- The value is stored under the etag that was asked for: in memory, in an item that waits for publication,
or in the pack file that is active. -/
inductive HoldsUnderETag (layers : CacheLayers Json) (request : CacheRequest) (value : CacheValue Json) : Prop
  | memory {slot : MemorySlot Json} {entry : CacheEntry Json} (hslot : layers.memory = some slot)
      (hentry : slot.entry request.address = some entry) (hetag : entry.etag = request.etag)
      (hvalue : entry.value = value)
  | pending {slot : PersistentSlot Json} {entry : CacheEntry Json} (hslot : layers.persistent = some slot)
      (hentry : slot.layer.pending.lookup request.address = some entry) (hetag : entry.etag = request.etag)
      (hvalue : entry.value = value)
  | active {packFile : PackFile} {entry : PackFileIndexEntry}
      (hactive : layers.activePackFile = some packFile)
      (hentry : packFile.index.entries[request.address.toPackFileAddress]? = some entry)
      (hetag : entry.etag = request.etag)

theorem atomicLookup_holds {value : CacheValue Json}
    (h : layers.atomicLookup compressors library disk request = some value) :
    layers.HoldsUnderETag request value := by
  have hvalue : ∀ entry : CacheEntry Json, entry.valueAs request.valueType = some value →
      entry.value = value := by
    intro entry hentry
    unfold CacheEntry.valueAs at hentry
    split_ifs at hentry
    exact Option.some_inj.mp hentry
  unfold atomicLookup at h
  cases hmemory : layers.memoryValue request with
  | some found =>
    rw [hmemory] at h
    cases h
    obtain ⟨slot, hslot, hfound⟩ := Option.bind_eq_some_iff.mp hmemory
    obtain ⟨entry, hentry, hetag⟩ := Option.bind_eq_some_iff.mp hfound
    split_ifs at hetag with hsame
    exact .memory hslot hentry hsame (hvalue entry hetag)
  | none =>
    rw [hmemory] at h
    dsimp only at h
    cases hpending : layers.pendingEntry request with
    | some found =>
      rw [hpending] at h
      obtain ⟨slot, hslot, hfound⟩ := Option.bind_eq_some_iff.mp hpending
      obtain ⟨entry, hentry, hetag⟩ := Option.bind_eq_some_iff.mp hfound
      split_ifs at hetag with hsame
      cases hetag
      exact .pending hslot hentry hsame (hvalue found h)
    | none =>
      rw [hpending] at h
      obtain ⟨packFile, hactive, hrestored⟩ := Option.bind_eq_some_iff.mp h
      obtain ⟨kind, -, hrecord⟩ := Option.bind_eq_some_iff.mp hrestored
      obtain ⟨record, hget, -⟩ := Option.bind_eq_some_iff.mp hrecord
      obtain ⟨entry, hentry, hetag⟩ := PackFile.entry_of_get hget
      exact .active hactive hentry hetag

/-- Layers with the same persistent layer, whose pack files differ in accesses only. -/
structure Searched (layers later : CacheLayers Json) : Prop where
  persistent : later.persistent = layers.persistent
  length_eq : later.packFiles.length = layers.packFiles.length
  packFiles : ∀ (id : PackFileId) (after : PackFile), later.packFiles[id]? = some after →
    ∃ before, layers.packFiles[id]? = some before ∧ before.Grown after ∧
      after.contentBuffers = before.contentBuffers

theorem Searched.refl (layers : CacheLayers Json) : Searched layers layers :=
  ⟨rfl, rfl, fun _ packFile h => ⟨packFile, h, .refl packFile, rfl⟩⟩

theorem Searched.trans {first second third : CacheLayers Json} (h : Searched first second)
    (h' : Searched second third) : Searched first third := by
  refine ⟨h'.persistent.trans h.persistent, h'.length_eq.trans h.length_eq, fun id after hafter => ?_⟩
  obtain ⟨middle, hmiddle, hgrown, hbuffers⟩ := h'.packFiles id after hafter
  obtain ⟨before, hbefore, hgrown', hbuffers'⟩ := h.packFiles id middle hmiddle
  exact ⟨before, hbefore, hgrown'.trans hgrown, hbuffers.trans hbuffers'⟩

theorem searched_lookupMemory (layers : CacheLayers Json) (request : CacheRequest) :
    Searched layers (layers.lookupMemory request).2 := by
  unfold lookupMemory
  cases layers.memory with
  | none => exact .refl layers
  | some slot => exact ⟨rfl, rfl, fun _ packFile h => ⟨packFile, h, .refl packFile, rfl⟩⟩

theorem searched_promote (layers : CacheLayers Json) (address : CacheAddress) (entry : CacheEntry Json) :
    Searched layers (layers.promote address entry) :=
  ⟨rfl, rfl, fun _ packFile h => ⟨packFile, h, .refl packFile, rfl⟩⟩

theorem searched_touch (layers : CacheLayers Json) (request : CacheRequest) :
    Searched layers (layers.touch request).2 := by
  unfold touch
  cases hpersistent : layers.persistent with
  | none => exact .refl layers
  | some slot =>
    dsimp only
    split_ifs with hwritable
    · exact .refl layers
    · cases slot.layer.packFile with
      | none => exact .refl layers
      | some id =>
        dsimp only
        cases hpackFile : layers.packFiles[id]? with
        | none => exact .refl layers
        | some packFile =>
          dsimp only
          refine ⟨hpersistent.symm, List.length_set .., fun other after hafter => ?_⟩
          dsimp only at hafter
          rw [List.getElem?_set] at hafter
          split_ifs at hafter with hsame hid
          · subst hsame
            cases hafter
            exact ⟨packFile, hpackFile, PackFile.grown_touch .., PackFile.touch_buffers ..⟩
          · exact ⟨after, hafter, .refl after, rfl⟩

theorem searched_useEntry (layers : CacheLayers Json) (request : CacheRequest) (fromPersistent : Bool)
    (entry : CacheEntry Json) : Searched layers (layers.useEntry request fromPersistent entry).2 := by
  unfold useEntry
  cases entry.valueAs request.valueType with
  | none => exact .refl layers
  | some value =>
    cases fromPersistent with
    | false => exact searched_touch layers request
    | true => exact (searched_promote layers request.address entry).trans (searched_touch _ request)

theorem useEntry_value (layers : CacheLayers Json) (request : CacheRequest) (fromPersistent : Bool)
    (entry : CacheEntry Json) :
    (layers.useEntry request fromPersistent entry).1.map Prod.fst = entry.valueAs request.valueType := by
  unfold useEntry
  cases entry.valueAs request.valueType with
  | none => rfl
  | some value => rfl

theorem useEntry_eq_none {fromPersistent : Bool} {entry : CacheEntry Json}
    (h : entry.valueAs request.valueType = none) :
    layers.useEntry request fromPersistent entry = (none, layers) := by
  unfold useEntry
  rw [h]

theorem useEntry_eq_some {fromPersistent : Bool} {entry : CacheEntry Json} {value : CacheValue Json}
    (h : entry.valueAs request.valueType = some value) :
    ∃ changed later, layers.useEntry request fromPersistent entry = (some (value, changed), later) ∧
      Searched layers later := by
  have hsearched := searched_useEntry layers request fromPersistent entry
  have hvalue := layers.useEntry_value request fromPersistent entry
  rw [h] at hvalue
  obtain ⟨⟨found, changed⟩, hfound, rfl⟩ := Option.map_eq_some_iff.mp hvalue
  exact ⟨changed, _, Prod.ext hfound rfl, hsearched⟩

/-- An answer with an entry of the pack files or the pending items. -/
theorem usePersistent_spec (layers : CacheLayers Json) (request : CacheRequest) (entry : CacheEntry Json) :
    ∃ changed later, layers.usePersistent request entry =
      (.ready (entry.valueAs request.valueType) changed, later) ∧ Searched layers later := by
  unfold usePersistent
  cases hvalue : entry.valueAs request.valueType with
  | none =>
    rw [useEntry_eq_none hvalue]
    exact ⟨false, layers, rfl, .refl layers⟩
  | some value =>
    obtain ⟨changed, later, heq, hsearched⟩ := @useEntry_eq_some Json layers request true entry value hvalue
    rw [heq]
    exact ⟨changed, later, rfl, hsearched⟩

/-- What a plan for the request is made of, when the lookup is deferred. -/
def planFor (layers : CacheLayers Json) (request : CacheRequest) : Option PersistentRestore := do
  let slot ← layers.persistent
  let id ← slot.layer.activePackFile
  some ⟨id, slot.layer.readerGeneration, request.address.toPackFileAddress, request.etag,
    request.address.cacheNamespace⟩

theorem lookupPersistent_eq (layers : CacheLayers Json) (request : CacheRequest) :
    layers.lookupPersistent request =
      match layers.pendingEntry request with
      | some entry => .hit entry
      | none => (layers.planFor request).elim .miss .deferred := by
  unfold lookupPersistent pendingEntry planFor
  cases layers.persistent with
  | none => rfl
  | some slot =>
    unfold PackFileCacheLayer.lookup PackFileCacheLayer.activePackFile
    dsimp only [Option.bind_eq_bind, Option.bind_some]
    cases slot.layer.pending.lookup request.address with
    | some entry =>
      by_cases hetag : entry.etag = request.etag
      · simp [Option.filter_some, hetag]
      · cases slot.layer.active with
        | false => simp [Option.filter_some, hetag]
        | true => cases slot.layer.packFile <;> simp [Option.filter_some, hetag]
    | none =>
      cases slot.layer.active with
      | false => rfl
      | true => cases slot.layer.packFile <;> rfl

theorem memoryValue_eq (layers : CacheLayers Json) (request : CacheRequest) :
    layers.memoryValue request =
      (layers.lookupMemory request).1.bind fun entry => entry.valueAs request.valueType := by
  unfold memoryValue lookupMemory
  cases layers.memory with
  | none => rfl
  | some slot =>
    dsimp only [Option.bind_eq_bind, Option.bind_some]
    rw [slot.lookup_fst]
    cases slot.entry request.address with
    | none => rfl
    | some entry => by_cases hetag : entry.etag = request.etag <;> simp [Option.filter_some, hetag]

theorem Searched.lookupPersistent {later : CacheLayers Json} (h : Searched layers later)
    (request : CacheRequest) : later.lookupPersistent request = layers.lookupPersistent request := by
  unfold CacheLayers.lookupPersistent
  rw [h.persistent]

/-- What is made of an answer of the persistent layer. -/
def thenPersistent (layers : CacheLayers Json) (request : CacheRequest)
    (whenDeferred : PersistentRestore → CacheLayers Json → CacheGet Json × CacheLayers Json) :
    CacheLayerLookup Json → CacheGet Json × CacheLayers Json
  | .hit entry => layers.usePersistent request entry
  | .deferred plan => whenDeferred plan layers
  | .miss => (.ready none false, layers)

/-- How a search through the layers ends. -/
theorem lookupThen_cases (layers : CacheLayers Json) (request : CacheRequest)
    (whenDeferred : PersistentRestore → CacheLayers Json → CacheGet Json × CacheLayers Json) :
    (∃ value changed later, layers.memoryValue request = some value ∧ Searched layers later ∧
        layers.lookupThen request whenDeferred = (.ready (some value) changed, later)) ∨
      layers.memoryValue request = none ∧
        ((∃ entry changed later, layers.pendingEntry request = some entry ∧ Searched layers later ∧
            layers.lookupThen request whenDeferred =
              (.ready (entry.valueAs request.valueType) changed, later)) ∨
          layers.pendingEntry request = none ∧ ∃ later, Searched layers later ∧
            layers.lookupThen request whenDeferred =
              (layers.planFor request).elim (.ready none false, later) fun plan =>
                whenDeferred plan later) := by
  have hpersistent : ∀ middle : CacheLayers Json, Searched layers middle →
      layers.lookupThen request whenDeferred =
        middle.thenPersistent request whenDeferred (middle.lookupPersistent request) →
      (∃ entry changed later, layers.pendingEntry request = some entry ∧ Searched layers later ∧
          layers.lookupThen request whenDeferred =
            (.ready (entry.valueAs request.valueType) changed, later)) ∨
        layers.pendingEntry request = none ∧ ∃ later, Searched layers later ∧
          layers.lookupThen request whenDeferred =
            (layers.planFor request).elim (.ready none false, later) fun plan =>
              whenDeferred plan later := by
    intro middle hmiddle heq
    rw [hmiddle.lookupPersistent, lookupPersistent_eq] at heq
    cases hpending : layers.pendingEntry request with
    | some entry =>
      obtain ⟨changed, later, hused, hsearched⟩ := middle.usePersistent_spec request entry
      rw [hpending] at heq
      exact Or.inl ⟨entry, changed, later, rfl, hmiddle.trans hsearched, heq.trans hused⟩
    | none =>
      rw [hpending] at heq
      refine Or.inr ⟨rfl, middle, hmiddle, heq.trans ?_⟩
      cases layers.planFor request <;> rfl
  have hlookup := layers.searched_lookupMemory request
  rw [memoryValue_eq]
  cases hmemory : layers.lookupMemory request with
  | mk found middle =>
    rw [hmemory] at hlookup
    cases found with
    | none =>
      refine Or.inr ⟨rfl, hpersistent middle hlookup ?_⟩
      unfold lookupThen
      rw [hmemory] <;> rfl
    | some entry =>
      dsimp only [Option.bind_some]
      cases hvalue : entry.valueAs request.valueType with
      | none =>
        refine Or.inr ⟨rfl, hpersistent middle hlookup ?_⟩
        unfold lookupThen
        rw [hmemory]
        dsimp only
        rw [useEntry_eq_none hvalue] <;> rfl
      | some value =>
        obtain ⟨changed, later, hused, hsearched⟩ :=
          @useEntry_eq_some Json middle request false entry value hvalue
        refine Or.inl ⟨value, changed, later, rfl, hlookup.trans hsearched, ?_⟩
        unfold lookupThen
        rw [hmemory]
        dsimp only
        rw [hused]

theorem activePackFile_eq (layers : CacheLayers Json) (request : CacheRequest) :
    layers.activePackFile = (layers.planFor request).bind fun plan => layers.packFiles[plan.packFile]? := by
  unfold activePackFile planFor
  cases layers.persistent with
  | none => rfl
  | some slot =>
    dsimp only [Option.bind_eq_bind, Option.bind_some]
    cases slot.layer.activePackFile <;> rfl

variable (compressors library layers disk request) in
/-- An answer is that of the atomic lookup, and a plan is the one to follow. -/
def Answers : CacheGet Json → Prop
  | .ready value _ => value = layers.atomicLookup compressors library disk request
  | .deferred plan => layers.planFor request = some plan

/-- The first part of a `get` answers as the atomic lookup does, or has planned a restore. -/
theorem beginGet_spec {result : CacheGet Json} {later : CacheLayers Json}
    (h : layers.beginGet request = (result, later)) :
    Searched layers later ∧ layers.Answers compressors library disk request result := by
  unfold beginGet at h
  rcases layers.lookupThen_cases request fun plan layers => (.deferred plan, layers) with
    ⟨value, changed, found, hmemory, hsearched, heq⟩ |
    ⟨hmemory, ⟨entry, changed, found, hpending, hsearched, heq⟩ | ⟨hpending, found, hsearched, heq⟩⟩
  · rw [heq] at h
    cases h
    refine ⟨hsearched, ?_⟩
    rw [Answers, atomicLookup, hmemory]
  · rw [heq] at h
    cases h
    refine ⟨hsearched, ?_⟩
    rw [Answers, atomicLookup, hmemory, hpending]
  · rw [heq] at h
    cases hplan : layers.planFor request with
    | none =>
      rw [hplan] at h
      cases h
      refine ⟨hsearched, ?_⟩
      rw [Answers, atomicLookup, hmemory, hpending, activePackFile_eq layers request, hplan]
      rfl
    | some plan =>
      rw [hplan] at h
      cases h
      exact ⟨hsearched, hplan⟩

/-- So does the second part, when what was restored is what the pack file of the plan restores now. -/
theorem finishRestore_spec {plan : PersistentRestore} {restored : Option (CacheEntry Json)}
    (hrestored : layers.planFor request = some plan →
      restored.bind (fun entry => entry.valueAs request.valueType) =
        layers.activePackFile.bind (restoredValue compressors library disk request))
    (hplan : ∀ current, layers.planFor request = some current → current.readsFrom plan = true →
      current = plan)
    {result : CacheGet Json} {later : CacheLayers Json}
    (h : layers.finishRestore request plan restored = (result, later)) :
    Searched layers later ∧ layers.Answers compressors library disk request result := by
  unfold finishRestore at h
  rcases layers.lookupThen_cases request (useRestored request plan restored) with
    ⟨value, changed, found, hmemory, hsearched, heq⟩ |
    ⟨hmemory, ⟨entry, changed, found, hpending, hsearched, heq⟩ | ⟨hpending, found, hsearched, heq⟩⟩
  · rw [heq] at h
    cases h
    refine ⟨hsearched, ?_⟩
    rw [Answers, atomicLookup, hmemory]
  · rw [heq] at h
    cases h
    refine ⟨hsearched, ?_⟩
    rw [Answers, atomicLookup, hmemory, hpending]
  · rw [heq] at h
    cases hcurrent : layers.planFor request with
    | none =>
      rw [hcurrent] at h
      cases h
      refine ⟨hsearched, ?_⟩
      rw [Answers, atomicLookup, hmemory, hpending, activePackFile_eq layers request, hcurrent]
      rfl
    | some current =>
      rw [hcurrent, Option.elim_some] at h
      unfold useRestored at h
      split_ifs at h with hreads
      · have hsame := hplan current hcurrent hreads
        have hvalue := hrestored (hcurrent.trans (congrArg some hsame))
        cases restored with
        | none =>
          cases h
          refine ⟨hsearched, ?_⟩
          rw [Answers, atomicLookup, hmemory, hpending, ← hvalue]
          rfl
        | some entry =>
          obtain ⟨changed, last, hused, hlast⟩ := found.usePersistent_spec request entry
          dsimp only at h
          rw [hused] at h
          cases h
          refine ⟨hsearched.trans hlast, ?_⟩
          rw [Answers, atomicLookup, hmemory, hpending, ← hvalue]
          rfl
      · cases h
        exact ⟨hsearched, hcurrent⟩

theorem planFor_eq_some {plan : PersistentRestore} (h : layers.planFor request = some plan) :
    layers.currentPackFile = some plan.packFile ∧ plan.address = request.address.toPackFileAddress ∧
      plan.etag = request.etag ∧ plan.cacheNamespace = request.address.cacheNamespace := by
  obtain ⟨slot, hslot, hplan⟩ := Option.bind_eq_some_iff.mp h
  obtain ⟨id, hid, hplan⟩ := Option.bind_eq_some_iff.mp hplan
  unfold PackFileCacheLayer.activePackFile at hid
  split_ifs at hid
  cases hplan
  refine ⟨?_, rfl, rfl, rfl⟩
  rw [currentPackFile, hslot]
  exact hid

/-- A restore under a plan for the request finds the value that the request asks for. -/
theorem restoredValue_eq {plan : PersistentRestore}
    (haddress : plan.address = request.address.toPackFileAddress) (hetag : plan.etag = request.etag)
    (hnamespace : plan.cacheNamespace = request.address.cacheNamespace) (packFile : PackFile) :
    restoredValue compressors library disk request packFile =
      (plan.restoreFrom compressors library disk packFile).1.bind fun entry =>
        entry.valueAs request.valueType := by
  unfold restoredValue PersistentRestore.restoreFrom
  rw [haddress, hetag, hnamespace]
  cases recordKindOf request.address.cacheNamespace with
  | none => rfl
  | some kind =>
    dsimp only [Option.bind_eq_bind, Option.bind_some]
    rw [Option.bind_assoc]

end

theorem currentPackFile_store (layers : CacheLayers Json) (address : CacheAddress) (entry : CacheEntry Json) :
    (layers.store address entry).2.currentPackFile = layers.currentPackFile := by
  unfold store currentPackFile
  cases layers.persistent with
  | none => rfl
  | some slot => cases hwritable : slot.writable <;> simp [hwritable, PackFileCacheLayer.store]

theorem currentPackFile_clear (layers : CacheLayers Json) :
    layers.clear.currentPackFile = layers.currentPackFile := by
  unfold clear currentPackFile
  cases layers.persistent <;> rfl

theorem preparePersistent_keeps (layers : CacheLayers Json) (preparation : PersistentCachePreparation) :
    (layers.preparePersistent preparation).2.currentPackFile = layers.currentPackFile ∧
      (layers.preparePersistent preparation).2.packFiles = layers.packFiles := by
  unfold preparePersistent currentPackFile
  cases hpersistent : layers.persistent with
  | none =>
    dsimp only
    rw [hpersistent]
    exact ⟨rfl, rfl⟩
  | some slot => exact ⟨rfl, rfl⟩

end CacheLayers

namespace CacheState

variable {Thread : Type}

theorem markDirty_eq (state : CacheState Thread Json) (changed : Bool) :
    state.markDirty changed = { state with
      dirtyGeneration := if changed then saturatingSucc state.dirtyGeneration else state.dirtyGeneration } := by
  cases changed <;> rfl

theorem prepareLayers_keeps (state : CacheState Thread Json) (preparation : PersistentCachePreparation) :
    (state.prepareLayers preparation).2.currentPackFile = state.layers.currentPackFile ∧
      (state.prepareLayers preparation).2.packFiles = state.layers.packFiles := by
  unfold prepareLayers
  dsimp only
  split_ifs
  · obtain ⟨hcurrent, hpackFiles⟩ := state.layers.clear.preparePersistent_keeps preparation
    exact ⟨hcurrent.trans state.layers.currentPackFile_clear, hpackFiles⟩
  · exact state.layers.preparePersistent_keeps preparation

end CacheState

namespace PersistentRestore

variable {compressors : Compressors} {library : RecordLibrary Json} {plan : PersistentRestore} {disk newer : Disk}
  {packFile later : PackFile}

theorem grown_restoreFrom (compressors : Compressors) (library : RecordLibrary Json)
    (plan : PersistentRestore) (disk : Disk) (packFile : PackFile) :
    packFile.Grown (plan.restoreFrom compressors library disk packFile).2 := by
  unfold restoreFrom
  cases recordKindOf plan.cacheNamespace with
  | none => exact .refl packFile
  | some kind => exact PackFile.grown_get packFile disk kind plan.address plan.etag

theorem restoreFrom_keeps (library : RecordLibrary Json) (plan : PersistentRestore)
    (h : packFile.BuffersSound compressors disk) :
    (plan.restoreFrom compressors library disk packFile).2.BuffersSound compressors disk := by
  unfold restoreFrom
  cases recordKindOf plan.cacheNamespace with
  | none => exact h
  | some kind => exact (PackFile.get_keeps h kind plan.address plan.etag).2

theorem restoreFrom_settled
    (hgrown : (plan.restoreFrom compressors library disk packFile).2.Grown later)
    (hsound : later.BuffersSound compressors disk) :
    (plan.restoreFrom compressors library disk later).1 =
      (plan.restoreFrom compressors library disk packFile).1 := by
  unfold restoreFrom at hgrown ⊢
  cases hkind : recordKindOf plan.cacheNamespace with
  | none => rfl
  | some kind =>
    rw [hkind] at hgrown
    dsimp only at hgrown ⊢
    rw [PackFile.get_settled hgrown hsound]

theorem restoreFrom_of_files (h : packFile.SameFiles disk newer) :
    plan.restoreFrom compressors library newer packFile =
      plan.restoreFrom compressors library disk packFile := by
  unfold restoreFrom
  cases recordKindOf plan.cacheNamespace with
  | none => rfl
  | some kind =>
    dsimp only
    rw [h.get_eq]

end PersistentRestore

end Unpack.Cache
