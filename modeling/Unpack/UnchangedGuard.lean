import Unpack.BuildDependencyGuard
import Unpack.CacheLinearizability

/-! Two compilations with the same build dependencies, and whatever happens in between. The second one finds the
guard of the first in the cache, and on disk when there was a publication: what is kept then is a matter of whether
a guard is valid for the compilation that it was made for. -/

namespace Unpack.Cache

open CacheItem EffectProgram Interleaving

namespace CacheLayers

variable {Json : Type}

def pending (layers : CacheLayers Json) : FxHashMap CacheAddress (CacheEntry Json) :=
  (layers.persistent.map (·.layer.pending)).getD ∅

/-- Nothing is gone from memory, and nothing that waits for publication. -/
def KeptBy (layers later : CacheLayers Json) : Prop :=
  later.memory = layers.memory ∧ later.pending = layers.pending

/-- Nothing is in memory, and nothing waits for publication. -/
def Empty (layers : CacheLayers Json) : Prop :=
  (∀ slot, layers.memory = some slot → ∀ address, slot.entry address = none) ∧
    ∀ address, layers.pending.lookup address = none

/-- Whether the entries are published in a directory, where there is a layer for them. -/
def root (layers : CacheLayers Json) : Option Bool := layers.persistent.map (·.layer.root)

/-- The pack file that is read from has this index. -/
def ReadsIndex (layers : CacheLayers Json) (index : PackFileIndex) : Prop :=
  ∃ id packFile, layers.currentPackFile = some id ∧ layers.packFiles[id]? = some packFile ∧ packFile.index = index

/-- The pack file with this index is active, and the next publication keeps its entries. -/
def Preserves (layers : CacheLayers Json) (index : PackFileIndex) : Prop :=
  layers.ReadsIndex index ∧ ∃ slot, layers.persistent = some slot ∧ slot.layer.active = true ∧
    slot.layer.publicationBase = .preserveEntries index.revision

theorem lookup_eq_none_iff {α β : Type} [DecidableEq α] {map : FxHashMap α β} :
    (∀ key, map.lookup key = none) ↔ map = ∅ := by
  constructor
  · intro h
    refine AList.ext (List.eq_nil_iff_forall_not_mem.mpr fun item hitem => ?_)
    exact AList.lookup_eq_none.mp (h item.1) (List.mem_map_of_mem hitem)
  · rintro rfl key
    exact AList.lookup_empty key

theorem clear_memorySlot_iff {slot : MemorySlot Json} : slot.clear = slot ↔ ∀ address, slot.entry address = none := by
  cases slot with
  | memory layer =>
      obtain ⟨entries⟩ := layer
      change MemorySlot.memory ⟨∅⟩ = _ ↔ ∀ address, entries.lookup address = none
      rw [lookup_eq_none_iff, MemorySlot.memory.injEq, MemoryCacheLayer.mk.injEq, eq_comm]
  | memoryWithGc layer =>
      obtain ⟨entries, maxUnusedGenerations, completedGeneration⟩ := layer
      change MemorySlot.memoryWithGc ⟨∅, _, _⟩ = _ ↔ ∀ address, (entries.lookup address).map _ = none
      simp only [Option.map_eq_none_iff]
      rw [lookup_eq_none_iff, MemorySlot.memoryWithGc.injEq, MemoryWithGcCacheLayer.mk.injEq, eq_comm]
      exact and_iff_left ⟨rfl, rfl⟩

/-- Clearing takes nothing away exactly when there is nothing. -/
theorem keptBy_clear_iff (layers : CacheLayers Json) : layers.KeptBy layers.clear ↔ layers.Empty := by
  refine and_congr ?_ ?_
  · change layers.memory.map MemorySlot.clear = layers.memory ↔ _
    cases layers.memory with
    | none => exact iff_of_true rfl nofun
    | some slot => simp [clear_memorySlot_iff]
  · rw [lookup_eq_none_iff]
    have hclear : layers.clear.pending = ∅ := by
      unfold pending clear
      cases layers.persistent <;> rfl
    rw [hclear, eq_comm]

theorem keptBy_preparePersistent (layers : CacheLayers Json) (preparation : PersistentCachePreparation) :
    layers.KeptBy (layers.preparePersistent preparation).2 := by
  unfold preparePersistent KeptBy pending
  cases hpersistent : layers.persistent with
  | none => exact ⟨rfl, by dsimp only; rw [hpersistent]⟩
  | some slot => exact ⟨rfl, rfl⟩

theorem ReadsIndex.of_keeps {layers later : CacheLayers Json} {index : PackFileIndex} (h : layers.ReadsIndex index)
    (hcurrent : later.currentPackFile = layers.currentPackFile)
    (hindexes : ∀ (id : PackFileId) (before : PackFile), layers.packFiles[id]? = some before →
      ∃ after, later.packFiles[id]? = some after ∧ after.index = before.index) : later.ReadsIndex index := by
  obtain ⟨id, packFile, hid, hpackFile, rfl⟩ := h
  obtain ⟨after, hafter, hindex⟩ := hindexes id packFile hpackFile
  exact ⟨id, after, hcurrent.trans hid, hafter, hindex⟩

/-- A pack file is preserved when its guard is admitted. -/
theorem ReadsIndex.preserves_iff {layers : CacheLayers Json} {index : PackFileIndex} {guard : PackFileGuardDto}
    (h : layers.ReadsIndex index) (hguard : index.guard = some guard) (preparation : PersistentCachePreparation) :
    (layers.preparePersistent preparation).2.Preserves index ↔
      guard.version = preparation.guard.version ∧
        preparation.buildDependenciesAreValid guard.buildDependencies = true ∧
          preparation.resolveBuildDependenciesAreValid guard.resolveBuildDependencies = true := by
  obtain ⟨hcurrent, hpackFiles⟩ := layers.preparePersistent_keeps preparation
  have hreads : (layers.preparePersistent preparation).2.ReadsIndex index := by
    refine h.of_keeps hcurrent fun id before hbefore => ⟨before, ?_, rfl⟩
    rw [hpackFiles]
    exact hbefore
  obtain ⟨id, packFile, hid, hpackFile, rfl⟩ := h
  obtain ⟨slot, hslot, hid⟩ := Option.bind_eq_some_iff.mp hid
  have hfound : slot.layer.packFile.bind (layers.packFiles[·]?) = some packFile := by
    rw [hid]
    exact hpackFile
  rw [Preserves, and_iff_right hreads, preparePersistent, hslot]
  dsimp only
  rw [PackFileCacheLayer.preparePersistent, hfound]
  simp only [Option.some.injEq, exists_eq_left', Option.any_some, Option.filter_some]
  have hadmits : PackFileCacheLayer.admits preparation packFile = true ↔
      guard.version = preparation.guard.version ∧
        preparation.buildDependenciesAreValid guard.buildDependencies = true ∧
          preparation.resolveBuildDependenciesAreValid guard.resolveBuildDependencies = true := by
    rw [PackFileCacheLayer.admits, hguard, Option.any_some, Bool.and_eq_true, Bool.and_eq_true, decide_eq_true_eq,
      and_assoc]
  rw [← hadmits]
  cases PackFileCacheLayer.admits preparation packFile with
  | true => exact iff_of_true ⟨rfl, rfl⟩ rfl
  | false => exact iff_of_false (fun h => Bool.false_ne_true h.1) Bool.false_ne_true

end CacheLayers

namespace CacheState

variable {Thread Json : Type} {state : CacheState Thread Json}

/-- The layers are cleared when the guard of the last compilation is no longer valid. -/
theorem keptBy_prepareLayers_iff {guard : PackFileGuardDto} (hguard : state.persistentGuard = some guard)
    (preparation : PersistentCachePreparation) :
    state.layers.KeptBy (state.prepareLayers preparation).2 ↔
      preparation.buildDependenciesAreValid guard.buildDependencies = true ∨ state.layers.Empty := by
  rw [prepareLayers, hguard, Option.any_some]
  cases preparation.buildDependenciesAreValid guard.buildDependencies with
  | true => exact iff_of_true (state.layers.keptBy_preparePersistent preparation) (Or.inl rfl)
  | false =>
      obtain ⟨hmemory, hpending⟩ := state.layers.clear.keptBy_preparePersistent preparation
      rw [or_iff_right Bool.false_ne_true, ← CacheLayers.keptBy_clear_iff]
      change CacheLayers.KeptBy _ (state.layers.clear.preparePersistent preparation).2 ↔ _
      rw [CacheLayers.KeptBy, hmemory, hpending]
      rfl

theorem keptBy_prepareLayers_of_none (hguard : state.persistentGuard = none)
    (preparation : PersistentCachePreparation) : state.layers.KeptBy (state.prepareLayers preparation).2 := by
  rw [prepareLayers, hguard]
  exact state.layers.keptBy_preparePersistent preparation

theorem preserves_prepareLayers_iff {index : PackFileIndex} {guard : PackFileGuardDto}
    (h : state.layers.ReadsIndex index) (hguard : index.guard = some guard)
    (preparation : PersistentCachePreparation) :
    (state.prepareLayers preparation).2.Preserves index ↔
      guard.version = preparation.guard.version ∧
        preparation.buildDependenciesAreValid guard.buildDependencies = true ∧
          preparation.resolveBuildDependenciesAreValid guard.resolveBuildDependencies = true := by
  unfold prepareLayers
  dsimp only
  split_ifs
  · refine (h.of_keeps state.layers.currentPackFile_clear fun id before hbefore => ?_).preserves_iff hguard preparation
    exact ⟨before, hbefore, rfl⟩
  · exact h.preserves_iff hguard preparation

end CacheState

section

variable {Thread Json : Type} {compressors : Compressors} {library : RecordLibrary Json} {options : CacheOptions}
  {state next : CacheState Thread Json} {event : Event Thread Json} {guard : PackFileGuardDto}
  {published : Option PackFileIndex}

theorem CacheLayers.Searched.indexes {layers later : CacheLayers Json} (h : layers.Searched later) {id : PackFileId}
    {before : PackFile} (hbefore : layers.packFiles[id]? = some before) :
    ∃ after, later.packFiles[id]? = some after ∧ after.index = before.index := by
  have hlength : id < later.packFiles.length := by
    rw [h.length_eq]
    exact (List.getElem?_eq_some_iff.mp hbefore).1
  obtain ⟨found, hfound, hgrown, -⟩ := h.packFiles id _ (List.getElem?_eq_getElem hlength)
  cases hfound.symm.trans hbefore
  exact ⟨_, List.getElem?_eq_getElem hlength, hgrown.index⟩

theorem CacheLayers.root_clear (layers : CacheLayers Json) : layers.clear.root = layers.root := by
  unfold clear root
  cases layers.persistent <;> rfl

theorem CacheLayers.root_preparePersistent (layers : CacheLayers Json) (preparation : PersistentCachePreparation) :
    (layers.preparePersistent preparation).2.root = layers.root := by
  unfold preparePersistent root
  cases hpersistent : layers.persistent with
  | none =>
      dsimp only
      rw [hpersistent]
  | some slot => rfl

theorem CacheLayers.root_of_persistent {layers later : CacheLayers Json} (h : later.persistent = layers.persistent) :
    later.root = layers.root := by
  rw [root, root, h]

/-- The step is no part of a compilation's preparation or of a publication. -/
structure Undisturbed (state next : CacheState Thread Json) : Prop where
  current : next.layers.currentPackFile = state.layers.currentPackFile
  indexes : ∀ (id : PackFileId) (before : PackFile), state.layers.packFiles[id]? = some before →
    ∃ after, next.layers.packFiles[id]? = some after ∧ after.index = before.index
  root : next.layers.root = state.layers.root
  publishing : next.publishing = state.publishing
  disk : next.disk = state.disk
  persistentGuard : next.persistentGuard = state.persistentGuard

theorem undisturbed_searched {layers : CacheLayers Json} {next : CacheState Thread Json}
    (hlayers : next.layers = layers) (h : state.layers.Searched layers)
    (hpublishing : next.publishing = state.publishing)
    (hdisk : next.disk = state.disk) (hguard : next.persistentGuard = state.persistentGuard) :
    Undisturbed state next := by
  subst hlayers
  exact ⟨currentPackFile_of_persistent h.persistent, fun id before => h.indexes,
    CacheLayers.root_of_persistent h.persistent, hpublishing, hdisk, hguard⟩

theorem undisturbed_restore {plan : PersistentRestore} {entry : Option (CacheEntry Json)} {layers : CacheLayers Json}
    (hrestore : state.layers.restore compressors library state.disk plan = (entry, layers)) :
    Undisturbed state { state with layers } := by
  rw [CacheLayers.restore] at hrestore
  cases hpackFile : state.layers.packFiles[plan.packFile]? with
  | none =>
      rw [hpackFile] at hrestore
      cases hrestore
      exact undisturbed_searched rfl (.refl _) rfl rfl rfl
  | some packFile =>
      rw [hpackFile] at hrestore
      cases hrestore
      refine ⟨rfl, fun id before hbefore => ?_, rfl, rfl, rfl, rfl⟩
      dsimp only
      rw [List.getElem?_set]
      split_ifs with hid hlength
      · subst hid
        cases hpackFile.symm.trans hbefore
        exact ⟨_, rfl, (PersistentRestore.grown_restoreFrom compressors library plan state.disk packFile).index⟩
      · subst hid
        exact absurd (List.getElem?_eq_some_iff.mp hbefore).1 hlength
      · exact ⟨before, hbefore, rfl⟩

variable (compressors guard) in
/-- A publication under the guard goes on, from the disk that it has started with. -/
def PublishingFrom (start : Disk) (base : PublicationBase) (batch : PackFileWriteBatch)
    (publicationOptions : PackFilePublicationOptions) (rest : Program Disk FileEffect IoError (Except IoError Unit))
    (failed : List FileEffect) (disk : Disk) : Prop :=
  Guarded FileEffect.apply
    (StoppedWith start (InstalledBy compressors (some guard) base batch publicationOptions start))
    (ReturnedWith start (InstalledBy compressors (some guard) base batch publicationOptions start))
    (AgreesOnPacks (readIndex start).revision start) rest failed disk

variable (compressors guard) in
/-- Once there was a publication the disk has the guard, also while the next publication goes on. -/
inductive GuardOnDisk (published : Option PackFileIndex) (state : CacheState Thread Json) : Prop
  | unlocked (hlock : state.publishing = none)
      (hdisk : published.isSome = true → (readIndex state.disk).guard = some guard)
  | locked {publishing : Publishing} {start : Disk} {base : PublicationBase} {batch : PackFileWriteBatch}
      {publicationOptions : PackFilePublicationOptions} {failed : List FileEffect}
      (hlock : state.publishing = some publishing) (hroot : state.layers.root = some true)
      (hstart : published.isSome = true → (readIndex start).guard = some guard)
      (hguarded : PublishingFrom compressors guard start base batch publicationOptions publishing.rest failed
        state.disk)

variable (compressors library guard) in
/-- What holds after a compilation was prepared, when this is the index of the last publication. -/
structure PreparedUnder (published : Option PackFileIndex) (state : CacheState Thread Json) : Prop where
  invariant : CacheInvariant compressors library state
  persistentGuard : state.persistentGuard = some guard
  reads : ∀ index, published = some index →
    index.guard = some guard ∧ state.layers.root = some true ∧ state.layers.ReadsIndex index
  disk : GuardOnDisk compressors guard published state

theorem InstalledBy.guard_eq {base : PublicationBase} {batch : PackFileWriteBatch}
    {publicationOptions : PackFilePublicationOptions} {start disk : Disk}
    (h : InstalledBy compressors (some guard) base batch publicationOptions start disk) :
    (readIndex disk).guard = some guard := by
  obtain ⟨publication, packs, hinstalled⟩ := h
  rw [hinstalled.readIndex_eq]
  rfl

theorem GuardOnDisk.guard_eq (h : GuardOnDisk compressors guard published state)
    (hpublished : published.isSome = true) :
    (readIndex state.disk).guard = some guard := by
  cases h with
  | unlocked _ hdisk => exact hdisk hpublished
  | @locked publishing start _ _ _ failed _ _ hstart hguarded =>
      have hagrees : ∀ {disk : Disk}, AgreesBelow (readIndex start).revision start disk →
          (readIndex disk).guard = some guard := by
        intro disk hagrees
        rw [readIndex_of_agrees hagrees]
        exact hstart hpublished
      rcases hguarded.here with hstopped | ⟨outcome, hreturned⟩
      · exact hstopped.2.elim hagrees InstalledBy.guard_eq
      · cases outcome with
        | ok value => exact InstalledBy.guard_eq hreturned.2
        | error error => exact hreturned.elim (fun h => hagrees h.2) fun h => InstalledBy.guard_eq h.2

theorem GuardOnDisk.undisturbed (h : GuardOnDisk compressors guard published state) (hstep : Undisturbed state next) :
    GuardOnDisk compressors guard published next := by
  cases h with
  | unlocked hlock hdisk =>
      refine .unlocked (hstep.publishing.trans hlock) fun hpublished => ?_
      rw [hstep.disk]
      exact hdisk hpublished
  | locked hlock hroot hstart hguarded =>
      rw [← hstep.disk] at hguarded
      exact .locked (hstep.publishing.trans hlock) (hstep.root.trans hroot) hstart hguarded

theorem PreparedUnder.undisturbed (h : PreparedUnder compressors library guard published state)
    (hinvariant : CacheInvariant compressors library next) (hstep : Undisturbed state next) :
    PreparedUnder compressors library guard published next := by
  refine ⟨hinvariant, hstep.persistentGuard.trans h.persistentGuard, fun index hindex => ?_, h.disk.undisturbed hstep⟩
  obtain ⟨hguard, hroot, hreads⟩ := h.reads index hindex
  exact ⟨hguard, hstep.root.trans hroot, hreads.of_keeps hstep.current hstep.indexes⟩

/-- A publication starts under the guard of the compilation. -/
theorem PreparedUnder.publishStart (h : PreparedUnder compressors library guard published state)
    {targetGeneration stamp : UInt64} {program : Option (Program Disk FileEffect IoError (Except IoError Unit))}
    (hlock : state.publishing = none)
    (hpublishes : Publishes compressors library options state targetGeneration stamp program next) :
    PreparedUnder compressors library guard published
      { next with publishing := program.map fun rest => ⟨targetGeneration, rest⟩ } := by
  have hinvariant := h.invariant.publishStart hlock hpublishes
  have hnamed : (readIndex state.disk).Named := by
    cases h.invariant.disk with
    | unlocked _ hnamed => exact hnamed
    | locked hlocked => cases hlock.symm.trans hlocked
  have hdisk := fun hpublished : published.isSome = true => h.disk.guard_eq hpublished
  cases hpublishes with
  | done htarget => exact ⟨hinvariant, h.persistentGuard, h.reads, .unlocked rfl hdisk⟩
  | nowhere htarget hslot hroot =>
      refine ⟨hinvariant, h.persistentGuard, fun index hindex => ?_, .unlocked rfl hdisk⟩
      obtain ⟨_, hsome, _⟩ := h.reads index hindex
      rw [CacheLayers.root, hslot] at hsome
      cases hroot.symm.trans (Option.some.inj hsome)
  | @refused slot error htarget hslot hroot hbatch =>
      have hrootSome : state.layers.root = some true := by
        rw [CacheLayers.root, hslot, ← hroot]
        rfl
      have hrefused : PublishingFrom compressors guard state.disk .replaceAll {} (options.publicationOptions stamp)
          (.done (.error error)) [] state.disk :=
        ⟨Or.inl ⟨List.not_mem_nil, .refl _ _⟩, Or.inr (.refl _ _)⟩
      exact ⟨hinvariant, h.persistentGuard, h.reads, .locked rfl hrootSome hdisk hrefused⟩
  | @started slot batch htarget hslot hroot hbatch =>
      have hrootSome : state.layers.root = some true := by
        rw [CacheLayers.root, hslot, ← hroot]
        rfl
      have hguard : state.publicationGuard options = guard := by
        rw [CacheState.publicationGuard, h.persistentGuard]
        rfl
      have hstarted : PublishingFrom compressors guard state.disk slot.layer.publicationBase batch
          (options.publicationOptions stamp) (publishBatch compressors (some (state.publicationGuard options))
            slot.layer.publicationBase batch (options.publicationOptions stamp)).run [] state.disk := by
        rw [hguard]
        exact guarded_publishBatch _ _ _ _ hnamed
      exact ⟨hinvariant, h.persistentGuard, h.reads, .locked rfl hrootSome hdisk hstarted⟩

theorem PreparedUnder.publishEffect (h : PreparedUnder compressors library guard published state)
    {publishing : Publishing} {rest : Program Disk FileEffect IoError (Except IoError Unit)} {disk : Disk}
    (hpublishing : state.publishing = some publishing)
    (hstep : Step FileEffect.apply publishing.rest state.disk rest disk) :
    PreparedUnder compressors library guard published
      { state with disk, publishing := some { publishing with rest } } := by
  refine ⟨h.invariant.publishEffect hpublishing hstep, h.persistentGuard, h.reads, ?_⟩
  cases h.disk with
  | unlocked hlock => cases hlock.symm.trans hpublishing
  | locked hlock hroot hstart hguarded =>
      cases hpublishing.symm.trans hlock
      obtain ⟨failed, hnext⟩ := Guarded.step hguarded hstep
      exact .locked rfl hroot hstart hnext

theorem PreparedUnder.publishFailed (h : PreparedUnder compressors library guard published state)
    {publishing : Publishing} {error : IoError} (hpublishing : state.publishing = some publishing)
    (hrest : publishing.rest = .done (.error error)) :
    PreparedUnder compressors library guard published { state with publishing := none } :=
  ⟨h.invariant.publishFailed hpublishing hrest, h.persistentGuard, h.reads,
    .unlocked rfl fun hpublished => h.disk.guard_eq hpublished⟩

/-- After a publication the new pack file has the guard. -/
theorem PreparedUnder.publishSucceeded (h : PreparedUnder compressors library guard published state)
    {publishing : Publishing} (hpublishing : state.publishing = some publishing)
    (hrest : publishing.rest = .done (.ok ())) :
    PreparedUnder compressors library guard (some (readIndex state.disk)) { state with
      publishing := none
      layers := state.layers.published options state.disk
      publishedGeneration := max state.publishedGeneration publishing.targetGeneration } := by
  have hinstalled : state.layers.root = some true ∧ (readIndex state.disk).guard = some guard := by
    cases h.disk with
    | unlocked hlock => cases hlock.symm.trans hpublishing
    | locked hlock hroot hstart hguarded =>
        cases hpublishing.symm.trans hlock
        rw [hrest] at hguarded
        exact ⟨hroot, InstalledBy.guard_eq hguarded.1.2⟩
  obtain ⟨hroot, hguard⟩ := hinstalled
  obtain ⟨slot, hslot, hslotRoot⟩ := Option.map_eq_some_iff.mp hroot
  refine ⟨h.invariant.publishSucceeded hpublishing hrest, h.persistentGuard, fun index hindex => ?_,
    .unlocked rfl fun _ => hguard⟩
  cases hindex
  refine ⟨hguard, ?_, state.layers.packFiles.length,
    PackFile.openWithOptions state.disk options.allowCollectingMemory, ?_, ?_, rfl⟩
  · simp [CacheLayers.root, CacheLayers.published, hslot, PackFileCacheLayer.published, hslotRoot]
  · simp [CacheLayers.currentPackFile, CacheLayers.published, hslot, PackFileCacheLayer.published]
  · simp [CacheLayers.published]

/-- The event is no part of a preparation or a publication. -/
def Event.isQuiet : Event Thread Json → Bool
  | .prepare _ | .publishStart _ _ | .publishEffect | .publishEnd _ _ => false
  | _ => true

/-- The index of a publication that has succeeded. -/
def publishedBy (state : CacheState Thread Json) : Event Thread Json → Option PackFileIndex
  | .publishEnd _ (.ok ()) => some (readIndex state.disk)
  | _ => none

/-- The index of the last publication of a run. -/
def lastPublished (trace : List (CacheState Thread Json × Event Thread Json)) : Option PackFileIndex :=
  trace.reverse.findSome? fun passed => publishedBy passed.1 passed.2

theorem lastPublished_append_singleton (trace : List (CacheState Thread Json × Event Thread Json))
    (state : CacheState Thread Json) (event : Event Thread Json) :
    lastPublished (trace ++ [(state, event)]) = (publishedBy state event <|> lastPublished trace) := by
  rw [lastPublished, List.reverse_append, List.reverse_singleton, List.singleton_append, List.findSome?_cons]
  cases publishedBy state event <;> rfl

variable [DecidableEq Thread]

theorem undisturbed_step (h : CacheInvariant compressors library state) (hquiet : event.isQuiet = true)
    (hstep : CacheStep compressors library options state event next) : Undisturbed state next := by
  cases hstep with
  | call request hthread => exact undisturbed_searched rfl (.refl _) rfl rfl rfl
  | plan hlock hresumes => exact undisturbed_searched rfl (h.resumes hlock hresumes).1 rfl rfl rfl
  | restore hthread hrestore =>
      have hstep := undisturbed_restore hrestore
      exact ⟨hstep.current, hstep.indexes, hstep.root, rfl, rfl, rfl⟩
  | answer hlock hresumes =>
      rw [CacheState.markDirty_eq]
      exact undisturbed_searched rfl (h.resumes hlock hresumes).1 rfl rfl rfl
  | store address entry hlock =>
      rw [CacheState.markDirty_eq]
      refine ⟨CacheLayers.currentPackFile_store _ address entry, fun id before hbefore => ⟨before, hbefore, rfl⟩, ?_,
        rfl, rfl, rfl⟩
      change CacheLayers.root (state.layers.store address entry).2 = _
      unfold CacheLayers.store CacheLayers.root
      cases state.layers.persistent with
      | none => rfl
      | some slot => cases hwritable : slot.writable <;> simp [hwritable, PackFileCacheLayer.store]
  | clear hlock =>
      exact ⟨CacheLayers.currentPackFile_clear _, fun id before hbefore => ⟨before, hbefore, rfl⟩,
        CacheLayers.root_clear _, rfl, rfl, rfl⟩
  | compilationCompleted hlock => exact ⟨rfl, fun id before hbefore => ⟨before, hbefore, rfl⟩, rfl, rfl, rfl, rfl⟩
  | readPublished hthread hwritable => exact undisturbed_searched rfl (.refl _) rfl rfl rfl
  | pendingGeneration hthread => exact undisturbed_searched rfl (.refl _) rfl rfl rfl
  | prepare => cases hquiet
  | publishStart => cases hquiet
  | publishEffect => cases hquiet
  | publishFailed => cases hquiet
  | publishSucceeded => cases hquiet

/-- Where the entries are published does not change. -/
theorem root_step (h : CacheInvariant compressors library state)
    (hstep : CacheStep compressors library options state event next) : next.layers.root = state.layers.root := by
  by_cases hquiet : event.isQuiet = true
  · exact (undisturbed_step h hquiet hstep).root
  · cases hstep with
    | prepare preparation hkind hlock =>
        rw [CacheState.markDirty_eq]
        change CacheLayers.root (state.prepareLayers preparation).2 = _
        unfold CacheState.prepareLayers
        dsimp only
        split_ifs
        · rw [CacheLayers.root_preparePersistent, CacheLayers.root_clear]
        · exact CacheLayers.root_preparePersistent _ preparation
    | publishStart hwritable hlock hpublishes =>
        cases hpublishes with
        | nowhere htarget hslot hroot =>
            unfold CacheLayers.root
            rw [hslot]
            rfl
        | done => rfl
        | refused => rfl
        | started => rfl
    | publishEffect => rfl
    | publishFailed => rfl
    | publishSucceeded =>
        unfold CacheLayers.root CacheLayers.published
        cases state.layers.persistent <;> rfl
    | _ => exact absurd rfl hquiet

theorem PreparedUnder.step (h : PreparedUnder compressors library guard published state)
    (hevent : ∀ preparation, event ≠ .prepare preparation)
    (hstep : CacheStep compressors library options state event next) :
    PreparedUnder compressors library guard (publishedBy state event <|> published) next := by
  by_cases hquiet : event.isQuiet = true
  · have hnone : publishedBy state event = none := by
      cases event <;> first | rfl | cases hquiet
    rw [hnone]
    exact h.undisturbed (h.invariant.step hstep) (undisturbed_step h.invariant hquiet hstep)
  · cases hstep with
    | prepare preparation hkind hlock => exact absurd rfl (hevent preparation)
    | publishStart hwritable hlock hpublishes => exact h.publishStart hlock hpublishes
    | publishEffect hpublishing hstep => exact h.publishEffect hpublishing hstep
    | publishFailed hpublishing hrest => exact h.publishFailed hpublishing hrest
    | publishSucceeded hpublishing hrest => exact h.publishSucceeded hpublishing hrest
    | _ => exact absurd rfl hquiet

theorem PreparedUnder.run {prepared : CacheState Thread Json}
    {during : List (CacheState Thread Json × Event Thread Json)}
    (h : PreparedUnder compressors library guard none prepared)
    (hduring : Run (· = prepared) (CacheStep compressors library options) during state)
    (hevents : ∀ passed ∈ during, ∀ preparation, passed.2 ≠ .prepare preparation) :
    PreparedUnder compressors library guard (lastPublished during) state := by
  refine @Run.kept _ _ _ _ (fun _ event => ∀ preparation, event ≠ .prepare preparation)
    (fun trace => PreparedUnder compressors library guard (lastPublished trace)) ?_ ?_ _ _ hduring hevents
  · rintro start rfl
    exact h
  · intro trace state event next hkept hallowed hstep
    rw [lastPublished_append_singleton]
    exact hkept.step hallowed hstep

/-- Without a directory there are no publications. -/
theorem lastPublished_eq_none {prepared : CacheState Thread Json}
    {during : List (CacheState Thread Json × Event Thread Json)} (hkind : options.kind ≠ .filesystem)
    (hlock : prepared.publishing = none)
    (hduring : Run (· = prepared) (CacheStep compressors library options) during state) :
    lastPublished during = none ∧ state.publishing = none := by
  have hreadonly : options.isWritableFilesystemCache ≠ true := by
    simp [CacheOptions.isWritableFilesystemCache, hkind]
  induction hduring with
  | start hstart =>
      cases hstart
      exact ⟨rfl, hlock⟩
  | step _ hstep ih =>
      obtain ⟨hnone, hunlocked⟩ := ih
      rw [lastPublished_append_singleton, hnone]
      cases hstep with
      | publishStart hwritable => exact absurd hwritable hreadonly
      | publishEffect hpublishing => cases hunlocked.symm.trans hpublishing
      | publishFailed hpublishing => cases hunlocked.symm.trans hpublishing
      | publishSucceeded hpublishing => cases hunlocked.symm.trans hpublishing
      | store => rw [CacheState.markDirty_eq]; exact ⟨rfl, hunlocked⟩
      | answer => rw [CacheState.markDirty_eq]; exact ⟨rfl, hunlocked⟩
      | prepare => rw [CacheState.markDirty_eq]; exact ⟨rfl, hunlocked⟩
      | _ => exact ⟨rfl, hunlocked⟩

variable {dependencies : BuildDependencyOptions} {tree : BuildTree} {results : List ResolveResult}

omit [DecidableEq Thread] in
theorem prepareForCompilation_eq {preparation : PersistentCachePreparation} (hkind : options.kind = .filesystem)
    (h : prepareGuard options dependencies tree = .ok preparation) (state : CacheState Thread Json) :
    ∃ next, state.prepareForCompilation options dependencies tree = .ok next ∧
      next.layers = (state.prepareLayers preparation).2 ∧ next.persistentGuard = some preparation.guard ∧
        next.publishing = state.publishing := by
  rw [CacheState.prepareForCompilation, if_neg (not_not.mpr hkind), h]
  refine ⟨_, rfl, ?_⟩
  rw [CacheState.markDirty_eq]
  exact ⟨rfl, rfl, rfl⟩

omit [DecidableEq Thread] in
theorem readsIndex_opened {disk : Disk} (hkind : options.kind = .filesystem)
    (hlocation : options.cacheLocation = true) :
    (openedCache options disk : CacheState Thread Json).layers.ReadsIndex (readIndex disk) := by
  refine ⟨0, PackFile.openWithOptions disk options.allowCollectingMemory, ?_, ?_, rfl⟩
  · simp [openedCache, CacheLayers.fromOptions, PackFileCacheLayer.openLayer, CacheLayers.currentPackFile, hkind,
      hlocation]
  · simp [openedCache, CacheLayers.fromOptions, PackFileCacheLayer.openLayer, hkind, hlocation]

omit [DecidableEq Thread] in
theorem cacheLocation_of_root {disk : Disk}
    (h : (openedCache options disk : CacheState Thread Json).layers.root = some true) :
    options.cacheLocation = true := by
  by_cases hkind : options.kind = .filesystem
  · cases hlocation : options.cacheLocation with
    | true => rfl
    | false =>
        simp [openedCache, CacheLayers.fromOptions, PackFileCacheLayer.openLayer, CacheLayers.root, hkind,
          hlocation] at h
  · simp [openedCache, CacheLayers.fromOptions, CacheLayers.root, hkind] at h

theorem root_run {start : CacheState Thread Json} {trace : List (CacheState Thread Json × Event Thread Json)}
    (hstart : CacheInvariant compressors library start)
    (h : Run (· = start) (CacheStep compressors library options) trace state) :
    CacheInvariant compressors library state ∧ state.layers.root = start.layers.root := by
  refine @Run.invariant _ _ _ _ (fun state => CacheInvariant compressors library state ∧ state.layers.root = _) ?_ ?_
    _ _ h
  · rintro _ rfl
    exact ⟨hstart, rfl⟩
  · rintro state event next ⟨hinvariant, hroot⟩ hstep
    exact ⟨hinvariant.step hstep, (root_step hinvariant hstep).trans hroot⟩

end

/-- All requests resolve to one file. -/
def singleFileTree : BuildTree where
  trees := emptyFiles
  canonicalize path := .ok path
  resolveWithDependencies _ := .ok ⟨emptyFilePath, [], [], []⟩
  alike := emptyFiles_answersAlike

/-- The file is an automatic build dependency, and it is requested. -/
def requestedTwice : BuildDependencyOptions := ⟨[⟨["./a"]⟩], [emptyFilePath], ⟨false, true⟩, ⟨true, true⟩⟩

def filesystemOptions : CacheOptions := ⟨.filesystem, true, none, 0, none, .none, false, false⟩

theorem requestedTwice_resolves : requestedTwice.requests.mapM singleFileTree.resolveWithDependencies =
    .ok [⟨emptyFilePath, [], [], []⟩] :=
  rfl

theorem requestedTwice_prepared : ∃ preparation,
    prepareGuard filesystemOptions requestedTwice singleFileTree = .ok preparation :=
  ⟨_, rfl⟩

theorem requestedTwice_not_timesRecorded :
    ¬requestedTwice.TimesRecorded singleFileTree [⟨emptyFilePath, [], [], []⟩] := by
  intro h
  have hautomatic : ∀ result ∈ [(⟨emptyFilePath, [], [], []⟩ : ResolveResult)],
      result.resource.key ∈ (requestedTwice.automaticBuildInputs singleFileTree).keys := by
    decide
  cases h (List.cons_ne_nil _ _) hautomatic

def storedAddress : CacheAddress := ⟨resolveCacheNamespace, []⟩

def storedEntry : CacheEntry Unit :=
  ⟨.resolve, none, .resolve ⟨⟨.javaScriptAuto, emptyFilePath, none, none, none, []⟩, emptyFilePath, .empty, .empty,
    .empty, ⟨[]⟩⟩⟩

/-- With times in the strategy. -/
def requestedWithTimes : BuildDependencyOptions := { requestedTwice with snapshotStrategy := ⟨true, true⟩ }

end Unpack.Cache
