import Unpack.CacheLookup

/-! A `get` answers what one atomic lookup would have answered at an instant of its call, whatever other threads
do in the meantime. Until a publication is bound to succeed, the pack file that is read from keeps its files,
so that a thread has restored what the pack file still holds; and afterwards there is a new pack file, and
what was restored from the old one does not count. -/

namespace Unpack.Cache

open EffectProgram Interleaving

namespace ThreadState

variable {Json : Type}

/-- The request of a `get` that has not returned. -/
def request : ThreadState Json → Option CacheRequest
  | called request | planned request _ | restored request _ _ => some request
  | idle | readPublished _ => none

def plan : ThreadState Json → Option PersistentRestore
  | planned _ plan | restored _ plan _ => some plan
  | idle | called _ | readPublished _ => none

/-- The thread has a plan for its request, which reads from a pack file that was opened. -/
structure PlanValid (opened : Nat) (threadState : ThreadState Json) : Prop where
  opened : ∀ plan, threadState.plan = some plan → plan.packFile < opened
  address : ∀ plan request, threadState.plan = some plan → threadState.request = some request →
    plan.address = request.address.toPackFileAddress ∧ plan.etag = request.etag ∧
      plan.cacheNamespace = request.address.cacheNamespace

theorem PlanValid.of_plan_eq_none {opened : Nat} {threadState : ThreadState Json}
    (h : threadState.plan = none) : PlanValid opened threadState := by
  constructor
  · intro plan hplan
    rw [h] at hplan
    cases hplan
  · intro plan request hplan
    rw [h] at hplan
    cases hplan

theorem PlanValid.mono {opened later : Nat} {threadState : ThreadState Json}
    (h : PlanValid opened threadState) (hle : opened ≤ later) : PlanValid later threadState :=
  ⟨fun plan hplan => (h.opened plan hplan).trans_le hle, h.address⟩

theorem PlanValid.restored {opened : Nat} {request : CacheRequest} {plan : PersistentRestore}
    (h : PlanValid opened (planned request plan : ThreadState Json)) (entry : Option (CacheEntry Json)) :
    PlanValid opened (ThreadState.restored request plan entry) :=
  ⟨h.opened, h.address⟩

end ThreadState

section

variable {Thread Json : Type} (compressors : Compressors) (library : RecordLibrary Json)

/-- The names of the pack file's files are of this revision or earlier ones, all that it keeps was read from
disk, and what threads have restored from it is what it restores now. -/
structure ReadsSettled (state : CacheState Thread Json) (revision : UInt64) : Prop where
  named : ∀ (id : PackFileId) (packFile : PackFile), state.layers.currentPackFile = some id →
    state.layers.packFiles[id]? = some packFile →
      ∀ (address : PackFileAddress) (entry : PackFileIndexEntry),
        packFile.index.entries[address]? = some entry →
          ∃ packRevision packIndex packCount compression, packRevision ≤ revision ∧
            entry.content.file = contentPackPath packRevision packIndex packCount compression
  buffers : ∀ (id : PackFileId) (packFile : PackFile), state.layers.currentPackFile = some id →
    state.layers.packFiles[id]? = some packFile → packFile.BuffersSound compressors state.disk
  restored : ∀ (thread : Thread) (request : CacheRequest) (plan : PersistentRestore)
    (entry : Option (CacheEntry Json)) (packFile later : PackFile),
      state.threads thread = .restored request plan entry →
        state.layers.currentPackFile = some plan.packFile →
          state.layers.packFiles[plan.packFile]? = some packFile → packFile.Grown later →
            later.BuffersSound compressors state.disk →
              (plan.restoreFrom compressors library state.disk later).1 = entry

/-- No effect of the publication that holds the lock has hurt a reader, or the publication is bound to
succeed. -/
inductive DiskSettled (state : CacheState Thread Json) : Prop
  | unlocked (hlock : state.publishing = none) (hnamed : (readIndex state.disk).Named)
      (hsettled : ReadsSettled compressors library state (readIndex state.disk).revision)
  | locked {publishing : Publishing} {start : Disk} {guard : Option PackFileGuardDto}
      {base : PublicationBase} {batch : PackFileWriteBatch} {publicationOptions : PackFilePublicationOptions}
      {failed : List FileEffect} (hlock : state.publishing = some publishing)
      (hnamed : (readIndex start).Named)
      (hguarded : Guarded FileEffect.apply
        (StoppedWith start (InstalledBy compressors guard base batch publicationOptions start))
        (ReturnedWith start (InstalledBy compressors guard base batch publicationOptions start))
        (AgreesOnPacks (readIndex start).revision start) publishing.rest failed state.disk)
      (hsettled : Succeeds FileEffect.apply publishing.rest failed state.disk ∨
        ReadsSettled compressors library state (readIndex start).revision)

/-- The invariant of all runs. -/
structure CacheInvariant (state : CacheState Thread Json) : Prop where
  current : ∀ id, state.layers.currentPackFile = some id → id < state.layers.packFiles.length
  plans : ∀ thread, (state.threads thread).PlanValid state.layers.packFiles.length
  disk : DiskSettled compressors library state

variable {compressors library} {state next : CacheState Thread Json} {revision : UInt64}

theorem ReadsSettled.mono {later : UInt64} (h : ReadsSettled compressors library state revision)
    (hle : revision ≤ later) : ReadsSettled compressors library state later := by
  refine ⟨fun id packFile hcurrent hpackFile address entry hentry => ?_, h.buffers, h.restored⟩
  obtain ⟨packRevision, packIndex, packCount, compression, hrevision, hfile⟩ :=
    h.named id packFile hcurrent hpackFile address entry hentry
  exact ⟨packRevision, packIndex, packCount, compression, UInt64.le_trans hrevision hle, hfile⟩

/-- A step that leaves the disk and adds to the pack files at most what was read. -/
theorem ReadsSettled.step (h : ReadsSettled compressors library state revision)
    (hdisk : next.disk = state.disk)
    (hcurrent : next.layers.currentPackFile = state.layers.currentPackFile)
    (hpackFiles : ∀ (id : PackFileId) (after : PackFile), next.layers.packFiles[id]? = some after →
      ∃ before, state.layers.packFiles[id]? = some before ∧ before.Grown after ∧
        (before.BuffersSound compressors state.disk → after.BuffersSound compressors state.disk))
    (hthreads : ∀ (thread : Thread) (request : CacheRequest) (plan : PersistentRestore)
      (entry : Option (CacheEntry Json)), next.threads thread = .restored request plan entry →
        state.threads thread = .restored request plan entry ∨
          ∀ after later, next.layers.packFiles[plan.packFile]? = some after → after.Grown later →
            later.BuffersSound compressors state.disk →
              (plan.restoreFrom compressors library state.disk later).1 = entry) :
    ReadsSettled compressors library next revision := by
  constructor
  · intro id after hid hafter address entry hentry
    obtain ⟨before, hbefore, hgrown, -⟩ := hpackFiles id after hafter
    rw [hgrown.index] at hentry
    exact h.named id before (hcurrent ▸ hid) hbefore address entry hentry
  · intro id after hid hafter
    obtain ⟨before, hbefore, -, hkeeps⟩ := hpackFiles id after hafter
    rw [hdisk]
    exact hkeeps (h.buffers id before (hcurrent ▸ hid) hbefore)
  · intro thread request plan entry after later hthread hid hafter hgrown hsound
    rw [hdisk] at hsound ⊢
    obtain ⟨before, hbefore, hbeforeGrown, -⟩ := hpackFiles plan.packFile after hafter
    rcases hthreads thread request plan entry hthread with hold | hnew
    · exact h.restored thread request plan entry before later hold (hcurrent ▸ hid) hbefore
        (hbeforeGrown.trans hgrown) hsound
    · exact hnew after later hafter hgrown hsound

/-- Readers do not notice other disks with the same packs. -/
theorem ReadsSettled.of_packs (h : ReadsSettled compressors library state revision)
    (hlayers : next.layers = state.layers) (hthreads : next.threads = state.threads)
    (hpacks : ∀ packRevision packIndex packCount compression, packRevision ≤ revision →
      next.disk (contentPackPath packRevision packIndex packCount compression) =
        state.disk (contentPackPath packRevision packIndex packCount compression)) :
    ReadsSettled compressors library next revision := by
  have hfiles : ∀ (id : PackFileId) (packFile : PackFile), state.layers.currentPackFile = some id →
      state.layers.packFiles[id]? = some packFile → packFile.SameFiles state.disk next.disk := by
    intro id packFile hcurrent hpackFile address entry hentry
    obtain ⟨packRevision, packIndex, packCount, compression, hrevision, hfile⟩ :=
      h.named id packFile hcurrent hpackFile address entry hentry
    rw [hfile]
    exact hpacks packRevision packIndex packCount compression hrevision
  constructor
  · rw [hlayers]
    exact h.named
  · intro id packFile hcurrent hpackFile
    rw [hlayers] at hcurrent hpackFile
    exact (hfiles id packFile hcurrent hpackFile).buffersSound (h.buffers id packFile hcurrent hpackFile)
  · intro thread request plan entry packFile later hthread hcurrent hpackFile hgrown hsound
    rw [hlayers] at hcurrent hpackFile
    rw [hthreads] at hthread
    have hlater := (hfiles plan.packFile packFile hcurrent hpackFile).grown hgrown
    rw [PersistentRestore.restoreFrom_of_files hlater]
    exact h.restored thread request plan entry packFile later hthread hcurrent hpackFile hgrown
      (hlater.symm.buffersSound hsound)

/-- A step in which no effect of a publication is performed. -/
theorem DiskSettled.step (h : DiskSettled compressors library state)
    (hlock : next.publishing = state.publishing) (hdisk : next.disk = state.disk)
    (hsettled : ∀ revision, ReadsSettled compressors library state revision →
      ReadsSettled compressors library next revision) : DiskSettled compressors library next := by
  cases h with
  | unlocked hunlocked hnamed hreads =>
    refine .unlocked (hlock.trans hunlocked) ?_ ?_
    · rw [hdisk]
      exact hnamed
    · rw [hdisk]
      exact hsettled _ hreads
  | locked hlocked hnamed hguarded hreads =>
    rw [← hdisk] at hguarded
    refine .locked (hlock.trans hlocked) hnamed hguarded ?_
    rw [hdisk]
    exact hreads.imp_right (hsettled _)

theorem currentPackFile_of_persistent {layers later : CacheLayers Json}
    (h : later.persistent = layers.persistent) : later.currentPackFile = layers.currentPackFile := by
  unfold CacheLayers.currentPackFile
  rw [h]

/-- The layers are searched, by a thread that has no plan afterwards or one for its request. -/
theorem CacheInvariant.searched (h : CacheInvariant compressors library state)
    (hsearched : state.layers.Searched next.layers) (hlock : next.publishing = state.publishing)
    (hdisk : next.disk = state.disk)
    (hplans : ∀ thread, (next.threads thread).PlanValid state.layers.packFiles.length)
    (hthreads : ∀ thread request plan entry, next.threads thread = .restored request plan entry →
      state.threads thread = .restored request plan entry) :
    CacheInvariant compressors library next := by
  have hcurrent := currentPackFile_of_persistent hsearched.persistent
  refine ⟨fun id hid => ?_, fun thread => ?_, h.disk.step hlock hdisk fun revision hsettled => ?_⟩
  · rw [hsearched.length_eq]
    exact h.current id (hcurrent ▸ hid)
  · rw [hsearched.length_eq]
    exact hplans thread
  · refine hsettled.step hdisk hcurrent (fun id after hafter => ?_) fun thread request plan entry hthread =>
      Or.inl (hthreads thread request plan entry hthread)
    obtain ⟨before, hbefore, hgrown, hbuffers⟩ := hsearched.packFiles id after hafter
    refine ⟨before, hbefore, hgrown, fun hsound file retained hlookup => ?_⟩
    rw [hbuffers] at hlookup
    rw [hgrown.index]
    exact hsound file retained hlookup

/-- The layers change, but neither the pack files nor which one is read from. -/
theorem CacheInvariant.relayered (h : CacheInvariant compressors library state)
    (hcurrent : next.layers.currentPackFile = state.layers.currentPackFile)
    (hpackFiles : next.layers.packFiles = state.layers.packFiles)
    (hlock : next.publishing = state.publishing) (hdisk : next.disk = state.disk)
    (hthreads : next.threads = state.threads) : CacheInvariant compressors library next := by
  refine ⟨fun id hid => ?_, fun thread => ?_, h.disk.step hlock hdisk fun revision hsettled => ?_⟩
  · rw [hpackFiles]
    exact h.current id (hcurrent ▸ hid)
  · rw [hpackFiles, hthreads]
    exact h.plans thread
  · refine hsettled.step hdisk hcurrent (fun id after hafter => ?_) fun thread request plan entry hthread => ?_
    · rw [hpackFiles] at hafter
      exact ⟨after, hafter, .refl after, fun hsound => hsound⟩
    · rw [hthreads] at hthread
      exact Or.inl hthread

end

section

variable {Thread Json : Type} {compressors : Compressors} {library : RecordLibrary Json}
  {options : CacheOptions} {state next : CacheState Thread Json}

theorem Publishes.keeps {targetGeneration stamp : UInt64}
    {program : Option (Program Disk FileEffect IoError (Except IoError Unit))}
    (h : Publishes compressors library options state targetGeneration stamp program next) :
    next.layers.currentPackFile = state.layers.currentPackFile ∧
      next.layers.packFiles = state.layers.packFiles ∧ next.publishing = state.publishing ∧
        next.disk = state.disk ∧ next.threads = state.threads := by
  cases h with
  | done h => exact ⟨rfl, rfl, rfl, rfl, rfl⟩
  | nowhere h hslot hroot =>
    refine ⟨?_, rfl, rfl, rfl, rfl⟩
    unfold CacheLayers.currentPackFile
    rw [hslot]
    rfl
  | refused h hslot hroot hbatch => exact ⟨rfl, rfl, rfl, rfl, rfl⟩
  | started h hslot hroot hbatch => exact ⟨rfl, rfl, rfl, rfl, rfl⟩

/-- Nothing has happened yet to the disk that a publication starts from. -/
theorem Publishes.guarded {targetGeneration stamp : UInt64}
    {rest : Program Disk FileEffect IoError (Except IoError Unit)}
    (h : Publishes compressors library options state targetGeneration stamp (some rest) next)
    (hnamed : (readIndex state.disk).Named) :
    ∃ guard base batch publicationOptions,
      Guarded FileEffect.apply
        (StoppedWith state.disk (InstalledBy compressors guard base batch publicationOptions state.disk))
        (ReturnedWith state.disk (InstalledBy compressors guard base batch publicationOptions state.disk))
        (AgreesOnPacks (readIndex state.disk).revision state.disk) rest [] state.disk := by
  cases h with
  | refused h hslot hroot hbatch =>
    refine ⟨none, .replaceAll, {}, options.publicationOptions stamp, ?_, Or.inr (.refl _ _)⟩
    exact Or.inl ⟨List.not_mem_nil, .refl _ _⟩
  | started h hslot hroot hbatch => exact ⟨_, _, _, _, guarded_publishBatch _ _ _ _ hnamed⟩

theorem CacheInvariant.publishStart (h : CacheInvariant compressors library state)
    {targetGeneration stamp : UInt64}
    {program : Option (Program Disk FileEffect IoError (Except IoError Unit))}
    (hlock : state.publishing = none)
    (hpublishes : Publishes compressors library options state targetGeneration stamp program next) :
    CacheInvariant compressors library
      { next with publishing := program.map fun rest => ⟨targetGeneration, rest⟩ } := by
  obtain ⟨hcurrent, hpackFiles, hpublishing, hdisk, hthreads⟩ := hpublishes.keeps
  have hnext := h.relayered hcurrent hpackFiles hpublishing hdisk hthreads
  refine ⟨hnext.current, hnext.plans, ?_⟩
  cases hnext.disk with
  | locked hlocked => cases (hpublishing.trans hlock).symm.trans hlocked
  | unlocked hunlocked hnamed hsettled =>
    have hreads : ReadsSettled compressors library
        { next with publishing := program.map fun rest => (⟨targetGeneration, rest⟩ : Publishing) }
        (readIndex next.disk).revision :=
      ⟨hsettled.named, hsettled.buffers, hsettled.restored⟩
    cases program with
    | none => exact .unlocked rfl hnamed hreads
    | some rest =>
      rw [hdisk] at hnamed hreads
      obtain ⟨guard, base, batch, publicationOptions, hguarded⟩ := hpublishes.guarded hnamed
      rw [← hdisk] at hnamed hreads hguarded
      exact .locked rfl hnamed hguarded (Or.inr hreads)

/-- An effect leaves the packs that are read from, unless the publication is bound to succeed. -/
theorem CacheInvariant.publishEffect (h : CacheInvariant compressors library state) {publishing : Publishing}
    {rest : Program Disk FileEffect IoError (Except IoError Unit)} {disk : Disk}
    (hpublishing : state.publishing = some publishing)
    (hstep : Step FileEffect.apply publishing.rest state.disk rest disk) :
    CacheInvariant compressors library
      { state with disk, publishing := some { publishing with rest } } := by
  refine ⟨h.current, h.plans, ?_⟩
  cases h.disk with
  | unlocked hunlocked => cases hunlocked.symm.trans hpublishing
  | @locked _ start guard base batch publicationOptions failed hlocked hnamed hguarded hsettled =>
    cases hpublishing.symm.trans hlocked
    obtain ⟨failed', hnext⟩ := hguarded.step hstep
    refine .locked rfl hnamed hnext ?_
    rcases hsettled with hsucceeds | hreads
    · exact Or.inl (hsucceeds.step hstep)
    · rcases hnext.kept with hsucceeds | hkept
      · exact Or.inl hsucceeds
      · rcases hguarded.kept with hsucceeds | hkeptBefore
        · exact Or.inl (hsucceeds.step hstep)
        · refine Or.inr (hreads.of_packs rfl rfl fun packRevision packIndex packCount compression hle => ?_)
          calc disk (contentPackPath packRevision packIndex packCount compression)
              = start (contentPackPath packRevision packIndex packCount compression) :=
                hkept packRevision packIndex packCount compression hle
            _ = state.disk (contentPackPath packRevision packIndex packCount compression) :=
                (hkeptBefore packRevision packIndex packCount compression hle).symm

/-- After a failure the pack file that is read from has all its files. -/
theorem CacheInvariant.publishFailed (h : CacheInvariant compressors library state) {publishing : Publishing}
    {error : IoError} (hpublishing : state.publishing = some publishing)
    (hrest : publishing.rest = .done (.error error)) :
    CacheInvariant compressors library { state with publishing := none } := by
  refine ⟨h.current, h.plans, ?_⟩
  cases h.disk with
  | unlocked hunlocked => cases hunlocked.symm.trans hpublishing
  | @locked _ start guard base batch publicationOptions failed hlocked hnamed hguarded hsettled =>
    cases hpublishing.symm.trans hlocked
    rw [hrest] at hguarded hsettled
    have hreturned : ReturnedWith start (InstalledBy compressors guard base batch publicationOptions start)
        (.error error) failed state.disk := hguarded.1
    obtain ⟨hnewNamed, hrevision⟩ := hreturned.named hnamed
    rcases hsettled with hsucceeds | hreads
    · cases hsucceeds
    · have hmono := hreads.mono hrevision
      exact .unlocked rfl hnewNamed ⟨hmono.named, hmono.buffers, hmono.restored⟩

/-- After a success no thread has a plan for the pack file that was opened. -/
theorem CacheInvariant.publishSucceeded (h : CacheInvariant compressors library state)
    {publishing : Publishing} (hpublishing : state.publishing = some publishing)
    (hrest : publishing.rest = .done (.ok ())) :
    CacheInvariant compressors library { state with
      publishing := none
      layers := state.layers.published options state.disk
      publishedGeneration := max state.publishedGeneration publishing.targetGeneration } := by
  have hcurrent : ∀ id, (state.layers.published options state.disk).currentPackFile = some id →
      id = state.layers.packFiles.length := by
    intro id hid
    unfold CacheLayers.published CacheLayers.currentPackFile at hid
    cases hpersistent : state.layers.persistent with
    | none =>
      rw [hpersistent] at hid
      cases hid
    | some slot =>
      rw [hpersistent] at hid
      exact (Option.some_inj.mp hid).symm
  have hopened : ∀ packFile,
      (state.layers.published options state.disk).packFiles[state.layers.packFiles.length]? = some packFile →
        packFile = PackFile.openWithOptions state.disk options.allowCollectingMemory := by
    intro packFile hpackFile
    change (state.layers.packFiles ++ [_])[_]? = _ at hpackFile
    rw [List.getElem?_append_right (Nat.le_refl _), Nat.sub_self] at hpackFile
    exact (Option.some_inj.mp hpackFile).symm
  have hlength : (state.layers.published options state.disk).packFiles.length =
      state.layers.packFiles.length + 1 := by
    change (state.layers.packFiles ++ [_]).length = _
    rw [List.length_append, List.length_singleton]
  cases h.disk with
  | unlocked hunlocked => cases hunlocked.symm.trans hpublishing
  | @locked _ start guard base batch publicationOptions failed hlocked hnamed hguarded hsettled =>
    cases hpublishing.symm.trans hlocked
    rw [hrest] at hguarded
    have hreturned : ReturnedWith start (InstalledBy compressors guard base batch publicationOptions start)
        (.ok ()) failed state.disk := hguarded.1
    have hnewNamed := (hreturned.named hnamed).1
    refine ⟨fun id hid => ?_, fun thread => ?_, .unlocked rfl hnewNamed ⟨?_, ?_, ?_⟩⟩
    · rw [hcurrent id hid, hlength]
      exact Nat.lt_succ_self _
    · rw [hlength]
      exact (h.plans thread).mono (Nat.le_succ _)
    · intro id packFile hid hpackFile address entry hentry
      rw [hcurrent id hid] at hpackFile
      rw [hopened packFile hpackFile] at hentry
      exact hnewNamed address entry hentry
    · intro id packFile hid hpackFile
      rw [hcurrent id hid] at hpackFile
      rw [hopened packFile hpackFile]
      exact PackFile.buffersSound_open _
    · intro thread request plan entry packFile later hthread hid
      have hold := (h.plans thread).opened plan (by rw [show state.threads thread = _ from hthread]; rfl)
      rw [hcurrent _ hid] at hold
      exact absurd hold (Nat.lt_irrefl _)

theorem resumes_request {layers later : CacheLayers Json} {threadState : ThreadState Json}
    {request : CacheRequest} {result : CacheGet Json} (h : Resumes layers threadState request result later) :
    threadState.request = some request := by
  cases h with
  | start h => rfl
  | finish h => rfl

theorem planFor_current {layers : CacheLayers Json} {request : CacheRequest} {plan current : PersistentRestore}
    (haddress : plan.address = request.address.toPackFileAddress ∧ plan.etag = request.etag ∧
      plan.cacheNamespace = request.address.cacheNamespace)
    (hcurrent : layers.planFor request = some current) (hreads : current.readsFrom plan = true) :
    current = plan := by
  obtain ⟨-, haddress', hetag', hnamespace'⟩ := CacheLayers.planFor_eq_some hcurrent
  obtain ⟨haddress, hetag, hnamespace⟩ := haddress
  unfold PersistentRestore.readsFrom at hreads
  rw [Bool.and_eq_true, decide_eq_true_eq, decide_eq_true_eq] at hreads
  obtain ⟨hgeneration, hpackFile⟩ := hreads
  cases current
  cases plan
  simp_all only

/-- Whatever part of a `get` is done under the lock, it leaves the pack files but for their accesses, and it
answers as the atomic lookup does. -/
theorem CacheInvariant.resumes (h : CacheInvariant compressors library state)
    (hlock : state.publishing = none) {thread : Thread} {request : CacheRequest} {result : CacheGet Json}
    {layers : CacheLayers Json}
    (hresumes : Resumes state.layers (state.threads thread) request result layers) :
    state.layers.Searched layers ∧ state.layers.Answers compressors library state.disk request result := by
  cases hdisk : h.disk with
  | locked hlocked => cases hlock.symm.trans hlocked
  | unlocked hunlocked hnamed hsettled =>
    cases hthread : state.threads thread with
    | idle | planned | readPublished =>
      rw [hthread] at hresumes
      cases hresumes
    | called =>
      rw [hthread] at hresumes
      cases hresumes with
      | start hbegin => exact CacheLayers.beginGet_spec hbegin
    | restored other plan entry =>
      rw [hthread] at hresumes
      cases hresumes with
      | finish hfinish =>
        have hvalid := h.plans thread
        rw [hthread] at hvalid
        have haddress := hvalid.address plan request rfl rfl
        refine CacheLayers.finishRestore_spec (fun hplan => ?_)
          (fun current hcurrent hreads => planFor_current haddress hcurrent hreads) hfinish
        have hid := (CacheLayers.planFor_eq_some hplan).1
        have hpackFile := List.getElem?_eq_getElem (h.current plan.packFile hid)
        have hrestored := hsettled.restored thread request plan entry _ _ hthread hid hpackFile (.refl _)
          (hsettled.buffers _ _ hid hpackFile)
        rw [state.layers.activePackFile_eq request, hplan, Option.bind_some, hpackFile, Option.bind_some,
          CacheLayers.restoredValue_eq haddress.1 haddress.2.1 haddress.2.2, hrestored]

variable [DecidableEq Thread]

theorem setThread_threads (state : CacheState Thread Json) (thread other : Thread)
    (threadState : ThreadState Json) :
    (state.setThread thread threadState).threads other =
      if other = thread then threadState else state.threads other := by
  rw [CacheState.setThread]
  exact Function.update_apply ..

/-- A restore reads one pack file, and leaves the others. -/
theorem CacheLayers.restore_spec {layers later : CacheLayers Json} {disk : Disk} {plan : PersistentRestore}
    {entry : Option (CacheEntry Json)}
    (hrestore : layers.restore compressors library disk plan = (entry, later)) :
    later.persistent = layers.persistent ∧ later.packFiles.length = layers.packFiles.length ∧
      ∀ (id : PackFileId) (after : PackFile), later.packFiles[id]? = some after →
        ∃ before, layers.packFiles[id]? = some before ∧ before.Grown after ∧
          (before.BuffersSound compressors disk → after.BuffersSound compressors disk) ∧
            (id = plan.packFile → after = (plan.restoreFrom compressors library disk before).2 ∧
              entry = (plan.restoreFrom compressors library disk before).1) := by
  unfold CacheLayers.restore at hrestore
  cases hpackFile : layers.packFiles[plan.packFile]? with
  | none =>
    rw [hpackFile] at hrestore
    cases hrestore
    refine ⟨rfl, rfl, fun id after hafter => ⟨after, hafter, .refl after, fun hsound => hsound, fun hid => ?_⟩⟩
    rw [hid, hpackFile] at hafter
    cases hafter
  | some packFile =>
    rw [hpackFile] at hrestore
    cases hrestore
    refine ⟨rfl, List.length_set .., fun id after hafter => ?_⟩
    change (layers.packFiles.set _ _)[id]? = _ at hafter
    rw [List.getElem?_set] at hafter
    split_ifs at hafter with hid hlength
    · subst hid
      cases hafter
      exact ⟨packFile, hpackFile, PersistentRestore.grown_restoreFrom ..,
        PersistentRestore.restoreFrom_keeps library plan, fun _ => ⟨rfl, rfl⟩⟩
    · exact ⟨after, hafter, .refl after, fun hsound => hsound, fun hsame => absurd hsame.symm hid⟩

theorem CacheInvariant.restore (h : CacheInvariant compressors library state) {thread : Thread}
    {request : CacheRequest} {plan : PersistentRestore} {entry : Option (CacheEntry Json)}
    {layers : CacheLayers Json} (hthread : state.threads thread = .planned request plan)
    (hrestore : state.layers.restore compressors library state.disk plan = (entry, layers)) :
    CacheInvariant compressors library
      ({ state with layers }.setThread thread (.restored request plan entry)) := by
  obtain ⟨hpersistent, hlength, hpackFiles⟩ := CacheLayers.restore_spec hrestore
  have hcurrent := currentPackFile_of_persistent hpersistent
  refine ⟨fun id hid => ?_, fun other => ?_, h.disk.step rfl rfl fun revision hsettled => ?_⟩
  · change id < layers.packFiles.length
    rw [hlength]
    exact h.current id (hcurrent ▸ hid)
  · change ((CacheState.setThread _ thread _).threads other).PlanValid layers.packFiles.length
    rw [hlength, setThread_threads]
    have hvalid := h.plans thread
    rw [hthread] at hvalid
    split_ifs with hsame
    · exact hvalid.restored entry
    · exact h.plans other
  · refine hsettled.step rfl hcurrent (fun id after hafter => ?_)
      fun other otherRequest otherPlan otherEntry hother => ?_
    · obtain ⟨before, hbefore, hgrown, hkeeps, -⟩ := hpackFiles id after hafter
      exact ⟨before, hbefore, hgrown, hkeeps⟩
    · rw [setThread_threads] at hother
      split_ifs at hother with hsame
      · cases hother
        refine Or.inr fun after later hafter hgrown hsound => ?_
        obtain ⟨before, -, -, -, hid⟩ := hpackFiles _ after hafter
        obtain ⟨rfl, rfl⟩ := hid rfl
        exact PersistentRestore.restoreFrom_settled hgrown hsound
      · exact Or.inl hother

theorem CacheInvariant.step (h : CacheInvariant compressors library state) {event : Event Thread Json}
    (hstep : CacheStep compressors library options state event next) :
    CacheInvariant compressors library next := by
  have hidle : ∀ (thread other : Thread) (threadState : ThreadState Json), threadState.plan = none →
      ((state.setThread thread threadState).threads other).PlanValid state.layers.packFiles.length := by
    intro thread other threadState hplan
    rw [setThread_threads]
    split_ifs
    · exact .of_plan_eq_none hplan
    · exact h.plans other
  have hthreads : ∀ (thread other : Thread) (threadState : ThreadState Json)
      (request : CacheRequest) (plan : PersistentRestore) (entry : Option (CacheEntry Json)),
      (∀ entry, threadState ≠ .restored request plan entry) →
      (state.setThread thread threadState).threads other = .restored request plan entry →
        state.threads other = .restored request plan entry := by
    intro thread other threadState request plan entry hne hother
    rw [setThread_threads] at hother
    split_ifs at hother
    · exact absurd hother (hne entry)
    · exact hother
  cases hstep with
  | @call thread request hthread =>
    refine h.searched (.refl _) rfl rfl (fun other => hidle thread other _ rfl) fun other _ _ _ hother => ?_
    exact hthreads thread other (.called request) _ _ _ (fun _ => nofun) hother
  | @plan thread request plan layers hlock hresumes =>
    obtain ⟨hsearched, hplan⟩ := h.resumes hlock hresumes
    refine h.searched hsearched rfl rfl (fun other => ?_) fun other _ _ _ hother => ?_
    · rw [setThread_threads]
      split_ifs
      · obtain ⟨hcurrent, haddress⟩ := CacheLayers.planFor_eq_some hplan
        refine ⟨fun valid hvalid => ?_, fun valid other hvalid hother => ?_⟩
        · cases hvalid
          exact h.current _ hcurrent
        · cases hvalid
          cases hother
          exact haddress
      · exact h.plans other
    · exact hthreads thread other (.planned request plan) _ _ _ (fun _ => nofun) hother
  | restore hthread hrestore => exact h.restore hthread hrestore
  | @answer thread request value changed layers hlock hresumes =>
    rw [CacheState.markDirty_eq]
    refine h.searched (h.resumes hlock hresumes).1 rfl rfl (fun other => hidle thread other .idle rfl)
      fun other _ _ _ hother => ?_
    exact hthreads thread other .idle _ _ _ (fun _ => nofun) hother
  | store address entry hlock =>
    rw [CacheState.markDirty_eq]
    exact h.relayered (CacheLayers.currentPackFile_store _ address entry) rfl rfl rfl rfl
  | clear hlock => exact h.relayered (CacheLayers.currentPackFile_clear _) rfl rfl rfl rfl
  | prepare preparation hkind hlock =>
    rw [CacheState.markDirty_eq]
    obtain ⟨hcurrent, hpackFiles⟩ := CacheState.prepareLayers_keeps state preparation
    exact h.relayered hcurrent hpackFiles rfl rfl rfl
  | compilationCompleted hlock => exact h.relayered rfl rfl rfl rfl rfl
  | @readPublished thread hthread hwritable =>
    refine h.searched (.refl _) rfl rfl (fun other => hidle thread other _ rfl) fun other _ _ _ hother => ?_
    exact hthreads thread other (.readPublished _) _ _ _ (fun _ => nofun) hother
  | @pendingGeneration thread publishedGeneration hthread =>
    refine h.searched (.refl _) rfl rfl (fun other => hidle thread other .idle rfl)
      fun other _ _ _ hother => ?_
    exact hthreads thread other .idle _ _ _ (fun _ => nofun) hother
  | publishStart hwritable hlock hpublishes => exact h.publishStart hlock hpublishes
  | publishEffect hpublishing hstep => exact h.publishEffect hpublishing hstep
  | publishFailed hpublishing hrest => exact h.publishFailed hpublishing hrest
  | publishSucceeded hpublishing hrest => exact h.publishSucceeded hpublishing hrest

omit [DecidableEq Thread] in
theorem CacheInvariant.opened {disk : Disk} (hnamed : (readIndex disk).Named) :
    CacheInvariant compressors library (openedCache options disk : CacheState Thread Json) := by
  have hcases : (CacheLayers.fromOptions options disk : CacheLayers Json).currentPackFile = none ∨
      (CacheLayers.fromOptions options disk : CacheLayers Json).currentPackFile = some 0 ∧
        (CacheLayers.fromOptions options disk : CacheLayers Json).packFiles =
          [PackFile.openWithOptions disk options.allowCollectingMemory] := by
    by_cases hkind : options.kind = .filesystem
    · cases hlocation : options.cacheLocation with
      | false =>
        left
        simp [CacheLayers.fromOptions, PackFileCacheLayer.openLayer, CacheLayers.currentPackFile, hkind,
          hlocation]
      | true =>
        right
        simp [CacheLayers.fromOptions, PackFileCacheLayer.openLayer, CacheLayers.currentPackFile, hkind,
          hlocation]
    · left
      simp [CacheLayers.fromOptions, CacheLayers.currentPackFile, hkind]
  have hopened : ∀ (id : PackFileId) (packFile : PackFile),
      (CacheLayers.fromOptions options disk : CacheLayers Json).currentPackFile = some id →
        (CacheLayers.fromOptions options disk : CacheLayers Json).packFiles[id]? = some packFile →
          packFile = PackFile.openWithOptions disk options.allowCollectingMemory := by
    intro id packFile hid hpackFile
    rcases hcases with hnone | ⟨hzero, hpackFiles⟩
    · cases hnone.symm.trans hid
    · cases hzero.symm.trans hid
      rw [hpackFiles] at hpackFile
      exact (Option.some_inj.mp hpackFile).symm
  refine ⟨fun id hid => ?_, fun thread => .of_plan_eq_none rfl, .unlocked rfl hnamed ⟨?_, ?_, ?_⟩⟩
  · change (CacheLayers.fromOptions options disk : CacheLayers Json).currentPackFile = some id at hid
    change id < (CacheLayers.fromOptions options disk : CacheLayers Json).packFiles.length
    rcases hcases with hnone | ⟨hzero, hpackFiles⟩
    · cases hnone.symm.trans hid
    · cases hzero.symm.trans hid
      rw [hpackFiles]
      exact Nat.zero_lt_one
  · intro id packFile hid hpackFile address entry hentry
    rw [hopened id packFile hid hpackFile] at hentry
    exact hnamed address entry hentry
  · intro id packFile hid hpackFile
    rw [hopened id packFile hid hpackFile]
    exact PackFile.buffersSound_open _
  · intro thread request plan entry packFile later hthread
    cases hthread

/-- The calls of `get`. -/
def Event.called : Event Thread Json → Option (Thread × CacheRequest)
  | call thread request => some (thread, request)
  | _ => none

/-- The returns of `get`. -/
def Event.returned : Event Thread Json → Option (Thread × Option (Option (CacheValue Json)))
  | answer thread value => some (thread, some value)
  | _ => none

variable (compressors library) in
/-- What the atomic lookup finds when it can have the lock. -/
def CacheState.lookupUnderLock (state : CacheState Thread Json) (request : CacheRequest) :
    Option (Option (CacheValue Json)) :=
  if state.publishing.isSome then none
  else some (state.layers.atomicLookup compressors library state.disk request)

/-- A `get` goes on with its request until it returns. -/
theorem request_of_step {event : Event Thread Json}
    (hstep : CacheStep compressors library options state event next) {thread : Thread}
    {request : CacheRequest} (hserving : (state.threads thread).request = some request)
    (hevent : ∀ value, event.returned ≠ some (thread, value)) :
    (next.threads thread).request = some request := by
  have hother : ∀ (acting : Thread) (threadState : ThreadState Json),
      (acting = thread → threadState.request = some request) →
        ((state.setThread acting threadState).threads thread).request = some request := by
    intro acting threadState hsame
    rw [setThread_threads]
    split_ifs with hthread
    · exact hsame hthread.symm
    · exact hserving
  cases hstep with
  | @call acting called hthread =>
    refine hother acting (.called called) fun hsame => ?_
    rw [← hsame, hthread] at hserving
    cases hserving
  | @plan acting planned plan layers hlock hresumes =>
    refine hother acting (.planned planned plan) fun hsame => ?_
    rw [← hsame, resumes_request hresumes] at hserving
    exact hserving
  | @restore acting planned plan entry layers hthread hrestore =>
    refine hother acting (.restored planned plan entry) fun hsame => ?_
    rw [← hsame, hthread] at hserving
    exact hserving
  | @answer acting answered value changed layers hlock hresumes =>
    rw [CacheState.markDirty_eq]
    refine hother acting .idle fun hsame => ?_
    rw [hsame] at hevent
    exact absurd rfl (hevent (some value))
  | store address entry hlock =>
    rw [CacheState.markDirty_eq]
    exact hserving
  | clear hlock => exact hserving
  | prepare preparation hkind hlock =>
    rw [CacheState.markDirty_eq]
    exact hserving
  | compilationCompleted hlock => exact hserving
  | @readPublished acting hthread hwritable =>
    refine hother acting (.readPublished _) fun hsame => ?_
    rw [← hsame, hthread] at hserving
    cases hserving
  | @pendingGeneration acting publishedGeneration hthread =>
    refine hother acting .idle fun hsame => ?_
    rw [← hsame, hthread] at hserving
    cases hserving
  | publishStart hwritable hlock hpublishes =>
    obtain ⟨-, -, -, -, hthreads⟩ := hpublishes.keeps
    rw [← hthreads] at hserving
    exact hserving
  | publishEffect hpublishing hstep => exact hserving
  | publishFailed hpublishing hrest => exact hserving
  | publishSucceeded hpublishing hrest => exact hserving

/-- Every `get` answers what an atomic lookup finds at an instant between its call and its return, when no
publication holds the lock: with any steps of other threads in between, and on any root whose index is left by
publications, whatever has become of its packs. The instant is that of its return, so that nothing counts which
was cleared, replaced or deactivated before. What is found is held under the etag that was asked for, by a layer
that is active at that instant. -/
theorem get_linearizable {disk : Disk} (hdisk : WrittenRoot compressors disk) (options : CacheOptions) :
    Linearizable (fun state : CacheState Thread Json => state = openedCache options disk)
        (CacheStep compressors library options) Event.called Event.returned
        (CacheState.lookupUnderLock compressors library) ∧
      AnswersAtReturn (fun state : CacheState Thread Json => state = openedCache options disk)
        (CacheStep compressors library options) Event.called Event.returned
        (CacheState.lookupUnderLock compressors library) ∧
      ∀ (state : CacheState Thread Json) (request : CacheRequest) (value : CacheValue Json),
        state.lookupUnderLock compressors library request = some (some value) →
          state.layers.HoldsUnderETag request value := by
  have hreturn : AnswersAtReturn (fun state : CacheState Thread Json => state = openedCache options disk)
      (CacheStep compressors library options) Event.called Event.returned
      (CacheState.lookupUnderLock compressors library) := by
    refine @answersAtReturn_of_last_step _ _ _ _ (CacheInvariant compressors library) _ _ _ _ _ _
      (fun state thread request => (state.threads thread).request = some request) ?_ ?_ ?_ ?_ ?_
    · rintro state rfl
      exact .opened hdisk.named
    · intro state event next h hstep
      exact h.step hstep
    · intro state event next thread request hstep hevent
      cases hstep with
      | call called hthread =>
        cases hevent
        rw [setThread_threads, if_pos rfl]
        rfl
      | _ => cases hevent
    · intro state event next thread request hstep hserving hevent
      exact request_of_step hstep hserving hevent
    · intro state event next thread request value h hstep hserving hevent
      cases hstep with
      | answer hlock hresumes =>
        cases hevent
        cases (resumes_request hresumes).symm.trans hserving
        rw [CacheState.lookupUnderLock, hlock, if_neg (by decide)]
        exact congrArg some (h.resumes hlock hresumes).2
      | _ => cases hevent
  refine ⟨hreturn.linearizable, hreturn, fun state request value hvalue => ?_⟩
  unfold CacheState.lookupUnderLock at hvalue
  split_ifs at hvalue
  exact CacheLayers.atomicLookup_holds (Option.some_inj.mp hvalue)

end

/-- JSON values are not used. -/
def noJson : RecordLibrary Unit where
  parsedModules := {
    toString := fun _ => .ok "null"
    fromString := fun _ => .ok ()
    localInputHash := fun _ _ _ => 0 }
  readsSourceMap := fun _ => true

/-- On a root with a published pack. -/
theorem get_linearizable_publishedRoot :
    ((readIndex publishedRoot).entries[assetAddress]?).isSome = true ∧
      AnswersAtReturn (fun state : CacheState Bool Unit =>
          state = openedCache ⟨.filesystem, true, none, 0, none, .none, false, false⟩ publishedRoot)
        (CacheStep storingCompressors noJson ⟨.filesystem, true, none, 0, none, .none, false, false⟩)
        Event.called Event.returned (CacheState.lookupUnderLock storingCompressors noJson) := by
  have hroot : WrittenRoot storingCompressors publishedRoot := ⟨publishedRoot, publishedRoot_reachable, rfl⟩
  exact ⟨by decide +kernel, (get_linearizable hroot _).2.1⟩

end Unpack.Cache
