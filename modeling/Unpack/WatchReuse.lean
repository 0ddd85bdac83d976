import Unpack.Lib.Run
import Unpack.UnsafeWatchCache

/-! Watching compilations one after the other. Paths are touched at any time, and the changes with which a
compilation begins name those touched since the one before began. Then a record that is taken over says what the
files are now, but for paths touched since and for managed items, whose own files no change set is compared with. -/

namespace Unpack.CacheItem

open Cache (CacheETag)
open Interleaving TurnCache FileTrees

variable {Json : Type}

structure WatchedCompiler (Json : Type) where
  trees : FileTrees
  /-- Since the compilation began. -/
  touched : PathBuf → Prop
  changes : Option WatchChangeSet
  cache : UnsafeWatchCache Json

/-- What happens, with the answers that are given. -/
inductive WatchEvent (Json : Type) where
  | edit
  | beginCompilation (changes : Option WatchChangeSet)
  | getResolve (request : ResolveRequest) (found : Lookup ResolveRecord)
  | rememberResolve (request : ResolveRequest) (record : ResolveRecord)
  | getModuleBuild (identity : ModuleIdentity) (etag : CacheETag) (found : Lookup (UnsafeModuleBuildRecord Json))
  | rememberModuleBuild (identity : ModuleIdentity) (etag : CacheETag) (record : ModuleBuildRecord Json)

section

variable (strategy : SnapshotStrategy) (info : FileSystemInfo)

/-- The entry is valid, or it reads what has been touched since the compilation began. -/
def SnapshotEntry.IsCurrent (state : WatchedCompiler Json) (entry : SnapshotEntry) : Prop :=
  (∃ path, state.touched path ∧ entry.Reads path) ∨
    entry.isValid (state.trees.toFileSystem info) strategy info state.trees.itemState = true

/-- As far as the watcher can tell. -/
def SnapshotEntry.IsTrusted (state : WatchedCompiler Json) (entry : SnapshotEntry) : Prop :=
  entry.IsCurrent strategy info state ∨ entry.asksManaged info state.trees = true

/-- What is left of the validity of an entry since an earlier state. -/
def Snapshot.StaysTrusted (before state : WatchedCompiler Json) (snapshot : Snapshot) : Prop :=
  ∀ entry ∈ snapshot.entries, entry.IsCurrent strategy info before → entry.IsTrusted strategy info state

end

/-- The compilations that began in between had changes, none of which affects the snapshot. -/
def Snapshot.Unaffected (passed : List (WatchedCompiler Json × WatchEvent Json)) (snapshot : Snapshot) : Prop :=
  ∀ event ∈ passed.map Prod.snd, ∀ changes, event = .beginCompilation changes →
    ∃ named, changes = some named ∧ snapshot.isAffectedBy named = false

/-- The cache is asked only in a compilation that began with changes. -/
inductive WatchStep (state : WatchedCompiler Json) : WatchEvent Json → WatchedCompiler Json → Prop
  | edit {trees : FileTrees} {touched : PathBuf → Prop} (h : AgreeOutside touched state.trees trees) :
      WatchStep state .edit { state with trees, touched := fun path => state.touched path ∨ touched path }
  | beginCompilation (changes : Option WatchChangeSet)
      (h : ∀ named, changes = some named → ∀ path, state.touched path → named.Names path) :
      WatchStep state (.beginCompilation changes)
        { state with
          touched := fun _ => False
          changes
          cache := state.cache.beginCompilation changes.isSome }
  | getResolve (request : ResolveRequest) {changes : WatchChangeSet} (h : state.changes = some changes) :
      WatchStep state (.getResolve request (state.cache.getResolve request changes).1)
        { state with cache := (state.cache.getResolve request changes).2 }
  | rememberResolve (request : ResolveRequest) (record : ResolveRecord) :
      WatchStep state (.rememberResolve request record)
        { state with cache := state.cache.rememberResolve request record }
  | getModuleBuild (identity : ModuleIdentity) (etag : CacheETag) {changes : WatchChangeSet}
      (h : state.changes = some changes) :
      WatchStep state (.getModuleBuild identity etag (state.cache.getModuleBuild identity etag changes).1)
        { state with cache := (state.cache.getModuleBuild identity etag changes).2 }
  | rememberModuleBuild (identity : ModuleIdentity) (etag : CacheETag) (record : ModuleBuildRecord Json) :
      WatchStep state (.rememberModuleBuild identity etag record)
        { state with cache := state.cache.rememberModuleBuild identity etag record }

/-- Nothing is remembered before the first compilation begins. -/
def WatchedCompiler.Fresh (state : WatchedCompiler Json) : Prop := state.cache = {} ∧ state.changes = none

variable {resolveStrategy moduleStrategy strategy : SnapshotStrategy} {info : FileSystemInfo}
  {state next : WatchedCompiler Json} {event : WatchEvent Json}

theorem SnapshotEntry.IsTrusted.edit {entry : SnapshotEntry} {trees : FileTrees} {touched : PathBuf → Prop}
    (h : entry.IsTrusted strategy info state) (hagree : AgreeOutside touched state.trees trees) :
    entry.IsTrusted strategy info
      { state with trees, touched := fun path => state.touched path ∨ touched path } := by
  by_cases hreads : ∃ path, touched path ∧ entry.Reads path
  · obtain ⟨path, htouched, hread⟩ := hreads
    exact Or.inl (Or.inl ⟨path, Or.inr htouched, hread⟩)
  · have hapart : ∀ path, touched path → ¬ entry.Reads path :=
      fun path htouched hread => hreads ⟨path, htouched, hread⟩
    have hasks : entry.asksManaged info state.trees = entry.asksManaged info trees := hagree.asksManaged hapart
    cases hmanaged : entry.asksManaged info trees with
    | true => exact Or.inr hmanaged
    | false =>
        refine Or.inl ?_
        rcases h with (⟨path, htouched, hread⟩ | hvalid) | hbefore
        · exact Or.inl ⟨path, Or.inl htouched, hread⟩
        · exact Or.inr ((hagree.isValid hapart hmanaged).symm.trans hvalid)
        · exact absurd (hasks.symm.trans hbefore) (Bool.eq_false_iff.mp hmanaged)

/-- What is touched is named, and what is named affects the entries that read it. -/
theorem SnapshotEntry.IsTrusted.begin {entry : SnapshotEntry} {changes : WatchChangeSet}
    (h : entry.IsTrusted strategy info state) (hnames : ∀ path, state.touched path → changes.Names path)
    (hunaffected : changes.affectsPath entry.path entry.isContext = false) {cache : UnsafeWatchCache Json} :
    entry.IsTrusted strategy info ⟨state.trees, fun _ => False, some changes, cache⟩ := by
  rcases h with (⟨path, htouched, hreads⟩ | hvalid) | hmanaged
  · have haffects := changes.affectsPath_of_names (hnames path htouched) hreads
    rw [hunaffected] at haffects
    cases haffects
  · exact Or.inl (Or.inr hvalid)
  · exact Or.inr hmanaged

theorem Snapshot.StaysTrusted.step {before : WatchedCompiler Json} {snapshot : Snapshot}
    (h : snapshot.StaysTrusted strategy info before state) (hstep : WatchStep state event next)
    (hunaffected : snapshot.Unaffected [(state, event)]) : snapshot.StaysTrusted strategy info before next := by
  intro entry hentry hbefore
  have htrusted := h entry hentry hbefore
  cases hstep with
  | edit hagree => exact htrusted.edit hagree
  | beginCompilation changes hnames =>
      obtain ⟨named, rfl, hnamed⟩ := hunaffected _ (List.mem_singleton_self _) changes rfl
      exact htrusted.begin (hnames named rfl) (Bool.eq_false_iff.mpr (List.any_eq_false.mp hnamed entry hentry))
  | getResolve | rememberResolve | getModuleBuild | rememberModuleBuild => exact htrusted

/-- The record was remembered at some time, and no changes have affected it since. -/
def Snapshot.Remembered (strategy : SnapshotStrategy) (info : FileSystemInfo)
    (trace : List (WatchedCompiler Json × WatchEvent Json)) (state : WatchedCompiler Json)
    (remembers : WatchEvent Json → Prop) (snapshot : Snapshot) : Prop :=
  ∃ first before event last, trace = first ++ (before, event) :: last ∧ remembers event ∧
    snapshot.Unaffected last ∧ snapshot.StaysTrusted strategy info before state

variable {trace : List (WatchedCompiler Json × WatchEvent Json)} {remembers : WatchEvent Json → Prop}
  {snapshot : Snapshot}

theorem Snapshot.Remembered.step (h : snapshot.Remembered strategy info trace state remembers)
    (hstep : WatchStep state event next) (hunaffected : snapshot.Unaffected [(state, event)]) :
    snapshot.Remembered strategy info (trace ++ [(state, event)]) next remembers := by
  obtain ⟨first, before, remembered, last, rfl, hremembers, hlast, htrusted⟩ := h
  refine ⟨first, before, remembered, last ++ [(state, event)], ?_, hremembers, ?_, htrusted.step hstep hunaffected⟩
  · rw [List.append_assoc, List.cons_append]
  · intro passed hpassed
    rw [List.map_append, List.mem_append] at hpassed
    exact hpassed.elim (hlast passed) (hunaffected passed)

theorem Snapshot.Remembered.now (hstep : WatchStep state event next) (hremembers : remembers event)
    (hunaffected : snapshot.Unaffected [(state, event)]) :
    snapshot.Remembered strategy info (trace ++ [(state, event)]) next remembers := by
  refine ⟨trace, state, event, [], rfl, hremembers, fun _ hpassed => absurd hpassed List.not_mem_nil, ?_⟩
  have hstart : snapshot.StaysTrusted strategy info state state := fun _ _ hcurrent => Or.inl hcurrent
  exact hstart.step hstep hunaffected

/-- An event that begins no compilation leaves every snapshot unaffected. -/
theorem Snapshot.unaffected_of_ne (h : ∀ changes, event ≠ .beginCompilation changes) :
    snapshot.Unaffected [(state, event)] := by
  intro passed hpassed changes heq
  exact absurd ((List.mem_singleton.mp hpassed).symm.trans heq) (h changes)

def RemembersResolve (key : PathKey × String) (record : ResolveRecord) (event : WatchEvent Json) : Prop :=
  ∃ request : ResolveRequest, request.hashKey = key ∧ event = .rememberResolve request record

def RemembersModuleBuild (key : ModuleIdentityKey) (cached : UnsafeModuleBuildRecord Json)
    (event : WatchEvent Json) : Prop :=
  ∃ identity : ModuleIdentity, identity.hashKey = key ∧ event = .rememberModuleBuild identity cached.etag cached.record

variable (resolveStrategy moduleStrategy info trace state) in
/-- What is kept was remembered and is unaffected since; and so is what may be taken over, unless the changes affect
it. -/
structure WatchedCompiler.Trusts (cache : UnsafeWatchCache Json) : Prop where
  resolves : Holds
    (fun key record => record.snapshot.Remembered resolveStrategy info trace state (RemembersResolve key record))
    (fun key record => ∀ changes, state.changes = some changes → record.snapshot.isAffectedBy changes = false →
      record.snapshot.Remembered resolveStrategy info trace state (RemembersResolve key record))
    cache.resolves
  moduleBuilds : Holds
    (fun key cached =>
      cached.record.snapshot.Remembered moduleStrategy info trace state (RemembersModuleBuild key cached))
    (fun key cached => ∀ changes, state.changes = some changes →
      cached.record.snapshot.isAffectedBy changes = false →
        cached.record.snapshot.Remembered moduleStrategy info trace state (RemembersModuleBuild key cached))
    cache.moduleBuilds

theorem WatchedCompiler.trusts_empty : state.Trusts resolveStrategy moduleStrategy info trace {} :=
  ⟨.empty, .empty⟩

/-- In a step that begins no compilation the cache stays as good as it was. -/
theorem WatchedCompiler.Trusts.extend {cache : UnsafeWatchCache Json}
    (h : state.Trusts resolveStrategy moduleStrategy info trace cache) (hstep : WatchStep state event next)
    (hevent : ∀ changes, event ≠ .beginCompilation changes) (hchanges : next.changes = state.changes) :
    next.Trusts resolveStrategy moduleStrategy info (trace ++ [(state, event)]) cache := by
  constructor
  · refine h.resolves.imp (fun key record hrecord => hrecord.step hstep (Snapshot.unaffected_of_ne hevent)) ?_
    intro key record hrecord changes hsome hunaffected
    exact (hrecord changes (hchanges ▸ hsome) hunaffected).step hstep (Snapshot.unaffected_of_ne hevent)
  · refine h.moduleBuilds.imp (fun key cached hcached => hcached.step hstep (Snapshot.unaffected_of_ne hevent)) ?_
    intro key cached hcached changes hsome hunaffected
    exact (hcached changes (hchanges ▸ hsome) hunaffected).step hstep (Snapshot.unaffected_of_ne hevent)

theorem WatchedCompiler.Trusts.step (h : state.Trusts resolveStrategy moduleStrategy info trace state.cache)
    (hstep : WatchStep state event next) :
    next.Trusts resolveStrategy moduleStrategy info (trace ++ [(state, event)]) next.cache := by
  have hsame := hstep
  cases hstep with
  | edit hagree => exact h.extend hsame nofun rfl
  | beginCompilation changes hnames =>
      have hbegin : ∀ {snapshot : Snapshot} {named : WatchChangeSet}, changes = some named →
          snapshot.isAffectedBy named = false →
            snapshot.Unaffected [(state, WatchEvent.beginCompilation changes)] := by
        intro snapshot named hnamed hunaffected passed hpassed other heq
        obtain rfl := WatchEvent.beginCompilation.inj ((List.mem_singleton.mp hpassed).symm.trans heq)
        exact ⟨named, hnamed, hunaffected⟩
      constructor
      · refine h.resolves.beginTurn changes.isSome fun _ key record hrecord named hnamed hunaffected => ?_
        exact hrecord.step hsame (hbegin hnamed hunaffected)
      · refine h.moduleBuilds.beginTurn changes.isSome fun _ key cached hcached named hnamed hunaffected => ?_
        exact hcached.step hsame (hbegin hnamed hunaffected)
  | getResolve request hchanges =>
      have hextend := h.extend hsame nofun rfl
      exact ⟨hextend.resolves.take fun record hrecord hunaffected _ => hrecord _ hchanges hunaffected,
        hextend.moduleBuilds⟩
  | rememberResolve request record =>
      have hextend := h.extend hsame nofun rfl
      refine ⟨hextend.resolves.remember ?_, hextend.moduleBuilds⟩
      exact .now hsame ⟨request, rfl, rfl⟩ (Snapshot.unaffected_of_ne nofun)
  | getModuleBuild identity etag hchanges =>
      have hextend := h.extend hsame nofun rfl
      exact ⟨hextend.resolves,
        hextend.moduleBuilds.take fun cached hcached hunaffected _ => hcached _ hchanges hunaffected⟩
  | rememberModuleBuild identity etag record =>
      have hextend := h.extend hsame nofun rfl
      refine ⟨hextend.resolves, hextend.moduleBuilds.remember ?_⟩
      exact .now hsame ⟨identity, rfl, rfl⟩ (Snapshot.unaffected_of_ne nofun)

theorem WatchedCompiler.Trusts.run (h : Run WatchedCompiler.Fresh WatchStep trace state) :
    state.Trusts resolveStrategy moduleStrategy info trace state.cache := by
  induction h with
  | start hfresh => exact hfresh.1 ▸ trusts_empty
  | step _ hstep ih => exact ih.step hstep

/-- Entries that were current when the record was remembered are valid unless the watcher cannot tell. -/
theorem Snapshot.StaysTrusted.isValid_iff {before : WatchedCompiler Json}
    (h : snapshot.StaysTrusted strategy info before state)
    (hcurrent : ∀ entry ∈ snapshot.entries, entry.IsCurrent strategy info before) :
    snapshot.isValid (state.trees.toFileSystem info) strategy info state.trees.itemState = true ↔
      ∀ entry ∈ snapshot.entries,
        (∃ path, state.touched path ∧ entry.Reads path) ∨ entry.asksManaged info state.trees = true →
          entry.isValid (state.trees.toFileSystem info) strategy info state.trees.itemState = true := by
  rw [Snapshot.isValid, List.all_eq_true]
  refine ⟨fun hall entry hentry _ => hall entry hentry, fun hall entry hentry => ?_⟩
  rcases h entry hentry (hcurrent entry hentry) with (htouched | hvalid) | hmanaged
  · exact hall entry hentry (Or.inl htouched)
  · exact hvalid
  · exact hall entry hentry (Or.inr hmanaged)

/-- A record that is taken over was remembered under the same key, and no changes with which a compilation has begun
since affect it. If it was current then, it passes the check of its snapshot, unless something was touched since the
compilation began or a managed item has changed. -/
theorem reused_isValid_iff (h : Run WatchedCompiler.Fresh WatchStep trace state) {changes : WatchChangeSet}
    (hchanges : state.changes = some changes) :
    (∀ request record, (state.cache.getResolve request changes).1 = .reusable record →
      ∃ first before other last, trace = first ++ (before, .rememberResolve other record) :: last ∧
        other.hashKey = request.hashKey ∧ record.snapshot.Unaffected last ∧
          ((∀ entry ∈ record.snapshot.entries, entry.IsCurrent resolveStrategy info before) →
            (record.snapshot.isValid (state.trees.toFileSystem info) resolveStrategy info state.trees.itemState = true ↔
              ∀ entry ∈ record.snapshot.entries,
                (∃ path, state.touched path ∧ entry.Reads path) ∨ entry.asksManaged info state.trees = true →
                  entry.isValid (state.trees.toFileSystem info) resolveStrategy info state.trees.itemState = true))) ∧
      ∀ identity etag cached, (state.cache.getModuleBuild identity etag changes).1 = .reusable cached →
        ∃ first before other last, trace = first ++ (before, .rememberModuleBuild other etag cached.record) :: last ∧
          other.hashKey = identity.hashKey ∧ cached.record.snapshot.Unaffected last ∧
            ((∀ entry ∈ cached.record.snapshot.entries, entry.IsCurrent moduleStrategy info before) →
              (cached.record.snapshot.isValid (state.trees.toFileSystem info) moduleStrategy info
                  state.trees.itemState = true ↔
                ∀ entry ∈ cached.record.snapshot.entries,
                  (∃ path, state.touched path ∧ entry.Reads path) ∨ entry.asksManaged info state.trees = true →
                    entry.isValid (state.trees.toFileSystem info) moduleStrategy info
                      state.trees.itemState = true)) := by
  have htrusted : state.Trusts resolveStrategy moduleStrategy info trace state.cache := .run h
  constructor
  · intro request record hfound
    obtain ⟨hlookup, hunaffected, -⟩ := take_eq_reusable hfound
    obtain ⟨first, before, _, last, htrace, ⟨other, hkey, rfl⟩, hlast, hstays⟩ :=
      htrusted.resolves.previous _ _ hlookup changes hchanges hunaffected
    exact ⟨first, before, other, last, htrace, hkey, hlast, hstays.isValid_iff⟩
  · intro identity etag cached hfound
    obtain ⟨hlookup, hunaffected, hetag⟩ := take_eq_reusable hfound
    obtain ⟨first, before, _, last, htrace, ⟨other, hkey, rfl⟩, hlast, hstays⟩ :=
      htrusted.moduleBuilds.previous _ _ hlookup changes hchanges hunaffected
    rw [of_decide_eq_true hetag] at htrace
    exact ⟨first, before, other, last, htrace, hkey, hlast, hstays.isValid_iff⟩

def watchedRequest : ResolveRequest := ⟨emptyFilePath, "./a"⟩

theorem increasing_noPaths : KeyedList.Increasing PathBuf.key [] := List.Pairwise.nil

def watchedRecord : ResolveRecord where
  identity := ⟨.javaScriptAuto, emptyFilePath, none, none, none, []⟩
  resource := emptyFilePath
  fileDependencies := ⟨[], increasing_noPaths⟩
  contextDependencies := ⟨[], increasing_noPaths⟩
  missingDependencies := ⟨[], increasing_noPaths⟩
  snapshot := ⟨[.missingExistence emptyFilePath]⟩

/-- One record is remembered, and then the next compilation begins without changes. -/
def watchedStates : List (WatchedCompiler Unit × WatchEvent Unit) :=
  [(⟨emptyFiles, fun _ => False, none, {}⟩, .rememberResolve watchedRequest watchedRecord),
    (⟨emptyFiles, fun _ => False, none, UnsafeWatchCache.rememberResolve {} watchedRequest watchedRecord⟩,
      .beginCompilation (some ⟨[], [], []⟩))]

def rebuiltState : WatchedCompiler Unit :=
  ⟨emptyFiles, fun _ => False, some ⟨[], [], []⟩,
    (UnsafeWatchCache.rememberResolve {} watchedRequest watchedRecord).beginCompilation true⟩

theorem run_watchedStates : Run WatchedCompiler.Fresh WatchStep watchedStates rebuiltState := by
  have hstart : Run WatchedCompiler.Fresh WatchStep []
      (⟨emptyFiles, fun _ => False, none, {}⟩ : WatchedCompiler Unit) := .start ⟨rfl, rfl⟩
  refine (hstart.step (.rememberResolve watchedRequest watchedRecord)).step (.beginCompilation (some ⟨[], [], []⟩) ?_)
  intro named _ path htouched
  exact htouched.elim

theorem reused_isValid_iff_watchedRecord : ∃ first before other last,
    watchedStates = first ++ (before, .rememberResolve other watchedRecord) :: last ∧
      other.hashKey = watchedRequest.hashKey ∧ watchedRecord.snapshot.Unaffected last ∧
        ((∀ entry ∈ watchedRecord.snapshot.entries, entry.IsCurrent ⟨true, true⟩ emptyFileSystemInfo before) →
          (watchedRecord.snapshot.isValid (emptyFiles.toFileSystem emptyFileSystemInfo) ⟨true, true⟩
              emptyFileSystemInfo emptyFiles.itemState = true ↔
            ∀ entry ∈ watchedRecord.snapshot.entries,
              (∃ path, rebuiltState.touched path ∧ entry.Reads path) ∨
                  entry.asksManaged emptyFileSystemInfo emptyFiles = true →
                entry.isValid (emptyFiles.toFileSystem emptyFileSystemInfo) ⟨true, true⟩ emptyFileSystemInfo
                  emptyFiles.itemState = true)) :=
  (@reused_isValid_iff Unit ⟨true, true⟩ ⟨true, true⟩ emptyFileSystemInfo rebuiltState _ run_watchedStates _
    rfl).1 watchedRequest watchedRecord rfl

end Unpack.CacheItem
